import Mathlib.Data.List.TakeWhile
import Tpf3Mp.Hook.Pattern
import Tpf3Mp.Proto.Turn

/-!
The launcher's reading of an invite as players pass it on (`launcher/mod.rs`, `ids.rs`): with the server's
address before it, among the words of the message it came in.
-/

namespace Tpf3Mp.Launcher
open Codec Proto List
open Hook (isWhitespace words)

def trimMatches (drop : Char → Bool) (text : List Char) :
    List Char := ((text.dropWhile drop).reverse.dropWhile drop).reverse

def rsplitOnce (separator : Char) (text : List Char) : Option (List Char × List Char) :=
  match text.reverse.dropWhile (· ≠ separator) with
  | [] => none
  | _ :: before => some (before.reverse, (text.reverse.takeWhile (· ≠ separator)).reverse)

/-- `parse` of an unsigned integer below `bound`. A number may have a plus sign. -/
def parseUnsigned (bound : Nat) (text : List Char) : Option Nat :=
  let digits : List Char := match text with
    | '+' :: digits => digits
    | digits => digits
  let value := digits.foldl (fun value digit => 10 * value + (digit.toNat - '0'.toNat)) 0
  if digits ≠ [] ∧ digits.all Char.isDigit = true ∧ value < bound then some value else none

inductive InviteError where
  | notAnInvite
  | malformed
  deriving DecidableEq

def isQuoting (c : Char) : Bool := "\"'`<>(),;*".toList.contains c

/-- What is assumed of base64url: decoding inverts encoding, and no text is decoded that has a blank, a
quoting character or a colon in it. -/
structure Base64url where
  encode : Bytes → List Char
  decode : List Char → Except InviteError Bytes
  inverts (bytes : Bytes) : decode (encode bytes) = .ok bytes
  plain {text : List Char} {bytes : Bytes} (decoded : decode text = .ok bytes) :
    ∀ c ∈ text, isWhitespace c = false ∧ isQuoting c = false ∧ c ≠ ':'

structure Invite where
  room : RoomId
  token : FixedBytes 32
  deriving DecidableEq

namespace Invite

def start : List Char := "TPF3MP1.".toList

def shown (base64 : Base64url) (invite : Invite) : List Char := start ++ base64.encode (invite.room.1 ++ invite.token.1)

def parse (base64 : Base64url) (text : List Char) : Except InviteError Invite :=
  let text := trimMatches isWhitespace text
  if start.isPrefixOf text then do
    let bytes ← base64.decode (text.drop start.length)
    if whole : bytes.length = 16 + 32 then
      return { room := ⟨bytes.take 16, by simp [whole]⟩, token := ⟨bytes.drop 16, by simp [whole]⟩ }
    else throw .malformed
  else throw .notAnInvite

end Invite

structure Passed where
  server : Option (List Char)
  invite : Invite
  deriving DecidableEq

def namesAServer (token : List Char) : Bool :=
  (rsplitOnce ':' token).any fun (host, port) =>
    (parseUnsigned (2 ^ 16) port).any (0 < ·) && host.any fun c => c = '.' || c = '[' || c.isAlpha

def tokensOf (text : List Char) : List (List Char) := (words text).map (trimMatches isQuoting)

def passedInvite (base64 : Base64url) (text : List Char) : Option Passed := do
  let tokens := tokensOf text
  let (index, invite) ← tokens.zipIdx.findSome? fun (token, index) =>
    (Invite.parse base64 token).toOption.map (index, ·)
  return { server := (tokens.take index).reverse.find? namesAServer, invite }

/-- What "Copy invite" gives: friends need the server too. -/
def copied (base64 : Base64url) (server : List Char) (invite : Invite) : List Char :=
  server ++ ' ' :: invite.shown base64

theorem trimMatches_self {drop : Char → Bool} {text : List Char} (starts : ∀ c ∈ text.head?, drop c = false)
    (ends : ∀ c ∈ text.getLast?, drop c = false) : trimMatches drop text = text := by
  have kept {text : List Char} (starts : ∀ c ∈ text.head?, drop c = false) : text.dropWhile drop = text := by
    cases text with
    | nil => rfl
    | cons c rest => exact dropWhile_cons_of_neg (Bool.eq_false_iff.mp (starts c rfl))
  rw [trimMatches, kept starts, kept, reverse_reverse]
  rwa [head?_reverse]

variable {base64 : Base64url}

theorem shown_plain (invite : Invite) : ∀ c ∈ invite.shown base64, isWhitespace c = false ∧ isQuoting c = false := by
  have start : Invite.start.all (fun c => !isWhitespace c && !isQuoting c) = true := by decide +kernel
  intro c among
  rcases mem_append.mp among with first | later
  · simpa using all_eq_true.mp start c first
  · obtain ⟨blank, quoting, _⟩ := base64.plain (base64.inverts _) c later
    exact ⟨blank, quoting⟩

theorem trim_solid {drop : Char → Bool} {text : List Char} (solid : ∀ c ∈ text, drop c = false) :
    trimMatches drop text = text :=
  trimMatches_self (fun c first => solid c (mem_of_mem_head? first)) fun c last => solid c (mem_of_getLast? last)

theorem parse_shown (invite : Invite) : Invite.parse base64 (invite.shown base64) = .ok invite := by
  have bytes : (invite.room.1 ++ invite.token.1).length = 16 + 32 := by
    rw [length_append, invite.room.2, invite.token.2]
  unfold Invite.parse
  rw [trim_solid fun c among => (shown_plain invite c among).1]
  dsimp only [Invite.shown]
  rw [if_pos ( isPrefixOf_iff_prefix.mpr (prefix_append ..)), drop_left, base64.inverts]
  obtain ⟨⟨room, whole⟩, token⟩ := invite
  exact (dif_pos bytes).trans (by simp [← whole, pure, Except.pure])

theorem mem_of_rsplitOnce {separator : Char} {text : List Char} {parts : List Char × List Char}
    (split : rsplitOnce separator text = some parts) : separator ∈ text := by
  by_contra absent
  have none : text.reverse.dropWhile (· ≠ separator) = [] := by
    refine dropWhile_eq_nil_iff.mpr fun c among => decide_eq_true ?_
    rintro rfl
    exact absent (mem_reverse.mp among)
  unfold rsplitOnce at split
  rw [none] at split
  cases split

theorem parse_colon {token : List Char} (solid : ∀ c ∈ token, isWhitespace c = false) (colon : ':' ∈ token) :
    (Invite.parse base64 token).toOption = none := by
  unfold Invite.parse
  rw [trim_solid solid]
  dsimp only
  split
  · next starts =>
    obtain ⟨rest, rfl⟩ := isPrefixOf_iff_prefix.mp starts
    rw [drop_left]
    cases decoded : base64.decode rest with
    | error error => rfl
    | ok bytes =>
      rcases mem_append.mp colon with first | later
      · exact absurd first (by decide +kernel)
      · exact absurd rfl (base64.plain decoded _ later).2.2
  · rfl

theorem findSome?_first {β : Type} {read : List Char → Option β} {tokens : List (List Char)}
    {token : List Char} {result : β}
    (others : List (List Char)) (before : ∀ token ∈ tokens, read token = none) (here : read token = some result)
    (start : Nat) :
    ((tokens ++ token :: others).zipIdx start).findSome? (fun (token, index) => (read token).map (index, ·)) =
      some (start + tokens.length, result) := by
  induction tokens generalizing start with
  | nil => simp [here]
  | cons first tokens ih =>
    obtain ⟨missed, before⟩ := forall_mem_cons.mp before
    rw [cons_append, zipIdx_cons, findSome?_cons]
    simp only [missed, Option.map_none, ih before, length_cons]
    congr 2
    omega

section Passing
variable {server host port : List Char} {number : Nat} (invite : Invite)
  (solid : ∀ c ∈ server, isWhitespace c = false) (starts : ∀ c ∈ server.head?, isQuoting c = false)
  (ends : ∀ c ∈ server.getLast?, isQuoting c = false) (split : rsplitOnce ':' server = some (host, port))
include solid split

theorem words_copied : words (copied base64 server invite) = [server, invite.shown base64] := by
  have joined : copied base64 server invite = [' '].intercalate [server, invite.shown base64] := by
    rw [intercalate_cons_cons, intercalate_singleton, append_assoc, singleton_append, copied]
  rw [joined]
  apply Hook.split_joined
  intro word among
  rcases mem_pair.mp among with rfl | rfl
  · exact ⟨ne_nil_of_mem (mem_of_rsplitOnce split), solid⟩
  · exact ⟨append_ne_nil_of_left_ne_nil (by decide) _, fun c among => (shown_plain invite c among).1⟩

variable {text : List Char} {before after : List (List Char)}
  (spoken : words text = before ++ words (copied base64 server invite) ++ after)
  (others : ∀ word ∈ before, (Invite.parse base64 (trimMatches isQuoting word)).toOption = none)
include starts ends spoken others

theorem passedInvite_found : passedInvite base64 text =
    some ⟨(server :: (before.map (trimMatches isQuoting)).reverse).find? namesAServer, invite⟩ := by
  have tokens : tokensOf text =
      (before.map (trimMatches isQuoting) ++ [server]) ++ invite.shown base64 :: after.map (trimMatches isQuoting) := by
    rw [tokensOf, spoken, words_copied invite solid split, map_append, map_append, map_cons, map_singleton,
      trimMatches_self starts ends, trim_solid fun c among => (shown_plain invite c among).2]
    simp
  have missed : ∀ token ∈ before.map (trimMatches isQuoting) ++ [server],
      (Invite.parse base64 token).toOption = none := by
    intro token among
    rcases mem_append.mp among with other | here
    · obtain ⟨word, listed, rfl⟩ := mem_map.mp other
      exact others word listed
    · rw [mem_singleton.mp here]
      exact parse_colon solid (mem_of_rsplitOnce split)
  have first := findSome?_first (after.map (trimMatches isQuoting)) missed
    (congrArg Except.toOption (parse_shown invite)) 0
  unfold passedInvite
  dsimp only
  rw [tokens, first, Nat.zero_add]
  simp only [Option.bind_eq_bind, Option.bind_some, take_left]
  rw [reverse_append]
  rfl

/-- A copied invite is read back with its server, alone or between other words of which none before it is an
invite, exactly if there is a point, a bracket or a letter in the host. -/
theorem passedInvite_copied (reads : parseUnsigned (2 ^ 16) port = some number) (real : 0 < number) :
    passedInvite base64 text = some ⟨some server, invite⟩ ↔ ∃ c ∈ host, c = '.' ∨ c = '[' ∨ c.isAlpha = true := by
  have names : namesAServer server = true ↔ ∃ c ∈ host, c = '.' ∨ c = '[' ∨ c.isAlpha = true := by
    simp only [namesAServer, split, reads, Option.any_some]
    simp [real, or_assoc]
  rw [← names, passedInvite_found invite solid starts ends split spoken others]
  constructor
  · intro read
    simp only [Option.some.injEq, Passed.mk.injEq, and_true] at read
    exact find?_some read
  · intro known
    rw [find?_cons_of_pos known]

end Passing

/-- A stand-in with a character for each byte. -/
def plainBase64 : Base64url where
  encode bytes := bytes.map fun byte => Char.ofNat (256 + byte.toNat)
  decode text :=
    if text.all fun c => 256 ≤ c.toNat && c.toNat < 512 then .ok (text.map fun c => UInt8.ofNat c.toNat)
    else .error .malformed
  inverts bytes := by
    have each : ∀ value < 256, 256 ≤ (Char.ofNat (256 + value)).toNat ∧ (Char.ofNat (256 + value)).toNat < 512 ∧
        UInt8.ofNat (Char.ofNat (256 + value)).toNat = UInt8.ofNat value := by decide +kernel
    have known (byte : UInt8) := each byte.toNat byte.toNat_lt
    rw [if_pos (by simpa using fun byte _ => ⟨(known byte).1, (known byte).2.1⟩), map_map]
    refine congrArg Except.ok (map_id'' (fun byte => ?_) bytes)
    exact (known byte).2.2.trans UInt8.ofNat_toNat
  plain := by
    intro text bytes decoded c among
    have each : ∀ code < 512, 256 ≤ code → isWhitespace (Char.ofNat code) = false ∧
        isQuoting (Char.ofNat code) = false ∧ Char.ofNat code ≠ ':' := by decide +kernel
    split at decoded
    · next all =>
      have here := all_eq_true.mp all c among
      rw [Bool.and_eq_true, decide_eq_true_eq, decide_eq_true_eq] at here
      simpa using each c.toNat here.2 here.1
    · cases decoded

def plainInvite : Invite := ⟨.fill 16 0, .fill 32 0⟩

theorem passedInvite_copied_named : passedInvite plainBase64 (copied plainBase64 ['a', ':', '1'] plainInvite) =
    some ⟨some ['a', ':', '1'], plainInvite⟩ := by
  have read := @passedInvite_copied plainBase64 ['a', ':', '1'] ['a'] ['1'] 1 plainInvite (by simp [isWhitespace])
    (by simp [isQuoting]) (by simp [isQuoting]) (by decide) (copied plainBase64 ['a', ':', '1'] plainInvite) [] []
    (by simp) (forall_mem_nil _) (by decide) (by decide)
  exact read.mpr ⟨'a', by decide⟩

/-- An address of digits and colons alone is taken for a time of day. -/
theorem passedInvite_loses_server : rsplitOnce ':' "::1:29470".toList = some ("::1".toList, "29470".toList) ∧
    ∀ base64, passedInvite base64 (copied base64 "::1:29470".toList plainInvite) = some ⟨none, plainInvite⟩ := by
  have split : rsplitOnce ':' "::1:29470".toList = some ("::1".toList, "29470".toList) := by decide
  refine ⟨split, fun base64 => ?_⟩
  have solid : "::1:29470".toList.all (fun c => !isWhitespace c) = true := by decide +kernel
  have unnamed : ¬ namesAServer "::1:29470".toList = true := by decide +kernel
  have found := @passedInvite_found base64 _ _ _ plainInvite
    (fun c among => by simpa using all_eq_true.mp solid c among)
    (by simp [isQuoting]) (by simp [isQuoting]) split (copied base64 "::1:29470".toList plainInvite) [] [] (by simp)
    (forall_mem_nil _)
  rw [found, find?_cons_of_neg unnamed]
  rfl

end Tpf3Mp.Launcher
