import Mathlib.Data.String.Basic
import Tpf3Mp.Run.Basic

/-!
Byte patterns and the scan for them (`tpf3mp-hookcore`, `pattern.rs`). The scan goes from one
occurrence of the pattern's first fixed byte to the next and checks a whole window there. It finds
every place where the pattern matches, each once and in order.
-/

namespace Tpf3Mp.Hook
open List

abbrev Bytes := List UInt8

def isWhitespace (c : Char) : Bool :=
  let code := c.toNat
  (0x09 ≤ code && code ≤ 0x0d) || code = 0x20 || code = 0x85 || code = 0xa0 || code = 0x1680 ||
  (0x2000 ≤ code && code ≤ 0x200a) || code = 0x2028 || code = 0x2029 || code = 0x202f || code = 0x205f || code = 0x3000

def words (text : List Char) : List (List Char) := (text.splitOnP isWhitespace).filter (· ≠ [])

def splitWhitespace (text : String) : List String := (words text.toList).map String.ofList

def hexDigit (c : Char) : Option Nat :=
  if '0' ≤ c ∧ c ≤ '9' then some (c.toNat - '0'.toNat)
  else if 'a' ≤ c ∧ c ≤ 'f' then some (c.toNat - 'a'.toNat + 10)
  else if 'A' ≤ c ∧ c ≤ 'F' then some (c.toNat - 'A'.toNat + 10)
  else none

/-- `u8::from_str_radix(token, 16)` for a token of two bytes. A number may have a plus sign. -/
def hexByte (token : String) : Option UInt8 :=
  match token.toList with
  | ['+', low] => (hexDigit low).map UInt8.ofNat
  | [high, low] => do
    let high ← hexDigit high
    let low ← hexDigit low
    return UInt8.ofNat (16 * high + low)
  | _ => none

inductive Nibblet where
  | fixed (value : UInt8)
  | any
  deriving DecidableEq

namespace Nibblet

def isFixed : Nibblet → Bool
  | fixed _ => true
  | any => false

def accepts (nibblet : Nibblet) (byte : UInt8) : Bool :=
  match nibblet with
  | fixed value => value == byte
  | any => true

end Nibblet

/-- A pattern is anchored at its first fixed byte. -/
structure Pattern where
  bytes : List Nibblet
  anchor : Nat
  anchorByte : UInt8
  anchored : bytes[anchor]? = some (.fixed anchorByte)
  first : ∀ i < anchor, bytes[i]? = some .any
  deriving DecidableEq

inductive PatternError where
  | empty
  | allWildcards
  | badToken (token : String)
  deriving DecidableEq

inductive ScanError where
  | notFound
  | ambiguous (count : Nat)
  deriving DecidableEq

def nibbletOf (token : String) : Except PatternError Nibblet :=
  if token = "?" ∨ token = "??" then .ok .any
  else if token.utf8ByteSize = 2 then
    match hexByte token with
    | some value => .ok (.fixed value)
    | none => .error (.badToken token)
  else .error (.badToken token)

namespace Pattern

def anchorAt : (bytes : List Nibblet) → Option {p : Pattern // p.bytes = bytes}
  | [] => none
  | .fixed value :: rest =>
      some ⟨⟨.fixed value :: rest, 0, value, rfl, fun i none => absurd none (Nat.not_lt_zero i)⟩, rfl⟩
  | .any :: rest => (anchorAt rest).map fun ⟨p, same⟩ =>
    ⟨{ bytes := .any :: rest
       anchor := p.anchor + 1
       anchorByte := p.anchorByte
       anchored := by rw [getElem?_cons_succ, ← same]; exact p.anchored
       first := fun i before => by
        cases i with
        | zero => rfl
        | succ i =>
          rw [getElem?_cons_succ, ← same]
          exact p.first i (Nat.lt_of_succ_lt_succ before) }, rfl⟩

def parse (text : String) : Except PatternError Pattern := do
  let bytes ← (splitWhitespace text).mapM nibbletOf
  if bytes.isEmpty then throw .empty
  match anchorAt bytes with
  | some p => return p.1
  | none => throw .allWildcards

def len (p : Pattern) : Nat := p.bytes.length

def matchesAt (p : Pattern) (haystack : Bytes) (pos : Nat) : Bool :=
  if pos + p.bytes.length ≤ haystack.length then
    (p.bytes.zip ((haystack.drop pos).take p.bytes.length)).all fun (nibblet, byte) => nibblet.accepts byte
  else false

def memchr (needle : UInt8) (haystack : Bytes) : Option Nat := haystack.findIdx? (· == needle)

/-- The scan from `probe` on: `left` bounds how often it can go on. -/
def scan (p : Pattern) (haystack : Bytes) (lastProbe : Nat) : (left probe : Nat) → List Nat
  | 0, _ => []
  | left + 1, probe =>
    if probe ≤ lastProbe then
      match memchr p.anchorByte ((haystack.drop probe).take (lastProbe + 1 - probe)) with
      | some rel =>
        let found := probe + rel
        let start := found - p.anchor
        if p.matchesAt haystack start then start :: scan p haystack lastProbe left (found + 1)
        else scan p haystack lastProbe left (found + 1)
      | none => []
    else []

def findAll (p : Pattern) (haystack : Bytes) : List Nat :=
  if p.bytes.length > haystack.length then []
  else
    let lastStart := haystack.length - p.bytes.length
    p.scan haystack (lastStart + p.anchor) (lastStart + 1) p.anchor

def findUnique (p : Pattern) (haystack : Bytes) : Except ScanError Nat :=
  match p.findAll haystack with
  | [] => .error .notFound
  | [only] => .ok only
  | many => .error (.ambiguous many.length)

/-- The pattern's window at `pos` lies within the image, and every fixed byte is the image's there. -/
structure Matches (p : Pattern) (image : Bytes) (pos : Nat) : Prop where
  within : pos + p.len ≤ image.length
  equal : ∀ i value, p.bytes[i]? = some (.fixed value) → image[pos + i]? = some value

section Scan
variable {p : Pattern} {image : Bytes} {pos : Nat}

theorem window_getElem? {i : Nat} (inside : i < p.bytes.length) :
    ((image.drop pos).take p.bytes.length)[i]? = image[pos + i]? := by
  rw [getElem?_take_of_lt inside, getElem?_drop]

theorem matchesAt_iff : p.matchesAt image pos = true ↔ p.Matches image pos := by
  unfold matchesAt
  split
  · next within =>
    rw [all_eq_true]
    constructor
    · intro all
      refine ⟨within, ?_⟩
      intro i value fixed
      have inside := (List.getElem?_eq_some_iff.mp fixed).1
      obtain ⟨byte, here⟩ : ∃ byte, image[pos + i]? = some byte :=
        ⟨_, getElem?_eq_getElem (lt_of_lt_of_le (Nat.add_lt_add_left inside pos) within)⟩
      have pair : (Nibblet.fixed value, byte) ∈ p.bytes.zip ((image.drop pos).take p.bytes.length) := by
        refine mem_iff_getElem?.mpr ⟨i, getElem?_zip_eq_some.mpr ⟨fixed, ?_⟩⟩
        rw [window_getElem? inside]
        exact here
      have same : value = byte := eq_of_beq (all _ pair)
      rw [here, same]
    · rintro found ⟨nibblet, byte⟩ member
      obtain ⟨i, at_⟩ := mem_iff_getElem?.mp member
      obtain ⟨left, right⟩ := getElem?_zip_eq_some.mp at_
      have inside := (List.getElem?_eq_some_iff.mp left).1
      rw [window_getElem? inside] at right
      cases nibblet with
      | any => rfl
      | fixed value =>
        have same := (found.equal i value left).symm.trans right
        exact beq_iff_eq.mpr (Option.some.inj same)
  · next outside =>
    exact ⟨fun wrong => absurd wrong Bool.false_ne_true, fun found => absurd found.within outside⟩

theorem Matches.anchor (found : p.Matches image pos) : image[pos + p.anchor]? = some p.anchorByte :=
  found.equal p.anchor p.anchorByte p.anchored

theorem memchr_none {needle : UInt8} {bytes : Bytes} (missing : memchr needle bytes = none) {i : Nat} :
    bytes[i]? ≠ some needle := by
  intro here
  have other := findIdx?_eq_none_iff.mp missing needle (mem_of_getElem? here)
  rw [beq_self_eq_true] at other
  cases other

theorem memchr_some {needle : UInt8} {bytes : Bytes} {rel : Nat} (found : memchr needle bytes = some rel) :
    rel < bytes.length ∧ ∀ i < rel, bytes[i]? ≠ some needle := by
  obtain ⟨inside, _, before⟩ := findIdx?_eq_some_iff_getElem.mp found
  refine ⟨inside, ?_⟩
  intro i earlier here
  obtain ⟨bound, same⟩ := List.getElem?_eq_some_iff.mp here
  have other := before i earlier
  rw [same, beq_self_eq_true] at other
  exact other rfl

theorem not_matchesAt {lastProbe probe i : Nat} (reach : p.anchor ≤ probe) (within : probe + i ≤ lastProbe)
    (other : ((image.drop probe).take (lastProbe + 1 - probe))[i]? ≠ some p.anchorByte) :
    p.matchesAt image (probe - p.anchor + i) = false := by
  rw [Bool.eq_false_iff]
  intro found
  apply other
  have at_ : probe - p.anchor + i + p.anchor = probe + i := by omega
  have here := (matchesAt_iff.mp found).anchor
  rw [at_] at here
  rw [getElem?_take_of_lt (by omega), getElem?_drop]
  exact here

theorem filter_none {start count : Nat} (none : ∀ i < count, p.matchesAt image (start + i) = false) :
    (range' start count).filter (p.matchesAt image) = [] := by
  rw [filter_eq_nil_iff]
  intro pos member
  obtain ⟨i, inside, rfl⟩ := mem_range'.mp member
  rw [Nat.one_mul, none i inside]
  exact Bool.false_ne_true

theorem scan_eq {lastProbe left probe : Nat} (reach : p.anchor ≤ probe) (enough : lastProbe + 1 - probe ≤ left) :
    p.scan image lastProbe left probe =
      (range' (probe - p.anchor) (lastProbe + 1 - probe)).filter (p.matchesAt image) := by
  induction left generalizing probe with
  | zero =>
    have ending : lastProbe + 1 - probe = 0 := Nat.le_zero.mp enough
    rw [ending]
    rfl
  | succ left ih =>
    unfold scan
    split
    · next more =>
      split
      · next rel found =>
        obtain ⟨inside, before⟩ := memchr_some found
        have short := lt_of_lt_of_le inside (length_take_le _ _)
        -- The positions before the one found, the one found, and those after it.
        have split : lastProbe + 1 - probe = rel + (1 + (lastProbe + 1 - (probe + rel + 1))) := by omega
        have none : (range' (probe - p.anchor) rel).filter (p.matchesAt image) = [] := by
          apply filter_none
          intro i earlier
          exact not_matchesAt reach (by omega) (before i earlier)
        have here : probe - p.anchor + rel = probe + rel - p.anchor := by omega
        have after : probe + rel - p.anchor + 1 = probe + rel + 1 - p.anchor := by omega
        have rest : p.scan image lastProbe left (probe + rel + 1) = _ := ih (by omega) (by omega)
        rw [split, ← range'_append_1, filter_append, none, nil_append, here, Nat.add_comm 1,
          range'_succ, filter_cons, after, ← rest]
      · next missing =>
        symm
        apply filter_none
        intro i earlier
        exact not_matchesAt reach (by omega) (memchr_none missing)
    · next ending =>
      have none : lastProbe + 1 - probe = 0 := by omega
      rw [none]
      rfl

theorem findAll_eq (p : Pattern) (image : Bytes) :
    p.findAll image = (range (image.length + 1)).filter (p.matchesAt image) := by
  have outside : ∀ {pos : Nat}, image.length < pos + p.bytes.length → p.matchesAt image pos = false := by
    intro pos beyond
    unfold matchesAt
    rw [if_neg (not_le.mpr beyond)]
  unfold findAll
  rw [range_eq_range']
  split
  · next long =>
    symm
    apply filter_none
    intro i _
    exact outside (by omega)
  · next short =>
    let lastStart := image.length - p.bytes.length
    have starts : lastStart + p.anchor + 1 - p.anchor = lastStart + 1 := by omega
    have scanned : p.scan image (lastStart + p.anchor) (lastStart + 1) p.anchor = _ :=
      scan_eq (Nat.le_refl p.anchor) (le_of_eq starts)
    have none : (range' (0 + (lastStart + 1)) p.bytes.length).filter (p.matchesAt image) = [] := by
      apply filter_none
      intro i _
      exact outside (by dsimp only [lastStart]; omega)
    have split : image.length + 1 = lastStart + 1 + p.bytes.length := by dsimp only [lastStart]; omega
    rw [starts, Nat.sub_self] at scanned
    rw [split, ← range'_append_1, filter_append, none, append_nil]
    exact scanned

theorem mem_findAll : pos ∈ p.findAll image ↔ p.Matches image pos := by
  rw [findAll_eq, mem_filter, matchesAt_iff, mem_range]
  constructor
  · exact And.right
  · intro found
    have within := found.within
    exact ⟨by unfold len at within; omega, found⟩

theorem findAll_nodup (p : Pattern) (image : Bytes) : (p.findAll image).Nodup := by
  rw [findAll_eq]
  exact nodup_range.filter _

def MatchesOnly (p : Pattern) (image : Bytes) (pos : Nat) : Prop :=
  p.Matches image pos ∧ ∀ other, p.Matches image other → other = pos

theorem findUnique_ok : p.findUnique image = .ok pos ↔ p.MatchesOnly image pos := by
  have members : ∀ other, other ∈ p.findAll image ↔ p.Matches image other := fun _ => mem_findAll
  have distinct := p.findAll_nodup image
  unfold findUnique
  generalize p.findAll image = hits at members distinct
  match hits with
  | [] =>
    refine ⟨(nomatch ·), fun only => ?_⟩
    exact absurd ((members pos).mpr only.1) not_mem_nil
  | [hit] =>
    simp only [mem_singleton] at members
    constructor
    · intro found
      obtain rfl := Except.ok.inj found
      exact ⟨(members hit).mp rfl, fun other also => (members other).mpr also⟩
    · intro only
      rw [(members pos).mpr only.1]
  | first :: second :: rest =>
    refine ⟨(nomatch ·), fun only => ?_⟩
    have one := only.2 first ((members first).mp mem_cons_self)
    have two := only.2 second ((members second).mp (mem_cons_of_mem _ mem_cons_self))
    rw [one, two] at distinct
    exact absurd mem_cons_self (nodup_cons.mp distinct).1

theorem findUnique_notFound : p.findUnique image = .error .notFound ↔ ∀ pos, ¬ p.Matches image pos := by
  have members : ∀ other, other ∈ p.findAll image ↔ p.Matches image other := fun _ => mem_findAll
  unfold findUnique
  generalize p.findAll image = hits at members
  match hits with
  | [] => exact ⟨fun _ pos found => not_mem_nil ((members pos).mpr found), fun _ => rfl⟩
  | [hit] => exact ⟨(nomatch ·), fun none => absurd ((members hit).mp mem_cons_self) (none hit)⟩
  | first :: second :: rest =>
    refine ⟨fun wrong => ?_, fun none => absurd ((members first).mp mem_cons_self) (none first)⟩
    cases wrong

end Scan

end Pattern

def hexChar (digit : Nat) : Char := "0123456789ABCDEF".toList.getD digit '0'

/-- `{byte:02X}` -/
def hexUpper (byte : UInt8) : String := String.ofList [hexChar (byte.toNat / 16), hexChar (byte.toNat % 16)]

def Nibblet.shown : Nibblet → String
  | fixed value => hexUpper value
  | any => "??"

def Pattern.fmt (p : Pattern) : String := "Pattern(\"" ++ " ".intercalate (p.bytes.map Nibblet.shown) ++ "\")"

def Wildcard (token : String) : Prop := token = "?" ∨ token = "??"

def TwoDigits (token : String) : Prop :=
  ∃ high low, token.toList = [high, low] ∧ (hexDigit high).isSome = true ∧ (hexDigit low).isSome = true

/-- What the standard integer parser also takes for a byte. -/
def PlusDigit (token : String) : Prop := ∃ low, token.toList = ['+', low] ∧ (hexDigit low).isSome = true

section Language
variable {token text : String} {n : Nibblet}

theorem hexDigit_narrow {c : Char} (digit : (hexDigit c).isSome = true) : c.utf8Size = 1 := by
  have narrow : ∀ last : Char, last ≤ 'f' → c ≤ last → c.utf8Size = 1 := fun last bound below =>
    Char.utf8Size_eq_one_iff.mpr (Nat.le_trans (Char.le_trans below bound) (by decide))
  unfold hexDigit at digit
  split at digit
  · next decimal => exact narrow '9' (by decide) decimal.2
  split at digit
  · next lower => exact narrow 'f' (by decide) lower.2
  split at digit
  · next upper => exact narrow 'F' (by decide) upper.2
  · cases digit

theorem hexByte_some : token.utf8ByteSize = 2 ∧ (hexByte token).isSome = true ↔ TwoDigits token ∨ PlusDigit token := by
  have size : ∀ {high low}, token.toList = [high, low] → high.utf8Size = 1 → low.utf8Size = 1 →
      token.utf8ByteSize = 2 := by
    intro high low chars first second
    rw [← String.ofList_toList (s := token), chars, String.utf8ByteSize_ofList]
    simp [String.utf8Len, first, second]
  constructor
  · rintro ⟨_, read⟩
    unfold hexByte at read
    split at read
    · next low chars =>
      rw [Option.isSome_map] at read
      exact .inr ⟨low, chars, read⟩
    · next high low _ chars =>
      refine .inl ⟨high, low, chars, ?_⟩
      cases first : hexDigit high with
      | none => simp [first] at read
      | some value =>
        cases second : hexDigit low with
        | none => simp [first, second] at read
        | some value => exact ⟨rfl, rfl⟩
    · cases read
  · rintro (⟨high, low, chars, first, second⟩ | ⟨low, chars, digit⟩)
    · refine ⟨size chars (hexDigit_narrow first) (hexDigit_narrow second), ?_⟩
      obtain ⟨a, first⟩ := Option.isSome_iff_exists.mp first
      obtain ⟨b, second⟩ := Option.isSome_iff_exists.mp second
      unfold hexByte
      rw [chars]
      split
      · next same =>
        cases same
        cases first
      · next same =>
        cases same
        simp [first, second]
      · next other => exact absurd rfl (other high low)
    · refine ⟨size chars (by decide) (hexDigit_narrow digit), ?_⟩
      unfold hexByte
      rw [chars]
      simpa using digit

theorem nibbletOf_ok : (∃ n, nibbletOf token = .ok n) ↔ Wildcard token ∨ TwoDigits token ∨ PlusDigit token := by
  rw [← hexByte_some]
  unfold nibbletOf
  split
  · next wild => exact iff_of_true ⟨_, rfl⟩ (.inl wild)
  rename_i tame
  rw [or_iff_right (show ¬ Wildcard token from tame)]
  split
  · next size =>
    cases read : hexByte token <;> simp [size]
  · next size => simp [size]

theorem nibbletOf_fixed (read : nibbletOf token = .ok n) : n.isFixed = true ↔ ¬ Wildcard token := by
  unfold nibbletOf at read
  split at read
  · next wild =>
    cases read
    exact iff_of_false (by decide) (not_not_intro wild)
  rename_i tame
  split at read
  · split at read
    · cases read
      exact iff_of_true rfl tame
    · cases read
  · cases read

theorem nibbletOf_shown (n : Nibblet) : nibbletOf n.shown = .ok n := by
  cases n with
  | any => rfl
  | fixed value =>
    have all : ∀ value < 256, nibbletOf (Nibblet.fixed (UInt8.ofNat value)).shown = .ok
      (.fixed (UInt8.ofNat value)) := by
      decide +kernel
    have here := all value.toNat value.toNat_lt
    rw [UInt8.ofNat_toNat] at here
    exact here

theorem shown_plain (n : Nibblet) : n.shown.toList ≠ [] ∧ ∀ c ∈ n.shown.toList, isWhitespace c = false := by
  cases n with
  | any => simp [Nibblet.shown, isWhitespace]
  | fixed value =>
    have plain : ∀ digit < 16, isWhitespace (hexChar digit) = false := by decide +kernel
    have small := value.toNat_lt
    rw [Nibblet.shown, hexUpper, String.toList_ofList]
    refine ⟨cons_ne_nil _ _, ?_⟩
    intro c member
    simp only [mem_cons, not_mem_nil, or_false] at member
    rcases member with rfl | rfl <;> exact plain _ (by omega)

/-- Words with a blank between them are split into the same words. -/
theorem split_joined {words : List (List Char)}
    (plain : ∀ word ∈ words, word ≠ [] ∧ ∀ c ∈ word, isWhitespace c = false) :
    Hook.words ([' '].intercalate words) = words := by
  induction words with
  | nil => rfl
  | cons first rest ih =>
    obtain ⟨some, here⟩ := plain first mem_cons_self
    cases rest with
    | nil =>
      rw [intercalate_singleton, Hook.words, splitOnP_eq_singleton here]
      simp [some]
    | cons second rest =>
      have later := ih fun word member => plain word (mem_cons_of_mem _ member)
      rw [intercalate_cons_cons, append_assoc, singleton_append, Hook.words,
        splitOnP_append_cons_of_forall_mem here _ (by decide), filter_cons_of_pos (by simpa using some)]
      exact congrArg (first :: ·) later

theorem splitWhitespace_shown (bytes : List Nibblet) :
    splitWhitespace (" ".intercalate (bytes.map Nibblet.shown)) = bytes.map Nibblet.shown := by
  have words : ∀ word ∈ (bytes.map Nibblet.shown).map String.toList, word ≠ [] ∧ ∀ c ∈ word,
    isWhitespace c = false := by
    intro word member
    rw [map_map] at member
    obtain ⟨n, _, rfl⟩ := mem_map.mp member
    exact shown_plain n
  unfold splitWhitespace
  rw [String.toList_intercalate, show " ".toList = [' '] from rfl, split_joined words, map_map]
  exact map_id'' (fun s => String.ofList_toList) _

namespace Pattern
variable {p : Pattern} {bytes : List Nibblet}

theorem anchorAt_some : (anchorAt bytes).isSome = true ↔ ∃ n ∈ bytes, n.isFixed = true := by
  induction bytes with
  | nil => simp [anchorAt]
  | cons first rest ih =>
    cases first with
    | fixed value => simp [anchorAt, Nibblet.isFixed]
    | any => simp [anchorAt, Nibblet.isFixed, ih]

theorem parse_ok : parse text = .ok p ↔ ∃ bytes same, (splitWhitespace text).mapM nibbletOf = .ok bytes ∧
    anchorAt bytes = some ⟨p, same⟩ := by
  unfold parse
  rw [Run.bind_ok]
  refine exists_congr fun bytes => ?_
  rw [exists_and_left, and_congr_right_iff]
  intro _
  cases bytes with
  | nil => exact ⟨(nomatch ·), nofun⟩
  | cons first rest =>
    cases anchorAt (first :: rest) with
    | none => exact ⟨(nomatch ·), nofun⟩
    | some found =>
      obtain ⟨q, same⟩ := found
      constructor
      · rintro ⟨⟩
        exact ⟨same, rfl⟩
      · rintro ⟨_, ⟨⟩⟩
        rfl

theorem fixed_among {tokens : List String} (read : Forall₂ (fun token n => nibbletOf token = .ok n) tokens bytes) :
    (∃ n ∈ bytes, n.isFixed = true) ↔ ∃ token ∈ tokens, ¬ Wildcard token := by
  induction read with
  | nil => simp
  | cons here _ ih => simp [nibbletOf_fixed here, ih]

theorem parse_accepts : (∃ p, parse text = .ok p) ↔
    (∀ token ∈ splitWhitespace text, Wildcard token ∨ TwoDigits token ∨ PlusDigit token) ∧
      ∃ token ∈ splitWhitespace text, ¬ Wildcard token := by
  simp only [← nibbletOf_ok, ← Run.mapM_total]
  constructor
  · rintro ⟨p, parsed⟩
    obtain ⟨bytes, same, read, anchored⟩ := parse_ok.mp parsed
    exact ⟨⟨bytes, read⟩, (fixed_among (Run.mapM_ok.mp read)).mp (anchorAt_some.mp (by rw [anchored]; rfl))⟩
  rintro ⟨⟨bytes, read⟩, tame⟩
  have anchored := anchorAt_some.mpr ((fixed_among (Run.mapM_ok.mp read)).mpr tame)
  obtain ⟨⟨p, same⟩, found⟩ := Option.isSome_iff_exists.mp anchored
  exact ⟨p, parse_ok.mpr ⟨bytes, same, read, found⟩⟩

theorem parse_shown (parsed : parse text = .ok p) : parse (" ".intercalate (p.bytes.map Nibblet.shown)) = .ok p := by
  obtain ⟨bytes, rfl, _, anchored⟩ := parse_ok.mp parsed
  refine parse_ok.mpr ⟨p.bytes, rfl, ?_, anchored⟩
  rw [splitWhitespace_shown, Run.mapM_ok, forall₂_map_left_iff, forall₂_same]
  exact fun n _ => nibbletOf_shown n

end Pattern

end Language

end Tpf3Mp.Hook
