import Mathlib.Algebra.Group.Int.Defs
import Tpf3Mp.Hook.Pattern

/-!
Profiles and their resolution (`tpf3mp-hookcore`, `profile.rs`). A profile's targets are located in a
module image by their patterns and checked against the bytes expected there. Resolution succeeds when
every target is verified, but for the optional ones that are nowhere in the image.
-/

namespace Tpf3Mp.Hook
open List

inductive HexError where
  | badToken (token : String)
  | empty
  deriving DecidableEq

def hexByteOf (token : String) : Except HexError UInt8 :=
  if token.utf8ByteSize ≠ 2 then .error (.badToken token)
  else
    match hexByte token with
    | some value => .ok value
    | none => .error (.badToken token)

def parseHexBytes (text : String) : Except HexError Bytes := do
  let bytes ← (splitWhitespace text).mapM hexByteOf
  if bytes.isEmpty then throw .empty
  return bytes

section Language
variable {token text : String}

theorem hexByteOf_ok : (∃ value, hexByteOf token = .ok value) ↔ TwoDigits token ∨ PlusDigit token := by
  rw [← hexByte_some]
  unfold hexByteOf
  split
  · next size => exact iff_of_false nofun fun both => size both.1
  · next size =>
    rw [not_not] at size
    cases read : hexByte token <;> simp [size]

theorem parseHexBytes_accepts : (∃ bytes, parseHexBytes text = .ok bytes) ↔
    splitWhitespace text ≠ [] ∧ ∀ token ∈ splitWhitespace text, TwoDigits token ∨ PlusDigit token := by
  simp only [← hexByteOf_ok, ← Run.mapM_total]
  constructor
  · rintro ⟨_, parsed⟩
    obtain ⟨bytes, read, parsed⟩ := Run.bind_ok.mp parsed
    refine ⟨fun blank => ?_, bytes, read⟩
    rw [blank] at read
    cases read
    cases parsed
  · rintro ⟨some, bytes, read⟩
    refine ⟨bytes, Run.bind_ok.mpr ⟨bytes, read, ?_⟩⟩
    cases bytes with
    | nil => exact absurd (length_eq_zero_iff.mp (Run.mapM_ok.mp read).length_eq) some
    | cons first rest => rfl

theorem PlusDigit.strange (plus : PlusDigit token) : ¬ Wildcard token ∧ ¬ TwoDigits token := by
  obtain ⟨low, chars, _⟩ := plus
  constructor
  · rintro (rfl | rfl) <;> simp at chars
  · rintro ⟨high, low, same, digit, _⟩
    cases chars.symm.trans same
    cases digit

/-- A text is read as a pattern, or as bytes, exactly if it is written as one, unless there is a plus sign
before a digit and nothing else wrong; and what is shown of a pattern is read as the same pattern. -/
theorem parse_exact (text : String) :
    ((((∃ p, Pattern.parse text = .ok p) ↔ splitWhitespace text ≠ [] ∧
        (∀ token ∈ splitWhitespace text, Wildcard token ∨ TwoDigits token) ∧
        ∃ token ∈ splitWhitespace text, ¬ Wildcard token) ∧
      ((∃ bytes, parseHexBytes text = .ok bytes) ↔ splitWhitespace text ≠ [] ∧
        ∀ token ∈ splitWhitespace text, TwoDigits token)) ↔
      (∀ token ∈ splitWhitespace text, ¬ PlusDigit token) ∨
        ∃ token ∈ splitWhitespace text, ¬ (Wildcard token ∨ TwoDigits token ∨ PlusDigit token)) ∧
    ∀ p, Pattern.parse text = .ok p → ∃ shown, p.fmt = "Pattern(\"" ++ shown ++ "\")" ∧
      Pattern.parse shown = .ok p := by
  refine ⟨?_, fun p parsed => ⟨_, rfl, Pattern.parse_shown parsed⟩⟩
  rw [Pattern.parse_accepts, parseHexBytes_accepts]
  constructor
  · rintro ⟨exact, _⟩
    by_contra neither
    rw [not_or] at neither
    simp only [not_forall, not_exists, not_and, not_not] at neither
    obtain ⟨⟨token, among, plus⟩, formed⟩ := neither
    obtain ⟨_, all, _⟩ := exact.mp ⟨formed, token, among, plus.strange.1⟩
    exact (all token among).elim plus.strange.1 plus.strange.2
  · rintro (unsigned | ⟨token, among, strange⟩)
    · constructor
      · constructor
        · rintro ⟨all, token, among, tame⟩
          refine ⟨ne_nil_of_mem among, fun token among => ?_, token, among, tame⟩
          exact (all token among).imp_right fun digits => digits.resolve_right (unsigned token among)
        · rintro ⟨_, all, tame⟩
          exact ⟨fun token among => (all token among).imp_right .inl, tame⟩
      · refine and_congr_right fun _ => forall₂_congr fun token among => ?_
        exact or_iff_left (unsigned token among)
    · constructor
      · refine iff_of_false (fun read => strange (read.1 token among)) fun written => ?_
        exact strange ((written.2.1 token among).imp_right .inl)
      · refine iff_of_false (fun read => strange (.inr (read.2 token among))) fun written => ?_
        exact strange (.inr (.inl (written.2 token among)))

theorem parse_exact_call : splitWhitespace "E8 ??" = ["E8", "??"] ∧ ∃ p, Pattern.parse "E8 ??" = .ok p := by
  have words : splitWhitespace "E8 ??" = ["E8", "??"] := by decide +kernel
  have digits : TwoDigits "E8" := ⟨'E', '8', by decide⟩
  refine ⟨words, ((parse_exact "E8 ??").1.mpr (.inl ?_)).1.mpr ?_⟩
  · rw [words]
    rintro token among ⟨low, chars, _⟩
    simp only [mem_cons, not_mem_nil, or_false] at among
    rcases among with rfl | rfl <;> simp at chars
  · rw [words]
    refine ⟨cons_ne_nil _ _, ?_, "E8", mem_cons_self, by unfold Wildcard; decide⟩
    intro token among
    simp only [mem_cons, not_mem_nil, or_false] at among
    rcases among with rfl | rfl
    · exact .inr digits
    · exact .inl (.inr rfl)

theorem plus_accepted : splitWhitespace "+A" = ["+A"] ∧ ¬ Wildcard "+A" ∧ ¬ TwoDigits "+A" ∧
    (Pattern.parse "+A").map Pattern.bytes = .ok [.fixed 0x0a] ∧ parseHexBytes "+A" = .ok [0x0a] := by
  have plus : PlusDigit "+A" := ⟨'A', by decide⟩
  exact ⟨by decide +kernel, plus.strange.1, plus.strange.2, by decide +kernel, by decide +kernel⟩

end Language

structure TargetSpec where
  name : String
  signature : String
  pattern : Pattern
  offset : Int64
  prologue : Bytes
  required : Bool
  deriving DecidableEq

structure Profile where
  name : String
  targets : List TargetSpec
  deriving DecidableEq

structure ResolvedTarget where
  name : String
  address : UInt64
  imageIndex : Nat
  required : Bool
  deriving DecidableEq

structure ResolvedProfile where
  name : String
  targets : List ResolvedTarget
  absentOptional : List String
  deriving DecidableEq

inductive Refusal where
  | missing (target : String)
  | ambiguous (target : String) (count : Nat)
  | outOfBounds (target : String)
  | prologueMismatch (target : String) (imageIndex : Nat) (expected found : String)
  deriving DecidableEq

def hexSpaced (bytes : Bytes) : String := " ".intercalate (bytes.map hexUpper)

/-- A slice of bytes, which is never longer than `isize::MAX`. -/
abbrev Image := {bytes : Bytes // bytes.length < 2 ^ 63}

/-- `i64::try_from(match_index)`, `checked_add(offset)` and `usize::try_from` one after another. -/
def imageIndexOf (matchIndex : Nat) (offset : Int64) : Option Nat :=
  if matchIndex < 2 ^ 63 then
    let index := matchIndex + offset.toInt
    if index < 2 ^ 63 then if 0 ≤ index then some index.toNat else none
    else none
  else none

/-- `image.get(start..end)`, where `end` may not be a `usize`. -/
def sliceOf (image : Bytes) (start length : Nat) : Option Bytes :=
  if start + length < 2 ^ 64 then
    if start + length ≤ image.length then some ((image.drop start).take length) else none
  else none

def resolveTarget (image : Bytes) (regionBase : UInt64) (spec : TargetSpec) : Except Refusal (Option ResolvedTarget) :=
  match spec.pattern.findUnique image with
  | .error .notFound => if spec.required then .error (.missing spec.name) else .ok none
  | .error (.ambiguous count) => .error (.ambiguous spec.name count)
  | .ok matchIndex =>
    match imageIndexOf matchIndex spec.offset with
    | none => .error (.outOfBounds spec.name)
    | some imageIndex =>
      match sliceOf image imageIndex spec.prologue.length with
      | none => .error (.outOfBounds spec.name)
      | some found =>
        if found ≠ spec.prologue then
          .error (.prologueMismatch spec.name imageIndex (hexSpaced spec.prologue) (hexSpaced found))
        else .ok (some {
          name := spec.name
          address := regionBase + UInt64.ofNat imageIndex
          imageIndex
          required := spec.required })

def resolveNext (image : Bytes) (regionBase : UInt64) (found : List ResolvedTarget × List String) (spec : TargetSpec) :
    Except Refusal (List ResolvedTarget × List String) := do
  match ← resolveTarget image regionBase spec with
  | some target => return (found.1 ++ [target], found.2)
  | none => return (found.1, found.2 ++ [spec.name])

def resolve (profile : Profile) (image : Image) (regionBase : UInt64) : Except Refusal ResolvedProfile := do
  let (targets, absentOptional) ← profile.targets.foldlM (resolveNext image.1 regionBase) ([], [])
  return { name := profile.name, targets, absentOptional }

/-- The target's pattern matches at `pos` alone, and the bytes expected at the target are the image's. -/
structure TargetSpec.VerifiedAt (spec : TargetSpec) (image : Bytes) (pos : Nat) : Prop where
  only : spec.pattern.MatchesOnly image pos
  start : 0 ≤ pos + spec.offset.toInt
  within : pos + spec.offset.toInt + spec.prologue.length ≤ image.length
  prologue : (image.drop (pos + spec.offset.toInt).toNat).take spec.prologue.length = spec.prologue

def TargetSpec.Verified (spec : TargetSpec) (image : Bytes) : Prop := ∃ pos, spec.VerifiedAt image pos

structure TargetSpec.Absent (spec : TargetSpec) (image : Bytes) : Prop where
  optional : spec.required = false
  nowhere : ∀ pos, ¬ spec.pattern.Matches image pos

/-- What a verified target resolves to. -/
structure ResolvesTo (image : Bytes) (regionBase : UInt64) (spec : TargetSpec) (target : ResolvedTarget) (pos : Nat) :
    Prop where
  verified : spec.VerifiedAt image pos
  name : target.name = spec.name
  required : target.required = spec.required
  index : target.imageIndex = pos + spec.offset.toInt
  address : target.address.toNat = regionBase.toNat + pos + spec.offset.toInt

theorem TargetSpec.Absent.not_verified {spec : TargetSpec} {image : Bytes} (absent : spec.Absent image) :
    ¬ spec.Verified image :=
  fun ⟨pos, verified⟩ => absent.nowhere pos verified.only.1

theorem imageIndexOf_some {pos index : Nat} {offset : Int64} (small : pos < 2 ^ 63) :
    imageIndexOf pos offset = some index ↔ (index : Int) = pos + offset.toInt ∧ index < 2 ^ 63 := by
  unfold imageIndexOf
  rw [if_pos small]
  dsimp only
  split
  · split
    · rw [Option.some.injEq]
      omega
    · simp only [reduceCtorEq, false_iff]
      omega
  · simp only [reduceCtorEq, false_iff]
    omega

theorem sliceOf_some {image found : Bytes} {start length : Nat} (short : image.length < 2 ^ 63) :
    sliceOf image start length = some found ↔
      start + length ≤ image.length ∧ (image.drop start).take length = found := by
  unfold sliceOf
  by_cases within : start + length ≤ image.length
  · rw [if_pos (by omega), if_pos within, Option.some.injEq]
    exact ⟨fun same => ⟨within, same⟩, And.right⟩
  · rw [if_neg within, ite_self]
    exact ⟨(nomatch ·), fun found => absurd found.1 within⟩

section Resolve
variable {image : Bytes} {regionBase : UInt64} {spec : TargetSpec}

theorem address_toNat {index : Nat} (room : regionBase.toNat + image.length < 2 ^ 64) (within : index ≤ image.length) :
    (regionBase + UInt64.ofNat index).toNat = regionBase.toNat + index := by
  rw [UInt64.toNat_add, UInt64.toNat_ofNat', Nat.mod_eq_of_lt (by omega : index < 2 ^ 64)]
  exact Nat.mod_eq_of_lt (by omega)

theorem resolveTarget_none : resolveTarget image regionBase spec = .ok none ↔ spec.Absent image := by
  unfold resolveTarget
  split
  · next missing =>
    have nowhere := Pattern.findUnique_notFound.mp missing
    cases optional : spec.required with
    | true =>
      exact ⟨(nomatch ·), fun absent => absurd (optional.symm.trans absent.optional) (by decide)⟩
    | false =>
      exact ⟨fun _ => ⟨optional, nowhere⟩, fun _ => rfl⟩
  · next ambiguous =>
    refine ⟨(nomatch ·), fun absent => ?_⟩
    rw [Pattern.findUnique_notFound.mpr absent.nowhere] at ambiguous
    cases ambiguous
  · next pos found =>
    have only := Pattern.findUnique_ok.mp found
    refine ⟨fun resolved => ?_, fun absent => absurd only.1 (absent.nowhere pos)⟩
    split at resolved
    · cases resolved
    · split at resolved
      · cases resolved
      · split at resolved <;> cases resolved

theorem resolveTarget_path {target : ResolvedTarget} :
    resolveTarget image regionBase spec = .ok (some target) ↔ ∃ pos index, spec.pattern.findUnique image = .ok pos ∧
      imageIndexOf pos spec.offset = some index ∧ sliceOf image index spec.prologue.length = some spec.prologue ∧
      target = ⟨spec.name, regionBase + UInt64.ofNat index, index, spec.required⟩ := by
  constructor
  · intro resolved
    unfold resolveTarget at resolved
    split at resolved
    · split at resolved <;> cases resolved
    · cases resolved
    rename_i pos found
    split at resolved
    · cases resolved
    rename_i index placed
    split at resolved
    · cases resolved
    rename_i bytes slice
    split at resolved
    · cases resolved
    · next same =>
      cases resolved
      exact ⟨pos, index, found, placed, slice.trans (congrArg some (not_not.mp same)), rfl⟩
  · rintro ⟨pos, index, found, placed, slice, rfl⟩
    unfold resolveTarget
    rw [found]
    dsimp only
    rw [placed]
    dsimp only
    rw [slice]
    exact if_neg fun other => other rfl

theorem resolveTarget_some {target : ResolvedTarget} (short : image.length < 2 ^ 63)
    (room : regionBase.toNat + image.length < 2 ^ 64) :
    resolveTarget image regionBase spec = .ok (some target) ↔ ∃ pos, ResolvesTo image regionBase spec target pos := by
  rw [resolveTarget_path]
  constructor
  · rintro ⟨pos, index, found, placed, slice, rfl⟩
    have only := Pattern.findUnique_ok.mp found
    have inside := only.1.within
    obtain ⟨place, _⟩ := (imageIndexOf_some (by omega)).mp placed
    obtain ⟨within, prologue⟩ := (sliceOf_some short).mp slice
    have start : (pos + spec.offset.toInt).toNat = index := by omega
    have address := address_toNat room (Nat.le_of_add_right_le within)
    exact ⟨pos, ⟨only, by omega, by omega, by rw [start]; exact prologue⟩, rfl, rfl, place, by dsimp only; omega⟩
  · rintro ⟨pos, ⟨⟨only, start, within, prologue⟩, name, required, place, address⟩⟩
    obtain ⟨called, at_, index, needed⟩ := target
    dsimp only at name required place address
    have inside := only.1.within
    have here : (pos + spec.offset.toInt).toNat = index := by omega
    rw [here] at prologue
    have same : at_ = regionBase + UInt64.ofNat index := by
      apply UInt64.toNat_inj.mp
      rw [address_toNat room (by omega)]
      omega
    refine ⟨pos, index, Pattern.findUnique_ok.mpr only, (imageIndexOf_some (by omega)).mpr ⟨place, by omega⟩,
      (sliceOf_some short).mpr ⟨by omega, prologue⟩, ?_⟩
    rw [name, required, same]

open scoped Classical in
theorem resolveNext_run {specs : List TargetSpec} {found result : List ResolvedTarget × List String}
    (short : image.length < 2 ^ 63) (room : regionBase.toNat + image.length < 2 ^ 64)
    (run : specs.foldlM (resolveNext image regionBase) found = .ok result) :
    (∀ spec ∈ specs, spec.Verified image ∨ spec.Absent image) ∧
    ∃ targets, result = (found.1 ++ targets,
      found.2 ++ (specs.filter fun spec => ¬ spec.Verified image).map TargetSpec.name) ∧
      Forall₂ (fun spec target => ∃ pos, ResolvesTo image regionBase spec target pos)
        (specs.filter fun spec => spec.Verified image) targets := by
  induction specs generalizing found with
  | nil =>
    cases run
    exact ⟨fun _ none => absurd none not_mem_nil, [], by simp, .nil⟩
  | cons spec specs ih =>
    obtain ⟨middle, step, rest⟩ := Run.bind_ok.mp run
    obtain ⟨outcome, resolved, step⟩ := Run.bind_ok.mp step
    obtain ⟨each, targets, rfl, pairs⟩ := ih rest
    cases outcome with
    | none =>
      cases step
      have absent := resolveTarget_none.mp resolved
      have other := absent.not_verified
      refine ⟨?_, targets, ?_, ?_⟩
      · simpa using ⟨.inr absent, each⟩
      · simp [other]
      · simpa [other] using pairs
    | some target =>
      cases step
      obtain ⟨pos, lands⟩ := (resolveTarget_some short room).mp resolved
      have verified : spec.Verified image := ⟨pos, lands.verified⟩
      refine ⟨?_, target :: targets, ?_, ?_⟩
      · simpa using ⟨.inl verified, each⟩
      · simp [verified]
      · simpa [verified] using ⟨⟨pos, lands⟩, pairs⟩

theorem resolveNext_total {specs : List TargetSpec} {found : List ResolvedTarget × List String}
    (short : image.length < 2 ^ 63) (room : regionBase.toNat + image.length < 2 ^ 64)
    (each : ∀ spec ∈ specs, spec.Verified image ∨ spec.Absent image) :
    ∃ result, specs.foldlM (resolveNext image regionBase) found = .ok result := by
  induction specs generalizing found with
  | nil => exact ⟨found, rfl⟩
  | cons spec specs ih =>
    obtain ⟨outcome, resolved⟩ : ∃ outcome, resolveTarget image regionBase spec = .ok outcome := by
      rcases each spec mem_cons_self with ⟨pos, verified⟩ | absent
      · have start := verified.start
        have within := verified.within
        let index := (pos + spec.offset.toInt).toNat
        refine ⟨some ⟨spec.name, regionBase + UInt64.ofNat index, index, spec.required⟩,
          (resolveTarget_some short room).mpr ⟨pos, verified, rfl, rfl, ?_, ?_⟩⟩
        · dsimp only [index]
          omega
        rw [address_toNat room (by dsimp only [index]; omega)]
        omega
      · exact ⟨none, resolveTarget_none.mpr absent⟩
    have later := fun spec member => each spec (mem_cons_of_mem _ member)
    rw [foldlM_cons]
    unfold resolveNext
    rw [resolved]
    cases outcome with
    | none => exact ih later
    | some target => exact ih later

end Resolve

open scoped Classical in
/-- Resolution succeeds exactly when every target is verified or is optional and nowhere in the image,
and then resolves exactly the verified ones. -/
theorem resolve_exact (profile : Profile) (image : Image) (regionBase : UInt64)
    (room : regionBase.toNat + image.1.length < 2 ^ 64) :
    ((∃ resolved, resolve profile image regionBase = .ok resolved) ↔
      ∀ spec ∈ profile.targets, spec.Verified image.1 ∨ spec.Absent image.1) ∧
    ∀ resolved, resolve profile image regionBase = .ok resolved →
      resolved.name = profile.name ∧
      Forall₂ (fun spec target => ∃ pos, ResolvesTo image.1 regionBase spec target pos)
        (profile.targets.filter fun spec => spec.Verified image.1) resolved.targets ∧
      resolved.absentOptional = (profile.targets.filter fun spec => ¬ spec.Verified image.1).map TargetSpec.name := by
  refine ⟨⟨?_, ?_⟩, ?_⟩
  · rintro ⟨resolved, ok⟩
    obtain ⟨found, run, _⟩ := Run.bind_ok.mp ok
    exact (resolveNext_run image.2 room run).1
  · intro each
    obtain ⟨found, run⟩ := resolveNext_total image.2 room each
    unfold resolve
    rw [run]
    exact ⟨_, rfl⟩
  · intro resolved ok
    obtain ⟨found, run, same⟩ := Run.bind_ok.mp ok
    obtain ⟨_, targets, rfl, pairs⟩ := resolveNext_run image.2 room run
    cases same
    exact ⟨rfl, pairs, rfl⟩

def sampleProfile : Profile where
  name := "sample"
  targets :=
    [{ name := "alpha", signature := "40 53", pattern := ⟨[.fixed 0x40, .fixed 0x53], 0, 0x40, rfl, by decide⟩,
       offset := 0, prologue := [0x40, 0x53], required := true },
     { name := "beta", signature := "?? E8", pattern := ⟨[.any, .fixed 0xe8], 1, 0xe8, rfl, by decide⟩,
       offset := 2, prologue := [0x11, 0x22], required := false },
     { name := "gamma", signature := "CC CC", pattern := ⟨[.fixed 0xcc, .fixed 0xcc], 0, 0xcc, rfl, by decide⟩,
       offset := -4, prologue := [0xcc], required := false }]

def sampleImage : Image := ⟨[0x90, 0x40, 0x53, 0xe8, 0x11, 0x22, 0x33], by decide⟩

theorem resolve_exact_sample : resolve sampleProfile sampleImage 0x1000 =
      .ok ⟨"sample", [⟨"alpha", 0x1001, 1, true⟩, ⟨"beta", 0x1004, 4, false⟩], ["gamma"]⟩ ∧
    ∀ spec ∈ sampleProfile.targets, spec.Verified sampleImage.1 ∨ spec.Absent sampleImage.1 := by
  have resolved : resolve sampleProfile sampleImage 0x1000 =
      .ok ⟨"sample", [⟨"alpha", 0x1001, 1, true⟩, ⟨"beta", 0x1004, 4, false⟩], ["gamma"]⟩ := by decide +kernel
  exact ⟨resolved, (resolve_exact sampleProfile sampleImage 0x1000 (by decide)).1.mp ⟨_, resolved⟩⟩

end Tpf3Mp.Hook
