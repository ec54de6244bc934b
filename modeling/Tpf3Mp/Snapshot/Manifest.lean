import Tpf3Mp.Proto.Turn
import Tpf3Mp.Run.Basic
import Mathlib.Algebra.Order.BigOperators.Group.List
import Mathlib.Algebra.Order.Floor.Div
import Mathlib.Data.List.Chain
import Mathlib.Logic.Function.Basic

/-!
Snapshot manifests (`tpf3mp-snapshot`, `params.rs` and `manifest.rs`). A manifest has one encoding, and
its hash names it; one read from a peer is refused unless its chunks tile the file and its bytes are that
encoding.
-/

namespace Tpf3Mp.Snapshot
open Codec Proto Run List

def minChunkFloor : UInt32 := 16 * 1024

def maxChunkLen : UInt32 := 4 * 1024 * 1024

def maxFileSize : UInt64 := 4 * 1024 * 1024 * 1024

def maxChunks : Nat := maxFileSize.toNat / minChunkFloor.toNat

inductive ParamsError where
  | notPowersOfTwo (min avg max : UInt32)
  | notIncreasing (min avg max : UInt32)
  | minTooSmall (min : UInt32)
  | maxTooLarge (max : UInt32)
  deriving DecidableEq

/-- Chunk sizes that every manifest may state. -/
structure ChunkParams where
  min : UInt32
  avg : UInt32
  max : UInt32
  powers : min.toNat.isPowerOfTwo ∧ avg.toNat.isPowerOfTwo ∧ max.toNat.isPowerOfTwo
  increasing : min < avg ∧ avg < max
  floor : minChunkFloor ≤ min
  ceiling : max ≤ maxChunkLen
  deriving DecidableEq

namespace ChunkParams

def new (min avg max : UInt32) : Except ParamsError ChunkParams :=
  if powers : min.toNat.isPowerOfTwo ∧ avg.toNat.isPowerOfTwo ∧ max.toNat.isPowerOfTwo then
    if increasing : min < avg ∧ avg < max then
      if floor : minChunkFloor ≤ min then
        if ceiling : max ≤ maxChunkLen then .ok { min, avg, max, powers, increasing, floor, ceiling }
        else .error (.maxTooLarge max)
      else .error (.minTooSmall min)
    else .error (.notIncreasing min avg max)
  else .error (.notPowersOfTwo min avg max)

def maxChunks (params : ChunkParams) (len : UInt64) : Nat := len.toNat ⌈/⌉ params.min.toNat

theorem new_self (params : ChunkParams) : new params.min params.avg params.max = .ok params := by
  unfold new
  rw [dif_pos params.powers, dif_pos params.increasing, dif_pos params.floor, dif_pos params.ceiling]

theorem min_pos (params : ChunkParams) : 0 < params.min.toNat :=
  lt_of_lt_of_le (by decide) (UInt32.le_iff_toNat_le.mp params.floor)

theorem maxChunks_le (params : ChunkParams) {len : UInt64} (small : len ≤ maxFileSize) :
    params.maxChunks len ≤ Snapshot.maxChunks := by
  have size := UInt64.le_iff_toNat_le.mp small
  have floor := UInt32.le_iff_toNat_le.mp params.floor
  have whole : maxFileSize.toNat = minChunkFloor.toNat * Snapshot.maxChunks := by decide
  unfold maxChunks
  rw [ceilDiv_le_iff_le_mul params.min_pos]
  calc
    len.toNat ≤ minChunkFloor.toNat * Snapshot.maxChunks := size.trans_eq whole
    _ ≤ params.min.toNat * Snapshot.maxChunks := Nat.mul_le_mul_right _ floor

def default : ChunkParams where
  min := 32 * 1024
  avg := 128 * 1024
  max := 512 * 1024
  powers := by decide
  increasing := by decide
  floor := by decide
  ceiling := by decide

end ChunkParams

structure Digest (δ : Type) where
  hash : Bytes → δ
  format : Format δ

def Digest.fixed (blake3 : Bytes → FixedBytes 32) : Digest (FixedBytes 32) where
  hash := blake3
  format := Proto.Wire.fixedBytes 32

theorem Digest.fixed_fits (blake3 : Bytes → FixedBytes 32) (id : FixedBytes 32) :
    (Digest.fixed blake3).format.Fits id :=
  fun _ _ => trivial

structure ChunkEntry (δ : Type) where
  id : δ
  offset : UInt64
  len : UInt32
  deriving DecidableEq

structure Wire (δ : Type) where
  params : ChunkParams
  totalSize : UInt64
  fileHash : δ
  chunks : List (ChunkEntry δ)
  deriving DecidableEq

inductive ManifestField where
  | magic
  | version
  | params
  | totalSize
  | fileHash
  | chunkCount
  | chunk (index : Nat)
  deriving DecidableEq

inductive ManifestError (δ : Type) where
  | tooLarge (len max : Nat)
  | badMagic
  | unsupportedVersion (found : UInt8)
  | truncated (field : ManifestField)
  | malformed (field : ManifestField)
  | trailingBytes (count : Nat)
  | nonCanonical
  | params (error : ParamsError)
  | fileTooLarge (size : UInt64)
  | tooManyChunks (count max : Nat)
  | nonContiguous (index : Nat) (expected found : UInt64)
  | emptyChunk (index : Nat)
  | chunkTooShort (index : Nat) (len min : UInt32)
  | chunkTooLong (index : Nat) (len max : UInt32)
  | pastEnd (index : Nat) (ending total : UInt64)
  | sizeMismatch (covered total : UInt64)
  | inconsistentDuplicate (index : Nat) (id : δ)
  deriving DecidableEq

variable {δ : Type}

/-- The chunks cover a file of `totalSize` bytes one after another. -/
structure Tiles (params : ChunkParams) (totalSize : UInt64) (chunks : List (ChunkEntry δ)) : Prop where
  starts : ∀ first ∈ chunks.head?, first.offset = 0
  continues : chunks.IsChain fun entry next => next.offset.toNat = entry.offset.toNat + entry.len.toNat
  nonempty : ∀ entry ∈ chunks, entry.len ≠ 0
  short : ∀ entry ∈ chunks, entry.len ≤ params.max
  long : ∀ entry ∈ chunks.dropLast, params.min ≤ entry.len
  covers : (chunks.map fun entry => entry.len.toNat).sum = totalSize.toNat
  repeated : ∀ entry ∈ chunks, ∀ other ∈ chunks, entry.id = other.id → entry.len = other.len

def covered (chunks : List (ChunkEntry δ)) : Nat := (chunks.map fun entry => entry.len.toNat).sum

@[simp] theorem covered_nil : covered ([] : List (ChunkEntry δ)) = 0 := rfl

@[simp] theorem covered_cons (entry : ChunkEntry δ) (chunks : List (ChunkEntry δ)) :
    covered (entry :: chunks) = entry.len.toNat + covered chunks :=
  sum_cons

@[simp] theorem covered_append (before after : List (ChunkEntry δ)) :
    covered (before ++ after) = covered before + covered after := by
  unfold covered
  rw [map_append, sum_append]

theorem chain_iff (start : Nat) (chunks : List (ChunkEntry δ)) :
    ((∀ first ∈ chunks.head?, first.offset.toNat = start) ∧
      chunks.IsChain fun entry next => next.offset.toNat = entry.offset.toNat + entry.len.toNat) ↔
    ∀ before entry after, chunks = before ++ entry :: after → entry.offset.toNat = start + covered before := by
  induction chunks generalizing start with
  | nil => simp
  | cons head rest ih =>
    constructor
    · rintro ⟨first, chain⟩ before entry after split
      have here : head.offset.toNat = start := first head rfl
      rw [isChain_cons] at chain
      have later := (ih (start + head.len.toNat)).mp ⟨by rw [← here]; exact chain.1, chain.2⟩
      cases before with
      | nil =>
        cases split
        exact here
      | cons first before =>
        cases split
        rw [later before entry after rfl, covered_cons, Nat.add_assoc]
    · intro all
      have here : head.offset.toNat = start := all [] head rest rfl
      have later := (ih (start + head.len.toNat)).mpr fun before entry after split => by
        rw [all (head :: before) entry after (congrArg _ split), covered_cons, Nat.add_assoc]
      refine ⟨by rintro first ⟨⟩; exact here, isChain_cons.mpr ⟨?_, later.2⟩⟩
      rw [here]
      exact later.1

theorem mem_dropLast_iff {α : Type} {a : α} {list : List α} :
    a ∈ list.dropLast ↔ ∃ before after, list = before ++ a :: after ∧ after ≠ [] := by
  constructor
  · intro member
    obtain ⟨before, after, split⟩ := append_of_mem member
    have nonempty : list ≠ [] := by
      rintro rfl
      cases member
    refine ⟨before, after ++ [list.getLast nonempty], ?_, by simp⟩
    rw [← cons_append, ← append_assoc, ← split, dropLast_append_getLast]
  · rintro ⟨before, after, rfl, nonempty⟩
    rw [dropLast_append_of_ne_nil (by simp), dropLast_cons_of_ne_nil nonempty]
    simp

structure Follows (params : ChunkParams) (totalSize : UInt64) (count : Nat) (before : List (ChunkEntry δ))
    (entry : ChunkEntry δ) : Prop where
  offset : entry.offset.toNat = covered before
  nonempty : entry.len ≠ 0
  short : entry.len ≤ params.max
  long : before.length + 1 = count ∨ params.min ≤ entry.len
  inside : covered before + entry.len.toNat ≤ totalSize.toNat
  repeated : ∀ earlier ∈ before, earlier.id = entry.id → earlier.len = entry.len

variable {chunks : List (ChunkEntry δ)} {params : ChunkParams} {totalSize : UInt64} {entry : ChunkEntry δ}

theorem tiles_iff : Tiles params totalSize chunks ↔
      (∀ before entry after, chunks = before ++ entry :: after → Follows params totalSize chunks.length before entry) ∧
        covered chunks = totalSize.toNat := by
  constructor
  · intro tiles
    refine ⟨fun before entry after split => ?_, tiles.covers⟩
    have among : entry ∈ chunks := by simp [split]
    have offsets := (chain_iff 0 chunks).mp
      ⟨fun first head => by rw [tiles.starts first head]; rfl, tiles.continues⟩ before entry after split
    have whole : covered before + (entry.len.toNat + covered after) = totalSize.toNat := by
      rw [← tiles.covers, ← covered_cons, ← covered_append, ← split]
      rfl
    refine
      { offset := by rw [offsets, Nat.zero_add]
        nonempty := tiles.nonempty entry among
        short := tiles.short entry among
        long := ?_
        inside := by omega
        repeated := fun earlier early same => tiles.repeated earlier (by simp [split, early]) entry among same }
    by_cases last : after = []
    · left
      rw [split, last, length_append]
      rfl
    · right
      exact tiles.long entry (mem_dropLast_iff.mpr ⟨before, after, split, last⟩)
  · rintro ⟨follows, covers⟩
    obtain ⟨starts, continues⟩ := (chain_iff 0 chunks).mpr fun before entry after split => by
      rw [(follows before entry after split).offset, Nat.zero_add]
    have each {entry : ChunkEntry δ} (among : entry ∈ chunks) :
        ∃ before after, chunks = before ++ entry :: after ∧ Follows params totalSize chunks.length before entry := by
      obtain ⟨before, after, split⟩ := append_of_mem among
      exact ⟨before, after, split, follows before entry after split⟩
    refine
      { starts := fun first head => UInt64.toNat_inj.mp (starts first head)
        continues := continues
        nonempty := fun entry among => ?_
        short := fun entry among => ?_
        long := fun entry among => ?_
        covers := covers
        repeated := fun entry among other present same => ?_ }
    · obtain ⟨_, _, _, follow⟩ := each among
      exact follow.nonempty
    · obtain ⟨_, _, _, follow⟩ := each among
      exact follow.short
    · obtain ⟨before, after, split, later⟩ := mem_dropLast_iff.mp among
      rcases (follows before entry after split).long with last | long
      · rw [split, length_append, length_cons] at last
        exact absurd (length_eq_zero_iff.mp (by omega)) later
      · exact long
    · obtain ⟨before, after, split, follow⟩ := each present
      rw [split, mem_append, mem_cons] at among
      rcases among with early | rfl | late
      · exact follow.repeated entry early same
      · rfl
      -- The other way round: the entry comes after the one it repeats.
      obtain ⟨middle, rest, split'⟩ := append_of_mem late
      have whole : chunks = (before ++ other :: middle) ++ entry :: rest := by simp [split, split']
      exact ((follows _ entry rest whole).repeated other (by simp) same.symm).symm

theorem Tiles.count (tiles : Tiles params totalSize chunks) : chunks.length ≤ params.maxChunks totalSize := by
  have positive := params.min_pos
  unfold ChunkParams.maxChunks
  rw [Nat.ceilDiv_eq_add_pred_div, Nat.le_div_iff_mul_le positive]
  rcases eq_nil_or_concat chunks with rfl | ⟨before, last, split⟩
  · simp
  rw [concat_eq_append] at split
  have each : ∀ len ∈ before.map fun entry => entry.len.toNat, params.min.toNat ≤ len := by
    intro len member
    obtain ⟨entry, among, rfl⟩ := mem_map.mp member
    exact UInt32.le_iff_toNat_le.mp (tiles.long entry (by simpa [split] using among))
  have most := card_nsmul_le_sum _ _ each
  rw [length_map, smul_eq_mul] at most
  have nonempty : last.len.toNat ≠ 0 := fun empty =>
    tiles.nonempty last (by simp [split]) (UInt32.toNat_inj.mp empty)
  have whole : covered before + last.len.toNat = totalSize.toNat := by
    rw [← tiles.covers, split]
    exact (covered_append before [last]).symm
  unfold covered at whole
  rw [split, length_append, length_singleton, Nat.succ_mul]
  omega

variable [DecidableEq δ]

/-- The layout rules, with what the entries checked so far leave to be known of them. -/
structure Rules (δ : Type) where
  params : ChunkParams
  totalSize : UInt64
  count : Nat
  nextOffset : UInt64
  lengths : δ → Option UInt32

namespace Rules

def new (params : ChunkParams) (totalSize : UInt64) (count : Nat) : Rules δ where
  params := params
  totalSize := totalSize
  count := count
  nextOffset := 0
  lengths _ := none

def advance (rules : Rules δ) (entry : ChunkEntry δ) : Rules δ :=
  { rules with
    nextOffset := entry.offset + entry.len.toUInt64
    lengths := Function.update rules.lengths entry.id (some entry.len) }

def check (rules : Rules δ) (index : Nat) (entry : ChunkEntry δ) : Except (ManifestError δ) (Rules δ) := do
  ensure (entry.offset = rules.nextOffset) (.nonContiguous index rules.nextOffset entry.offset)
  ensure (entry.len ≠ 0) (.emptyChunk index)
  ensure (entry.len ≤ rules.params.max) (.chunkTooLong index entry.len rules.params.max)
  ensure (index + 1 = rules.count ∨ rules.params.min ≤ entry.len)
    (.chunkTooShort index entry.len rules.params.min)
  let ending := entry.offset + entry.len.toUInt64
  ensure (ending ≤ rules.totalSize) (.pastEnd index ending rules.totalSize)
  ensure ((rules.lengths entry.id).all (· = entry.len)) (.inconsistentDuplicate index entry.id)
  return rules.advance entry

def finish (rules : Rules δ) : Except (ManifestError δ) Unit :=
  ensure (rules.nextOffset = rules.totalSize) (.sizeMismatch rules.nextOffset rules.totalSize)

def checkFrom (rules : Rules δ) (index : Nat) : List (ChunkEntry δ) → Except (ManifestError δ) (Rules δ)
  | [] => .ok rules
  | entry :: chunks => do
    let rules ← rules.check index entry
    rules.checkFrom (index + 1) chunks

end Rules

def check (params : ChunkParams) (totalSize : UInt64) (chunks : List (ChunkEntry δ)) :
    Except (ManifestError δ) Unit := do
  ensure (totalSize ≤ maxFileSize) (.fileTooLarge totalSize)
  ensure (chunks.length ≤ params.maxChunks totalSize) (.tooManyChunks chunks.length (params.maxChunks totalSize))
  let rules ← (Rules.new params totalSize chunks.length).checkFrom 0 chunks
  rules.finish

structure Rules.Knows (rules : Rules δ) (before : List (ChunkEntry δ)) : Prop where
  small : rules.totalSize ≤ maxFileSize
  offset : rules.nextOffset.toNat = covered before
  inside : covered before ≤ rules.totalSize.toNat
  lengths : ∀ id len, rules.lengths id = some len ↔ ∃ entry ∈ before, entry.id = id ∧ entry.len = len

namespace Rules.Knows

variable {rules rules' : Rules δ} {before chunks : List (ChunkEntry δ)} {entry : ChunkEntry δ}

section
omit [DecidableEq δ]

theorem new {params : ChunkParams} {totalSize : UInt64} (small : totalSize ≤ maxFileSize) (count : Nat) :
    (Rules.new params totalSize count : Rules δ).Knows [] where
  small := small
  offset := rfl
  inside := Nat.zero_le _
  lengths id len := by simp [Rules.new]

theorem ending (knows : rules.Knows before) (here : entry.offset.toNat = covered before) :
    (entry.offset + entry.len.toUInt64).toNat = covered before + entry.len.toNat := by
  have small := UInt64.le_iff_toNat_le.mp knows.small
  have most : maxFileSize.toNat = 2 ^ 32 := rfl
  have inside := knows.inside
  have len := entry.len.toNat_lt
  rw [UInt64.toNat_add, UInt32.toNat_toUInt64, here]
  exact Nat.mod_eq_of_lt (by omega)

theorem repeated_iff (knows : rules.Knows before) : ((rules.lengths entry.id).all (· = entry.len)) = true ↔
      ∀ earlier ∈ before, earlier.id = entry.id → earlier.len = entry.len := by
  simp only [Option.all_eq_true, decide_eq_true_eq]
  constructor
  · intro all earlier early same
    exact all _ ((knows.lengths entry.id earlier.len).mpr ⟨earlier, early, same, rfl⟩)
  · intro all previous known
    obtain ⟨earlier, early, same, rfl⟩ := (knows.lengths entry.id previous).mp known
    exact all earlier early same

end

section
variable (knows : rules.Knows before)
include knows

theorem check_iff : rules.check before.length entry = .ok rules' ↔
      Follows rules.params rules.totalSize rules.count before entry ∧ rules.advance entry = rules' := by
  have offset : entry.offset = rules.nextOffset ↔ entry.offset.toNat = covered before := by
    rw [← knows.offset, UInt64.toNat_inj]
  unfold Rules.check
  simp only [bind_ok, ensure_ok, pure, Except.pure, Except.ok.injEq, exists_const]
  constructor
  · rintro ⟨here, nonempty, short, long, inside, known, next⟩
    have starts := offset.mp here
    refine ⟨⟨starts, nonempty, short, long, ?_, knows.repeated_iff.mp known⟩, next⟩
    rw [← knows.ending starts]
    exact UInt64.le_iff_toNat_le.mp inside
  · rintro ⟨follows, next⟩
    refine ⟨offset.mpr follows.offset, follows.nonempty, follows.short, follows.long, ?_,
      knows.repeated_iff.mpr follows.repeated, next⟩
    rw [UInt64.le_iff_toNat_le, knows.ending follows.offset]
    exact follows.inside

theorem advance (follows : Follows rules.params rules.totalSize rules.count before entry) :
    (rules.advance entry).Knows (before ++ [entry]) where
  small := knows.small
  offset := by rw [covered_append]; exact knows.ending follows.offset
  inside := by rw [covered_append]; exact follows.inside
  lengths id len := by
    have repeated := follows.repeated
    unfold Rules.advance
    by_cases same : id = entry.id
    · subst same
      simp only [Function.update_self, Option.some.injEq, mem_append, mem_singleton]
      constructor
      · rintro rfl
        exact ⟨entry, .inr rfl, rfl, rfl⟩
      · rintro ⟨other, early | rfl, same, rfl⟩
        · exact (repeated other early same).symm
        · rfl
    · simp only [Function.update_of_ne same, mem_append, mem_singleton]
      rw [knows.lengths]
      constructor
      · rintro ⟨other, early, found⟩
        exact ⟨other, .inl early, found⟩
      · rintro ⟨other, early | rfl, found⟩
        · exact ⟨other, early, found⟩
        · exact absurd found.1.symm same

theorem checkFrom_iff :
    (∃ rules', rules.checkFrom before.length chunks = .ok rules' ∧ rules'.finish = .ok ()) ↔
      (∀ done entry after, chunks = done ++ entry :: after →
        Follows rules.params rules.totalSize rules.count (before ++ done) entry) ∧
      covered (before ++ chunks) = rules.totalSize.toNat := by
  induction chunks generalizing rules before with
  | nil =>
    simp only [Rules.checkFrom, Except.ok.injEq, exists_eq_left', Rules.finish, ensure_ok, append_nil]
    rw [← knows.offset, UInt64.toNat_inj]
    simp
  | cons head rest ih =>
    simp only [Rules.checkFrom, bind_ok, knows.check_iff]
    constructor
    · rintro ⟨rules', ⟨_, ⟨follows, rfl⟩, checked⟩, finished⟩
      have later := (ih (knows.advance follows)).mp ⟨rules', by rw [length_append]; exact checked, finished⟩
      rw [append_assoc] at later
      refine ⟨fun done entry after split => ?_, later.2⟩
      cases done with
      | nil =>
        cases split
        rwa [append_nil]
      | cons first done =>
        cases split
        have rest := later.1 done entry after rfl
        rwa [append_assoc] at rest
    · rintro ⟨all, covers⟩
      have follows := all [] head rest rfl
      rw [append_nil] at follows
      obtain ⟨rules', checked, finished⟩ := (ih (knows.advance follows)).mpr
        ⟨fun done entry after split => by
          have later := all (head :: done) entry after (congrArg _ split)
          rwa [append_cons] at later,
        by rwa [append_assoc]⟩
      rw [length_append] at checked
      exact ⟨rules', ⟨_, ⟨follows, rfl⟩, checked⟩, finished⟩

end

end Rules.Knows

theorem check_ok : check params totalSize chunks = .ok () ↔ totalSize ≤ maxFileSize ∧
      Tiles params totalSize chunks := by
  unfold check
  simp only [bind_ok, ensure_ok, exists_const]
  constructor
  · rintro ⟨small, _, checked⟩
    have knows : (Rules.new params totalSize chunks.length : Rules δ).Knows [] := .new small _
    exact ⟨small, tiles_iff.mpr (knows.checkFrom_iff.mp checked)⟩
  · rintro ⟨small, tiles⟩
    have knows : (Rules.new params totalSize chunks.length : Rules δ).Knows [] := .new small _
    exact ⟨small, tiles.count, knows.checkFrom_iff.mpr (tiles_iff.mp tiles)⟩

/-- `MAGIC`, which reads `T3SM` -/
def magic : FixedBytes 4 := ⟨[0x54, 0x33, 0x53, 0x4d], rfl⟩

def manifestVersion : UInt8 := 1

def headerMax : Nat := 4 + 1 + 3 * 5 + 10 + 32 + 10

def entryMax : Nat := 32 + 5 + 4

def maxManifestLen : Nat := headerMax + maxChunks * entryMax

namespace Digest

variable (digest : Digest δ)

def chunkEntry : Format (ChunkEntry δ) :=
  (digest.format.pair (Format.u64.pair Format.u32)).iso
    { toFun := fun (id, offset, len) => ⟨id, offset, len⟩
      invFun := fun entry => (entry.id, entry.offset, entry.len)
      left_inv := fun _ => rfl
      right_inv := fun _ => rfl }

omit [DecidableEq δ] in
theorem chunkEntry_fits (fits : ∀ id, digest.format.Fits id) (entry : ChunkEntry δ) : digest.chunkEntry.Fits entry :=
  ⟨fits entry.id, Format.u64_fits entry.offset, Format.u32_fits entry.len⟩

end Digest

def wireParams : Format (UInt32 × UInt32 × UInt32) := Format.u32.pair (Format.u32.pair Format.u32)

namespace Wire

variable (digest : Digest δ)

def encode (wire : Wire δ) : Bytes :=
  (Proto.Wire.fixedBytes 4).encode magic ++ (Format.byte.encode manifestVersion ++
    (wireParams.encode (wire.params.min, wire.params.avg, wire.params.max) ++
      (Format.u64.encode wire.totalSize ++
        (digest.format.encode wire.fileHash ++ digest.chunkEntry.list.encode wire.chunks))))

/-- Reads one field. A field that more bytes would complete was cut short; any other is malformed. -/
def take {α : Type} (format : Format α) (field : ManifestField) (input : Bytes) :
    Except (ManifestError δ) (α × Bytes) :=
  match format.decode input with
  | some read => .ok read
  | none =>
    if (format.decode (input ++ replicate 64 0)).isSome then .error (.truncated field)
    else .error (.malformed field)

def takeChunks : Nat → Nat → Rules δ → Bytes → Except (ManifestError δ) (List (ChunkEntry δ) × Rules δ × Bytes)
  | 0, _, rules, input => .ok ([], rules, input)
  | left + 1, index, rules, input => do
    let (entry, input) ← take digest.chunkEntry (.chunk index) input
    let rules ← rules.check index entry
    let (chunks, rules, input) ← takeChunks left (index + 1) rules input
    return (entry :: chunks, rules, input)

def decode (bytes : Bytes) : Except (ManifestError δ) (Wire δ) := do
  ensure (bytes.length ≤ maxManifestLen) (.tooLarge bytes.length maxManifestLen)
  let (found, input) ← take (Proto.Wire.fixedBytes 4) .magic bytes
  ensure (found = magic) .badMagic
  let (version, input) ← take Format.byte .version input
  ensure (version = manifestVersion) (.unsupportedVersion version)
  let ((min, avg, max), input) ← take wireParams .params input
  let params ← (ChunkParams.new min avg max).mapError .params
  let (totalSize, input) ← take Format.u64 .totalSize input
  ensure (totalSize ≤ maxFileSize) (.fileTooLarge totalSize)
  let (fileHash, input) ← take digest.format .fileHash input
  let (count, input) ← take (Format.uint 64) .chunkCount input
  ensure (count ≤ params.maxChunks totalSize) (.tooManyChunks count (params.maxChunks totalSize))
  let (chunks, rules, input) ← takeChunks digest count 0 (Rules.new params totalSize count) input
  ensure (input = []) (.trailingBytes input.length)
  rules.finish
  let wire : Wire δ := { params, totalSize, fileHash, chunks }
  ensure (wire.encode digest = bytes) .nonCanonical
  return wire

variable {digest}

omit [DecidableEq δ] in
theorem take_ok {α : Type} {format : Format α} {field : ManifestField} {input : Bytes} {read : α × Bytes} :
    (take format field input : Except (ManifestError δ) _) = .ok read ↔ format.decode input = some read := by
  unfold take
  split
  · next decoded => rw [decoded, Except.ok.injEq, Option.some.injEq]
  · next missing =>
    rw [missing]
    split <;> simp

omit [DecidableEq δ] in
theorem take_encode {α : Type} {format : Format α} {a : α} (fits : format.Fits a) (field : ManifestField)
    (rest : Bytes) : (take format field (format.encode a ++ rest) : Except (ManifestError δ) _) = .ok (a, rest) :=
  take_ok.mpr (format.decode_encode fits rest)

theorem takeChunks_checked {left index : Nat} {rules rules' : Rules δ} {input rest : Bytes}
    {chunks : List (ChunkEntry δ)} (taken : takeChunks digest left index rules input = .ok (chunks, rules', rest)) :
    chunks.length = left ∧ rules.checkFrom index chunks = .ok rules' := by
  induction left generalizing index rules input chunks with
  | zero =>
    cases taken
    exact ⟨rfl, rfl⟩
  | succ left ih =>
    obtain ⟨⟨entry, input⟩, _, taken⟩ := bind_ok.mp taken
    obtain ⟨middle, checked, taken⟩ := bind_ok.mp taken
    obtain ⟨⟨others, last, rest⟩, taken, same⟩ := bind_ok.mp taken
    cases same
    have later := ih taken
    exact ⟨congrArg _ later.1, bind_ok.mpr ⟨middle, checked, later.2⟩⟩

theorem takeChunks_encode (fits : ∀ id, digest.format.Fits id) {index : Nat} {rules rules' : Rules δ}
    {chunks : List (ChunkEntry δ)} (checked : rules.checkFrom index chunks = .ok rules') (rest : Bytes) :
    takeChunks digest chunks.length index rules (chunks.flatMap digest.chunkEntry.encode ++ rest) =
      .ok (chunks, rules', rest) := by
  induction chunks generalizing index rules with
  | nil =>
    cases checked
    rfl
  | cons entry chunks ih =>
    obtain ⟨middle, first, checked⟩ := bind_ok.mp checked
    rw [flatMap_cons, append_assoc, length_cons, takeChunks,
      take_encode (digest.chunkEntry_fits fits entry), ok_bind]
    dsimp only
    rw [first, ok_bind, ih checked]
    rfl

theorem decode_sound {bytes : Bytes} {wire : Wire δ} (decoded : decode digest bytes = .ok wire) :
    check wire.params wire.totalSize wire.chunks = .ok () ∧ wire.encode digest = bytes := by
  obtain ⟨_, _, decoded⟩ := bind_ok.mp decoded
  obtain ⟨⟨found, input⟩, _, decoded⟩ := bind_ok.mp decoded
  obtain ⟨_, _, decoded⟩ := bind_ok.mp decoded
  obtain ⟨⟨version, input⟩, _, decoded⟩ := bind_ok.mp decoded
  obtain ⟨_, _, decoded⟩ := bind_ok.mp decoded
  obtain ⟨⟨⟨min, avg, max⟩, input⟩, _, decoded⟩ := bind_ok.mp decoded
  obtain ⟨params, _, decoded⟩ := bind_ok.mp decoded
  obtain ⟨⟨totalSize, input⟩, _, decoded⟩ := bind_ok.mp decoded
  obtain ⟨_, small, decoded⟩ := bind_ok.mp decoded
  obtain ⟨⟨fileHash, input⟩, _, decoded⟩ := bind_ok.mp decoded
  obtain ⟨⟨count, input⟩, _, decoded⟩ := bind_ok.mp decoded
  obtain ⟨_, few, decoded⟩ := bind_ok.mp decoded
  obtain ⟨⟨chunks, rules, input⟩, taken, decoded⟩ := bind_ok.mp decoded
  obtain ⟨_, _, decoded⟩ := bind_ok.mp decoded
  obtain ⟨_, finished, decoded⟩ := bind_ok.mp decoded
  obtain ⟨_, canonical, same⟩ := bind_ok.mp decoded
  cases same
  obtain ⟨rfl, checked⟩ := takeChunks_checked taken
  refine ⟨?_, ensure_ok.mp canonical⟩
  exact bind_ok.mpr ⟨(), small, bind_ok.mpr ⟨(), few, bind_ok.mpr ⟨rules, checked, finished⟩⟩⟩

theorem decode_encode (fits : ∀ id, digest.format.Fits id) {wire : Wire δ}
    (checked : check wire.params wire.totalSize wire.chunks = .ok ())
    (short : (wire.encode digest).length ≤ maxManifestLen) : decode digest (wire.encode digest) = .ok wire := by
  obtain ⟨_, small, checked⟩ := bind_ok.mp checked
  obtain ⟨_, few, checked⟩ := bind_ok.mp checked
  obtain ⟨rules, checked, finished⟩ := bind_ok.mp checked
  have count : (Format.uint 64).Fits wire.chunks.length := by
    have most := (ensure_ok.mp few).trans (wire.params.maxChunks_le (ensure_ok.mp small))
    exact lt_of_le_of_lt most (by decide)
  have sizes : wireParams.Fits (wire.params.min, wire.params.avg, wire.params.max) :=
    ⟨Format.u32_fits _, Format.u32_fits _, Format.u32_fits _⟩
  have entries := takeChunks_encode fits checked []
  rw [append_nil] at entries
  refine bind_ok.mpr ⟨(), ensure_ok.mpr short, ?_⟩
  refine bind_ok.mpr ⟨_, take_encode (fun _ _ => trivial) _ _, bind_ok.mpr ⟨(), ensure_ok.mpr rfl, ?_⟩⟩
  refine bind_ok.mpr ⟨_, take_encode trivial _ _, bind_ok.mpr ⟨(), ensure_ok.mpr rfl, ?_⟩⟩
  refine bind_ok.mpr ⟨_, take_encode sizes _ _, ?_⟩
  refine bind_ok.mpr ⟨_, mapError_ok.mpr wire.params.new_self, ?_⟩
  refine bind_ok.mpr ⟨_, take_encode (Format.u64_fits _) _ _, bind_ok.mpr ⟨(), small, ?_⟩⟩
  refine bind_ok.mpr ⟨_, take_encode (fits _) _ _, ?_⟩
  refine bind_ok.mpr ⟨_, take_encode count _ _, bind_ok.mpr ⟨(), few, ?_⟩⟩
  refine bind_ok.mpr ⟨_, entries, bind_ok.mpr ⟨(), ensure_ok.mpr rfl, bind_ok.mpr ⟨(), finished, ?_⟩⟩⟩
  exact bind_ok.mpr ⟨(), ensure_ok.mpr rfl, rfl⟩

end Wire

/-- The entries whose ids are new after those `seen`. -/
def uniqueAfter (seen : List δ) : List (ChunkEntry δ) → List (ChunkEntry δ)
  | [] => []
  | entry :: chunks =>
    if entry.id ∈ seen then uniqueAfter seen chunks else entry :: uniqueAfter (entry.id :: seen) chunks

theorem mem_uniqueAfter {seen : List δ} (among : entry ∈ uniqueAfter seen chunks) : entry ∈ chunks := by
  induction chunks generalizing seen with
  | nil => exact among
  | cons first chunks ih =>
    unfold uniqueAfter at among
    split at among
    · exact mem_cons_of_mem _ (ih among)
    · rcases mem_cons.mp among with rfl | later
      · exact mem_cons_self
      · exact mem_cons_of_mem _ (ih later)

theorem id_mem_uniqueAfter {seen : List δ}
    (among : entry ∈ chunks) : entry.id ∈ seen ∨ entry.id ∈ (uniqueAfter seen chunks).map ChunkEntry.id := by
  induction chunks generalizing seen with
  | nil => cases among
  | cons first chunks ih =>
    unfold uniqueAfter
    rcases mem_cons.mp among with rfl | later
    · split
      · next known => exact .inl known
      · exact .inr mem_cons_self
    split
    · exact ih later
    rcases @ih (first.id :: seen) later with known | new
    · rcases mem_cons.mp known with same | known
      · rw [same]
        exact .inr mem_cons_self
      · exact .inl known
    · exact .inr (mem_cons_of_mem _ new)

theorem uniqueAfter_nodup (seen : List δ) (chunks : List (ChunkEntry δ)) :
    ((uniqueAfter seen chunks).map ChunkEntry.id).Nodup ∧
      ∀ id ∈ (uniqueAfter seen chunks).map ChunkEntry.id, id ∉ seen := by
  induction chunks generalizing seen with
  | nil => exact ⟨.nil, nofun⟩
  | cons first chunks ih =>
    unfold uniqueAfter
    split
    · exact ih seen
    rename_i new
    obtain ⟨nodup, apart⟩ := ih (first.id :: seen)
    refine ⟨nodup_cons.mpr ⟨fun among => apart _ among mem_cons_self, nodup⟩, fun id among known => ?_⟩
    rcases mem_cons.mp among with rfl | among
    · exact new known
    · exact apart id among (mem_cons_of_mem _ known)

/-- A manifest states a tiling of its file, and is named by the hash of its encoding. -/
structure Manifest (digest : Digest δ) extends Wire δ where
  id : δ
  small : totalSize ≤ maxFileSize
  tiles : Tiles params totalSize chunks
  named : id = digest.hash (toWire.encode digest)

namespace Manifest

variable (digest : Digest δ)

def fromChunks (params : ChunkParams) (totalSize : UInt64) (fileHash : δ) (chunks : List (ChunkEntry δ)) :
    Except (ManifestError δ) (Manifest digest) :=
  match checked : check params totalSize chunks with
  | .ok () =>
    have good := check_ok.mp checked
    let wire : Wire δ := { params, totalSize, fileHash, chunks }
    .ok { wire with id := digest.hash (wire.encode digest), small := good.1, tiles := good.2, named := rfl }
  | .error error => .error error

def fromBytes (bytes : Bytes) : Except (ManifestError δ) (Manifest digest) :=
  match decoded : Wire.decode digest bytes with
  | .ok wire =>
    have sound := Wire.decode_sound decoded
    have good := check_ok.mp sound.1
    .ok { wire with
      id := digest.hash bytes
      small := good.1
      tiles := good.2
      named := congrArg digest.hash sound.2.symm }
  | .error error => .error error

variable {digest}

def toBytes (m : Manifest digest) : Bytes := m.toWire.encode digest

def uniqueChunks (m : Manifest digest) : List (ChunkEntry δ) := uniqueAfter [] m.chunks

variable {m : Manifest digest}

omit [DecidableEq δ] in
theorem ext_wire {m' : Manifest digest} (same : m.toWire = m'.toWire) : m = m' := by
  obtain ⟨wire, id, small, tiles, named⟩ := m
  obtain ⟨wire', id', small', tiles', named'⟩ := m'
  cases same
  cases named
  cases named'
  rfl

theorem fromBytes_wire {bytes : Bytes} (read : fromBytes digest bytes = .ok m) :
    Wire.decode digest bytes = .ok m.toWire := by
  unfold fromBytes at read
  split at read
  · next decoded =>
    cases read
    exact decoded
  · cases read

theorem fromBytes_decoded {bytes : Bytes} (decoded : Wire.decode digest bytes = .ok m.toWire) :
    fromBytes digest bytes = .ok m := by
  unfold fromBytes
  split
  · next wire decoded' =>
    rw [decoded, Except.ok.injEq] at decoded'
    exact congrArg _ (ext_wire decoded'.symm)
  · next failed => rw [decoded] at failed; cases failed

end Manifest

theorem fixedBytes_length {n : Nat} (bytes : FixedBytes n) : ((Proto.Wire.fixedBytes n).encode bytes).length = n := by
  have each : (Proto.Wire.fixedBytes n).encode bytes = bytes.1 := flatMap_singleton' bytes.1
  rw [each, bytes.2]

omit [DecidableEq δ] in
theorem Tiles.offset_le (tiles : Tiles params totalSize chunks) (among : entry ∈ chunks) :
    entry.offset.toNat ≤ totalSize.toNat := by
  obtain ⟨before, after, split⟩ := append_of_mem among
  have follows := (tiles_iff.mp tiles).1 before entry after split
  have inside := follows.inside
  have offset := follows.offset
  omega

section Length

variable {digest : Digest δ} (wide : ∀ id, (digest.format.encode id).length = 32) {wire : Wire δ}
include wide

section
omit [DecidableEq δ]

section
variable (small : wire.totalSize ≤ maxFileSize)
include small

section
variable (tiles : Tiles wire.params wire.totalSize wire.chunks)
include tiles

theorem chunkEntry_length {entry : ChunkEntry δ}
    (among : entry ∈ wire.chunks) : (digest.chunkEntry.encode entry).length ≤ entryMax := by
  have size := UInt64.le_iff_toNat_le.mp small
  have most : maxFileSize.toNat = 2 ^ 32 := rfl
  have longest : maxChunkLen.toNat = 2 ^ 22 := rfl
  have short := UInt32.le_iff_toNat_le.mp (UInt32.le_trans (tiles.short entry among) wire.params.ceiling)
  have place := tiles.offset_le among
  have id := wide entry.id
  have offset : (Format.u64.encode entry.offset).length ≤ 5 := Format.u64_length (by omega)
  have len : (Format.u32.encode entry.len).length ≤ 4 := Format.u32_length (by omega)
  change (digest.format.encode entry.id ++
    (Format.u64.encode entry.offset ++ Format.u32.encode entry.len)).length ≤ 32 + 5 + 4
  rw [length_append, length_append]
  omega

theorem chunks_length : (digest.chunkEntry.list.encode wire.chunks).length ≤ 10 + maxChunks * entryMax := by
  have few := tiles.count.trans (wire.params.maxChunks_le small)
  have count : ((Format.uint 64).encode wire.chunks.length).length ≤ 10 :=
    Format.varint_length (lt_of_le_of_lt few (by decide))
  have entries : (wire.chunks.flatMap digest.chunkEntry.encode).length ≤ wire.chunks.length * entryMax := by
    rw [length_flatMap]
    have each := sum_le_card_nsmul (wire.chunks.map fun entry => (digest.chunkEntry.encode entry).length)
      entryMax (by
        intro length member
        obtain ⟨entry, among, rfl⟩ := mem_map.mp member
        exact chunkEntry_length wide small tiles among)
    rwa [length_map, smul_eq_mul] at each
  have all := Nat.mul_le_mul_right entryMax few
  change ((Format.uint 64).encode wire.chunks.length ++ wire.chunks.flatMap digest.chunkEntry.encode).length ≤ _
  rw [length_append]
  omega

theorem encode_length : (wire.encode digest).length ≤ maxManifestLen := by
  have sizes (n : UInt32) : (Format.u32.encode n).length ≤ 5 :=
    Format.u32_length (lt_of_lt_of_le n.toNat_lt (by decide))
  have params : (wireParams.encode (wire.params.min, wire.params.avg, wire.params.max)).length ≤ 3 * 5 := by
    change (Format.u32.encode wire.params.min ++
      (Format.u32.encode wire.params.avg ++ Format.u32.encode wire.params.max)).length ≤ 3 * 5
    rw [length_append, length_append]
    have min := sizes wire.params.min
    have avg := sizes wire.params.avg
    have max := sizes wire.params.max
    omega
  have total : (Format.u64.encode wire.totalSize).length ≤ 10 :=
    Format.u64_length (lt_of_lt_of_le wire.totalSize.toNat_lt (by decide))
  have hash := wide wire.fileHash
  have chunks := chunks_length wide small tiles
  have start : ((Proto.Wire.fixedBytes 4).encode magic).length = 4 := fixedBytes_length magic
  have version : (Format.byte.encode manifestVersion).length = 1 := rfl
  unfold Wire.encode maxManifestLen headerMax
  simp only [length_append]
  omega

end

end

end

theorem Manifest.read_back (fits : ∀ id, digest.format.Fits id) (m : Manifest digest) :
    Manifest.fromBytes digest m.toBytes = .ok m :=
  Manifest.fromBytes_decoded
    (Wire.decode_encode fits (check_ok.mpr ⟨m.small, m.tiles⟩) (encode_length wide m.small m.tiles))

end Length

/-- A manifest is read exactly from the canonical encoding of a tiling, and such an encoding is never
too long to be read. -/
theorem manifest_canonical (blake3 : Bytes → FixedBytes 32) :
    (∀ bytes m, Manifest.fromBytes (Digest.fixed blake3) bytes = .ok m →
      m.toBytes = bytes ∧ m.totalSize ≤ maxFileSize ∧ Tiles m.params m.totalSize m.chunks) ∧
    (∀ wire : Wire (FixedBytes 32), wire.totalSize ≤ maxFileSize → Tiles wire.params wire.totalSize wire.chunks →
      (wire.encode (Digest.fixed blake3)).length ≤ maxManifestLen ∧
      ∃ m, Manifest.fromBytes (Digest.fixed blake3) (wire.encode (Digest.fixed blake3)) = .ok m ∧ m.toWire = wire) := by
  constructor
  · intro bytes m read
    exact ⟨(Wire.decode_sound (Manifest.fromBytes_wire read)).2, m.small, m.tiles⟩
  intro wire small tiles
  have wide : ∀ id, ((Digest.fixed blake3).format.encode id).length = 32 := fixedBytes_length
  have short := encode_length wide small tiles
  have decoded := Wire.decode_encode (Digest.fixed_fits blake3) (check_ok.mpr ⟨small, tiles⟩) short
  exact ⟨short, ⟨wire, _, small, tiles, rfl⟩, Manifest.fromBytes_decoded decoded, rfl⟩

def headHash (bytes : Bytes) : FixedBytes 32 := .fill 32 (bytes.headD 0)

def twoChunks : Wire (FixedBytes 32) where
  params := .default
  totalSize := 32 * 1024 + 1
  fileHash := headHash [1]
  chunks := [⟨headHash [1], 0, 32 * 1024⟩, ⟨headHash [2], 32 * 1024, 1⟩]

theorem twoChunks_tiles : Tiles twoChunks.params twoChunks.totalSize twoChunks.chunks where
  starts := by decide
  continues := .cons_cons (by decide) (.singleton _)
  nonempty := by decide
  short := by decide
  long := by decide
  covers := by decide
  repeated := by decide

theorem manifest_canonical_twoChunks : ∃ m,
    Manifest.fromBytes (Digest.fixed headHash) (twoChunks.encode (Digest.fixed headHash)) = .ok m ∧
      m.toWire = twoChunks :=
  ((manifest_canonical headHash).2 twoChunks (by decide) twoChunks_tiles).2

end Tpf3Mp.Snapshot
