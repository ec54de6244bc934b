import Tpf3Mp.Hook.Pe

/-!
The identity of a game build (`tpf3mp-hookcore`, `BuildIdentity` in `profile.rs`). It is read off a whole
image, or off a file in pieces of whatever size the system returns; of the file only its first bytes are
kept for the header reader.
-/

namespace Tpf3Mp.Hook
open List

/-- A digest that is fed bytes piece by piece (`Sha256`). -/
structure Hasher where
  State : Type
  new : State
  update : State → Bytes → State
  finalize : State → Bytes
  update_nil : ∀ state, update state [] = state
  update_append : ∀ state a b, update (update state a) b = update state (a ++ b)

def Hasher.digest (h : Hasher) (bytes : Bytes) : Bytes := h.finalize (h.update h.new bytes)

def hexLower (bytes : Bytes) : String :=
  let digit (value : Nat) : Char := "0123456789abcdef".toList.getD value '0'
  bytes.foldl (fun out byte => out ++ String.ofList [digit (byte.toNat / 16), digit (byte.toNat % 16)]) ""

structure BuildIdentity where
  sha256 : String
  size : Option UInt64
  peTimestamp : Option UInt32
  deriving DecidableEq

namespace BuildIdentity
variable {ε : Type} {h : Hasher} {image fed bytes : Bytes} {n offset : Nat}

structure Gathered (h : Hasher) where
  hasher : h.State
  size : UInt64
  head : Bytes

def headKept : Nat := 4096

def Gathered.feed (g : Gathered h) (read : Bytes) : Gathered h where
  hasher := h.update g.hasher read
  size := g.size + .ofNat read.length
  head := if g.head.length < headKept then g.head ++ read.take (min read.length (headKept - g.head.length)) else g.head

/-- The loop over the reads of a file, which an empty one ends. -/
def gather (g : Gathered h) : List (Except ε Bytes) → Except ε (Gathered h)
  | [] => .ok g
  | .error error :: _ => .error error
  | .ok read :: reads => if read.isEmpty then .ok g else gather (g.feed read) reads

def timestampOf (image : Bytes) : Option UInt32 := (PeHeaders.parse image).toOption.map PeHeaders.timestamp

def ofFile (h : Hasher) (reads : List (Except ε Bytes)) : Except ε BuildIdentity := do
  let g ← gather { hasher := h.new, size := 0, head := [] } reads
  return { sha256 := hexLower (h.finalize g.hasher), size := some g.size, peTimestamp := timestampOf g.head }

def ofBytes (h : Hasher) (bytes : Bytes) : BuildIdentity where
  sha256 := hexLower (h.digest bytes)
  size := some (.ofNat bytes.length)
  peTimestamp := timestampOf bytes

/-- The reads of a file with these contents: pieces that fill the buffer or less, and at the end nothing. -/
inductive Splits : Bytes → List (Except ε Bytes) → Prop where
  | finished (later : List (Except ε Bytes)) : Splits [] (.ok [] :: later)
  | piece {read rest : Bytes} {reads : List (Except ε Bytes)} (some : read ≠ []) (fits : read.length ≤ 2 ^ 16)
    (others : Splits rest reads) : Splits (read ++ rest) (.ok read :: reads)

/-- What is gathered of the bytes read so far. -/
def gathered (h : Hasher) (fed : Bytes) : Gathered h where
  hasher := h.update h.new fed
  size := .ofNat fed.length
  head := fed.take headKept

theorem head_extended (fed read : Bytes) : (if (fed.take headKept).length < headKept then
    fed.take headKept ++ read.take (min read.length (headKept - (fed.take headKept).length)) else fed.take headKept) =
    (fed ++ read).take headKept := by
  rw [take_append, length_take]
  split
  · next room =>
    have short : fed.length ≤ headKept := by omega
    rw [take_of_length_le short, Nat.min_eq_right short, min_comm, ← take_eq_take_min]
  · next full => rw [Nat.sub_eq_zero_of_le (by omega : headKept ≤ fed.length), take_zero, append_nil]

theorem gathered_feed (read : Bytes) : (gathered h fed).feed read = gathered h (fed ++ read) := by
  rw [gathered, gathered, Gathered.feed, h.update_append, length_append, UInt64.ofNat_add, ← head_extended]

theorem gather_splits {reads : List (Except ε Bytes)} (splits : Splits bytes reads) :
    gather (gathered h fed) reads = .ok (gathered h (fed ++ bytes)) := by
  induction splits generalizing fed with
  | finished later => rw [append_nil, gather, isEmpty_nil, if_pos rfl]
  | piece some fits others ih => rw [gather, if_neg (by simpa using some), gathered_feed, ih, append_assoc]

theorem readU16_take {value : UInt16} :
    readU16 (image.take n) offset = some value ↔ offset + 2 ≤ n ∧ readU16 image offset = some value := by
  unfold readU16
  rw [drop_take]
  rcases image.drop offset with _ | ⟨a, _ | ⟨b, rest⟩⟩ <;> rcases size : n - offset with _ | _ | left <;>
    simp <;> omega

theorem readU32_take {value : UInt32} :
    readU32 (image.take n) offset = some value ↔ offset + 4 ≤ n ∧ readU32 image offset = some value := by
  unfold readU32
  rw [drop_take]
  rcases image.drop offset with _ | ⟨a, _ | ⟨b, _ | ⟨c, _ | ⟨d, rest⟩⟩⟩⟩ <;>
    rcases size : n - offset with _ | _ | _ | _ | left <;> simp <;> omega

theorem slice_take {length : Nat} {found : Bytes} :
    slice (image.take n) offset length = some found ↔ offset + length ≤ n ∧ slice image offset length = some found := by
  unfold slice
  rw [length_take, drop_take, take_take]
  by_cases within : offset + length ≤ n
  · rw [Nat.min_eq_left (by omega : length ≤ n - offset)]
    simp [within]
  · rw [if_neg (by omega)]
    simp [within]

theorem readU64_take {value : UInt64} :
    readU64 (image.take n) offset = some value ↔ offset + 8 ≤ n ∧ readU64 image offset = some value := by
  simp only [readU64, Option.bind_eq_bind, Option.bind_eq_some_iff, readU32_take]
  constructor
  · rintro ⟨low, ⟨_, first⟩, high, ⟨within, second⟩, same⟩
    exact ⟨by omega, low, first, high, second, same⟩
  · rintro ⟨within, low, first, high, second, same⟩
    exact ⟨low, ⟨by omega, first⟩, high, ⟨by omega, second⟩, same⟩

theorem readSection_take {entry : Nat} {found : Section} : PeHeaders.readSection (image.take n) entry = .ok found ↔
    entry + 24 ≤ n ∧ PeHeaders.readSection image entry = .ok found := by
  simp only [PeHeaders.readSection, Run.bind_ok, okOr_ok, slice_take, readU32_take]
  constructor
  · rintro ⟨name, ⟨_, named⟩, size, ⟨_, sized⟩, address, ⟨_, addressed⟩, raw, ⟨_, measured⟩, start,
      ⟨within, located⟩, same⟩
    exact ⟨within, name, named, size, sized, address, addressed, raw, measured, start, located, same⟩
  · rintro ⟨within, name, named, size, sized, address, addressed, raw, measured, start, located, same⟩
    exact ⟨name, ⟨by omega, named⟩, size, ⟨by omega, sized⟩, address, ⟨by omega, addressed⟩, raw, ⟨by omega, measured⟩,
      start, ⟨within, located⟩, same⟩

theorem sections_take {count table : Nat} {sections : List Section} :
    (range count).mapM (fun index => PeHeaders.readSection (image.take n) (table + index * 40)) = .ok sections ↔
    (∀ index ∈ range count, table + index * 40 + 24 ≤ n) ∧
      (range count).mapM (fun index => PeHeaders.readSection image (table + index * 40)) = .ok sections := by
  simp only [Run.mapM_ok, readSection_take]
  exact forall₂_and_left _ _

/-- Where the headers of an image end, those of its sections included. -/
def headersEnd (image : Bytes) : Option Nat := do
  let peOff ← readU32 image 0x3c
  let sectionCount ← readU16 image (peOff.toNat + 6)
  let optionalSize ← readU16 image (peOff.toNat + 20)
  let optional := peOff.toNat + 24
  return if sectionCount = 0 then optional + 60
    else max (optional + 60) (optional + optionalSize.toNat + (sectionCount.toNat - 1) * 40 + 24)

theorem parse_ok {pe : PeHeaders} : PeHeaders.parse image = .ok pe ↔ 0x40 ≤ image.length ∧ image.take 2 = [0x4d, 0x5a] ∧
    ∃ peOff sectionCount optionalSize, readU32 image 0x3c = some peOff ∧
      slice image peOff.toNat 4 = some [0x50, 0x45, 0, 0] ∧ readU16 image (peOff.toNat + 4) = some pe.machine ∧
      readU16 image (peOff.toNat + 6) = some sectionCount ∧ readU32 image (peOff.toNat + 8) = some pe.timestamp ∧
      readU16 image (peOff.toNat + 20) = some optionalSize ∧ readU16 image (peOff.toNat + 24) = some 0x20b ∧
      readU64 image (peOff.toNat + 48) = some pe.imageBase ∧ readU32 image (peOff.toNat + 80) = some pe.sizeOfImage ∧
      (range sectionCount.toNat).mapM
        (fun index => PeHeaders.readSection image (peOff.toNat + 24 + optionalSize.toNat + index * 40)) =
        .ok pe.sections := by
  unfold PeHeaders.parse
  simp only [unless_ok, Run.bind_ok, okOr_ok, not_lt, not_not]
  refine and_congr_right fun _ => and_congr_right fun _ => ?_
  constructor
  · rintro ⟨peOff, located, signed, machine, kind, count, counted, timestamp, dated, size, sized, magic, wide,
      plus, base, based,
      whole, measured, sections, read, same⟩
    cases same
    rw [plus] at wide
    exact ⟨peOff, count, size, located, signed, kind, counted, dated, sized, wide, based, measured, read⟩
  · rintro ⟨peOff, count, size, located, signed, kind, counted, dated, sized, wide, based, measured, read⟩
    exact ⟨peOff, located, signed, _, kind, count, counted, _, dated, size, sized, _, wide, rfl, _, based, _,
      measured, _, read, rfl⟩

theorem headersEnd_le {peOff : UInt32} {sectionCount optionalSize : UInt16} (located : readU32 image 0x3c = some peOff)
    (counted : readU16 image (peOff.toNat + 6) = some sectionCount)
    (sized : readU16 image (peOff.toNat + 20) = some optionalSize) :
    (∀ last ∈ headersEnd image, last ≤ n) ↔ peOff.toNat + 84 ≤ n ∧
      ∀ index ∈ range sectionCount.toNat, peOff.toNat + 24 + optionalSize.toNat + index * 40 + 24 ≤ n := by
  have ends : headersEnd image = some (if sectionCount = 0 then peOff.toNat + 24 + 60 else
      max (peOff.toNat + 24 + 60) (peOff.toNat + 24 + optionalSize.toNat + (sectionCount.toNat - 1) * 40 + 24)) := by
    simp only [headersEnd, located, counted, sized, Option.bind_eq_bind, Option.bind_some, Option.pure_def]
  simp only [ends, Option.mem_some_iff, forall_eq', mem_range]
  split
  · next none => simp [none]
  rename_i some
  have positive : 0 < sectionCount.toNat := Nat.pos_of_ne_zero fun zero => some (UInt16.toNat_inj.mp zero)
  rw [Nat.max_le]
  refine and_congr .rfl ⟨fun last index among => by omega, fun all => ?_⟩
  exact all (sectionCount.toNat - 1) (by omega)

/-- The header reader sees the same in a part of an image if the headers end there, and else no image. -/
theorem parse_take {pe : PeHeaders} (room : 0x40 ≤ n) : PeHeaders.parse (image.take n) = .ok pe ↔
    PeHeaders.parse image = .ok pe ∧ ∀ last ∈ headersEnd image, last ≤ n := by
  simp only [parse_ok, length_take, take_take, Nat.min_eq_left (by omega : 2 ≤ n), readU16_take,
    readU32_take, readU64_take,
    slice_take, sections_take]
  constructor
  · rintro ⟨long, magic, peOff, count, size, ⟨_, located⟩, ⟨_, signed⟩, ⟨_, kind⟩, ⟨_, counted⟩, ⟨_, dated⟩, ⟨_, sized⟩,
      ⟨_, wide⟩, ⟨_, based⟩, ⟨within, measured⟩, all, read⟩
    exact ⟨⟨by omega, magic, peOff, count, size, located, signed, kind, counted, dated, sized, wide, based,
      measured, read⟩,
      (headersEnd_le located counted sized).mpr ⟨within, all⟩⟩
  · rintro ⟨⟨long, magic, peOff, count, size, located, signed, kind, counted, dated, sized, wide, based,
      measured, read⟩, ends⟩
    obtain ⟨within, all⟩ := (headersEnd_le located counted sized).mp ends
    exact ⟨by omega, magic, peOff, count, size, ⟨room, located⟩, ⟨by omega, signed⟩, ⟨by omega, kind⟩,
      ⟨by omega, counted⟩,
      ⟨by omega, dated⟩, ⟨by omega, sized⟩, ⟨by omega, wide⟩, ⟨by omega, based⟩, ⟨within, measured⟩, all, read⟩

theorem timestampOf_take : timestampOf (image.take headKept) = timestampOf image ↔
    ∀ pe, PeHeaders.parse image = .ok pe → ∀ last ∈ headersEnd image, last ≤ headKept := by
  have taken (pe : PeHeaders) : PeHeaders.parse (image.take headKept) = .ok pe ↔
      PeHeaders.parse image = .ok pe ∧ ∀ last ∈ headersEnd image, last ≤ headKept := parse_take (by decide)
  unfold timestampOf
  cases whole : PeHeaders.parse image with
  | error error =>
    cases part : PeHeaders.parse (image.take headKept) with
    | error error' => simp [Except.toOption]
    | ok pe => cases whole.symm.trans ((taken pe).mp part).1
  | ok pe =>
    constructor
    · intro same pe' read
      cases part : PeHeaders.parse (image.take headKept) with
      | error error => simp [part, Except.toOption] at same
      | ok pe' => exact ((taken pe').mp part).2
    · intro ends
      rw [(taken pe).mpr ⟨whole, ends pe rfl⟩]

theorem ofFile_splits (h : Hasher) {reads : List (Except ε Bytes)} (splits : Splits bytes reads) :
    ofFile h reads = .ok { ofBytes h bytes with peTimestamp := timestampOf (bytes.take headKept) } := by
  have start : ({ hasher := h.new, size := 0, head := [] } : Gathered h) = gathered h [] := by
    rw [gathered, h.update_nil]
    rfl
  rw [ofFile, start, gather_splits splits, nil_append]
  rfl

/-- A file and its contents have the same hash and size however it is read, and the same identity exactly
if the headers of an image end among the bytes kept of it. -/
theorem ofFile_eq (h : Hasher) {reads : List (Except ε Bytes)} (splits : Splits bytes reads) :
    ∃ identity, ofFile h reads = .ok identity ∧ identity.sha256 = (ofBytes h bytes).sha256 ∧
      identity.size = (ofBytes h bytes).size ∧ (identity = ofBytes h bytes ↔
        ∀ pe, PeHeaders.parse bytes = .ok pe → ∀ last ∈ headersEnd bytes, last ≤ headKept) := by
  refine ⟨_, ofFile_splits h splits, rfl, rfl, ?_⟩
  rw [← timestampOf_take]
  simp [ofBytes]

def plainHasher : Hasher where
  State := Bytes
  new := []
  update := (· ++ ·)
  finalize := id
  update_nil := append_nil
  update_append := append_assoc

/-- An image without sections, with its headers at this offset. -/
def imageAt (peOff : UInt32) : Bytes :=
  [[0x4d, 0x5a], replicate 58 0, [peOff.toUInt8, (peOff >>> 8).toUInt8, 0, 0], replicate (peOff.toNat - 64) 0,
    [0x50, 0x45, 0, 0, 0x64, 0x86, 0, 0, 1, 2, 3, 4], replicate 12 0, [0x0b, 0x02], replicate 58 0].flatten

def inTwo (bytes : Bytes) : List (Except String Bytes) := [.ok (bytes.take 3), .ok (bytes.drop 3), .ok []]

theorem inTwo_splits (long : 3 < bytes.length) (fits : bytes.length ≤ 2 ^ 16) : Splits bytes (inTwo bytes) := by
  have split : Splits (bytes.take 3 ++ (bytes.drop 3 ++ [])) (inTwo bytes) := by
    refine .piece ?_ ?_ (.piece ?_ ?_ (.finished []))
    · exact ne_nil_of_length_pos (by rw [length_take]; omega)
    · rw [length_take]
      omega
    · exact ne_nil_of_length_pos (by rw [length_drop]; omega)
    · rw [length_drop]
      omega
  rwa [append_nil, take_append_drop] at split

theorem ofFile_eq_sample : (ofBytes plainHasher (imageAt 64)).peTimestamp = some 0x04030201 ∧ ∃ identity,
    ofFile plainHasher (inTwo (imageAt 64)) = .ok identity ∧ identity = ofBytes plainHasher (imageAt 64) := by
  have splits : Splits (imageAt 64) (inTwo (imageAt 64)) := inTwo_splits (by decide +kernel) (by decide +kernel)
  obtain ⟨identity, read, _, _, same⟩ := ofFile_eq plainHasher splits
  exact ⟨by decide +kernel, identity, read, same.mpr fun _ _ => by decide +kernel⟩

/-- With its headers past the bytes kept, a file loses the time stamp its contents have. -/
theorem timestamp_lost : Splits (imageAt 4096) (inTwo (imageAt 4096)) ∧
    ∀ h : Hasher, (ofBytes h (imageAt 4096)).peTimestamp = some 0x04030201 ∧
    (ofFile h (inTwo (imageAt 4096))).map BuildIdentity.peTimestamp = .ok none := by
  have splits : Splits (imageAt 4096) (inTwo (imageAt 4096)) := inTwo_splits (by decide +kernel) (by decide +kernel)
  have kept : timestampOf (imageAt 4096) = some 0x04030201 := by decide +kernel
  have lost : timestampOf ((imageAt 4096).take headKept) = none := by decide +kernel
  refine ⟨splits, fun h => ?_⟩
  rw [ofFile_splits h splits, ofBytes, kept, lost]
  exact ⟨rfl, rfl⟩

end BuildIdentity

end Tpf3Mp.Hook
