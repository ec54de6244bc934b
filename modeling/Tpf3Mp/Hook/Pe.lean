import Tpf3Mp.Hook.Pattern

/-!
The PE32+ header reader (`tpf3mp-hookcore`, `pe.rs`): fields read by their offset in the file image.
Offsets are natural numbers: all are sums of a few 32-bit numbers, far below what a 64-bit address
holds.
-/

namespace Tpf3Mp.Hook

def okOr {ε α : Type} (value : Option α) (error : ε) : Except ε α :=
  match value with
  | some value => .ok value
  | none => .error error

theorem okOr_ok {ε α : Type} {value : Option α} {error : ε} {a : α} : okOr value error = .ok a ↔ value = some a := by
  cases value with
  | none => exact ⟨(nomatch ·), (nomatch ·)⟩
  | some value =>
    exact ⟨fun same => congrArg some (Except.ok.inj same), fun same => congrArg Except.ok (Option.some.inj same)⟩

theorem unless_ok {ε α β : Type} {c : Prop} [Decidable c] {error : ε} {f : α → Except ε β} {x : Except ε β} {b : β} :
    (if c then throw error >>= f else x) = .ok b ↔ ¬ c ∧ x = .ok b := by
  split
  · next fails => exact iff_of_false (nomatch ·) fun ⟨holds, _⟩ => holds fails
  · next holds => exact (and_iff_right holds).symm

/-- The second bytes that may follow a leading byte, if it leads more than itself. -/
def secondBytes (lead : UInt8) : Option (UInt8 × UInt8) :=
  if 0xc2 ≤ lead ∧ lead ≤ 0xdf then some (0x80, 0xbf)
  else if lead = 0xe0 then some (0xa0, 0xbf)
  else if lead = 0xed then some (0x80, 0x9f)
  else if 0xe1 ≤ lead ∧ lead ≤ 0xef then some (0x80, 0xbf)
  else if lead = 0xf0 then some (0x90, 0xbf)
  else if lead = 0xf4 then some (0x80, 0x8f)
  else if 0xf1 ≤ lead ∧ lead ≤ 0xf3 then some (0x80, 0xbf)
  else none

def isContinuation (byte : UInt8) : Bool := 0x80 ≤ byte && byte ≤ 0xbf

/-- How many bytes the text's first character takes, or the longest beginning of one that breaks off,
and the character; a beginning that breaks off reads as the replacement character. -/
def decodeFirst (lead : UInt8) (rest : Bytes) : Nat × Char :=
  let low (byte : UInt8) := byte.toNat % 64
  if lead < 0x80 then (1, Char.ofNat lead.toNat)
  else
    match secondBytes lead, rest with
    | some (first, last), second :: rest =>
      if ¬ (first ≤ second ∧ second ≤ last) then (1, '�')
      else if lead ≤ 0xdf then (2, Char.ofNat (lead.toNat % 32 * 64 + low second))
      else
        match rest with
        | third :: rest =>
          if ¬ isContinuation third then (2, '�')
          else if lead ≤ 0xef then (3, Char.ofNat ((lead.toNat % 16 * 64 + low second) * 64 + low third))
          else
            match rest with
            | fourth :: _ =>
              if ¬ isContinuation fourth then (3, '�')
              else (4, Char.ofNat (((lead.toNat % 8 * 64 + low second) * 64 + low third) * 64 + low fourth))
            | [] => (3, '�')
        | [] => (2, '�')
    | _, _ => (1, '�')

/-- The characters of a text, `skip` bytes of the last one still to come. -/
def decodeLossy : (skip : Nat) → Bytes → List Char
  | _, [] => []
  | skip + 1, _ :: rest => decodeLossy skip rest
  | 0, lead :: rest =>
    let (width, c) := decodeFirst lead rest
    c :: decodeLossy (width - 1) rest

def fromUtf8Lossy (bytes : Bytes) : String := String.ofList (decodeLossy 0 bytes)

def readU16 (bytes : Bytes) (offset : Nat) : Option UInt16 :=
  match bytes.drop offset with
  | a :: b :: _ => some (a.toUInt16 ||| b.toUInt16 <<< 8)
  | _ => none

def readU32 (bytes : Bytes) (offset : Nat) : Option UInt32 :=
  match bytes.drop offset with
  | a :: b :: c :: d :: _ => some (a.toUInt32 ||| b.toUInt32 <<< 8 ||| c.toUInt32 <<< 16 ||| d.toUInt32 <<< 24)
  | _ => none

def readU64 (bytes : Bytes) (offset : Nat) : Option UInt64 := do
  let low ← readU32 bytes offset
  let high ← readU32 bytes (offset + 4)
  return low.toUInt64 ||| high.toUInt64 <<< 32

def slice (image : Bytes) (offset length : Nat) : Option Bytes :=
  if offset + length ≤ image.length then some ((image.drop offset).take length) else none

def untilZero (bytes : Bytes) : Bytes := bytes.takeWhile (· ≠ 0)

inductive PeError where
  | tooSmall
  | badDosMagic
  | badPeMagic
  | notPe32Plus
  | truncated
  deriving DecidableEq

structure Section where
  name : String
  virtualAddress : UInt32
  virtualSize : UInt32
  pointerToRawData : UInt32
  sizeOfRawData : UInt32
  deriving DecidableEq

structure PeHeaders where
  machine : UInt16
  timestamp : UInt32
  imageBase : UInt64
  sizeOfImage : UInt32
  sections : List Section
  deriving DecidableEq

namespace PeHeaders

def readSection (image : Bytes) (entry : Nat) : Except PeError Section := do
  let nameBytes ← okOr (slice image entry 8) .truncated
  let virtualSize ← okOr (readU32 image (entry + 8)) .truncated
  let virtualAddress ← okOr (readU32 image (entry + 12)) .truncated
  let sizeOfRawData ← okOr (readU32 image (entry + 16)) .truncated
  let pointerToRawData ← okOr (readU32 image (entry + 20)) .truncated
  return { name := fromUtf8Lossy (untilZero nameBytes), virtualAddress, virtualSize, pointerToRawData, sizeOfRawData }

def parse (image : Bytes) : Except PeError PeHeaders := do
  if image.length < 0x40 then throw .tooSmall
  -- "MZ"
  if image.take 2 ≠ [0x4d, 0x5a] then throw .badDosMagic
  let peOff ← okOr (readU32 image 0x3c) .truncated
  -- "PE\0\0"
  if slice image peOff.toNat 4 ≠ some [0x50, 0x45, 0, 0] then throw .badPeMagic
  let coff := peOff.toNat + 4
  let machine ← okOr (readU16 image coff) .truncated
  let sectionCount ← okOr (readU16 image (coff + 2)) .truncated
  let timestamp ← okOr (readU32 image (coff + 4)) .truncated
  let optionalSize ← okOr (readU16 image (coff + 16)) .truncated
  let optional := coff + 20
  let magic ← okOr (readU16 image optional) .truncated
  if magic ≠ 0x20b then throw .notPe32Plus
  let imageBase ← okOr (readU64 image (optional + 24)) .truncated
  let sizeOfImage ← okOr (readU32 image (optional + 56)) .truncated
  let table := optional + optionalSize.toNat
  let sections ← (List.range sectionCount.toNat).mapM fun index => readSection image (table + index * 40)
  return { machine, timestamp, imageBase, sizeOfImage, sections }

end PeHeaders

end Tpf3Mp.Hook
