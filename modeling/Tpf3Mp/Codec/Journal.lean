import Tpf3Mp.Codec.Format

/-!
Files of length-prefixed, checksummed records. A file cut anywhere holds its leading whole records
and then a part of the next one, which a reader recognises by its length alone.
-/

namespace Codec.Journal
open List

def header : Nat := 8

def raw (checksum : UInt32) (payload : Bytes) : Bytes :=
  le32 payload.length ++ le32 checksum.toNat ++ payload

theorem length_raw (checksum : UInt32) (payload : Bytes) : (raw checksum payload).length = header + payload.length := by
  simp only [raw, header, length_append, length_le32]

def readHeader : Bytes → Option (Nat × UInt32)
  | a :: b :: c :: d :: e :: f :: g :: h :: _ => some (ofLe32 a b c d, UInt32.ofNat (ofLe32 e f g h))
  | _ => none

theorem readHeader_raw {checksum : UInt32} {payload : Bytes} (short : payload.length < 2 ^ 32) (rest : Bytes) :
    readHeader (raw checksum payload ++ rest) = some (payload.length, checksum) := by
  have sum : ofLe32 (UInt8.ofNat checksum.toNat) (UInt8.ofNat (checksum.toNat / 256))
      (UInt8.ofNat (checksum.toNat / 256 ^ 2)) (UInt8.ofNat (checksum.toNat / 256 ^ 3)) = checksum.toNat :=
    ofLe32_le32 checksum.toNat_lt
  simp only [raw, le32, cons_append, nil_append, readHeader, ofLe32_le32 short, sum, UInt32.ofNat_toNat]

theorem readHeader_take {bytes : Bytes} {count : Nat} (enough : header ≤ count) :
    readHeader (bytes.take count) = readHeader bytes := by
  obtain ⟨more, rfl⟩ : ∃ more, count = more + 8 := ⟨count - 8, by unfold header at enough; omega⟩
  match bytes with
  | [] | [_] | [_, _] | [_, _, _] | [_, _, _, _] | [_, _, _, _, _] | [_, _, _, _, _, _] | [_, _, _, _, _, _, _] => rfl
  | _ :: _ :: _ :: _ :: _ :: _ :: _ :: _ :: _ => rfl

theorem readHeader_short {bytes : Bytes} (short : bytes.length < header) : readHeader bytes = none := by
  unfold header at short
  match bytes with
  | [] | [_] | [_, _] | [_, _, _] | [_, _, _, _] | [_, _, _, _, _] | [_, _, _, _, _, _] | [_, _, _, _, _, _, _] => rfl
  | _ :: _ :: _ :: _ :: _ :: _ :: _ :: _ :: _ => simp only [length_cons] at short; omega

section
variable (checksum : Bytes → UInt32)

def record (payload : Bytes) : Bytes := raw (checksum payload) payload

def encode (records : List Bytes) : Bytes := records.flatMap (record checksum)

def whole : Nat → List Bytes → List Bytes
  | _, [] => []
  | length, payload :: records =>
    if (record checksum payload).length ≤ length
      then payload :: whole (length - (record checksum payload).length) records else []

def Torn (payload tail : Bytes) : Prop :=
  0 < tail.length ∧ tail.length < (record checksum payload).length ∧ tail = (record checksum payload).take tail.length

variable {checksum}

theorem length_record (payload : Bytes) : (record checksum payload).length = header + payload.length :=
  length_raw _ payload

theorem readHeader_record {payload : Bytes} (short : payload.length < 2 ^ 32) :
    readHeader (record checksum payload) = some (payload.length, checksum payload) := by
  have read := @readHeader_raw (checksum payload) payload short []
  rwa [append_nil] at read

theorem encode_cons (payload : Bytes) (records : List Bytes) :
    encode checksum (payload :: records) = record checksum payload ++ encode checksum records := flatMap_cons

theorem encode_append (left right : List Bytes) :
    encode checksum (left ++ right) = encode checksum left ++ encode checksum right := flatMap_append

theorem length_le_encode (records : List Bytes) : records.length ≤ (encode checksum records).length := by
  induction records with
  | nil => exact Nat.le_refl 0
  | cons payload records ih =>
    rw [encode_cons, length_append, length_record, length_cons]
    unfold header
    omega

theorem whole_prefix (length : Nat) (records : List Bytes) : whole checksum length records <+: records := by
  induction records generalizing length with
  | nil => exact prefix_rfl
  | cons payload records ih =>
    rw [whole]
    split
    · exact cons_prefix_cons.mpr ⟨rfl, ih _⟩
    · exact List.nil_prefix

theorem take_encode (length : Nat) (records : List Bytes) :
    ∃ tail, (encode checksum records).take length = encode checksum (whole checksum length records) ++ tail ∧
      (tail = [] ∨ ∃ payload ∈ records, Torn checksum payload tail) := by
  induction records generalizing length with
  | nil => exact ⟨[], by simp [encode, whole], .inl rfl⟩
  | cons payload records ih =>
    rw [encode_cons, whole]
    split
    · next fits =>
      obtain ⟨tail, cut, torn⟩ := ih (length - (record checksum payload).length)
      refine ⟨tail, ?_, ?_⟩
      · rw [take_append, take_of_length_le fits, cut, encode_cons, append_assoc]
      · rcases torn with rfl | ⟨other, member, torn⟩
        · exact .inl rfl
        · exact .inr ⟨other, mem_cons_of_mem _ member, torn⟩
    · next short =>
      refine ⟨(record checksum payload).take length, ?_, ?_⟩
      · rw [take_append_of_le_length (by omega)]
        rfl
      rcases Nat.eq_zero_or_pos length with rfl | positive
      · exact .inl rfl
      · refine .inr ⟨payload, mem_cons_self, ?_, ?_, ?_⟩
        all_goals rw [length_take, Nat.min_eq_left (by omega)]
        all_goals omega

end

end Codec.Journal
