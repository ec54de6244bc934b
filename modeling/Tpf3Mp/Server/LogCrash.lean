import Tpf3Mp.Run.Basic
import Tpf3Mp.Server.Persist

/-!
What a crash can do to a room's log. A log that was cut anywhere after its start record is read back
to its last whole record and continued from there; damage before the last record is refused and
stays on disk as it was.
-/

namespace Tpf3Mp.Server
open Codec Journal List

/-- Records a log takes one after another from an offset on. -/
def Limited : Nat → List Bytes → Prop
  | _, [] => True
  | offset, payload :: records =>
    payload.length ≤ RoomLog.recordLimit offset ∧ Limited (offset + (record crc32 payload).length) records

variable {disk : Disk} {records : List Bytes} {offset : Nat} {log : RoomLog}

theorem limited_append {left right : List Bytes} :
    Limited offset (left ++ right) ↔ Limited offset left ∧ Limited (offset + (encode crc32 left).length) right := by
  induction left generalizing offset with
  | nil => simp [Limited, encode]
  | cons payload left ih =>
    rw [cons_append, Limited, Limited, ih, encode_cons, length_append, Nat.add_assoc, and_assoc]

theorem recordLimit_later (later : 0 < offset) : RoomLog.recordLimit offset = maxRecord :=
  if_neg (by omega)

theorem recordLimit_le (offset : Nat) : RoomLog.recordLimit offset ≤ maxStartRecord := by
  unfold RoomLog.recordLimit
  split
  · exact le_rfl
  · decide

theorem limited_later (later : 0 < offset) (limited : Limited offset records) :
    ∀ payload ∈ records, payload.length ≤ maxRecord := by
  induction records generalizing offset with
  | nil => simp
  | cons first records ih =>
    intro payload member
    rcases mem_cons.mp member with rfl | member
    · rw [← recordLimit_later later]
      exact limited.1
    · exact ih (by omega) limited.2 payload member

theorem Limited.take {left right : List Bytes} (kept : left <+: right)
    (limited : Limited offset right) : Limited offset left := by
  obtain ⟨rest, rfl⟩ := kept
  exact (limited_append.mp limited).1

structure Stored (log : RoomLog) (disk : Disk) (records : List Bytes) : Prop where
  file : disk.file log.name = some (encode crc32 records)
  written : log.written = (encode crc32 records).length
  limited : Limited 0 records
  small : log.written ≤ logLimit

/-- A file holds the beginning of these records. -/
structure Part (name : LogName) (disk : Disk) (records : List Bytes) : Prop where
  file : ∃ count, disk.file name = some ((encode crc32 records).take count)
  limited : Limited 0 records
  small : (encode crc32 records).length ≤ logLimit

theorem Stored.part (stored : Stored log disk records) : Part log.name disk records :=
  ⟨⟨_, by rw [stored.file, take_length]⟩, stored.limited, stored.written ▸ stored.small⟩

theorem encode_push (records : List Bytes) (payload : Bytes) :
    encode crc32 (records ++ [payload]) = encode crc32 records ++ record crc32 payload := by
  rw [encode_append, encode_cons]
  exact congrArg _ (append_nil _)

namespace RoomLog

variable {log : RoomLog} {disk disk' : Disk} {records : List Bytes} {payload : Bytes} {write : Write}
  {result : Except IoError RoomLog} {log' : RoomLog} {payloads : List Bytes} {writes : Nat → Write}

section
variable (stored : Stored log disk records)
include stored

theorem append_cases (appended : log.append payload write disk = (disk', result)) :
    (disk' = disk ∧ ∃ error, result = .error error) ∨ Limited 0 (records ++ [payload]) ∧
      log.written + (header + payload.length) ≤ logLimit ∧
      ((write = .done ∧ disk' = disk.put (some (encode crc32 records ++ record crc32 payload)) log.name ∧
          result = .ok { log with written := log.written + (header + payload.length) }) ∨
        ∃ count, disk' = disk.put (some (encode crc32 records ++ (record crc32 payload).take count)) log.name ∧
          result = .error .device) := by
  unfold append at appended
  split at appended
  · cases appended
    exact .inl ⟨rfl, _, rfl⟩
  dsimp only at appended
  split at appended
  · cases appended
    exact .inl ⟨rfl, _, rfl⟩
  rename_i space
  have limited : Limited 0 (records ++ [payload]) := by
    rw [limited_append]
    refine ⟨stored.limited, ?_, trivial⟩
    rw [Nat.zero_add, ← stored.written]
    omega
  refine .inr ⟨limited, not_lt.mp space, ?_⟩
  rw [stored.file] at appended
  split at appended
  · cases appended
    exact .inl ⟨rfl, rfl, rfl⟩
  · cases appended
    exact .inr ⟨_, rfl, rfl⟩

theorem append_stored (appended : log.append payload write disk = (disk', .ok log')) :
    Stored log' disk' (records ++ [payload]) ∧ log'.name = log.name ∧ log'.replaces = log.replaces := by
  rcases append_cases stored appended with ⟨_, _, failed⟩ | ⟨limited, space, ⟨_, rfl, done⟩ | ⟨_, _, failed⟩⟩
  · cases failed
  · cases done
    refine ⟨⟨?_, ?_, limited, space⟩, rfl, rfl⟩
    · rw [encode_push, Disk.file_put]
    · rw [encode_push, length_append, length_record, ← stored.written]
  · cases failed

theorem append_part {error : IoError} (appended : log.append payload write disk = (disk', .error error)) :
    Part log.name disk' records ∨ Part log.name disk' (records ++ [payload]) := by
  rcases append_cases stored appended with ⟨rfl, _⟩ | ⟨limited, space, ⟨_, _, done⟩ | ⟨count, rfl, _⟩⟩
  · exact .inl stored.part
  · cases done
  refine .inr ⟨⟨(encode crc32 records).length + count, ?_⟩, limited, ?_⟩
  · rw [Disk.file_put, encode_push, take_length_add_append]
  · rw [encode_push, length_append, length_record, ← stored.written]
    exact space

end

theorem append_name (appended : log.append payload write disk = (disk', .ok log')) : log'.name = log.name := by
  unfold append at appended
  split at appended
  · cases appended
  dsimp only at appended
  split at appended
  · cases appended
  · split at appended <;> cases appended
    rfl

theorem append_other {name : LogName} (other : name ≠ log.name)
    (appended : log.append payload write disk = (disk', result)) : disk'.file name = disk.file name := by
  unfold append at appended
  split at appended
  · cases appended
    rfl
  dsimp only at appended
  split at appended
  · cases appended
    rfl
  · split at appended <;> cases appended <;> exact Disk.file_put_other _ _ other

theorem appendAll_stored
    (stored : Stored log disk records) (appended : log.appendAll payloads writes disk = (disk', .ok log')) :
    Stored log' disk' (records ++ payloads) ∧ log'.name = log.name ∧ log'.replaces = log.replaces := by
  induction payloads generalizing log disk records writes with
  | nil =>
    cases appended
    rw [append_nil]
    exact ⟨stored, rfl, rfl⟩
  | cons payload payloads ih =>
    unfold appendAll at appended
    split at appended
    · next middle next first =>
      obtain ⟨stored', same, kind⟩ := append_stored stored first
      obtain ⟨rest, name, replaces⟩ := ih stored' appended
      rw [append_assoc] at rest
      exact ⟨rest, name.trans same, replaces.trans kind⟩
    · cases appended

theorem appendAll_part {error : IoError} (stored : Stored log disk records)
    (appended : log.appendAll payloads writes disk = (disk', .error error)) :
    ∃ written, written <+: payloads ∧ Part log.name disk' (records ++ written) := by
  induction payloads generalizing log disk records writes with
  | nil => cases appended
  | cons payload payloads ih =>
    unfold appendAll at appended
    split at appended
    · next middle next first =>
      obtain ⟨stored', same, _⟩ := append_stored stored first
      obtain ⟨written, fewer, part⟩ := ih stored' appended
      rw [append_assoc, same] at part
      exact ⟨payload :: written, cons_prefix_cons.mpr ⟨rfl, fewer⟩, part⟩
    · next first =>
      cases appended
      rcases append_part stored first with part | part
      · exact ⟨[], List.nil_prefix, by rwa [append_nil]⟩
      · exact ⟨[payload], cons_prefix_cons.mpr ⟨rfl, List.nil_prefix⟩, part⟩

theorem appendAll_other {name : LogName} (other : name ≠ log.name)
    (appended : log.appendAll payloads writes disk = (disk', result)) : disk'.file name = disk.file name := by
  induction payloads generalizing log disk writes with
  | nil =>
    cases appended
    rfl
  | cons payload payloads ih =>
    unfold appendAll at appended
    split at appended
    · next middle next first =>
      rw [ih (append_name first ▸ other) appended, append_other other first]
    · next first =>
      cases appended
      exact append_other other first

end RoomLog

namespace LogReader

structure At (r : LogReader) (before after : Bytes) : Prop where
  file : r.file = before ++ after
  offset : r.offset = before.length
  intact : r.tornAt = none

variable {r : LogReader} {before payload : Bytes} {count : Nat} {σ ε : Type} {refused : LogError → ε}
  {step : σ → Bytes → Except ε σ} {s : σ} {after tail : Bytes} {r' : LogReader}

theorem At.not_torn (at_ : r.At before after) (more : after ≠ []) :
    ¬ (r.tornAt.isSome = true ∨ r.offset = r.file.length) := by
  have length := length_pos_iff.mpr more
  rw [at_.intact, at_.offset, at_.file, length_append]
  simp only [Option.isSome_none, Bool.false_eq_true, false_or]
  omega

theorem nextRecord_end (at_ : r.At before []) : r.nextRecord = .ok (none, r) := by
  unfold nextRecord
  rw [if_pos (.inr (by rw [at_.offset, at_.file, append_nil]))]

theorem nextRecord_raw {crc : UInt32}
    (at_ : r.At before (raw crc payload ++ after)) (short : payload.length < 2 ^ 32) : r.nextRecord =
      if payload.length > RoomLog.recordLimit r.offset then .error (.damaged r.offset)
      else if crc32 payload ≠ crc then if after = [] then r.torn else .error (.damaged r.offset)
      else .ok (some payload, { r with offset := r.offset + (header + payload.length) }) := by
  have nonempty : raw crc payload ++ after ≠ [] := by simp [raw, le32]
  have rest : r.file.drop r.offset = raw crc payload ++ after := by
    rw [at_.file, at_.offset, drop_left]
  have body : (r.file.drop (r.offset + header)).take payload.length = payload := by
    rw [← drop_drop, rest, raw, append_assoc, drop_left' (by simp [header]),
      take_left]
  have length : r.file.length = r.offset + (header + payload.length) + after.length := by
    rw [at_.file, at_.offset, length_append, length_append, length_raw]
    omega
  have last : (r.offset + (header + payload.length) = r.file.length) ↔ after = [] := by
    rw [length, ← length_eq_zero_iff]
    omega
  unfold nextRecord
  rw [if_neg (at_.not_torn nonempty), rest, readHeader_raw short]
  dsimp only
  rw [body, if_neg (by omega : ¬ r.offset + (header + payload.length) > r.file.length)]
  simp only [last]

theorem nextRecord_part (at_ : r.At before tail)
    (torn : Torn crc32 payload tail) (short : payload.length ≤ RoomLog.recordLimit r.offset) :
    r.nextRecord = r.torn := by
  obtain ⟨positive, partly, part⟩ := torn
  have nonempty : tail ≠ [] := ne_nil_of_length_pos positive
  have rest : r.file.drop r.offset = tail := by
    rw [at_.file, at_.offset, drop_left]
  unfold nextRecord
  rw [if_neg (at_.not_torn nonempty), rest]
  by_cases enough : header ≤ tail.length
  · -- The header is whole, so the record's length is the one that was written.
    have small : payload.length < 2 ^ 32 := lt_of_le_of_lt (le_trans short (recordLimit_le _)) (by decide)
    have head : readHeader tail = some (payload.length, crc32 payload) := by
      rw [part, readHeader_take enough, readHeader_record small]
    have length : r.file.length = r.offset + tail.length := by
      rw [at_.file, at_.offset, length_append]
    rw [length_record] at partly
    rw [head]
    dsimp only
    rw [if_neg (not_lt.mpr short), if_pos (by omega)]
  · rw [readHeader_short (not_le.mp enough)]

theorem nextRecord_torn (at_ : r.At before tail)
    (torn : Torn crc32 payload tail) (short : payload.length ≤ maxRecord) (later : 0 < before.length) :
    r.nextRecord = .ok (none, { r with tornAt := some r.offset }) := by
  have after : 0 < r.offset := at_.offset ▸ later
  rw [nextRecord_part at_ torn (recordLimit_later after ▸ short)]
  exact if_neg (by omega)

theorem nextRecord_unbegun
    (at_ : r.At [] ((record crc32 payload).take count)) (cut : count < (record crc32 payload).length)
    (short : payload.length ≤ maxStartRecord) : ∀ found r', r.nextRecord ≠ .ok (some found, r') := by
  intro found r' read
  have start : r.offset = 0 := at_.offset
  cases count with
  | zero =>
    rw [nextRecord_end at_] at read
    cases read
  | succ count =>
    have size : ((record crc32 payload).take (count + 1)).length = count + 1 :=
      length_take_of_le (le_of_lt cut)
    have torn : Torn crc32 payload ((record crc32 payload).take (count + 1)) :=
      ⟨by omega, by omega, by rw [size]⟩
    have limit : RoomLog.recordLimit r.offset = maxStartRecord := if_pos start
    rw [nextRecord_part at_ torn (limit ▸ short), LogReader.torn, if_pos start] at read
    cases read

theorem forEach_encode {records : List Bytes} (enough : records.length < count)
    (at_ : r.At before (encode crc32 records ++ tail)) (limited : Limited before.length records)
    (ending : tail = [] ∨ (∃ payload, Torn crc32 payload tail ∧ payload.length ≤ maxRecord) ∧
      0 < before.length + records.length) : forEach refused step count r s = (records.foldlM step s).map (·, { r with
      offset := before.length + (encode crc32 records).length
      tornAt := if tail = [] then none else some (before.length + (encode crc32 records).length) }) := by
  induction records generalizing count r s before with
  | nil =>
    obtain ⟨count, rfl⟩ : ∃ less, count = less + 1 := ⟨count - 1, by simp only [length_nil] at enough; omega⟩
    have here : r.At before tail := at_
    unfold forEach
    rcases ending with rfl | ⟨⟨payload, torn, short⟩, later⟩
    · rw [nextRecord_end here]
      have same : r = { r with offset := before.length, tornAt := none } := by
        rw [← here.offset, ← here.intact]
      exact congrArg (fun r => Except.ok (s, r)) same
    · rw [nextRecord_torn here torn short later, if_neg (length_pos_iff.mp torn.1), here.offset]
      rfl
  | cons payload records ih =>
    obtain ⟨count, rfl⟩ : ∃ less, count = less + 1 := ⟨count - 1, by omega⟩
    have here : r.At before (raw (crc32 payload) payload ++ (encode crc32 records ++ tail)) := by
      rw [encode_cons, append_assoc] at at_
      exact at_
    have small : payload.length < 2 ^ 32 :=
      lt_of_le_of_lt (le_trans limited.1 (recordLimit_le _)) (by decide)
    have read := nextRecord_raw here small
    rw [here.offset, if_neg (not_lt.mpr limited.1), if_neg (by simp), ← @length_record crc32 payload] at read
    have onward : ({ r with offset := before.length + (record crc32 payload).length } : LogReader).At
        (before ++ record crc32 payload) (encode crc32 records ++ tail) := by
      refine ⟨?_, by rw [length_append], here.intact⟩
      rw [here.file, append_assoc]
      rfl
    have fewer : records.length < count := Nat.lt_of_succ_lt_succ enough
    have rest := fun s' => ih (s := s') fewer onward
      (by rw [length_append]; exact limited.2)
      (ending.imp_right fun ⟨found, _⟩ => ⟨found, by rw [length_append, length_record]; unfold header; omega⟩)
    unfold forEach
    rw [read, foldlM_cons]
    dsimp only
    cases first : step s payload with
    | error error => rfl
    | ok s' =>
      apply (rest s').trans
      rw [encode_cons, length_append, length_append, Nat.add_assoc]
      rfl

theorem collect (records found : List Bytes) :
    records.foldlM (fun records payload => (.ok (records ++ [payload]) : Except LogError (List Bytes))) found =
      .ok (found ++ records) := by
  induction records generalizing found with
  | nil => rw [append_nil]; rfl
  | cons payload records ih =>
    apply (ih _).trans
    rw [append_assoc]
    rfl

theorem nextRecord_forward (read : r.nextRecord = .ok (some payload, r')) :
    r'.file = r.file ∧ r.offset < r'.offset ∧ r'.offset ≤ r.file.length := by
  have untorn : r.torn ≠ .ok (some payload, r') := by
    unfold torn
    split
    · intro same
      cases same
    · intro same
      cases same
  unfold nextRecord at read
  split at read
  · cases read
  split at read
  · exact absurd read untorn
  split at read
  · cases read
  dsimp only at read
  split at read
  · exact absurd read untorn
  rename_i inside
  split at read
  · split at read
    · exact absurd read untorn
    · cases read
  cases read
  refine ⟨rfl, ?_, not_lt.mp inside⟩
  dsimp only [header]
  omega

theorem forEach_more (enough : r.file.length - r.offset < count) :
    forEach refused step (count + 1) r s = forEach refused step count r s := by
  induction count generalizing r s with
  | zero => exact absurd enough (Nat.not_lt_zero _)
  | succ count ih =>
    rw [forEach, forEach]
    cases read : r.nextRecord with
    | error error => rfl
    | ok result =>
      obtain ⟨payload, onward⟩ := result
      cases payload with
      | none => rfl
      | some payload =>
        obtain ⟨same, forward, inside⟩ := nextRecord_forward read
        dsimp only
        cases step s payload with
        | error error => rfl
        | ok s' => exact ih (by rw [same]; omega)

theorem forEach_records {s' : σ} (found : List Bytes) (done : forEach refused step count r s = .ok (s', r')) :
    ∃ records, records.foldlM step s = .ok s' ∧
      forEach id (fun records payload => .ok (records ++ [payload])) count r found = .ok (found ++ records, r') := by
  induction count generalizing r s found with
  | zero =>
    cases done
    exact ⟨[], rfl, by rw [append_nil]; rfl⟩
  | succ count ih =>
    unfold forEach at done ⊢
    cases read : r.nextRecord with
    | error error =>
      rw [read] at done
      cases done
    | ok result =>
      obtain ⟨payload, onward⟩ := result
      rw [read] at done
      cases payload with
      | none =>
        cases done
        exact ⟨[], rfl, by rw [append_nil]⟩
      | some payload =>
        obtain ⟨middle, stepped, rest⟩ := Run.bind_ok.mp done
        obtain ⟨records, folded, collected⟩ := ih (found ++ [payload]) rest
        refine ⟨payload :: records, ?_, ?_⟩
        · rw [foldlM_cons]
          exact Run.bind_ok.mpr ⟨middle, stepped, folded⟩
        · rw [append_cons]
          exact collected

theorem forEach_eq {found records : List Bytes}
    (read : forEach id (fun records payload => .ok (records ++ [payload])) count r found = .ok (found ++ records, r')) :
    forEach refused step count r s = (records.foldlM step s).map (·, r') := by
  induction count generalizing r s found records with
  | zero =>
    obtain ⟨same, rfl⟩ := Prod.mk.inj (Except.ok.inj read)
    obtain rfl := self_eq_append_right.mp same
    rfl
  | succ count ih =>
    unfold forEach at read ⊢
    cases next : r.nextRecord with
    | error error =>
      rw [next] at read
      cases read
    | ok result =>
      obtain ⟨payload, onward⟩ := result
      rw [next] at read
      cases payload with
      | none =>
        obtain ⟨same, rfl⟩ := Prod.mk.inj (Except.ok.inj read)
        obtain rfl := self_eq_append_right.mp same
        rfl
      | some payload =>
        have rest : forEach id (fun records payload => .ok (records ++ [payload])) count onward (found ++ [payload]) =
            .ok (found ++ records, r') := read
        obtain ⟨later, _, collected⟩ := forEach_records (found ++ [payload]) rest
        rw [collected, append_assoc] at rest
        obtain rfl := append_cancel_left (Prod.mk.inj (Except.ok.inj rest)).1
        dsimp only
        rw [singleton_append, foldlM_cons]
        cases step s payload with
        | error error => rfl
        | ok s' => exact ih collected

/-- The bytes of records with whatever checksums they carry. -/
def raws (records : List (UInt32 × Bytes)) : Bytes := records.flatMap fun (crc, payload) => raw crc payload

theorem length_le_raws (records : List (UInt32 × Bytes)) : records.length ≤ (raws records).length := by
  induction records with
  | nil => exact Nat.le_refl 0
  | cons item records ih =>
    rw [raws, flatMap_cons, length_append, length_raw, length_cons]
    unfold header
    unfold raws at ih
    omega

theorem forEach_damaged {crc : UInt32} {records : List (UInt32 × Bytes)}
    (enough : records.length < count) (at_ : r.At before (raws records ++ (raw crc payload ++ after)))
    (lengths : ∀ item ∈ records, item.2.length < 2 ^ 32) (short : payload.length < 2 ^ 32)
    (mismatch : crc32 payload ≠ crc) (more : after ≠ []) : ∃ error, forEach refused step count r s = .error error := by
  induction records generalizing count r s before with
  | nil =>
    obtain ⟨count, rfl⟩ : ∃ less, count = less + 1 := ⟨count - 1, by simp only [length_nil] at enough; omega⟩
    have here : r.At before (raw crc payload ++ after) := at_
    have read := nextRecord_raw here short
    unfold forEach
    rw [if_pos mismatch, if_neg more, ite_self] at read
    rw [read]
    exact ⟨_, rfl⟩
  | cons item records ih =>
    obtain ⟨count, rfl⟩ : ∃ less, count = less + 1 := ⟨count - 1, by omega⟩
    obtain ⟨crc', payload'⟩ := item
    have here : r.At before (raw crc' payload' ++ (raws records ++ (raw crc payload ++ after))) := by
      rw [← append_assoc]
      exact at_
    have rest : raws records ++ (raw crc payload ++ after) ≠ [] := by simp [more]
    have read := nextRecord_raw here (lengths _ mem_cons_self)
    unfold forEach
    split at read
    · rw [read]
      exact ⟨_, rfl⟩
    split at read
    · rw [read]
      exact ⟨_, rfl⟩
    rw [read]
    dsimp only
    cases step s payload' with
    | error error => exact ⟨error, rfl⟩
    | ok s' =>
      have onward : ({ r with offset := r.offset + (header + payload'.length) } : LogReader).At
          (before ++ raw crc' payload') (raws records ++ (raw crc payload ++ after)) :=
        ⟨by rw [here.file, append_assoc], by rw [here.offset, length_append, length_raw], here.intact⟩
      exact ih (Nat.lt_of_succ_lt_succ enough) onward
        (fun item member => lengths item (mem_cons_of_mem _ member))

end LogReader

def readRecords (name : LogName) (disk : Disk) : Except LogError (List Bytes × LogReader) := do
  let r ← RoomLog.read name disk
  r.readAll

/-- What a restart does with a room's log, but for replaying the records. -/
def reopen (name : LogName) (disk : Disk) : Disk × Except LogError (List Bytes × RoomLog) :=
  match readRecords name disk with
  | .error error => (disk, .error error)
  | .ok (records, r) =>
    match r.intoLog disk with
    | (disk, .ok log) => (disk, .ok (records, log))
    | (disk, .error error) => (disk, .error (.io error))

theorem reopen_encode {name : LogName} {tail : Bytes}
    (held : disk.file name = some (encode crc32 records ++ tail)) (limited : Limited 0 records)
    (small : (encode crc32 records ++ tail).length ≤ logLimit)
    (ending : tail = [] ∨ (∃ payload, Torn crc32 payload tail ∧ payload.length ≤ maxRecord) ∧ 0 < records.length) :
    reopen name disk = (disk.put (some (encode crc32 records)) name, .ok (records,
      { name, written := (encode crc32 records).length, replaces := false })) := by
  let r : LogReader := { name, file := encode crc32 records ++ tail, offset := 0, tornAt := none }
  let last : LogReader := { r with
    offset := (encode crc32 records).length
    tornAt := if tail = [] then none else some (encode crc32 records).length }
  have opened : RoomLog.read name disk = .ok r := by
    unfold RoomLog.read
    rw [held]
    exact if_neg (by omega)
  have enough : records.length < r.rounds := by
    have each := @length_le_encode crc32 records
    dsimp only [LogReader.rounds, r]
    rw [length_append]
    omega
  have read : readRecords name disk = .ok (records, last) := by
    unfold readRecords
    rw [opened]
    have here : r.At [] (encode crc32 records ++ tail) := ⟨rfl, rfl, rfl⟩
    show r.readAll = _
    unfold LogReader.readAll
    rw [LogReader.forEach_encode enough here limited (by simpa using ending), LogReader.collect]
    simp [last, r, Except.map]
  unfold reopen
  rw [read]
  dsimp only
  unfold LogReader.intoLog
  rw [show last.name = name from rfl, held]
  by_cases clean : tail = []
  · subst clean
    simp [last, r]
  · simp [last, r, clean]

theorem Stored.reopened (stored : Stored log disk records) :
    reopen log.name disk = (disk, .ok (records, { log with replaces := false })) := by
  have held : disk.file log.name = some (encode crc32 records ++ []) := by
    rw [append_nil]
    exact stored.file
  have small : (encode crc32 records ++ []).length ≤ logLimit := by
    rw [append_nil, ← stored.written]
    exact stored.small
  rw [reopen_encode held stored.limited small (.inl rfl), ← stored.file, Disk.put_file, ← stored.written]

theorem Stored.cut {start : Bytes} {length : Nat}
    (stored : Stored log disk (start :: records)) (started : (record crc32 start).length ≤ length) :
    let kept := start :: whole crc32 (length - (record crc32 start).length) records
    let torn := disk.put ((disk.file log.name).map (·.take length)) log.name
    ∃ disk', reopen log.name torn = (disk', .ok (kept, { log with
        written := (encode crc32 kept).length, replaces := false })) ∧
      Stored { log with written := (encode crc32 kept).length, replaces := false } disk' kept := by
  intro kept torn
  obtain ⟨tail, cut, ending⟩ := @take_encode crc32 (length - (record crc32 start).length) records
  have left : (encode crc32 (start :: records)).take length = encode crc32 kept ++ tail := by
    rw [encode_cons, take_append, take_of_length_le started, cut, encode_cons, append_assoc]
  have held : torn.file log.name = some (encode crc32 kept ++ tail) := by
    rw [Disk.file_put, stored.file, Option.map_some, left]
  have whole_le : (encode crc32 kept ++ tail).length ≤ logLimit := by
    rw [← left]
    exact le_trans (length_take_le' _ _) (stored.written ▸ stored.small)
  have limited : Limited 0 kept :=
    stored.limited.take (cons_prefix_cons.mpr ⟨rfl, whole_prefix _ _⟩)
  have later : ∀ payload ∈ records, payload.length ≤ maxRecord :=
    limited_later (by rw [length_record]; unfold header; omega) stored.limited.2
  refine ⟨_, reopen_encode held limited whole_le ?_, ?_⟩
  · exact ending.imp_right fun ⟨payload, member, partly⟩ =>
      ⟨⟨payload, partly, later payload member⟩, Nat.succ_pos _⟩
  · refine ⟨by rw [Disk.file_put], rfl, limited, ?_⟩
    rw [length_append] at whole_le
    exact le_trans (Nat.le_add_right _ _) whole_le

def emptyLog : RoomLog := { name := .log, written := 0, replaces := false }

theorem emptyLog_stored (empty : disk.log = some []) : Stored emptyLog disk [] :=
  ⟨empty, rfl, trivial, Nat.zero_le _⟩

theorem reopen_damaged {records : List (UInt32 × Bytes)} {crc : UInt32} {payload after : Bytes}
    (held : disk.log = some (LogReader.raws records ++ (raw crc payload ++ after)))
    (lengths : ∀ item ∈ records, item.2.length < 2 ^ 32) (short : payload.length < 2 ^ 32)
    (mismatch : crc32 payload ≠ crc) (more : after ≠ []) :
    ∃ error, readRecords .log disk = .error error ∧ reopen .log disk = (disk, .error error) := by
  have failed : ∃ error, readRecords .log disk = .error error := by
    unfold readRecords RoomLog.read
    rw [show disk.file .log = disk.log from rfl, held]
    dsimp only
    split
    · exact ⟨_, rfl⟩
    have each := LogReader.length_le_raws records
    let r : LogReader := { name := .log, file := LogReader.raws records ++ (raw crc payload ++ after)
                           offset := 0, tornAt := none }
    have here : r.At [] (LogReader.raws records ++ (raw crc payload ++ after)) := ⟨rfl, rfl, rfl⟩
    have enough : records.length < r.rounds := by
      dsimp only [LogReader.rounds, r]
      rw [length_append]
      omega
    exact LogReader.forEach_damaged enough here lengths short mismatch more
  obtain ⟨error, failed⟩ := failed
  refine ⟨error, failed, ?_⟩
  unfold reopen
  rw [failed]

/-- A log cut anywhere after its start record reads back to the records that are whole, and goes on
from them; one with a bad record before its last is refused and not touched. -/
theorem log_survives_crash :
    (∀ (disk written : Disk) (start : Bytes) (records : List Bytes) (log : RoomLog) (file : Bytes) (length : Nat),
      disk.log = some [] →
      emptyLog.appendAll (start :: records) (fun _ => .done) disk = (written, .ok log) →
      written.log = some file → (record crc32 start).length ≤ length → length ≤ file.length →
      let kept := start :: whole crc32 (length - (record crc32 start).length) records
      ∃ reopened continued, reopen .log { written with log := some (file.take length) } =
          (reopened, .ok (kept, continued)) ∧
        ∀ more after last, continued.appendAll more (fun _ => .done) reopened = (after, .ok last) →
          reopen .log after = (after, .ok (kept ++ more, last))) ∧
    (∀ (disk : Disk) (records : List (UInt32 × Bytes)) (crc : UInt32) (payload after : Bytes),
      disk.log = some (LogReader.raws records ++ (raw crc payload ++ after)) →
      (∀ item ∈ records, item.2.length < 2 ^ 32) → payload.length < 2 ^ 32 → crc32 payload ≠ crc → after ≠ [] →
      ∃ error, readRecords .log disk = .error error ∧ reopen .log disk = (disk, .error error)) := by
  constructor
  · intro disk written start records log file length empty appended held started _ kept
    obtain ⟨stored, name, _⟩ := RoomLog.appendAll_stored (emptyLog_stored empty) appended
    obtain ⟨reopened, cut, stored'⟩ := stored.cut started
    rw [name] at cut stored'
    rw [show written.file emptyLog.name = written.log from rfl, held] at cut
    refine ⟨reopened, _, cut, ?_⟩
    intro more after last appended'
    obtain ⟨final, name', replaces⟩ := RoomLog.appendAll_stored stored' appended'
    have read := final.reopened
    have same : ({ last with replaces := false } : RoomLog) = last := congrArg (RoomLog.mk _ _) replaces.symm
    rw [same, name'] at read
    exact read
  · intro disk records crc payload after held lengths short mismatch more
    exact reopen_damaged held lengths short mismatch more

theorem log_survives_crash_torn :
    let disk : Disk := { log := some [], compacting := none }
    let file := encode crc32 [[7], [1], [2]]
    ∃ reopened continued,
      reopen .log { disk with log := some (file.take 25) } = (reopened, .ok ([[7], [1]], continued)) ∧
      (∀ more after last, continued.appendAll more (fun _ => .done) reopened = (after, .ok last) →
        reopen .log after = (after, .ok ([[7], [1]] ++ more, last))) ∧
      ∃ error, reopen .log { disk with log := some (raw 0 [7] ++ [1]) } =
        ({ disk with log := some (raw 0 [7] ++ [1]) }, .error error) := by
  intro disk file
  let log : RoomLog := { name := .log, written := 27, replaces := false }
  have appended : emptyLog.appendAll [[7], [1], [2]] (fun _ => .done) disk =
      ({ disk with log := some file }, .ok log) := by decide
  obtain ⟨reopened, continued, read, go⟩ := log_survives_crash.1 disk { disk with log := some file }
    [7] [[1], [2]] log file 25 rfl appended rfl (by decide) (by decide)
  obtain ⟨error, _, refused⟩ := log_survives_crash.2 { disk with log := some (raw 0 [7] ++ [1]) } [] 0 [7] [1]
    rfl (by simp) (by decide) (by decide) (by simp)
  exact ⟨reopened, continued, read, go, error, refused⟩

end Tpf3Mp.Server
