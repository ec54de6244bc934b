import Tpf3Mp.Codec.Format
import Tpf3Mp.Data.Wrapping
import Mathlib.Data.Nat.Bitwise

/-!
The byte ring that carries messages one way between two processes (`tpf3mp-ipc`, `ring.rs`): free
running 32-bit counters over a buffer of a power of two bytes. Calls are taken as atomic. A copy that
would leave the ring's bytes or the caller's buffer has no result.
-/

namespace Tpf3Mp.Ipc
open Codec Data List

def lengthPrefix : Nat := 4

inductive PushError where
  | full
  | tooLarge (len max : Nat)
  | corrupt
  deriving DecidableEq

inductive PopError where
  | corrupt
  | bufferTooSmall (held needed : Nat)
  deriving DecidableEq

/-- A view of one direction's ring, as `Ring::new` asks for it. -/
structure Ring where
  capacity : UInt32
  maxMessage : UInt32
  power : ∃ bits ≤ 31, capacity.toNat = 2 ^ bits
  room : maxMessage.toNat + lengthPrefix ≤ capacity.toNat

/-- What the two processes share of a ring: its bytes and its counters. -/
structure Shared where
  data : Bytes
  head : UInt32
  tail : UInt32

namespace Ring
variable (r : Ring)

def writeWrapping (counter : UInt32) (source data : Bytes) : Option Bytes :=
  let mask := r.capacity - 1
  let start := (counter &&& mask).toNat
  writeAround r.capacity.toNat data start source

def readWrapping (counter : UInt32) (count : Nat) (data : Bytes) : Option Bytes :=
  let mask := r.capacity - 1
  let start := (counter &&& mask).toNat
  readAround r.capacity.toNat data start count

def fromLe : Bytes → UInt32
  | [a, b, c, d] => UInt32.ofNat (ofLe32 a b c d)
  | _ => 0

def push (s : Shared) (payload : Bytes) : Option (Shared × Except PushError Unit) :=
  if payload.length > r.maxMessage.toNat then
    some (s, .error (.tooLarge payload.length r.maxMessage.toNat))
  else
    let need := UInt32.ofNat lengthPrefix + UInt32.ofNat payload.length
    let used := s.tail - s.head
    -- A consumer that claims more bytes in use than the ring holds is broken or hostile.
    if used > r.capacity then some (s, .error .corrupt)
    else
      let free := r.capacity - used
      if need > free then some (s, .error .full)
      else do
        let data ← r.writeWrapping s.tail (le32 payload.length) s.data
        let data ← r.writeWrapping (s.tail + UInt32.ofNat lengthPrefix) payload data
        return ({ s with data, tail := s.tail + need }, .ok ())

/-- The length of the next message. The outer `none` is a copy that leaves the ring. -/
def peekLen (s : Shared) : Option (Option UInt32) :=
  let available := s.tail - s.head
  if available < UInt32.ofNat lengthPrefix || available > r.capacity then some none
  else do
    let length ← r.readWrapping s.head lengthPrefix s.data
    let len := fromLe length
    return if len ≤ r.maxMessage then some len else none

/-- Reads the next message into the caller's buffer: the buffer then, and the message's length. -/
def popInto (s : Shared) (out : Bytes) : Option (Shared × Bytes × Except PopError (Option Nat)) :=
  let available := s.tail - s.head
  if available = 0 then some (s, out, .ok none)
  else if available < UInt32.ofNat lengthPrefix || available > r.capacity then some (s, out, .error .corrupt)
  else do
    let length ← r.readWrapping s.head lengthPrefix s.data
    let len := fromLe length
    if len > r.maxMessage || available < UInt32.ofNat lengthPrefix + len then return (s, out, .error .corrupt)
    else if out.length < len.toNat then return (s, out, .error (.bufferTooSmall out.length len.toNat))
    else
      let message ← r.readWrapping (s.head + UInt32.ofNat lengthPrefix) len.toNat s.data
      let out ← copyIn out 0 message
      return ({ s with head := s.head + (UInt32.ofNat lengthPrefix + len) }, out, .ok (some len.toNat))

section Counters
variable {r : Ring} {counter : UInt32} {data source : Bytes} {count : Nat}

theorem capacity_pos : 0 < r.capacity.toNat := by
  obtain ⟨bits, _, power⟩ := r.power
  rw [power]
  exact Nat.two_pow_pos bits

theorem capacity_le : r.capacity.toNat ≤ 2 ^ 31 := by
  obtain ⟨bits, small, power⟩ := r.power
  rw [power]
  exact Nat.pow_le_pow_right Nat.two_pos small

theorem capacity_dvd : r.capacity.toNat ∣ 2 ^ 32 := by
  obtain ⟨bits, small, power⟩ := r.power
  rw [power]
  exact Nat.pow_dvd_pow 2 (by omega)

theorem mask_mod : (counter &&& (r.capacity - 1)).toNat = counter.toNat % r.capacity.toNat := by
  have positive := r.capacity_pos
  have one : (1 : UInt32) ≤ r.capacity := UInt32.le_iff_toNat_le.mpr positive
  rw [UInt32.toNat_and, UInt32.toNat_sub_of_le _ _ one]
  obtain ⟨bits, _, power⟩ := r.power
  rw [power]
  exact Nat.and_two_pow_sub_one_eq_mod _ _

section
variable (size : data.length = r.capacity.toNat)
include size

theorem rotate_add (counter step : UInt32) :
    data.rotate (counter + step).toNat = (data.rotate counter.toNat).rotate step.toNat := by
  rw [rotate_rotate, UInt32.toNat_add, ← rotate_mod, ← rotate_mod data (_ + _), size,
    Nat.mod_mod_of_dvd _ r.capacity_dvd]

theorem readWrapping_spec (counter : UInt32) (short : count ≤ r.capacity.toNat) :
    r.readWrapping counter count data = some ((data.rotate counter.toNat).take count) := by
  unfold readWrapping
  dsimp only
  rw [mask_mod, ← size, readAround_rotate (Nat.mod_lt _ (size ▸ r.capacity_pos)) (size ▸ short), rotate_mod]

theorem writeWrapping_spec (counter : UInt32) (short : source.length ≤ r.capacity.toNat) :
    ∃ data', r.writeWrapping counter source data = some data' ∧ data'.length = r.capacity.toNat ∧
      data'.rotate counter.toNat = source ++ (data.rotate counter.toNat).drop source.length := by
  have inside : counter.toNat % data.length < data.length := Nat.mod_lt _ (size ▸ r.capacity_pos)
  have short : source.length ≤ data.length := size ▸ short
  obtain ⟨data', written, same, turned⟩ := writeAround_rotate inside short
  unfold writeWrapping
  dsimp only
  rw [mask_mod, ← size]
  refine ⟨data', written, same, ?_⟩
  rw [← same, rotate_mod, same, rotate_mod] at turned
  exact turned

end

end Counters

section Calls
variable {r : Ring} {s : Shared} {payload out : Bytes}

def frame (payload : Bytes) : Bytes := le32 payload.length ++ payload

theorem length_frame (payload : Bytes) : (frame payload).length = lengthPrefix + payload.length := by
  rw [frame, length_append, length_le32]
  rfl

theorem toNat_need (small : payload.length ≤ r.maxMessage.toNat) :
    (UInt32.ofNat lengthPrefix + UInt32.ofNat payload.length).toNat = (frame payload).length := by
  have room := r.room
  have most := r.capacity_le
  rw [length_frame, ← UInt32.ofNat_add]
  exact UInt32.toNat_ofNat_of_lt' (show _ < 2 ^ 32 by omega)

theorem write_frame {data live free : Bytes} {head tail : UInt32} (size : data.length = r.capacity.toNat)
    (turned : data.rotate head.toNat = live ++ free) (used : (tail - head).toNat = live.length)
    (fits : (frame payload).length ≤ free.length) :
    ∃ data₁ data₂, r.writeWrapping tail (le32 payload.length) data = some data₁ ∧
      r.writeWrapping (tail + UInt32.ofNat lengthPrefix) payload data₁ = some data₂ ∧
      data₂.length = r.capacity.toNat ∧
      data₂.rotate head.toNat = live ++ frame payload ++ free.drop (frame payload).length := by
  have whole : live.length + free.length = r.capacity.toNat := by
    rw [← length_append, ← turned, length_rotate, size]
  rw [length_frame] at fits
  have tailed : tail = head + (tail - head) := by rw [UInt32.add_comm, UInt32.sub_add_cancel]
  have four : (UInt32.ofNat lengthPrefix).toNat = (le32 payload.length).length := rfl
  have short : (le32 payload.length).length ≤ r.capacity.toNat := by
    exact le_trans (Nat.le_add_left _ _) r.room
  obtain ⟨data₁, written₁, size₁, turned₁⟩ := writeWrapping_spec size tail short
  have behind : data.rotate tail.toNat = free ++ live := by
    rw [tailed, rotate_add size, turned, used, rotate_append_length_eq]
  rw [behind, drop_append_of_le_length (by rw [length_le32]; exact le_trans (Nat.le_add_right _ _) fits)] at turned₁
  obtain ⟨data₂, written₂, size₂, turned₂⟩ := writeWrapping_spec size₁ (tail + UInt32.ofNat lengthPrefix)
    (show payload.length ≤ r.capacity.toNat by omega)
  refine ⟨data₁, data₂, written₁, written₂, size₂, ?_⟩
  have before : data₁.rotate (tail + UInt32.ofNat lengthPrefix).toNat =
      (free.drop (le32 payload.length).length ++ live) ++ le32 payload.length := by
    rw [rotate_add size₁, turned₁, four, rotate_append_length_eq]
  have left : (free.drop (le32 payload.length).length).length = free.length - lengthPrefix := length_drop
  rw [before, append_assoc, drop_append_of_le_length (by omega), drop_drop] at turned₂
  -- Both sides come to the same when turned on to where the payload begins.
  have ahead : data₂.rotate (tail + UInt32.ofNat lengthPrefix).toNat =
      (data₂.rotate head.toNat).rotate (live ++ le32 payload.length).length := by
    rw [rotate_add size₂, tailed, rotate_add size₂, rotate_rotate, used, four, length_append]
  rw [ahead] at turned₂
  have parts : live ++ frame payload ++ free.drop (frame payload).length =
      (live ++ le32 payload.length) ++ (payload ++ free.drop (frame payload).length) := by
    unfold frame
    simp only [append_assoc]
  refine rotate_injective (live ++ le32 payload.length).length (turned₂.trans ?_)
  rw [parts, length_frame]
  refine Eq.trans ?_ (rotate_append_length_eq _ _).symm
  simp only [append_assoc]
  rfl

theorem push_spec (size : s.data.length = r.capacity.toNat) (small : payload.length ≤ r.maxMessage.toNat)
    (used : (s.tail - s.head).toNat ≤ r.capacity.toNat) :
    if r.capacity.toNat < (s.tail - s.head).toNat + (frame payload).length then
      r.push s payload = some (s, .error .full)
    else ∃ data', r.push s payload =
        some ({ s with data := data', tail := s.tail + UInt32.ofNat (frame payload).length }, .ok ()) ∧
      data'.length = r.capacity.toNat ∧ data'.rotate s.head.toNat =
        (s.data.rotate s.head.toNat).take (s.tail - s.head).toNat ++ frame payload ++
          (s.data.rotate s.head.toNat).drop ((s.tail - s.head).toNat + (frame payload).length) := by
  have need := toNat_need small
  have le : ¬s.tail - s.head > r.capacity := by
    rw [gt_iff_lt, UInt32.lt_iff_toNat_lt]
    omega
  have free : (r.capacity - (s.tail - s.head)).toNat = r.capacity.toNat - (s.tail - s.head).toNat :=
    UInt32.toNat_sub_of_le _ _ (UInt32.le_iff_toNat_le.mpr used)
  unfold push
  rw [if_neg (not_lt.mpr small)]
  rw [if_neg le]
  split
  · next full =>
    rw [if_pos]
    rw [gt_iff_lt, UInt32.lt_iff_toNat_lt, free, need]
    omega
  · next fits =>
    have split_ : s.data.rotate s.head.toNat = (s.data.rotate s.head.toNat).take (s.tail - s.head).toNat ++
        (s.data.rotate s.head.toNat).drop (s.tail - s.head).toNat := (take_append_drop _ _).symm
    have live : ((s.data.rotate s.head.toNat).take (s.tail - s.head).toNat).length = (s.tail - s.head).toNat :=
      length_take_of_le (by rw [length_rotate, size]; exact used)
    have rest : ((s.data.rotate s.head.toNat).drop (s.tail - s.head).toNat).length =
        r.capacity.toNat - (s.tail - s.head).toNat := by rw [length_drop, length_rotate, size]
    obtain ⟨data₁, data₂, written₁, written₂, size₂, turned⟩ := write_frame size split_ live.symm
      (show (frame payload).length ≤ _ by omega)
    have room : ¬UInt32.ofNat lengthPrefix + UInt32.ofNat payload.length > r.capacity - (s.tail - s.head) := by
      rw [gt_iff_lt, UInt32.lt_iff_toNat_lt, free, need]
      omega
    rw [if_neg room, written₁]
    simp only [Option.bind_eq_bind, Option.bind_some, written₂]
    refine ⟨data₂, ?_, size₂, ?_⟩
    · rw [← need, UInt32.ofNat_toNat]
      rfl
    · rw [turned, drop_drop]

def stated (s : Shared) : UInt32 := fromLe ((s.data.rotate s.head.toNat).take lengthPrefix)

section
variable (size : s.data.length = r.capacity.toNat)
include size

theorem readWrapping_length :
    r.readWrapping s.head lengthPrefix s.data = some ((s.data.rotate s.head.toNat).take lengthPrefix) :=
  readWrapping_spec size s.head (le_trans (Nat.le_add_left _ _) r.room)

theorem peekLen_spec : r.peekLen s = some
    (if s.tail - s.head < UInt32.ofNat lengthPrefix || s.tail - s.head > r.capacity then none
    else if stated s ≤ r.maxMessage then some (stated s) else none) := by
  unfold peekLen
  dsimp only
  rw [readWrapping_length size]
  split <;> rfl

/-- A pop always comes to a result: it never copies from beyond the ring or past the caller's buffer. -/
theorem popInto_spec : r.popInto s out = some (if s.tail - s.head = 0 then (s, out, .ok none)
    else if s.tail - s.head < UInt32.ofNat lengthPrefix || s.tail - s.head > r.capacity then (s, out, .error .corrupt)
    else if stated s > r.maxMessage || s.tail - s.head < UInt32.ofNat lengthPrefix + stated s then
      (s, out, .error .corrupt)
    else if out.length < (stated s).toNat then (s, out, .error (.bufferTooSmall out.length (stated s).toNat))
    else ({ s with head := s.head + (UInt32.ofNat lengthPrefix + stated s) },
      ((s.data.rotate s.head.toNat).drop lengthPrefix).take (stated s).toNat ++ out.drop (stated s).toNat,
      .ok (some (stated s).toNat))) := by
  unfold popInto
  dsimp only
  rw [readWrapping_length size]
  split
  · rfl
  split
  · rfl
  simp only [Option.bind_eq_bind, Option.bind_some]
  rw [← show stated s = fromLe _ from rfl]
  split
  · rfl
  rename_i sane
  split
  · rfl
  have short : (stated s).toNat ≤ r.maxMessage.toNat := by
    simp only [Bool.or_eq_true, decide_eq_true_eq, not_or, gt_iff_lt] at sane
    exact Nat.le_of_not_lt fun more => sane.1 (UInt32.lt_iff_toNat_lt.mpr more)
  have room := r.room
  have long : (s.data.rotate s.head.toNat).length = r.capacity.toNat := by rw [length_rotate, size]
  have message : r.readWrapping (s.head + UInt32.ofNat lengthPrefix) (stated s).toNat s.data =
      some (((s.data.rotate s.head.toNat).drop lengthPrefix).take (stated s).toNat) := by
    rw [readWrapping_spec size _ (by omega), rotate_add size, show (UInt32.ofNat lengthPrefix).toNat =
      lengthPrefix from rfl,
      rotate_eq_drop_append_take (by omega), take_append_of_le_length (by rw [length_drop]; omega)]
  have taken : (((s.data.rotate s.head.toNat).drop lengthPrefix).take (stated s).toNat).length = (stated s).toNat := by
    rw [length_take, length_drop]
    omega
  rw [message]
  simp only [Option.bind_some]
  rw [copyIn_some (by omega), taken]
  simp

end

end Calls

end Ring

end Tpf3Mp.Ipc
