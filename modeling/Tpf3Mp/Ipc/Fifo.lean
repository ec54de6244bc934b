import Tpf3Mp.Ipc.Ring

/-!
A ring between one producer and one consumer is a queue of messages, whatever value its counters
started from and however often they wrapped.
-/

namespace Tpf3Mp.Ipc
open Codec Data List

inductive Call where
  | push (payload : Bytes)
  | pop (out : Bytes)

inductive Reply where
  | pushed (result : Except PushError Unit)
  | popped (out : Bytes) (result : Except PopError (Option Nat))

def Reply.moved : Reply → Bool
  | .pushed (.ok ()) | .popped _ (.ok (some _)) => true
  | _ => false

def accepted (calls : List Call) (replies : List Reply) : List Bytes :=
  (calls.zip replies).filterMap fun
    | (.push payload, .pushed (.ok ())) => some payload
    | _ => none

def delivered (replies : List Reply) : List Bytes :=
  replies.filterMap fun
    | .popped out (.ok (some len)) => some (out.take len)
    | _ => none

namespace Ring
variable (r : Ring)

def call (s : Shared) : Call → Option (Shared × Reply)
  | .push payload => (r.push s payload).map fun (s, result) => (s, .pushed result)
  | .pop out => (r.popInto s out).map fun (s, out, result) => (s, .popped out result)

def calls : Shared → List Call → Option (Shared × List Reply)
  | s, [] => some (s, [])
  | s, call :: rest => do
    let (s, reply) ← r.call s call
    let (s, replies) ← calls s rest
    return (s, reply :: replies)

def taken (queue : List Bytes) : Nat := (queue.map fun message => lengthPrefix + message.length).sum

/-- A queue of messages that takes messages while a ring has space for them. -/
def answer (queue : List Bytes) : Call → List Bytes × Reply
  | .push payload =>
    if r.maxMessage.toNat < payload.length then
      (queue, .pushed (.error (.tooLarge payload.length r.maxMessage.toNat)))
    else if r.capacity.toNat - taken queue < lengthPrefix + payload.length then (queue, .pushed (.error .full))
    else (queue ++ [payload], .pushed (.ok ()))
  | .pop out =>
    match queue with
    | [] => ([], .popped out (.ok none))
    | message :: rest =>
      if out.length < message.length then (queue, .popped out (.error (.bufferTooSmall out.length message.length)))
      else (rest, .popped (message ++ out.drop message.length) (.ok (some message.length)))

def answers : List Bytes → List Call → List Bytes × List Reply
  | queue, [] => (queue, [])
  | queue, call :: rest =>
    let (queue, reply) := r.answer queue call
    let (queue, replies) := answers queue rest
    (queue, reply :: replies)

/-- The ring's bytes in use are the frames of the queue's messages. -/
structure Holds (s : Shared) (queue : List Bytes) : Prop where
  size : s.data.length = r.capacity.toNat
  turned : ∃ free, s.data.rotate s.head.toNat = queue.flatMap frame ++ free
  used : (s.tail - s.head).toNat = (queue.flatMap frame).length
  small : ∀ message ∈ queue, message.length ≤ r.maxMessage.toNat

section Queue
variable {r : Ring} {s : Shared} {queue : List Bytes}

theorem length_frames (queue : List Bytes) : (queue.flatMap frame).length = taken queue := by
  rw [length_flatMap]
  exact congrArg List.sum (map_congr_left fun message _ => length_frame message)

section
variable (holds : r.Holds s queue)
include holds

theorem Holds.fits : taken queue ≤ r.capacity.toNat := by
  obtain ⟨free, turned⟩ := holds.turned
  have whole := congrArg List.length turned
  rw [length_rotate, holds.size, length_append, length_frames] at whole
  omega

theorem Holds.pushed (payload : Bytes) :
    ∃ s', r.call s (.push payload) = some (s', (r.answer queue (.push payload)).2) ∧
      r.Holds s' (r.answer queue (.push payload)).1 ∧ ((r.answer queue (.push payload)).2.moved = false → s' = s) := by
  unfold call answer
  dsimp only
  split
  · next large =>
    refine ⟨s, ?_, holds, fun _ => rfl⟩
    unfold push
    rw [if_pos large]
    rfl
  · next fits =>
    have small := Nat.le_of_not_lt fits
    have used := holds.used
    have most := holds.fits
    have cap := r.capacity_le
    rw [length_frames] at used
    have spec := push_spec holds.size small (used ▸ most)
    rw [used, length_frame] at spec
    split
    · next full =>
      rw [if_pos (by omega)] at spec
      refine ⟨s, ?_, holds, fun _ => rfl⟩
      rw [spec]
      rfl
    · next free =>
      rw [if_neg (by omega)] at spec
      obtain ⟨data, pushed, size, turned⟩ := spec
      refine ⟨_, by rw [pushed]; rfl, ⟨size, ?_, ?_, ?_⟩, nofun⟩
      · obtain ⟨rest, before⟩ := holds.turned
        refine ⟨(s.data.rotate s.head.toNat).drop (taken queue + (lengthPrefix + payload.length)), turned.trans ?_⟩
        rw [before, ← length_frames, take_left, flatMap_append, flatMap_singleton]
      · have more : s.tail + UInt32.ofNat (lengthPrefix + payload.length) - s.head =
            s.tail - s.head + UInt32.ofNat (lengthPrefix + payload.length) := by grind
        have step : (UInt32.ofNat (lengthPrefix + payload.length)).toNat = lengthPrefix + payload.length :=
          UInt32.toNat_ofNat_of_lt' (show _ < 2 ^ 32 by omega)
        show (s.tail + UInt32.ofNat (lengthPrefix + payload.length) - s.head).toNat = _
        rw [more, UInt32.toNat_add, used, step, flatMap_append, flatMap_singleton, length_append, length_frame,
          length_frames, Nat.mod_eq_of_lt (by omega)]
      · intro message among
        rcases mem_append.mp among with old | new
        · exact holds.small message old
        · rw [mem_singleton.mp new]
          exact small

theorem Holds.popped (out : Bytes) :
    ∃ s', r.call s (.pop out) = some (s', (r.answer queue (.pop out)).2) ∧
      r.Holds s' (r.answer queue (.pop out)).1 ∧ ((r.answer queue (.pop out)).2.moved = false → s' = s) := by
  have used := holds.used
  have most := holds.fits
  have cap := r.capacity_le
  rw [length_frames] at used
  unfold call
  dsimp only
  rw [popInto_spec holds.size]
  cases queue with
  | nil =>
    have none : s.tail - s.head = 0 := UInt32.toNat_inj.mp used
    rw [if_pos none]
    exact ⟨s, rfl, holds, fun _ => rfl⟩
  | cons message rest =>
    obtain ⟨free, turned⟩ := holds.turned
    have small := holds.small message mem_cons_self
    have whole : taken (message :: rest) = lengthPrefix + message.length + taken rest := sum_cons
    have front : s.data.rotate s.head.toNat = le32 message.length ++ (message ++ (rest.flatMap frame ++ free)) := by
      rw [turned, flatMap_cons, frame]
      simp only [append_assoc]
    have states : stated s = UInt32.ofNat message.length := by
      unfold stated
      rw [front, take_left' (show (le32 message.length).length = lengthPrefix from rfl)]
      exact congrArg UInt32.ofNat (ofLe32_le32 (by omega))
    have length : (UInt32.ofNat message.length).toNat = message.length :=
      UInt32.toNat_ofNat_of_lt' (show _ < 2 ^ 32 by omega)
    have step : (UInt32.ofNat lengthPrefix + UInt32.ofNat message.length).toNat = lengthPrefix + message.length :=
      (toNat_need small).trans (length_frame message)
    have four : (UInt32.ofNat lengthPrefix).toNat = lengthPrefix := rfl
    have positive : 0 < lengthPrefix := by decide
    have some_ : ¬s.tail - s.head = 0 := by
      intro none
      rw [none] at used
      have zero : (0 : UInt32).toNat = 0 := rfl
      omega
    have between : ¬(s.tail - s.head < UInt32.ofNat lengthPrefix || s.tail - s.head > r.capacity) = true := by
      simp only [Bool.or_eq_true, decide_eq_true_eq, gt_iff_lt, UInt32.lt_iff_toNat_lt, used, four]
      omega
    have sane : ¬(UInt32.ofNat message.length > r.maxMessage ||
        s.tail - s.head < UInt32.ofNat lengthPrefix + UInt32.ofNat message.length) = true := by
      simp only [Bool.or_eq_true, decide_eq_true_eq, gt_iff_lt, UInt32.lt_iff_toNat_lt, used, length, step]
      omega
    rw [if_neg some_, if_neg between, states, if_neg sane, length]
    unfold answer
    dsimp only
    split
    · exact ⟨s, rfl, holds, fun _ => rfl⟩
    have payload : ((s.data.rotate s.head.toNat).drop lengthPrefix).take message.length = message := by
      rw [front, drop_left' (show (le32 message.length).length = lengthPrefix from rfl), take_left]
    rw [payload]
    refine ⟨_, rfl, ⟨holds.size, ?_, ?_, ?_⟩, by rintro ⟨⟩⟩
    · refine ⟨free ++ frame message, ?_⟩
      show s.data.rotate (s.head + (UInt32.ofNat lengthPrefix + UInt32.ofNat message.length)).toNat = _
      rw [rotate_add holds.size, turned, step, ← length_frame, flatMap_cons, append_assoc,
        rotate_append_length_eq, append_assoc]
    · have less : s.tail - (s.head + (UInt32.ofNat lengthPrefix + UInt32.ofNat message.length)) =
          s.tail - s.head - (UInt32.ofNat lengthPrefix + UInt32.ofNat message.length) := by grind
      show (s.tail - (s.head + (UInt32.ofNat lengthPrefix + UInt32.ofNat message.length))).toNat =
        (rest.flatMap frame).length
      rw [less, UInt32.toNat_sub_of_le _ _ (UInt32.le_iff_toNat_le.mpr (by omega)), used, step, length_frames]
      omega
    · exact fun other among => holds.small other (mem_cons_of_mem _ among)

theorem Holds.called (call : Call) :
    ∃ s', r.call s call = some (s', (r.answer queue call).2) ∧ r.Holds s' (r.answer queue call).1 ∧
      ((r.answer queue call).2.moved = false → s' = s) := by
  cases call with
  | push payload => exact holds.pushed payload
  | pop out => exact holds.popped out

theorem Holds.run (calls : List Call) :
    ∃ s', r.calls s calls = some (s', (r.answers queue calls).2) ∧ r.Holds s' (r.answers queue calls).1 := by
  induction calls generalizing s queue with
  | nil => exact ⟨s, rfl, holds⟩
  | cons call rest ih =>
    obtain ⟨s', called, holds', _⟩ := holds.called call
    obtain ⟨s'', ran, holds''⟩ := ih holds'
    refine ⟨s'', ?_, holds''⟩
    unfold Ring.calls
    simp only [called, ran, Option.bind_eq_bind, Option.bind_some]
    rfl

end

theorem answers_fifo (queue : List Bytes) (calls : List Call) : queue ++ accepted calls (r.answers queue calls).2 =
      delivered (r.answers queue calls).2 ++ (r.answers queue calls).1 := by
  induction calls generalizing queue with
  | nil => simp [accepted, delivered, answers]
  | cons call rest ih =>
    have next := ih (r.answer queue call).1
    have step : queue ++ accepted [call] [(r.answer queue call).2] =
        delivered [(r.answer queue call).2] ++ (r.answer queue call).1 := by
      unfold accepted delivered answer
      cases call with
      | push payload =>
        dsimp only
        split
        · simp
        · split <;> simp
      | pop out =>
        cases queue with
        | nil => simp
        | cons message later =>
          dsimp only
          split <;> simp
    have front : accepted (call :: rest) ((r.answer queue call).2 :: (r.answers (r.answer queue call).1 rest).2) =
        accepted [call] [(r.answer queue call).2] ++ accepted rest (r.answers (r.answer queue call).1 rest).2 := by
      unfold accepted
      rw [zip_cons_cons, ← singleton_append, filterMap_append]
      rfl
    show queue ++ accepted (call :: rest) ((r.answer queue call).2 :: (r.answers (r.answer queue call).1 rest).2) =
      delivered ([(r.answer queue call).2] ++ (r.answers (r.answer queue call).1 rest).2) ++
        (r.answers (r.answer queue call).1 rest).1
    unfold delivered at step next ⊢
    rw [front, ← append_assoc, step, filterMap_append, append_assoc, next, append_assoc]

/-- However pushes and pops interleave, the ring answers as a queue of messages does. -/
theorem ring_is_queue (r : Ring) (s : Shared) (size : s.data.length = r.capacity.toNat) (empty : s.head = s.tail)
    (calls : List Call) :
    ∃ s' queue replies, r.calls s calls = some (s', replies) ∧ r.answers [] calls = (queue, replies) ∧
      accepted calls replies = delivered replies ++ queue ∧
      ∀ call, ∃ s'', r.call s' call = some (s'', (r.answer queue call).2) ∧
        ((r.answer queue call).2.moved = false → s'' = s') := by
  have holds : r.Holds s [] := by
    refine ⟨size, ⟨_, rfl⟩, ?_, nofun⟩
    rw [empty, UInt32.sub_self]
    rfl
  obtain ⟨s', ran, holds'⟩ := holds.run calls
  refine ⟨s', _, _, ran, rfl, answers_fifo [] calls, fun call => ?_⟩
  obtain ⟨s'', called, _, kept⟩ := holds'.called call
  exact ⟨s'', called, kept⟩

def smallRing : Ring := ⟨16, 8, ⟨4, by decide⟩, by decide⟩

def smallShared : Shared := { data := replicate 16 0, head := 0xfffffffe, tail := 0xfffffffe }

theorem ring_is_queue_wrapped :
    smallShared.data.length = smallRing.capacity.toNat ∧ smallShared.head = smallShared.tail ∧
    ∃ s' replies, smallRing.calls smallShared [.push [1, 2, 3], .push [4], .pop [0, 0, 0, 0]] = some (s', replies) ∧
      accepted [.push [1, 2, 3], .push [4], .pop [0, 0, 0, 0]] replies = delivered replies ++ [[4]] := by
  obtain ⟨s', queue, replies, ran, answered, fifo, _⟩ := ring_is_queue smallRing smallShared (by decide) rfl
    [.push [1, 2, 3], .push [4], .pop [0, 0, 0, 0]]
  have left : queue = [[4]] := by
    have same := congrArg Prod.fst answered
    exact same.symm.trans (by decide)
  rw [left] at fifo
  exact ⟨by decide, rfl, s', replies, ran, fifo⟩

/-- A message beyond the ring's limit is too large, and not one too many, however little space is free. -/
theorem large_message_is_not_full : smallShared.data.length = smallRing.capacity.toNat ∧
    smallShared.head = smallShared.tail ∧ smallRing.capacity.toNat < lengthPrefix + (replicate 13 (7 : UInt8)).length ∧
    smallRing.push smallShared (replicate 13 7) = some (smallShared, .error (.tooLarge 13 8)) :=
  ⟨by decide, rfl, by decide, rfl⟩

end Queue

end Ring

end Tpf3Mp.Ipc
