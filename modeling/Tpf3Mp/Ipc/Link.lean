import Tpf3Mp.Ipc.Ring
import Mathlib.Data.UInt

/-!
One end of the shared-memory link (`tpf3mp-ipc`, `lib.rs` and `header.rs`): a header and two rings in
one mapping. The peer may write anything anywhere in it at any time, so an end that attaches checks
the sizes it will rely on, once.
-/

namespace Tpf3Mp.Ipc
open Codec Data List

def headerSize : Nat := 64

def abiVersion : UInt32 := 1

def magicNumber : UInt32 := Ring.fromLe [0x54, 0x33, 0x4d, 0x50]

inductive Role where
  | hook
  | agent
  deriving DecidableEq

inductive IpcError where
  | tooSmall (found expected : Nat)
  | invalidConfig (reason : String)
  | notReady
  | abiMismatch (found expected : UInt32)
  | headerMismatch (found expected : UInt32)
  | badRingCapacity (capacity : UInt32)
  deriving DecidableEq

def isPowerOfTwo (n : UInt32) : Bool := (range 32).any fun bits => n.toNat = 2 ^ bits

theorem isPowerOfTwo_iff {n : UInt32} : isPowerOfTwo n = true ↔ ∃ bits ≤ 31, n.toNat = 2 ^ bits := by
  unfold isPowerOfTwo
  simp only [any_eq_true, mem_range, decide_eq_true_eq]
  exact exists_congr fun bits => and_congr_left fun _ => Nat.lt_succ_iff

def fieldAt (memory : Bytes) (offset : Nat) : UInt32 := Ring.fromLe ((memory.drop offset).take 4)

/-- An end of a link: its rings, and a mapping that has space for both. -/
structure Link where
  role : Role
  ring : Ring
  length : Nat
  fits : headerSize + 2 * ring.capacity.toNat ≤ length

namespace Link

def «open» (memory : Bytes) (role : Role) : Except IpcError Link :=
  if memory.length < headerSize then .error (.tooSmall memory.length headerSize)
  else if fieldAt memory 0 ≠ magicNumber then .error .notReady
  else if fieldAt memory 4 ≠ abiVersion then .error (.abiMismatch (fieldAt memory 4) abiVersion)
  else if (fieldAt memory 8).toNat ≠ headerSize then
    .error (.headerMismatch (fieldAt memory 8) (UInt32.ofNat headerSize))
  else
    let capacity := fieldAt memory 12
    let maxMessage := fieldAt memory 16
    if power : isPowerOfTwo capacity = true ∧ ¬capacity > 2 ^ 31 then
      -- The rings rely on it to copy each message with at most one wrap.
      if room : maxMessage.toNat + lengthPrefix ≤ capacity.toNat then
        if fits : headerSize + 2 * capacity.toNat ≤ memory.length then
          .ok ⟨role, ⟨capacity, maxMessage, isPowerOfTwo_iff.mp power.1, room⟩, memory.length, fits⟩
        else .error (.tooSmall memory.length (headerSize + 2 * capacity.toNat))
      else .error (.invalidConfig "max_message plus the length prefix does not fit the ring")
    else .error (.badRingCapacity capacity)

def offset (link : Link) : Role → Nat
  | .hook => headerSize
  | .agent => headerSize + link.ring.capacity.toNat

/-- What the mapping holds of the ring that this role sends on. -/
def shared (link : Link) (memory : Bytes) (sender : Role) : Shared where
  data := (memory.drop (link.offset sender)).take link.ring.capacity.toNat
  head := fieldAt memory (match sender with | .hook => 48 | .agent => 56)
  tail := fieldAt memory (match sender with | .hook => 52 | .agent => 60)

theorem offset_within (link : Link) (sender : Role) :
    headerSize ≤ link.offset sender ∧ link.offset sender + link.ring.capacity.toNat ≤ link.length := by
  have fits := link.fits
  cases sender with
  | hook =>
    show headerSize ≤ headerSize ∧ headerSize + _ ≤ _
    omega
  | agent =>
    show headerSize ≤ headerSize + _ ∧ headerSize + _ + _ ≤ _
    omega

theorem shared_size (link : Link) {memory : Bytes} (mapped : memory.length = link.length) (sender : Role) :
    (link.shared memory sender).data.length = link.ring.capacity.toNat := by
  have within := link.offset_within sender
  show ((memory.drop _).take _).length = _
  rw [length_take, length_drop]
  omega

end Link

namespace Ring
variable {r : Ring} {s : Shared}

section
variable (size : s.data.length = r.capacity.toNat)
include size

theorem push_safe (payload : Bytes) :
    ∃ s' result, r.push s payload = some (s', result) ∧ s'.data.length = r.capacity.toNat ∧ s'.head = s.head ∧
      if (s.tail - s.head).toNat ≤ r.capacity.toNat then
        (s'.data.rotate s.head.toNat).take (s.tail - s.head).toNat =
        (s.data.rotate s.head.toNat).take (s.tail - s.head).toNat
      else s' = s := by
  by_cases small : payload.length ≤ r.maxMessage.toNat
  · by_cases used : (s.tail - s.head).toNat ≤ r.capacity.toNat
    · have spec := push_spec size small used
      split at spec
      · exact ⟨s, _, spec, size, rfl, by rw [if_pos used]⟩
      obtain ⟨data, pushed, size', turned⟩ := spec
      refine ⟨_, _, pushed, size', rfl, ?_⟩
      rw [if_pos used]
      show (data.rotate s.head.toNat).take _ = _
      have long : (s.tail - s.head).toNat ≤ (s.data.rotate s.head.toNat).length := by
        rw [length_rotate, size]
        exact used
      rw [turned, append_assoc, take_append_of_le_length (by rw [length_take]; omega), take_take,
        Nat.min_self]
    · refine ⟨s, .error .corrupt, ?_, size, rfl, by rw [if_neg used]⟩
      have more : s.tail - s.head > r.capacity := UInt32.lt_iff_toNat_lt.mpr (Nat.lt_of_not_le used)
      unfold push
      rw [if_neg (not_lt.mpr small)]
      exact if_pos more
  · refine ⟨s, .error (.tooLarge payload.length r.maxMessage.toNat), if_pos (Nat.lt_of_not_le small), size, rfl, ?_⟩
    split <;> rfl

theorem peekLen_safe :
    ∃ found, r.peekLen s = some found ∧ ∀ len, found = some len → len.toNat ≤ r.maxMessage.toNat := by
  refine ⟨_, peekLen_spec size, fun len found => ?_⟩
  split at found
  · cases found
  split at found
  · next small =>
    cases found
    exact UInt32.le_iff_toNat_le.mp small
  · cases found

theorem popInto_safe (out : Bytes) :
    ∃ s' out' result, r.popInto s out = some (s', out', result) ∧ s'.data = s.data ∧ s'.tail = s.tail ∧
      out'.length = out.length ∧ ∀ len, result = .ok (some len) → len ≤ r.maxMessage.toNat ∧ len ≤ out.length := by
  rw [popInto_spec size]
  split
  · exact ⟨s, out, _, rfl, rfl, rfl, rfl, nofun⟩
  split
  · exact ⟨s, out, _, rfl, rfl, rfl, rfl, nofun⟩
  split
  · exact ⟨s, out, _, rfl, rfl, rfl, rfl, nofun⟩
  rename_i sane
  have short : (stated s).toNat ≤ r.maxMessage.toNat := by
    simp only [Bool.or_eq_true, decide_eq_true_eq, not_or, gt_iff_lt] at sane
    exact Nat.le_of_not_lt fun more => sane.1 (UInt32.lt_iff_toNat_lt.mpr more)
  split
  · exact ⟨s, out, _, rfl, rfl, rfl, rfl, nofun⟩
  rename_i enough
  refine ⟨_, _, _, rfl, rfl, rfl, ?_, ?_⟩
  · have room := r.room
    rw [length_append, length_take, length_drop, length_drop, length_rotate, size]
    omega
  · rintro _ ⟨⟩
    exact ⟨short, Nat.le_of_not_lt enough⟩

end

end Ring

/-- Whatever the peer writes after an end has attached, no call leaves the bytes of its own ring or the
caller's buffer, no length above the limit is reported, and a push leaves alone what is in use. -/
theorem Link.open_safe {before memory : Bytes} {role : Role} {link : Link} (opened : Link.open before role = .ok link)
    (mapped : memory.length = before.length) (sender : Role) :
    let s := link.shared memory sender
    (headerSize ≤ link.offset sender ∧ link.offset sender + link.ring.capacity.toNat ≤ memory.length ∧
      link.offset .hook + link.ring.capacity.toNat ≤ link.offset .agent) ∧
    (∀ payload, ∃ s' result, link.ring.push s payload = some (s', result) ∧ s'.data.length = s.data.length ∧
      s'.head = s.head ∧
      if (s.tail - s.head).toNat ≤ link.ring.capacity.toNat then
        (s'.data.rotate s.head.toNat).take (s.tail - s.head).toNat =
          (s.data.rotate s.head.toNat).take (s.tail - s.head).toNat
      else s' = s) ∧
    (∃ found, link.ring.peekLen s = some found ∧ ∀ len, found = some len → len.toNat ≤ link.ring.maxMessage.toNat) ∧
    ∀ out, ∃ s' out' result, link.ring.popInto s out = some (s', out', result) ∧ s'.data = s.data ∧ s'.tail = s.tail ∧
      out'.length = out.length ∧
      ∀ len, result = .ok (some len) → len ≤ link.ring.maxMessage.toNat ∧ len ≤ out.length := by
  have same : link.length = before.length := by
    unfold Link.open at opened
    dsimp only at opened
    repeat' split at opened
    all_goals cases opened
    rfl
  have size := link.shared_size (mapped.trans same.symm) sender
  have within := link.offset_within sender
  refine ⟨⟨within.1, ?_, le_rfl⟩, fun payload => ?_, Ring.peekLen_safe size, Ring.popInto_safe size⟩
  · rw [mapped, ← same]
    exact within.2
  · rw [size]
    exact Ring.push_safe size payload

def smallMapping : Bytes :=
  [0x54, 0x33, 0x4d, 0x50, 1, 0, 0, 0, 64, 0, 0, 0, 16, 0, 0, 0, 8, 0, 0, 0] ++ replicate 32 0 ++ [7, 0, 0, 0] ++
    replicate 8 0 ++ [3, 0, 0, 0, 1, 2, 3] ++ replicate 25 255

theorem open_safe_small : ∃ link, Link.open smallMapping .agent = .ok link ∧ link.ring.maxMessage = 8 ∧
    link.offset .hook + link.ring.capacity.toNat ≤ smallMapping.length ∧
    (∃ s' result, link.ring.push (link.shared smallMapping .hook) [9] = some (s', result)) ∧
    (∃ found, link.ring.peekLen (link.shared smallMapping .hook) = some found ∧ found = some 3) ∧
    ∃ s' out' result, link.ring.popInto (link.shared smallMapping .hook) (replicate 8 0) = some (s', out', result) ∧
      ∀ len, result = .ok (some len) → len ≤ 8 := by
  let link : Link := ⟨.agent, ⟨16, 8, ⟨4, by decide⟩, by decide⟩, 96, by decide⟩
  have opened : Link.open smallMapping .agent = .ok link := by rfl
  obtain ⟨⟨_, within, _⟩, push, ⟨found, peeked, _⟩, pop⟩ := Link.open_safe opened rfl .hook
  obtain ⟨s', result, pushed, _⟩ := push [9]
  obtain ⟨s'', out', result', popped, _, _, _, short⟩ := pop (replicate 8 0)
  have three : link.ring.peekLen (link.shared smallMapping .hook) = some (some 3) := by decide +kernel
  exact ⟨link, opened, rfl, within, ⟨s', result, pushed⟩, ⟨found, peeked, Option.some.inj (peeked.symm.trans three)⟩,
    s'', out', result', popped, fun len ok => (short len ok).1⟩

end Tpf3Mp.Ipc
