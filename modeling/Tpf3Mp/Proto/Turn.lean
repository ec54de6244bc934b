import Tpf3Mp.Codec.Format
import Mathlib.Data.Fin.Basic
import Mathlib.Logic.Equiv.Fin.Basic

/-!
The turn stream's messages and what they are made of (`tpf3mp-proto`), with their wire format.
The counters of turns, events and steps are natural numbers, and the format refuses those past 64
bits; every other number has the width it has on the wire.
-/

namespace Tpf3Mp.Proto
open Codec List

def u64Max : Nat := 2 ^ 64 - 1

abbrev FixedBytes (n : Nat) := {bytes : Bytes // bytes.length = n}

def FixedBytes.fill (n : Nat) (byte : UInt8) : FixedBytes n := ⟨replicate n byte, length_replicate⟩

def maxPayload : Nat := 48 * 1024

abbrev Payload := {bytes : Bytes // bytes.length ≤ maxPayload}

def isControl (c : Char) : Bool := c.toNat < 0x20 || (0x7f ≤ c.toNat && c.toNat ≤ 0x9f)

/-- UTF-8 text of at most `max` bytes without control characters. -/
abbrev Text (max : Nat) := {value : String // value.utf8ByteSize ≤ max ∧ value.toList.any isControl = false}

def Text.empty {max : Nat} : Text max := ⟨"", Nat.zero_le _, rfl⟩

abbrev PlayerId := FixedBytes 32
abbrev RoomId := FixedBytes 16
abbrev SnapshotId := FixedBytes 32
abbrev ContentFingerprint := FixedBytes 32
abbrev RulesName := Text 32

def RulesName.native : RulesName := ⟨"native", by decide⟩

structure Speed where
  percent : UInt16
  deriving DecidableEq

namespace Speed

def normal : Speed := ⟨100⟩
def maximum : Speed := ⟨1600⟩
def isPaused (s : Speed) : Bool := s.percent == 0

end Speed

inductive Os where
  | windows | linux | macOs | other
  deriving DecidableEq

inductive Arch where
  | x86_64 | aarch64 | other
  deriving DecidableEq

structure Platform where
  os : Os
  arch : Arch
  deriving DecidableEq

structure WorldOffer where
  snapshot : SnapshotId
  size : UInt64
  deriving DecidableEq

inductive EventBody where
  | command (player : PlayerId) (clientSeq : UInt64) (payload : Payload)
  | playerJoined (player : PlayerId) (name : Text 32) (platform : Platform)
  | playerLeft (player : PlayerId) (kicked : Bool)
  | save
  deriving DecidableEq

structure Event where
  seq : Nat
  step : Nat
  body : EventBody
  deriving DecidableEq

structure Turn where
  number : Nat
  sealedThrough : Nat
  speed : Speed
  events : List Event
  deriving DecidableEq

structure TurnStart where
  room : RoomId
  rules : RulesName
  nextTurn : Nat
  nextEvent : Nat
  sealedThrough : Nat
  stepsPerSecond : UInt16
  checkpointInterval : UInt32
  history : UInt64
  world : Option WorldOffer
  deriving DecidableEq

inductive TurnMessage where
  | start (start : TurnStart)
  | turn (turn : Turn)
  deriving DecidableEq

structure Resume where
  afterTurn : Nat
  history : UInt64
  deriving DecidableEq

namespace Wire
open Format

def fixedBytes (n : Nat) : Format (FixedBytes n) := byte.vector n

def payload : Format Payload := byte.list.checked _

def string : Format String :=
  (byte.list.checked fun bytes => (ByteArray.mk bytes.toArray).IsValidUTF8).iso
    { toFun := fun bytes => ⟨⟨bytes.1.toArray⟩, bytes.2⟩
      invFun := fun text => ⟨text.toByteArray.data.toList, by simpa using text.isValidUTF8⟩
      left_inv := fun bytes => by simp
      right_inv := fun text => by simp }

def text (max : Nat) : Format (Text max) := string.checked _

/-- An enumeration without fields: the variant's index. -/
def enum {α : Type} {n : Nat} (variant : Fin n ≃ α) : Format α :=
  ((uint 32).checked (· < n)).iso (Fin.equivSubtype.symm.trans variant)

def os : Format Os := enum
  { toFun := ![.windows, .linux, .macOs, .other]
    invFun := fun | .windows => 0 | .linux => 1 | .macOs => 2 | .other => 3
    left_inv := fun i => by revert i; decide
    right_inv := fun v => by cases v <;> rfl }

def arch : Format Arch := enum
  { toFun := ![.x86_64, .aarch64, .other]
    invFun := fun | .x86_64 => 0 | .aarch64 => 1 | .other => 2
    left_inv := fun i => by revert i; decide
    right_inv := fun v => by cases v <;> rfl }

def platform : Format Platform := (os.pair arch).iso
  { toFun := fun p => ⟨p.1, p.2⟩
    invFun := fun p => (p.os, p.arch)
    left_inv := fun _ => rfl
    right_inv := fun _ => rfl }

def speed : Format Speed := u16.iso
  { toFun := Speed.mk
    invFun := Speed.percent
    left_inv := fun _ => rfl
    right_inv := fun _ => rfl }

abbrev BodyFields : Fin 4 → Type
  | 0 => PlayerId × UInt64 × Payload
  | 1 => PlayerId × Text 32 × Platform
  | 2 => PlayerId × Bool
  | 3 => Unit

def bodyFields : (i : Fin 4) → Format (BodyFields i)
  | 0 => (fixedBytes 32).pair (u64.pair payload)
  | 1 => (fixedBytes 32).pair ((text 32).pair platform)
  | 2 => (fixedBytes 32).pair bool
  | 3 => unit

def eventBody : Format EventBody := (choice (by decide) bodyFields).iso
  { toFun := fun
      | ⟨0, player, clientSeq, payload⟩ => .command player clientSeq payload
      | ⟨1, player, name, platform⟩ => .playerJoined player name platform
      | ⟨2, player, kicked⟩ => .playerLeft player kicked
      | ⟨3, ()⟩ => .save
    invFun := fun
      | .command player clientSeq payload => ⟨0, player, clientSeq, payload⟩
      | .playerJoined player name platform => ⟨1, player, name, platform⟩
      | .playerLeft player kicked => ⟨2, player, kicked⟩
      | .save => ⟨3, ()⟩
    left_inv := fun
      | ⟨0, _⟩ => rfl
      | ⟨1, _⟩ => rfl
      | ⟨2, _⟩ => rfl
      | ⟨3, _⟩ => rfl
    right_inv := fun body => by cases body <;> rfl }

def event : Format Event := ((uint 64).pair ((uint 64).pair eventBody)).iso
  { toFun := fun e => ⟨e.1, e.2.1, e.2.2⟩
    invFun := fun e => (e.seq, e.step, e.body)
    left_inv := fun _ => rfl
    right_inv := fun _ => rfl }

def turn : Format Turn := ((uint 64).pair ((uint 64).pair (speed.pair event.list))).iso
  { toFun := fun t => ⟨t.1, t.2.1, t.2.2.1, t.2.2.2⟩
    invFun := fun t => (t.number, t.sealedThrough, t.speed, t.events)
    left_inv := fun _ => rfl
    right_inv := fun _ => rfl }

def worldOffer : Format WorldOffer := ((fixedBytes 32).pair u64).iso
  { toFun := fun w => ⟨w.1, w.2⟩
    invFun := fun w => (w.snapshot, w.size)
    left_inv := fun _ => rfl
    right_inv := fun _ => rfl }

def turnStart : Format TurnStart :=
  ((fixedBytes 16).pair ((text 32).pair ((uint 64).pair ((uint 64).pair ((uint 64).pair
    (u16.pair (u32.pair (u64.pair worldOffer.option)))))))).iso
  { toFun := fun ⟨room, rules, nextTurn, nextEvent, sealedThrough, steps, interval, history, world⟩ =>
      ⟨room, rules, nextTurn, nextEvent, sealedThrough, steps, interval, history, world⟩
    invFun := fun s => (s.room, s.rules, s.nextTurn, s.nextEvent, s.sealedThrough, s.stepsPerSecond,
      s.checkpointInterval, s.history, s.world)
    left_inv := fun _ => rfl
    right_inv := fun _ => rfl }

abbrev MessageFields : Fin 2 → Type
  | 0 => TurnStart
  | 1 => Turn

def messageFields : (i : Fin 2) → Format (MessageFields i)
  | 0 => turnStart
  | 1 => turn

def turnMessage : Format TurnMessage := (choice (by decide) messageFields).iso
  { toFun := fun
      | ⟨0, start⟩ => .start start
      | ⟨1, turn⟩ => .turn turn
    invFun := fun
      | .start start => ⟨0, start⟩
      | .turn turn => ⟨1, turn⟩
    left_inv := fun
      | ⟨0, _⟩ => rfl
      | ⟨1, _⟩ => rfl
    right_inv := fun message => by cases message <;> rfl }

/-! Everything but a counter fits the wire. -/

variable {n : Nat}

@[simp] theorem fixedBytes_fits (bytes : FixedBytes n) : (fixedBytes n).Fits bytes :=
  fun _ _ => trivial

theorem fixedBytes_length (bytes : FixedBytes n) : ((fixedBytes n).encode bytes).length = n := by
  show (bytes.1.flatMap fun byte => [byte]).length = n
  rw [flatMap_singleton']
  exact bytes.2

@[simp] theorem payload_fits (bytes : Payload) : payload.Fits bytes :=
  ⟨lt_of_le_of_lt bytes.2 (by decide), fun _ _ => trivial⟩

theorem text_fits {max : Nat} (short : max < 2 ^ 64) (value : Text max) : (text max).Fits value := by
  have size : value.1.toByteArray.data.toList.length ≤ max := by
    exact value.2.1
  exact ⟨lt_of_le_of_lt size short, fun _ _ => trivial⟩

theorem enum_fits {α : Type} (variant : Fin n ≃ α) (small : n ≤ 2 ^ 32) (value : α) : (enum variant).Fits value :=
  lt_of_lt_of_le (variant.symm value).2 small

@[simp] theorem platform_fits (value : Platform) : platform.Fits value :=
  ⟨enum_fits _ (by decide) value.os, enum_fits _ (by decide) value.arch⟩

@[simp] theorem eventBody_fits (body : EventBody) : eventBody.Fits body := by
  cases body with
  | command player clientSeq bytes => exact ⟨fixedBytes_fits player, u64_fits clientSeq, payload_fits bytes⟩
  | playerJoined player name platform =>
    exact ⟨fixedBytes_fits player, text_fits (by decide) name, platform_fits platform⟩
  | playerLeft player kicked => exact ⟨fixedBytes_fits player, trivial⟩
  | save => trivial

theorem turn_fits {value : Turn} (number : value.number < 2 ^ 64) (sealed : value.sealedThrough < 2 ^ 64)
    (count : value.events.length < 2 ^ 64) (events : ∀ event ∈ value.events, event.seq < 2 ^ 64 ∧ event.step < 2 ^ 64) :
    turnMessage.Fits (.turn value) :=
  ⟨number, sealed, u16_fits _, count, fun event member =>
    ⟨(events event member).1, (events event member).2, eventBody_fits event.body⟩⟩

end Wire

def turnMaxFrame : Nat := 1024 * 1024

def frameHeaderLen : Nat := 4

inductive FrameError where
  | tooLarge (len max : Nat)
  | malformed
  | trailingBytes (count : Nat)
  deriving DecidableEq

section Frames
variable {α : Type}

def encodeFrame (format : Format α) (message : α) (max : Nat) : Except FrameError Bytes :=
  let payload := format.encode message
  if payload.length > max then .error (.tooLarge payload.length max)
  else if payload.length < 2 ^ 32 then .ok (le32 payload.length ++ payload)
  else .error (.tooLarge payload.length max)

def decodeFrame (format : Format α) (payload : Bytes) : Except FrameError α :=
  match format.decode payload with
  | none => .error .malformed
  | some (message, rest) => if rest.isEmpty then .ok message else .error (.trailingBytes rest.length)

variable {format : Format α} {message : α} {max : Nat} {frame : Bytes}

section
variable (encoded : encodeFrame format message max = .ok frame)
include encoded

theorem encodeFrame_payload : frame = le32 (format.encode message).length ++ format.encode message := by
  unfold encodeFrame at encoded
  dsimp only at encoded
  split at encoded
  · cases encoded
  · split at encoded
    · cases encoded; rfl
    · cases encoded

theorem decodeFrame_encodeFrame (fits : format.Fits message) :
    decodeFrame format (frame.drop frameHeaderLen) = .ok message := by
  have read := format.decode_encode fits []
  rw [append_nil] at read
  rw [encodeFrame_payload encoded, frameHeaderLen, drop_left' (length_le32 _)]
  simp [decodeFrame, read]

theorem decodeFrame_eq {decoded : α} (read : decodeFrame format (frame.drop frameHeaderLen) = .ok decoded) :
    decoded = message ∧ format.Fits message := by
  by_cases fits : format.Fits message
  · rw [decodeFrame_encodeFrame encoded fits] at read
    cases read
    exact ⟨rfl, fits⟩
  have refused := format.decode_overflow fits []
  rw [append_nil] at refused
  rw [encodeFrame_payload encoded, frameHeaderLen, drop_left' (length_le32 _)] at read
  simp [decodeFrame, refused] at read

end

end Frames

def decodeTurn (frame : Bytes) : Option Turn :=
  match decodeFrame Wire.turnMessage (frame.drop frameHeaderLen) with
  | .ok (.turn turn) => some turn
  | _ => none

theorem decodeTurn_encodeFrame {turn : Turn} {frame : Bytes}
    (encoded : encodeFrame Wire.turnMessage (.turn turn) turnMaxFrame = .ok frame)
    (fits : Wire.turnMessage.Fits (.turn turn)) : decodeTurn frame = some turn := by
  unfold decodeTurn
  rw [decodeFrame_encodeFrame encoded fits]

theorem decodeTurn_eq {turn decoded : Turn} {frame : Bytes}
    (encoded : encodeFrame Wire.turnMessage (.turn turn) turnMaxFrame = .ok frame)
    (read : decodeTurn frame = some decoded) : decoded = turn := by
  unfold decodeTurn at read
  split at read
  · next message =>
    cases read
    exact TurnMessage.turn.inj (decodeFrame_eq encoded message).1
  · cases read

end Tpf3Mp.Proto
