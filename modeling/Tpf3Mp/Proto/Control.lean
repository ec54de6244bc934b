import Tpf3Mp.Proto.Turn

/-!
The parts of the control stream a room takes part in (`tpf3mp-proto`, `control.rs`): its settings,
what it tells its members and why it refuses a request.
-/

namespace Tpf3Mp.Proto

abbrev ChatText := Text 280

inductive RequestError where
  | alreadyInRoom
  | notInRoom
  | badInvite
  | roomFull
  | notOwner
  | notAllReady
  | contentMismatch
  | gameRunning
  | gameNotRunning
  | invalidSettings
  | tooManyRooms
  | resumeUnavailable
  | rateLimited
  | noSuchPlayer
  | cannotKickSelf
  | unknownRules
  deriving DecidableEq

structure RoomSettings where
  stepsPerSecond : UInt16
  inputDelayMs : UInt16
  checkpointInterval : UInt32
  deriving DecidableEq

def RoomSettings.isValid (s : RoomSettings) : Bool :=
  (1 ≤ s.stepsPerSecond && s.stepsPerSecond ≤ 240) && (20 ≤ s.inputDelayMs && s.inputDelayMs ≤ 2000) &&
    (1 ≤ s.checkpointInterval && s.checkpointInterval ≤ 1000000)

inductive RoomPhase where
  | lobby
  | running
  deriving DecidableEq

structure MemberView where
  player : PlayerId
  name : Text 32
  platform : Platform
  ready : Bool
  content : Option ContentFingerprint
  connected : Bool
  deriving DecidableEq

structure RoomView where
  id : RoomId
  name : Text 48
  rules : RulesName
  owner : PlayerId
  maxPlayers : UInt8
  hasPassword : Bool
  phase : RoomPhase
  settings : RoomSettings
  members : List MemberView
  deriving DecidableEq

structure LaneDigest where
  lane : UInt16
  digest : FixedBytes 32
  deriving DecidableEq

inductive IntentRejection where
  | gameNotRunning
  | rateLimited
  | refused (code : UInt16)
  deriving DecidableEq

structure SavedWorld where
  snapshot : SnapshotId
  size : UInt64
  deriving DecidableEq

inductive GameMessage where
  | intent (clientSeq : Nat) (payload : Payload)
  | progress (step : Nat)
  | checkpoint (step : Nat) (lanes : List LaneDigest)
  | saved (event : Nat) (lanes : List LaneDigest) (world : Option SavedWorld)
  deriving DecidableEq

inductive ServerMessage where
  | roomUpdate (view : RoomView)
  | intentRejected (clientSeq : UInt64) (reason : IntentRejection)
  | diverged (step : Nat) (lanes : List UInt16)
  | kicked
  | upload (event : Nat) (snapshot : SnapshotId)
  | chat (sender : PlayerId) (text : ChatText)
  deriving DecidableEq

end Tpf3Mp.Proto
