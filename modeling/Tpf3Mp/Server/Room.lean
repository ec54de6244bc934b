import Tpf3Mp.Server.Game

/-!
A room's state and what it does to its members (`tpf3mp-server`, `room.rs`).

What the room does not decide comes from an oracle: whether a channel takes a message, how a write to the
log ends, and the random name of a new history. One moment stands for all of a command's calls of the
clock.
-/

namespace Tpf3Mp.Server
open Codec Proto Data

def intentsPerSecond : Nat := 20
def intentBurst : Nat := 40
def chatsPerSecond : Nat := 1
def chatBurst : Nat := 5
def payloadBytesPerSecond : Nat := 32 * 1024
def payloadBurst : Nat := 256 * 1024
def maxBanned : Nat := 1024
def passwordFailuresPerMinute : Nat := 10

inductive TurnFeed where
  | opened (start : TurnStart) (backlog : List Bytes)
  | frame (bytes : Bytes)
  | close
  deriving DecidableEq

inductive CloseCode where
  | protocolViolation
  | shuttingDown
  | slowConsumer
  | replaced
  deriving DecidableEq

/-- What leaves a room, in order. A connection is named by its player and its number. -/
inductive Output where
  | control (player : PlayerId) (link : UInt64) (message : ServerMessage)
  | turn (player : PlayerId) (link : UInt64) (feed : TurnFeed)
  | closed (player : PlayerId) (link : UInt64) (code : CloseCode) (reason : String)
  | sealed (frame : Bytes)
  deriving DecidableEq

inductive Sent where
  | done
  | full
  | closed
  deriving DecidableEq

structure Oracle where
  send : Nat → Sent
  write : Nat → Write
  synced : Nat → Bool
  history : Nat → UInt64

inductive Admittance where
  | admitted
  | wrongPassword
  | wrongInvite
  deriving DecidableEq

/-- `verify` checks a tag under the room's key. -/
structure RoomSecrets where
  verify : Bytes → Bytes → Bool
  inviteTag : Bytes
  passwordTag : Option Bytes

namespace RoomSecrets

def inviteInput (room : RoomId) (token : FixedBytes 32) : Bytes :=
  "invite".toUTF8.toList ++ room.1 ++ token.1

def passwordInput (room : RoomId) (password : Text 64) : Bytes :=
  "password".toUTF8.toList ++ room.1 ++ password.1.toUTF8.toList

def check (secrets : RoomSecrets) (room : RoomId) (token : FixedBytes 32) (password : Option (Text 64)) :
    Admittance :=
  let inviteOk := secrets.verify (inviteInput room token) secrets.inviteTag
  let passwordOk := match secrets.passwordTag, password with
    | none, _ => true
    | some tag, some password => secrets.verify (passwordInput room password) tag
    | some _, none => false
  match inviteOk, passwordOk with
  | true, true => .admitted
  | true, false => .wrongPassword
  | false, _ => .wrongInvite

end RoomSecrets

structure PasswordGuard where
  windowStart : Instant
  failures : Nat
  deriving DecidableEq

namespace PasswordGuard

def new (now : Instant) : PasswordGuard := { windowStart := now, failures := 0 }

def roll (guard : PasswordGuard) (now : Instant) : PasswordGuard :=
  if now - guard.windowStart ≥ Duration.ofSecs 60 then .new now else guard

/-- `open`, which is a keyword here. -/
def isOpen (guard : PasswordGuard) (now : Instant) : Bool × PasswordGuard :=
  let guard := guard.roll now
  (guard.failures < passwordFailuresPerMinute, guard)

def failed (guard : PasswordGuard) (now : Instant) : PasswordGuard :=
  let guard := guard.roll now
  { guard with failures := min (guard.failures + 1) (2 ^ 32 - 1) }

end PasswordGuard

inductive Needs where
  | nothing
  | world
  | rebase (after : Nat)
  deriving DecidableEq

inductive Pace where
  | loading
  | following (step : Nat)
  | catchingUp (step : Option Nat)
  deriving DecidableEq

structure NewMember where
  player : PlayerId
  name : Text 32
  platform : Platform
  link : UInt64
  deriving DecidableEq

structure Member where
  player : PlayerId
  name : Text 32
  platform : Platform
  ready : Bool
  content : Option ContentFingerprint
  link : Option UInt64
  streaming : Bool
  pace : Pace
  advanced : Instant
  intents : TokenBucket
  payloadBytes : TokenBucket
  chats : TokenBucket
  needs : Needs
  offered : Option SnapshotId
  rebased : Option Instant
  streamFrom : Nat
  deriving DecidableEq

namespace Member

def new (member : NewMember) (now : Instant) : Member where
  player := member.player
  name := member.name
  platform := member.platform
  ready := false
  content := none
  link := some member.link
  streaming := false
  pace := .catchingUp none
  advanced := now
  intents := .new intentsPerSecond intentBurst now
  payloadBytes := .new payloadBytesPerSecond payloadBurst now
  chats := .new chatsPerSecond chatBurst now
  needs := .nothing
  offered := none
  rebased := none
  streamFrom := 0

def restored (seat : Seat) (content : Option ContentFingerprint) (now : Instant) : Member :=
  { new { player := seat.1, name := seat.2.1, platform := seat.2.2, link := 0 } now with
    ready := true
    content
    link := none }

def unlinked (member : Member) : Member :=
  { member with link := none, streaming := false, pace := .catchingUp none }

end Member

structure Timeouts where
  stall : Duration
  load : Duration
  abandoned : Duration
  deriving DecidableEq

inductive Phase where
  | lobby
  | running (game : Game)
  deriving DecidableEq

/-- A rewrite of the log under way: what it writes, and the turns sealed since it began. -/
structure Compaction where
  start : StartRecord
  frames : List Bytes
  tail : List Bytes
  deriving DecidableEq

/-- The room, with the disk its log is on, what left it so far and how often it asked the oracle. -/
structure Room (σ : Type) where
  id : RoomId
  name : Text 48
  rules : RulesName
  owner : PlayerId
  maxPlayers : UInt8
  settings : RoomSettings
  secrets : RoomSecrets
  members : List Member
  phase : Phase
  ruleset : Ruleset σ
  state : σ
  dataDir : Bool
  timeouts : Timeouts
  log : Option RoomLog
  compaction : Option Compaction
  compactAt : Nat
  compactLogAt : Nat
  unattendedSince : Option Instant
  passwordGuard : PasswordGuard
  banned : List PlayerId
  content : Option ContentFingerprint
  snapshots : Option Snapshots
  closed : Bool
  disk : Disk
  out : List Output
  calls : Nat

structure RoomEnv where
  dataDir : Bool
  timeouts : Timeouts
  snapshots : Option Snapshots
  compactLogAt : Nat

structure RoomSpec (σ : Type) where
  id : RoomId
  name : Text 48
  maxPlayers : UInt8
  settings : RoomSettings
  secrets : RoomSecrets
  rules : RulesName
  ruleset : Ruleset σ
  state : σ
  env : RoomEnv

/-- A log compacted to `size` bytes is compacted next once it has grown by `every`, or by its own
size if that is more. -/
def nextCompaction (size every : Nat) : Nat := satAdd size (max every size)

namespace Game

def resumeFeed (g : Game) (room : RoomId) (settings : RoomSettings) (rules : RulesName) (resume : Option Resume) :
    Except RequestError TurnFeed := do
  let stream ← g.streamAfter resume
  return .opened (g.turnStart room settings rules stream none) stream.backlog

/-- The feed that starts from an agreed snapshot, and the first event it carries. -/
def feedFrom (g : Game) (room : RoomId) (settings : RoomSettings) (rules : RulesName) (agreed : Agreed) :
    Except RequestError (TurnFeed × Nat) := do
  let stream ← g.streamFromSave agreed.point
  return (.opened (g.turnStart room settings rules stream (some agreed.offer)) stream.backlog, stream.nextEvent)

end Game

namespace Room
variable {σ : Type} (o : Oracle)

def new (spec : RoomSpec σ) (owner : NewMember) (now : Instant) (disk : Disk) : Room σ where
  id := spec.id
  name := spec.name
  rules := spec.rules
  owner := owner.player
  maxPlayers := spec.maxPlayers
  settings := spec.settings
  secrets := spec.secrets
  members := [.new owner now]
  phase := .lobby
  ruleset := spec.ruleset
  state := spec.state
  dataDir := spec.env.dataDir
  timeouts := spec.env.timeouts
  log := none
  compaction := none
  compactAt := spec.env.compactLogAt
  compactLogAt := spec.env.compactLogAt
  unattendedSince := none
  passwordGuard := .new now
  banned := []
  content := none
  snapshots := spec.env.snapshots
  closed := false
  disk
  out := []
  calls := 0

def view (r : Room σ) : RoomView where
  id := r.id
  name := r.name
  rules := r.rules
  owner := r.owner
  maxPlayers := r.maxPlayers
  hasPassword := r.secrets.passwordTag.isSome
  phase := match r.phase with
    | .lobby => .lobby
    | .running _ => .running
  settings := r.settings
  members := r.members.map fun member =>
    { player := member.player
      name := member.name
      platform := member.platform
      ready := member.ready
      content := member.content
      connected := member.link.isSome }

def emit (r : Room σ) (output : Output) : Room σ := { r with out := r.out ++ [output] }

def setMember (r : Room σ) (index : Nat) (member : Member) : Room σ :=
  { r with members := r.members.set index member }

def withGame (r : Room σ) (game : Game) : Room σ := { r with phase := .running game }

def position (r : Room σ) (player : PlayerId) : Option Nat :=
  r.members.findIdx? fun member => member.player = player

def linked (r : Room σ) (player : PlayerId) (link : UInt64) : Option Nat :=
  r.members.findIdx? fun member => member.player = player && member.link = some link

def trySend (r : Room σ) (output : Output) : Sent × Room σ :=
  let sent := o.send r.calls
  let r := { r with calls := r.calls + 1 }
  (sent, if sent = .done then r.emit output else r)

def dropLink (r : Room σ) (index : Nat) (slow : Bool) : Room σ :=
  match r.members[index]? with
  | none => r
  | some member =>
    match member.link with
    | none => r
    | some link =>
      let r := if slow then r.emit (.closed member.player link .slowConsumer "not reading fast enough") else r
      r.setMember index member.unlinked

/-- Sends on a channel of a member's connection, and disconnects a member whose queue is full or
closed instead of buffering without bound. -/
def sendLinked (r : Room σ) (index : Nat) (output : PlayerId → UInt64 → Output) : Room σ :=
  match r.members[index]? with
  | none => r
  | some member =>
    match member.link with
    | none => r
    | some link =>
      let (sent, r) := r.trySend o (output member.player link)
      if sent = .done then r else r.dropLink index (sent = .full)

def push (r : Room σ) (index : Nat) (message : ServerMessage) : Room σ :=
  r.sendLinked o index fun player link => .control player link message

def sendTurn (r : Room σ) (index : Nat) (feed : TurnFeed) : Room σ :=
  r.sendLinked o index fun player link => .turn player link feed

def forMembers (r : Room σ) (act : Room σ → Nat → Room σ) : Room σ :=
  (List.range r.members.length).foldl act r

def broadcastView (r : Room σ) : Room σ :=
  let view := r.view
  r.forMembers fun r index => r.push o index (.roomUpdate view)

def closeLink (code : CloseCode) (reason : String) (r : Room σ) (index : Nat) : Room σ :=
  match r.members[index]? with
  | none => r
  | some member =>
    let r := match member.link with
      | some link => r.emit (.closed member.player link code reason)
      | none => r
    r.setMember index { member with link := none, streaming := false }

def closeAll (r : Room σ) (code : CloseCode) (reason : String) : Room σ :=
  { r.forMembers (closeLink code reason) with closed := true }

end Room

end Tpf3Mp.Server
