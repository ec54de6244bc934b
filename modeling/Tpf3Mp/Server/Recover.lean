import Tpf3Mp.Server.RoomSeats

/-!
How a restarted server turns a room's log back into the room (`tpf3mp-server`, `Room::recover`). The
log's turns are replayed through the rules; those that a compacted log only keeps for members who
resume are counted but not played again.
-/

namespace Tpf3Mp.Server
open Codec Proto Data

inductive RecoverError where
  | io (error : IoError)
  | log (error : LogError)
  | empty
  | start
  | version (found : UInt16)
  | settings
  | unknownRules (name : RulesName)
  | misnamed
  | turn (index : Nat)
  | continuity (index : Nat)
  | frontier (index : Nat)
  | base
  | rules (reason : String)
  deriving DecidableEq

/-- A log partly replayed: the game, the rules' state, who owns the room and who is barred from it,
whether the base has been reached, and how many records were read. -/
structure Replay (σ : Type) where
  game : Game
  state : σ
  owner : PlayerId
  banned : List PlayerId
  based : Bool
  index : Nat

namespace Replay
variable {σ : Type} (ruleset : Ruleset σ) (base : Option Base)

/-- Plays an event again. Ownership passes as the live room passed it: to the earliest remaining
player whenever the owner leaves. -/
def play (r : Replay σ) (event : Event) : Replay σ :=
  let seated := seat r.game.seated event
  let r := { r with state := ruleset.apply r.state event, game := { r.game with seated } }
  match event.body with
  | .playerLeft player kicked =>
    { r with
      owner := if player = r.owner then (seated.head?.map Prod.fst).getD r.owner else r.owner
      banned := if kicked && r.banned.length < maxBanned then r.banned.insert player else r.banned }
  | _ => r

def next (r : Replay σ) (event : Event) : Replay σ :=
  let r := { r with game := { r.game with nextEvent := r.game.nextEvent + 1 } }
  if r.based then r.play ruleset event else r

def takeEvent (r : Replay σ) (event : Event) : Except RecoverError (Replay σ) :=
  if event.seq ≠ r.game.nextEvent then .error (.continuity r.index) else .ok (r.next ruleset event)

def file (r : Replay σ) (frame : Bytes) (turn : Turn) (firstEvent : Nat) : Replay σ :=
  let game := r.game.keep { firstEvent, sealedThrough := turn.sealedThrough, frame }
  { r with
    game := { game with
      sealedThrough := turn.sealedThrough
      speed := turn.speed
      announcedSpeed := turn.speed }
    index := r.index + 1 }

def takeTurn (r : Replay σ) (frame : Bytes) (turn : Turn) : Except RecoverError (Replay σ) :=
  if turn.number ≠ r.game.nextTurn || turn.sealedThrough < r.game.sealedThrough then .error (.continuity r.index)
  else if turn.sealedThrough > maxFrontier then .error (.frontier r.index)
  else do
    let firstEvent := (turn.events.head?.map Event.seq).getD r.game.nextEvent
    let r ← turn.events.foldlM (takeEvent ruleset) r
    return r.file frame turn firstEvent

def takeMarker (r : Replay σ) (marker : TurnStart) : Except RecoverError (Replay σ) :=
  if !r.based || marker.nextTurn ≠ r.game.nextTurn || marker.nextEvent ≠ r.game.nextEvent then
    .error (.continuity r.index)
  else .ok { r with game := r.game.beginHistory marker.history, index := r.index + 1 }

/-- The kept turns must end exactly where the base stands. -/
def settle (r : Replay σ) : Except RecoverError (Replay σ) :=
  if !r.based && r.game.nextTurn > (base.map Base.afterTurn).getD 0 then
    if base.any r.game.meets then .ok { r with based := true } else .error (.continuity r.index)
  else .ok r

def read (r : Replay σ) (frame : Bytes) : Except RecoverError (Replay σ) :=
  if frame.length < frameHeaderLen then .error (.turn r.index)
  else match decodeFrame Proto.Wire.turnMessage (frame.drop frameHeaderLen) with
    | .ok (.turn turn) => r.takeTurn ruleset frame turn
    | .ok (.start marker) => r.takeMarker marker
    | .error _ => .error (.turn r.index)

def takeRecord (r : Replay σ) (frame : Bytes) : Except RecoverError (Replay σ) := do
  let r ← r.read ruleset frame
  r.settle base

end Replay

/-- Where the replay of a log begins: at its start, or where its base's kept turns do. -/
def StartRecord.replay {σ : Type} (start : StartRecord) (choice : RulesChoice σ) (now : Instant) :
    Except RecoverError (Replay σ) := do
  let game := Game.new start.settings start.history now
  match start.base with
  | none =>
    return { game, state := choice.fresh, owner := start.owner, banned := [], based := true, index := 0 }
  | some base =>
    let seats := (base.seated.map Prod.fst).dedup
    match game.rebase base with
    | none => .error .base
    | some game =>
      if base.banned.length > maxBanned || seats.length ≠ base.seated.length ||
          seats.length > start.maxPlayers.toNat then .error .base
      else
        let state ← (choice.ruleset.restore choice.fresh base.rules).mapError .rules
        return { game, state, owner := start.owner, banned := base.banned.foldr List.insert [], based := false
                 index := 0 }

/-- The start record of a log, if this server can still play it. -/
def readStart {σ : Type} (menu : RulesMenu σ) (file : RoomId) (first : Bytes) :
    Except RecoverError (StartRecord × RulesChoice σ) := do
  let start ← ((Wire.startRecord.decode first).map Prod.fst).elim (.error .start) .ok
  if start.version ≠ formatVersion then .error (.version start.version)
  else if !start.settings.isValid then .error .settings
  else match menu.find (some start.rules) with
    | none => .error (.unknownRules start.rules)
    | some choice => if start.id ≠ file then .error .misnamed else .ok (start, choice)

/-- Replays a whole log: its start record, what the replay came to, and the reader at its end. -/
def replayLog {σ : Type} (menu : RulesMenu σ) (file : RoomId) (now : Instant) (disk : Disk) :
    Except RecoverError (StartRecord × RulesChoice σ × Replay σ × LogReader) := do
  let reader ← (RoomLog.read .log disk).mapError .log
  let (first, reader) ← reader.nextRecord.mapError .log
  let first ← first.elim (.error .empty) .ok
  let (start, choice) ← readStart menu file first
  let replay ← start.replay choice now
  let replay ← replay.settle start.base
  let (replay, reader) ←
    LogReader.forEach .log (fun r => r.takeRecord choice.ruleset start.base) reader.rounds reader replay
  if replay.based then .ok (start, choice, replay, reader)
  else .error (.continuity replay.index)

namespace Room
variable {σ : Type} (o : Oracle)

/-- The snapshot a restored room last agreed on, if its log can be followed from it. -/
def recoverSnapshot (env : RoomEnv) (pointer : Option Agreed) (game : Game) : Option Agreed :=
  if env.dataDir && env.snapshots.isSome then
    pointer.filter fun agreed => (game.streamFromSave agreed.point).toOption.isSome
  else none

/-- The room of a replayed log. `pointer` is the snapshot its pointer file names, if the server
still has it. -/
def restored (env : RoomEnv) (verify : Bytes → Bytes → Bool) (pointer : Option Agreed) (now : Instant)
    (start : StartRecord) (choice : RulesChoice σ) (replay : Replay σ) (log : RoomLog) (disk : Disk) : Room σ :=
  let content := match start.base with
    | some base => base.content
    | none => (start.members.head?.map StartMember.content).join
  let members := replay.game.seated.map fun seat => Member.restored seat content now
  let game := { replay.game with pacer := replay.game.pacer.resumeAt replay.game.sealedThrough }
  let current := recoverSnapshot env pointer game
  let game := { game with saves := { game.saves with current, lastPoint := current.map Agreed.point } }
  { id := start.id
    name := start.name
    rules := start.rules
    owner :=
      if members.any fun member => member.player = replay.owner then replay.owner
      else (members.head?.map Member.player).getD replay.owner
    maxPlayers := start.maxPlayers
    settings := start.settings
    secrets := { verify, inviteTag := start.inviteTag, passwordTag := start.passwordTag }
    members
    phase := .running (game.beginHistory (o.history 0))
    ruleset := choice.ruleset
    state := replay.state
    dataDir := env.dataDir
    timeouts := env.timeouts
    log := some log
    compaction := none
    compactAt := nextCompaction log.written env.compactLogAt
    compactLogAt := env.compactLogAt
    unattendedSince := none
    passwordGuard := .new now
    banned := replay.banned
    content
    snapshots := env.snapshots
    closed := false
    disk
    out := []
    calls := 1 }

/-- What a recovery appends to the log, so that a later one finds the history it begins. -/
def marker (start : StartRecord) (game : Game) : TurnMessage :=
  let head : Stream :=
    { nextTurn := game.nextTurn, nextEvent := game.nextEvent, sealedThrough := game.sealedThrough, backlog := [] }
  .start (game.turnStart start.id start.settings start.rules head none)

def recover (menu : RulesMenu σ) (env : RoomEnv) (verify : Bytes → Bytes → Bool) (file : RoomId)
    (pointer : Option Agreed) (now : Instant) (disk : Disk) : Disk × Except RecoverError (Option (Room σ)) :=
  match replayLog menu file now disk with
  | .error error => (disk, .error error)
  | .ok (start, choice, replay, reader) =>
    if replay.game.seated.isEmpty then (reader.delete disk, .ok none)
    else
      -- Only now, with the room rebuilt, may a torn final record be cut.
      match reader.intoLog disk with
      | (disk, .error error) => (disk, .error (.io error))
      | (disk, .ok log) =>
        match encodeFrame Proto.Wire.turnMessage (marker start (replay.game.beginHistory (o.history 0)))
          turnMaxFrame with
        | .error _ => (disk, .error (.io .device))
        | .ok frame =>
          match log.append frame (o.write 0) disk with
          | (disk, .error error) => (disk, .error (.io error))
          | (disk, .ok log) => (disk, .ok (some (restored o env verify pointer now start choice replay log disk)))

end Room

end Tpf3Mp.Server
