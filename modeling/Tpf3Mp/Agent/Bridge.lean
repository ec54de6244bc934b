import Tpf3Mp.Agent.Outbox

/-!
The bridge between a room and a game's hook (`tpf3mp-agent`, `bridge.rs`). Each function returns the
bridge as it leaves it, also where it fails: `play` goes on with it on a new connection. `lost` says that
the client's sends fail.
-/

namespace Tpf3Mp.Agent
open Proto Tpf3Mp.Bridge
open Server (Instant Duration)

structure BridgeOptions where
  playoutMargin : Duration
  playoutMemory : Duration
  hookTimeout : Duration
  loadTimeout : Duration
  progressEvery : Duration
  /-- Where saves go if worlds are kept. -/
  worlds : Option String
  /-- Where saves go if no worlds are kept. -/
  tempSaves : String
  status : Bool
  /-- The name shown for a player the room did not announce. -/
  playerText : PlayerId → Text 32

/-- What the server told the client. A closed connection says whether rejoining is worth it. -/
inductive ClientEvent where
  | roomUpdate (view : RoomView)
  | intentRejected (clientSeq : Nat) (reason : IntentRejection)
  | diverged (step : Nat) (lanes : List UInt16)
  | turnStream (start : TurnStart)
  | turn (turn : Turn)
  | kicked
  | upload (event : Nat) (snapshot : SnapshotId)
  | chat (sender : PlayerId) (text : ChatText)
  | closed (worthRejoining : Bool)

inductive BridgeFault where
  | version (version : UInt32)
  | unexpected (what : String)
  | hookGone
  | disconnected
  | follow (error : FollowError)
  | loadedElsewhere (expected got : Nat)
  | noWorlds
  | pathTooLong (path : String)
  deriving DecidableEq

inductive BridgeEnd where
  | closed (worthRejoining : Bool)
  | kicked
  | worldUnavailable
  deriving DecidableEq

inductive World where
  | ready
  | fetching (offer : WorldOffer) (nextStep attempt : Nat)
  | loading (nextStep : Nat)
  deriving DecidableEq

inductive Done where
  | ingested (event : Nat) (lanes : List LaneDigest) (result : Except String (SnapshotId × SavedWorld))
  | fetched (attempt : Nat) (result : Except String (String × SnapshotId))
  | uploaded (snapshot : SnapshotId) (result : Except String Nat)

inductive Effect where
  | send (message : GameMessage)
  | request (text : ChatText)
  | ingest (event : Nat) (lanes : List LaneDigest) (file : PathText)
  | fetch (attempt : Nat) (offer : WorldOffer)
  | upload (event : Nat) (snapshot : SnapshotId)
  | tidy (keep : List SnapshotId)
  deriving DecidableEq

def savesKept : Nat := 2

structure Bridge where
  options : BridgeOptions
  follower : Option TurnFollower
  playout : Option Playout
  outbox : Outbox
  hookReady : Bool
  begun : Bool
  world : World
  loaded : Bool
  speed : Speed
  commands : Nat
  progress : Option Nat
  reported : Option Nat
  lastReport : Instant
  hookBeat : Nat × Instant
  attempts : Nat
  saved : List SnapshotId
  received : Option SnapshotId
  room : Option RoomView

structure Outcome where
  bridge : Bridge
  effects : List Effect
  result : Except BridgeFault (Option BridgeEnd)

def pathText (path : String) : Except BridgeFault PathText :=
  if fits : path.utf8ByteSize ≤ maxPath ∧ path.toList.any isControl = false then .ok ⟨path, fits⟩
  else .error (.pathTooLong path)

namespace Bridge

def new (options : BridgeOptions) (beat : Nat) (now : Instant) : Bridge where
  options
  follower := none
  playout := none
  outbox := .empty
  hookReady := false
  begun := false
  world := .ready
  loaded := false
  speed := .normal
  commands := 0
  progress := none
  reported := none
  lastReport := now
  hookBeat := (beat, now)
  attempts := 0
  saved := []
  received := none
  room := none

def done (b : Bridge) (effects : List Effect) : Outcome := { bridge := b, effects, result := .ok none }

def ended (b : Bridge) (ending : BridgeEnd) : Outcome := { bridge := b, effects := [], result := .ok (some ending) }

def fault (b : Bridge) (fault : BridgeFault) : Outcome := { bridge := b, effects := [], result := .error fault }

def send (b : Bridge) (lost : Bool) (message : GameMessage) (after : Bridge) : Outcome :=
  if lost then b.fault .disconnected else after.done [.send message]

def checkHook (b : Bridge) (beat : Nat) (now : Instant) : Outcome :=
  let limit := if b.loaded then b.options.hookTimeout else b.options.loadTimeout
  if beat ≠ b.hookBeat.1 then { b with hookBeat := (beat, now) }.done []
  else if b.hookReady && now - b.hookBeat.2 > limit then b.fault .hookGone
  else b.done []

def savedWorld (b : Bridge) (lost : Bool) (event : Nat) (lanes : List LaneDigest) (file : Option PathText) : Outcome :=
  match b.options.worlds, file with
  | some _, some file => b.done [.ingest event lanes file]
  | _, _ => b.send lost (.saved event lanes none) b

/-- One message of the loop of `read_hook`. -/
def readHook (b : Bridge) (lost : Bool) (message : ToAgent) : Outcome :=
  match message with
  | .hello version _ =>
    if b.hookReady then b.fault (.unexpected "a second hello")
    else if version ≠ bridgeVersion then b.fault (.version version)
    else { b with hookReady := true, outbox := b.outbox.pushFront (.hello bridgeVersion) }.done []
  | message =>
    if !b.hookReady then b.fault (.unexpected "a message before its hello")
    else match message with
      | .loaded nextStep =>
        match b.world with
        | .loading expected =>
          if nextStep ≠ expected then b.fault (.loadedElsewhere expected nextStep)
          else
            let b := { b with world := .ready }
            let progress := nextStep - 1
            b.send lost (.progress progress)
              { b with progress := some progress, reported := some progress, loaded := true }
        | _ => b.fault (.unexpected "a world nobody ordered")
      | .command payload => b.send lost (.intent b.commands payload) { b with commands := b.commands + 1 }
      | .ran step => if b.world = .ready then { b with progress := some step }.done [] else b.done []
      | .checkpoint step lanes =>
        if b.world = .ready then b.send lost (.checkpoint step lanes) b else b.done []
      | .saved event lanes file => if b.world = .ready then b.savedWorld lost event lanes file else b.done []
      | .chat text => b.done [.request text]
      | .log _ => b.done []
      | .hello .. => b.done []

def reportProgress (b : Bridge) (lost : Bool) (now : Instant) : Outcome :=
  match b.progress with
  | none => b.done []
  | some progress =>
    let sent := { b with reported := some progress, lastReport := now }
    match b.reported with
    | none => b.send lost (.progress progress) sent
    | some reported =>
      if b.options.progressEvery ≤ now - b.lastReport && reported < progress then b.send lost (.progress progress) sent
      else b.done []

def forWorld : ToHook → Bool
  | .apply _ | .release _ | .load .. => true
  | _ => false

def voidWorld (b : Bridge) : Bridge :=
  { b with outbox := b.outbox.retain fun message => !forWorld message, progress := none, loaded := false }

def fetchWorld (b : Bridge) (offer : WorldOffer) (nextStep : Nat) : Outcome :=
  match b.options.worlds with
  | none => b.fault .noWorlds
  | some _ =>
    let attempt := b.attempts + 1
    { b.voidWorld with attempts := attempt, world := .fetching offer nextStep attempt }.done [.fetch attempt offer]

def orderLoad (b : Bridge) (file : Option String) (nextStep : Nat) (effects : List Effect) : Outcome :=
  match file.mapM pathText with
  | .error fault => { bridge := b, effects, result := .error fault }
  | .ok file =>
    { b.voidWorld with
      outbox := b.voidWorld.outbox.pushBack (.load file nextStep)
      world := .loading nextStep }.done effects

def savesDir (b : Bridge) : String := b.options.worlds.getD b.options.tempSaves

def begin (b : Bridge) (start : TurnStart) : Bridge × Except BridgeFault Unit :=
  if b.begun then (b, .ok ())
  else
    let b := { b with begun := true }
    match pathText b.savesDir with
    | .error fault => (b, .error fault)
    | .ok saves =>
      ({ b with outbox := b.outbox.pushBack (.begin start.rules start.stepsPerSecond start.checkpointInterval saves) },
        .ok ())

def follow (b : Bridge) (start : TurnStart) : Outcome :=
  let nextStep := min (start.sealedThrough + 1) u64Max
  match start.world, b.follower with
  | some offer, _ => { b with follower := some (.new start) }.fetchWorld offer nextStep
  | none, none => { b with follower := some (.new start) }.orderLoad none nextStep []
  | none, some follower => match follower.restart start with
    | .ok follower => { b with follower := some follower }.done []
    | .error error =>
      if start.nextEvent = 1 ∧ start.sealedThrough = 0 then
        { b with follower := some (.new start) }.orderLoad none nextStep []
      else b.fault (.follow error)

def onTurnStream (b : Bridge) (start : TurnStart) : Outcome :=
  let b := { b with
    reported := none
    playout := some (.new start.stepsPerSecond b.options.playoutMargin b.options.playoutMemory) }
  match b.begin start with
  | (b, .error fault) => b.fault fault
  | (b, .ok ()) => b.follow start

def onTurn (b : Bridge) (turn : Turn) (now : Instant) : Outcome :=
  match b.follower with
  | none => b.fault (.unexpected "a turn before its stream")
  | some follower => match follower.accept turn with
    | .error error => b.fault (.follow error)
    | .ok follower =>
      let b := { b with
        follower := some follower
        playout := b.playout.map fun (playout : Playout) => playout.onTurn follower.sealedThrough follower.speed now }
      if follower.speed ≠ b.speed then
        { b with speed := follower.speed, outbox := b.outbox.pushBack (.speed follower.speed) }.done []
      else b.done []

def nameOf (b : Bridge) (player : PlayerId) : Text 32 :=
  match b.room.bind fun room => room.members.find? (·.player = player) with
  | some member => member.name
  | none => b.options.playerText player

def onEvent (b : Bridge) (now : Instant) : ClientEvent → Outcome
  | .turnStream start => b.onTurnStream start
  | .turn turn => b.onTurn turn now
  | .intentRejected clientSeq reason => { b with outbox := b.outbox.pushBack (.refused clientSeq reason) }.done []
  | .diverged step lanes => { b with outbox := b.outbox.pushBack (.diverged step lanes) }.done []
  | .upload event snapshot => b.done (if b.options.worlds.isSome then [.upload event snapshot] else [])
  | .chat sender text =>
    if b.begun then { b with outbox := b.outbox.pushBack (.chat (b.nameOf sender) text) }.done [] else b.done []
  | .roomUpdate view => { b with room := if b.options.status then some view else b.room }.done []
  | .kicked => b.ended .kicked
  | .closed worthRejoining => b.ended (.closed worthRejoining)

def tidy (b : Bridge) : List Effect :=
  if b.options.worlds.isSome then [.tidy (b.saved ++ b.received.toList)] else []

def onDone (b : Bridge) (lost : Bool) : Done → Outcome
  | .ingested event lanes (.ok (id, world)) =>
    let saved := b.saved ++ [id]
    let b := { b with saved := saved.drop (saved.length - savesKept) }
    let sent := b.send lost (.saved event lanes (some world)) b
    { sent with effects := b.tidy ++ sent.effects }
  | .ingested event lanes (.error _) => b.send lost (.saved event lanes none) b
  | .fetched attempt result =>
    match b.world with
    | .fetching _ nextStep current =>
      if attempt ≠ current then b.done []
      else match result with
        | .ok (file, id) =>
          let b := { b with received := some id }
          b.orderLoad (some file) nextStep b.tidy
        | .error _ => b.ended .worldUnavailable
    | _ => b.done []
  | .uploaded .. => b.done []

/-- The part of `run` that pumps: turns wait while the world they continue is being fetched. -/
def pumped (b : Bridge) (fuel : Nat) (now : Instant) : Option Bridge :=
  match b.world, b.follower, b.playout with
  | .fetching .., _, _ => some b
  | _, some follower, some playout =>
    (pump fuel follower playout now b.outbox).map fun (_, follower, playout, outbox) =>
      { b with follower := some follower, playout := some playout, outbox }
  | _, _, _ => some b

def flush (b : Bridge) : Option (ToHook × Bridge) :=
  if b.hookReady then b.outbox.popFront.map fun (message, outbox) => (message, { b with outbox }) else none

end Bridge

end Tpf3Mp.Agent
