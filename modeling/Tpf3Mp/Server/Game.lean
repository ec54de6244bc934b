import Tpf3Mp.Server.Persist
import Tpf3Mp.Server.Ruleset
import Tpf3Mp.Server.Snapshots

/-!
A running game (`tpf3mp-server`, the `Game` of `room.rs`): how its events are ordered, sealed into
turns and kept for members who resume. Turns and events are counted one by one in natural numbers;
the step of a new event wraps as `u64` does, since a frontier can be any `u64`.
-/

namespace Tpf3Mp.Server
open Codec Proto Data

def turnPayloadBudget : Nat := turnMaxFrame / 2

def maxAhead : Duration := Duration.ofSecs 2

def resumeWindow : Nat := 36000

def resumeWindowBytes : Nat := 64 * 2 ^ 20

def maxFrontier : Nat := 2 ^ 48

def maxCount : Nat := 2 ^ 56

def decidedRoundsKept : Nat := 64

/-- A stretch of a game's turns that clients can resume on, and the last turn it shares with the one
before it. -/
structure History where
  id : UInt64
  afterTurn : Nat
  deriving DecidableEq

structure Round where
  opened : Instant
  reports : List Report
  verdict : Option Verdict
  deriving DecidableEq

structure LoggedTurn where
  firstEvent : Nat
  sealedThrough : Nat
  frame : Bytes
  deriving DecidableEq

structure Stream where
  nextTurn : Nat
  nextEvent : Nat
  sealedThrough : Nat
  backlog : List Bytes
  deriving DecidableEq

abbrev Seat := PlayerId × Text 32 × Platform

structure Game where
  pacer : Pacer
  speed : Speed
  announcedSpeed : Speed
  sealedThrough : Nat
  nextTurn : Nat
  nextEvent : Nat
  pending : List Event
  log : List LoggedTurn
  logFirstTurn : Nat
  sealedBeforeLog : Nat
  logBytes : Nat
  resumeWindow : Nat
  lastTick : Instant
  started : Instant
  rounds : SortedMap Nat Round
  roundsClosedThrough : Nat
  histories : List History
  saves : Saves
  seated : List Seat
  deriving DecidableEq

def seat (seated : List Seat) (event : Event) : List Seat :=
  match event.body with
  | .playerLeft player _ => seated.filter fun seat => seat.1 ≠ player
  | .playerJoined player name platform => seated.filter (fun seat => seat.1 ≠ player) ++ [(player, name, platform)]
  | .command .. | .save => seated

def payloadSize (event : Event) : Nat :=
  match event.body with
  | .command _ _ payload => payload.1.length
  | _ => 0

namespace Game

def new (settings : RoomSettings) (history : UInt64) (now : Instant) : Game where
  pacer := .new settings.stepsPerSecond (Duration.ofMillis settings.inputDelayMs.toNat) maxAhead
  speed := .normal
  announcedSpeed := .normal
  sealedThrough := 0
  nextTurn := 1
  nextEvent := 1
  pending := []
  log := []
  logFirstTurn := 1
  sealedBeforeLog := 0
  logBytes := 0
  resumeWindow := Server.resumeWindow
  lastTick := now
  started := now
  rounds := []
  roundsClosedThrough := 0
  histories := [{ id := history, afterTurn := 0 }]
  saves := {}
  seated := []

def consistent (base : Base) : Bool :=
  base.afterTurn < maxCount && base.nextEvent < maxCount && base.firstTurn ≥ 1 &&
  base.firstTurn ≤ satAdd base.afterTurn 1 && base.firstEvent ≥ 1 && base.firstEvent ≤ base.nextEvent &&
  base.sealedBefore ≤ base.sealedThrough && base.sealedThrough ≤ maxFrontier &&
  base.histories.head?.any (fun history => history.2 == 0) &&
  (base.histories.zip base.histories.tail).all (fun (first, second) => first.2 ≤ second.2) &&
  base.histories.getLast?.any (fun history => history.2 ≤ base.afterTurn)

/-- Stands the game where a compacted log's kept turns begin. -/
def rebase (g : Game) (base : Base) : Option Game :=
  if consistent base then
    some { g with
      nextTurn := base.firstTurn
      logFirstTurn := base.firstTurn
      nextEvent := base.firstEvent
      sealedThrough := base.sealedBefore
      sealedBeforeLog := base.sealedBefore
      speed := base.speed
      announcedSpeed := base.speed
      histories := base.histories.map fun (id, afterTurn) => { id, afterTurn }
      seated := base.seated }
  else none

def meets (g : Game) (base : Base) : Bool :=
  g.nextTurn == satAdd base.afterTurn 1 && g.nextEvent == base.nextEvent && g.sealedThrough == base.sealedThrough

def base (g : Game) (rules : Bytes) (content : Option ContentFingerprint) (banned : List PlayerId) : Base where
  firstTurn := g.logFirstTurn
  firstEvent := (g.log.head?.map LoggedTurn.firstEvent).getD g.nextEvent
  sealedBefore := g.sealedBeforeLog
  afterTurn := g.nextTurn - 1
  nextEvent := g.nextEvent
  sealedThrough := g.sealedThrough
  speed := g.speed
  histories := g.histories.map fun history => (history.id, history.afterTurn)
  content
  seated := g.seated
  banned
  rules

def history (g : Game) : UInt64 := (g.histories.getLast?.map History.id).getD 0

def beginHistory (g : Game) (id : UInt64) : Game :=
  { g with histories := g.histories ++ [{ id, afterTurn := g.nextTurn - 1 }] }

def turnStart (g : Game) (room : RoomId) (settings : RoomSettings) (rules : RulesName) (stream : Stream)
    (world : Option WorldOffer) : TurnStart where
  room
  rules
  nextTurn := stream.nextTurn
  nextEvent := stream.nextEvent
  sealedThrough := stream.sealedThrough
  stepsPerSecond := settings.stepsPerSecond
  checkpointInterval := settings.checkpointInterval
  history := g.history
  world

/-- The first turn of a stream after `resume`, if its history still leads there. -/
def resumeFrom (g : Game) : Option Resume → Except RequestError Nat
  | none => .ok 1
  | some resume =>
    match g.histories.findIdx? fun history => history.id = resume.history with
    | none => .error .resumeUnavailable
    | some index =>
      if g.histories[index + 1]?.any fun next => resume.afterTurn > next.afterTurn then .error .resumeUnavailable
      else .ok (satAdd resume.afterTurn 1)

def streamAfter (g : Game) (resume : Option Resume) : Except RequestError Stream := do
  let first ← g.resumeFrom resume
  if first > g.nextTurn ∨ first < g.logFirstTurn then .error .resumeUnavailable
  else
    let skip := first - g.logFirstTurn
    let backlog := g.log.drop skip
    return {
      nextTurn := first
      -- The first event comes from the backlog, else from the events waiting for the next turn.
      nextEvent := match backlog.head? with
        | some turn => turn.firstEvent
        | none => (g.pending.head?.map Event.seq).getD g.nextEvent
      sealedThrough := match skip with
        | 0 => g.sealedBeforeLog
        | before + 1 => (g.log[before]?.map LoggedTurn.sealedThrough).getD g.sealedThrough
      backlog := backlog.map LoggedTurn.frame }

def streamFromSave (g : Game) (point : SavePoint) : Except RequestError Stream := do
  let stream ← g.streamAfter (some { afterTurn := point.afterTurn, history := point.history })
  if stream.nextEvent ≠ satAdd point.event 1 ∨ stream.sealedThrough ≠ point.sealedThrough then
    .error .resumeUnavailable
  else return stream

def closeRound (g : Game) (step : Nat) : Game :=
  { g with
    rounds := g.rounds.erase step
    roundsClosedThrough := max g.roundsClosedThrough step }

def pruneRounds (g : Game) : Game :=
  let decided := (g.rounds.filter fun entry => entry.2.verdict.isSome).map Prod.fst
  let excess := decided.length - decidedRoundsKept
  (decided.take excess).foldl closeRound g

variable {σ : Type}

def append (g : Game) (body : EventBody) (rules : Ruleset σ) (state : σ) : Game × σ :=
  let event : Event := { seq := g.nextEvent, step := (g.sealedThrough + 1) % 2 ^ 64, body }
  ({ g with
      nextEvent := g.nextEvent + 1
      seated := seat g.seated event
      pending := g.pending ++ [event] },
    rules.apply state event)

def trimTurns (window : Nat) : List LoggedTurn → (bytes first sealedBefore : Nat) → List LoggedTurn × Nat × Nat × Nat
  | [], bytes, first, sealedBefore => ([], bytes, first, sealedBefore)
  | oldest :: rest, bytes, first, sealedBefore =>
    if rest.length + 1 > window ∨ (bytes > resumeWindowBytes ∧ rest.length + 1 > 1) then
      trimTurns window rest (bytes - oldest.frame.length) (first + 1) oldest.sealedThrough
    else (oldest :: rest, bytes, first, sealedBefore)

def trim (g : Game) : Game :=
  let (log, logBytes, logFirstTurn, sealedBeforeLog) :=
    trimTurns g.resumeWindow g.log g.logBytes g.logFirstTurn g.sealedBeforeLog
  { g with log, logBytes, logFirstTurn, sealedBeforeLog }

def remember (g : Game) (turn : LoggedTurn) : Game :=
  trim { g with logBytes := g.logBytes + turn.frame.length, log := g.log ++ [turn] }

def keep (g : Game) (turn : LoggedTurn) : Game := { g.remember turn with nextTurn := g.nextTurn + 1 }

def batches (budget : Nat) (batch : List Event) : List Event → List (List Event)
  | [] => [batch]
  | event :: rest =>
    if budget + payloadSize event > turnPayloadBudget ∧ batch ≠ [] then
      batch :: batches (payloadSize event) [event] rest
    else batches (budget + payloadSize event) (batch ++ [event]) rest

def sealBatches (frontier : Nat) : List (List Event) → Game → Game × Except FrameError (List Bytes)
  | [], g => (g, .ok [])
  | events :: rest, g =>
    let sealedThrough := if rest = [] then frontier else g.sealedThrough
    let turn : Turn := { number := g.nextTurn, sealedThrough, speed := g.speed, events }
    match encodeFrame Proto.Wire.turnMessage (.turn turn) turnMaxFrame with
    | .error error => (g, .error error)
    | .ok frame =>
      let firstEvent := (events.head?.map Event.seq).getD g.nextEvent
      match sealBatches frontier rest (g.keep { firstEvent, sealedThrough, frame }) with
      | (g, .ok frames) => (g, .ok (frame :: frames))
      | (g, .error error) => (g, .error error)

/-- `seal`, which is a keyword here. -/
def sealPending (g : Game) (frontier : Nat) : Game × Except FrameError (List Bytes) :=
  match sealBatches frontier (batches 0 [] g.pending) { g with pending := [] } with
  | (g, .ok frames) => ({ g with sealedThrough := frontier, announcedSpeed := g.speed }, .ok frames)
  | (g, .error error) => (g, .error error)

/-- The part of `save_if_due` that changes the game: a save event alone at the end of a turn that
runs no new steps. -/
def save (g : Game) (rules : Ruleset σ) (state : σ) : Game × σ × Except FrameError (SavePoint × List Bytes) :=
  let (g, state) := g.append .save rules state
  let event := g.nextEvent - 1
  let frontier := g.sealedThrough
  match g.sealPending frontier with
  | (g, .error error) => (g, state, .error error)
  | (g, .ok frames) =>
    (g, state, .ok ({ event, afterTurn := g.nextTurn - 1, history := g.history, sealedThrough := frontier }, frames))

end Game

end Tpf3Mp.Server
