import Tpf3Mp.Proto.Turn

/-!
The client's turn follower (`tpf3mp-agent`, `follower.rs`): it checks every turn the server sends,
queues the events, and hands out what the game may do next.
-/

namespace Tpf3Mp.Agent
open Proto

def maxQueuedBytes : Nat := 2 ^ 28

def eventOverhead : Nat := 64

inductive FollowError where
  | turnGap (expected got : Nat)
  | eventGap (expected got : Nat)
  | eventStep (seq step expected : Nat)
  | frontierRegressed (before after : Nat)
  | restartMismatch (expected got : Nat)
  | restartFrontier (expected got : Nat)
  | overflow
  | backlog
  deriving DecidableEq

inductive Action where
  | apply (event : Event)
  | execute (step : Nat)
  deriving DecidableEq

def eventSize (event : Event) : Nat :=
  eventOverhead + match event.body with
    | .command _ _ payload => payload.1.length
    | _ => 0

structure TurnFollower where
  nextTurn : Nat
  nextEvent : Nat
  sealedThrough : Nat
  speed : Speed
  executed : Nat
  queue : List Event
  queuedBytes : Nat
  history : UInt64
  deriving DecidableEq

/-- `u64::checked_add(1)`, failing with `Overflow`. -/
def checkedSucc (n : Nat) : Except FollowError Nat :=
  if n < u64Max then .ok (n + 1) else .error .overflow

namespace TurnFollower

def new (start : TurnStart) : TurnFollower where
  nextTurn := start.nextTurn
  nextEvent := start.nextEvent
  sealedThrough := start.sealedThrough
  speed := .normal
  executed := start.sealedThrough
  queue := []
  queuedBytes := 0
  history := start.history

def restart (f : TurnFollower) (start : TurnStart) : Except FollowError TurnFollower :=
  if start.nextTurn ≠ f.nextTurn then .error (.restartMismatch f.nextTurn start.nextTurn)
  else if start.nextEvent ≠ f.nextEvent then .error (.eventGap f.nextEvent start.nextEvent)
  else if start.sealedThrough ≠ f.sealedThrough then .error (.restartFrontier f.sealedThrough start.sealedThrough)
  else .ok { f with history := start.history }

def resumePoint (f : TurnFollower) : Resume where
  afterTurn := f.nextTurn - 1
  history := f.history

/-- The loop of `accept`: the next event number expected after the events, and their bytes. -/
def checkEvents (step : Nat) : (expected bytes : Nat) → List Event → Except FollowError (Nat × Nat)
  | expected, bytes, [] => .ok (expected, bytes)
  | expected, bytes, event :: events =>
    if event.seq ≠ expected then .error (.eventGap expected event.seq)
    else if event.step ≠ step then .error (.eventStep event.seq event.step step)
    else do
      let next ← checkedSucc expected
      checkEvents step next (bytes + eventSize event) events

def accept (f : TurnFollower) (turn : Turn) : Except FollowError TurnFollower :=
  if turn.number ≠ f.nextTurn then .error (.turnGap f.nextTurn turn.number)
  else if turn.sealedThrough < f.sealedThrough then .error (.frontierRegressed f.sealedThrough turn.sealedThrough)
  else do
    let nextTurn ← checkedSucc f.nextTurn
    let step ← checkedSucc f.sealedThrough
    let (expected, bytes) ← checkEvents step f.nextEvent 0 turn.events
    if f.queuedBytes + bytes > maxQueuedBytes then .error .backlog
    else .ok { f with
      nextTurn := nextTurn
      nextEvent := expected
      sealedThrough := turn.sealedThrough
      speed := turn.speed
      queuedBytes := f.queuedBytes + bytes
      queue := f.queue ++ turn.events }

/-- `executed + 1`, which wraps in a release build. -/
def upcoming (f : TurnFollower) : Nat := (f.executed + 1) % 2 ^ 64

def nextAction (f : TurnFollower) : Option Action × TurnFollower :=
  let step := f.upcoming
  match f.queue with
  | event :: rest =>
    if event.step = step then
      (some (.apply event), { f with queue := rest, queuedBytes := f.queuedBytes - eventSize event })
    else if step ≤ f.sealedThrough then (some (.execute step), { f with executed := step })
    else (none, f)
  | [] =>
    if step ≤ f.sealedThrough then (some (.execute step), { f with executed := step })
    else (none, f)

def nextStep (f : TurnFollower) : Option Nat :=
  let step := f.upcoming
  let eventFirst := f.queue.head?.any fun event => event.step == step
  if !eventFirst && step ≤ f.sealedThrough then some step else none

end TurnFollower

end Tpf3Mp.Agent
