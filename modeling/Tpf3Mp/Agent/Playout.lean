import Tpf3Mp.Server.Pacing
import Mathlib.Data.List.DropRight

/-!
When a client plays each sealed step (`tpf3mp-agent`, `playout.rs`).
-/

namespace Tpf3Mp.Agent
open Proto
open Server (Instant Duration)

def convergePercent : Nat := 105

def fastForward : Duration := .ofSecs 1

structure Playout where
  stepsPerSecond : UInt16
  margin : Duration
  memory : Duration
  pace : Speed
  paused : Bool
  frontier : Nat
  base : Option Nat
  recent : List (Instant × Instant)
  played : Option (Nat × Instant)
  deriving DecidableEq

namespace Playout

def new (stepsPerSecond : UInt16) (margin memory : Duration) : Playout where
  stepsPerSecond := max stepsPerSecond 1
  margin
  memory
  pace := .normal
  paused := false
  frontier := 0
  base := none
  recent := []
  played := none

def span (p : Playout) (steps percent : Nat) : Duration :=
  let units := p.stepsPerSecond.toNat * (max p.pace.percent 1).toNat * percent
  let micros := steps * 10000000000 / units
  min micros u64Max * 1000

def checkedSub (at_ : Instant) (duration : Duration) : Option Instant :=
  if duration ≤ at_ then some (at_ - duration) else none

def earlier (p : Playout) (at_ : Instant) (steps : Nat) : Instant := (checkedSub at_ (p.span steps 100)).getD at_

def ideal (p : Playout) (step : Nat) : Option Instant := do
  let base ← p.base
  let (_, implied) ← p.recent.head?
  let arrived := if base ≤ step then implied + p.span (step - base) 100 else p.earlier implied (base - step)
  return arrived + p.margin

/-- When to play `step`, the next step, or nothing while it is not sealed. -/
def due (p : Playout) (step : Nat) (now : Instant) : Option Instant :=
  if step > p.frontier then none
  else match p.ideal step with
    | none => some now
    | some ideal =>
      let converging := ideal + fastForward > now
      some (match p.played with
        | some (_, last) => if converging then max ideal (last + p.span 1 convergePercent) else ideal
        | none => ideal)

def play (p : Playout) (step : Nat) (due : Instant) : Playout := { p with played := some (step, due) }

/-- Drops arrivals off the front that are older than the memory, but not the last. -/
def forget (memory : Duration) (now : Instant) : List (Instant × Instant) → List (Instant × Instant)
  | (arrived, implied) :: next :: rest =>
    if now - arrived > memory then forget memory now (next :: rest) else (arrived, implied) :: next :: rest
  | short => short

def remember (p : Playout) (now implied : Instant) : Playout :=
  let recent := p.recent.rdropWhile fun (_, other) => other ≤ implied
  { p with recent := forget p.memory now (recent ++ [(now, implied)]) }

def rebase (p : Playout) (now : Instant) : Playout :=
  let p := { p with recent := [] }
  match p.played with
  | none => { p with base := none }
  | some (played, last) =>
    let next := max (last + p.span 1 100) now
    { p with base := some (played + 1) }.remember now ((checkedSub next p.margin).getD next)

def onTurn (p : Playout) (sealedThrough : Nat) (speed : Speed) (now : Instant) : Playout :=
  let p :=
    if speed.isPaused then { p with paused := true }
    else if p.paused || speed ≠ p.pace then { p with paused := false, pace := speed }.rebase now
    else p
  if sealedThrough ≤ p.frontier then p
  else
    let base := p.base.getD sealedThrough
    let p := { p with frontier := sealedThrough, base := some base }
    p.remember now (p.earlier now (sealedThrough - base))

end Playout

end Tpf3Mp.Agent
