import Tpf3Mp.Proto.Turn

/-!
A room's clock and its rate limits (`tpf3mp-server`, `pacing.rs` and `limit.rs`). Moments and
durations are counted in nanoseconds.
-/

namespace Tpf3Mp.Server
open Proto

abbrev Instant := Nat
abbrev Duration := Nat

def Duration.ofSecs (seconds : Nat) : Duration := seconds * 10 ^ 9
def Duration.ofMillis (millis : Nat) : Duration := millis * 10 ^ 6
def Duration.asMillis (d : Duration) : Nat := d / 10 ^ 6
def Duration.asMicros (d : Duration) : Nat := d / 10 ^ 3

def satAdd (a b : Nat) : Nat := min (a + b) u64Max

theorem satAdd_eq {a b : Nat} (fits : a + b ≤ u64Max) : satAdd a b = a + b := Nat.min_eq_left fits

def satMul (a b : Nat) : Nat := min (a * b) u64Max

def unitsPerStep : Nat := 1000000 * 100

structure Pacer where
  stepsPerSecond : UInt16
  inputDelay : Duration
  maxAhead : Duration
  ideal : Nat
  remainder : Nat
  deriving DecidableEq

namespace Pacer

def new (stepsPerSecond : UInt16) (inputDelay maxAhead : Duration) : Pacer :=
  { stepsPerSecond, inputDelay, maxAhead, ideal := 0, remainder := 0 }

def resumeAt (p : Pacer) (step : Nat) : Pacer := { p with ideal := step, remainder := 0 }

def stepsIn (p : Pacer) (duration : Duration) (speed : Speed) : Nat :=
  let units := duration.asMicros * p.stepsPerSecond.toNat * speed.percent.toNat
  min ((units + unitsPerStep - 1) / unitsPerStep) u64Max

def lead (p : Pacer) (speed : Speed) : Nat :=
  if speed.isPaused then 0 else max (p.stepsIn p.inputDelay speed) 1

def window (p : Pacer) (speed : Speed) : Nat :=
  let pace := if speed.percent < Speed.normal.percent then Speed.normal else speed
  p.lead pace + p.stepsIn p.maxAhead pace

def tickClock (p : Pacer) (elapsed : Duration) (speed : Speed) : Pacer :=
  if speed.isPaused then p
  else
    let units := p.remainder + elapsed.asMicros * p.stepsPerSecond.toNat * speed.percent.toNat
    { p with ideal := satAdd p.ideal (min (units / unitsPerStep) u64Max), remainder := units % unitsPerStep }

/-- The new frontier, never below what is sealed; without a slowest member the clock is held. -/
def advance (p : Pacer) (elapsed : Duration) (speed : Speed) (slowest : Option Nat) (sealed : Nat) : Nat × Pacer :=
  match slowest with
  | none => (sealed, p)
  | some slowest =>
    let p := p.tickClock elapsed speed
    let lead := p.lead speed
    let cap := satAdd slowest (p.window speed)
    let frontier := satAdd p.ideal lead
    if frontier > cap then (max cap sealed, { p with ideal := min p.ideal (cap - lead), remainder := 0 })
    else (max frontier sealed, p)

theorem stepsIn_mono (p : Pacer) (duration : Duration) {slow fast : Speed} (faster : slow.percent ≤ fast.percent) :
    p.stepsIn duration slow ≤ p.stepsIn duration fast := by
  have more : duration.asMicros * p.stepsPerSecond.toNat * slow.percent.toNat ≤
      duration.asMicros * p.stepsPerSecond.toNat * fast.percent.toNat := Nat.mul_le_mul_left _ faster
  have steps := Nat.div_le_div_right (c := unitsPerStep)
    (Nat.sub_le_sub_right (Nat.add_le_add_right more unitsPerStep) 1)
  unfold stepsIn
  dsimp only
  omega

theorem advance_forward (p : Pacer) (elapsed : Duration) (speed : Speed) (slowest : Option Nat) (sealed : Nat) :
    sealed ≤ (p.advance elapsed speed slowest sealed).1 := by
  cases slowest with
  | none => exact le_rfl
  | some slowest =>
    simp only [advance]
    split
    · simp only [Nat.le_max_right]
    · simp only [Nat.le_max_right]

end Pacer

structure TokenBucket where
  perSecond : Nat
  capacityMilli : Nat
  milli : Nat
  last : Instant
  deriving DecidableEq

namespace TokenBucket

def new (perSecond burst : Nat) (now : Instant) : TokenBucket :=
  { perSecond, capacityMilli := burst * 1000, milli := burst * 1000, last := now }

def take (b : TokenBucket) (now : Instant) (cost : Nat) : Bool × TokenBucket :=
  let elapsedMs := min (Duration.asMillis (now - b.last)) u64Max
  let milli := min (satAdd b.milli (satMul elapsedMs b.perSecond)) b.capacityMilli
  let costMilli := satMul cost 1000
  if milli ≥ costMilli then (true, { b with last := now, milli := milli - costMilli })
  else (false, { b with last := now, milli })

end TokenBucket

end Tpf3Mp.Server
