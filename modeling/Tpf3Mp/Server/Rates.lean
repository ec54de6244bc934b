import Tpf3Mp.Server.Pacing
import Mathlib.Algebra.Order.Floor.Div
import Mathlib.Data.Rat.Cast.Order
import Mathlib.GroupTheory.GroupAction.Ring
import Mathlib.Tactic.FieldSimp
import Mathlib.Tactic.Linarith

/-!
What a bucket grants and how far a clock runs over whole sequences of calls. A bucket loses the parts of a
millisecond between calls; a clock that waited does not catch up.
-/

namespace Tpf3Mp.Server
open Proto List

namespace TokenBucket

def takes (b : TokenBucket) : List (Instant × Nat) → Nat × TokenBucket
  | [] => (0, b)
  | (now, cost) :: calls =>
    let (taken, b) := b.take now cost
    let (granted, b) := b.takes calls
    ((if taken then cost else 0) + granted, b)

theorem take_spec (b : TokenBucket) (now : Instant) (cost : Nat) (small : b.capacityMilli < u64Max) :
    (b.take now cost).2.perSecond = b.perSecond ∧ (b.take now cost).2.capacityMilli = b.capacityMilli ∧
    (b.take now cost).2.last = now ∧
    (if (b.take now cost).1 then cost else 0) * 1000 + (b.take now cost).2.milli ≤
      min (b.milli + Duration.asMillis (now - b.last) * b.perSecond) b.capacityMilli := by
  unfold take
  dsimp only
  have held :
      min (satAdd b.milli (satMul (min (Duration.asMillis (now - b.last)) u64Max) b.perSecond)) b.capacityMilli ≤
      min (b.milli + Duration.asMillis (now - b.last) * b.perSecond) b.capacityMilli := by
    have dripped : satMul (min (Duration.asMillis (now - b.last)) u64Max) b.perSecond ≤
        Duration.asMillis (now - b.last) * b.perSecond :=
      le_trans (Nat.min_le_left _ _) (Nat.mul_le_mul_right _ (Nat.min_le_left _ _))
    unfold satAdd
    omega
  split
  · next enough =>
    refine ⟨rfl, rfl, rfl, le_trans ?_ held⟩
    -- A cost that saturates is more than any bucket holds.
    unfold satMul at enough ⊢
    rw [if_pos rfl]
    dsimp only
    omega
  · refine ⟨rfl, rfl, rfl, le_trans ?_ held⟩
    simp

variable {b : TokenBucket}

theorem takes_spec {calls : List (Instant × Nat)} (small : b.capacityMilli < u64Max)
    (later : ∀ call ∈ calls, b.last ≤ call.1) (sorted : calls.Pairwise fun earlier later => earlier.1 ≤ later.1) :
    (b.takes calls).1 * 10 ^ 9 + (b.takes calls).2.milli * 10 ^ 6 ≤
      b.milli * 10 ^ 6 + b.perSecond * ((calls.getLast?.map Prod.fst).getD b.last - b.last) := by
  induction calls generalizing b with
  | nil => simp [takes]
  | cons call calls ih =>
    obtain ⟨now, cost⟩ := call
    obtain ⟨rate, capacity, last, spent⟩ := b.take_spec now cost small
    obtain ⟨after, sorted⟩ := pairwise_cons.mp sorted
    have here : b.last ≤ now := later _ mem_cons_self
    have rest := ih (by rw [capacity]; exact small)
      (by rw [last]; exact after) sorted
    rw [rate, last] at rest
    have final : ((((now, cost) :: calls).getLast?.map Prod.fst).getD b.last) =
      (calls.getLast?.map Prod.fst).getD now := by
      cases calls with
      | nil => rfl
      | cons other calls => rw [getLast?_cons_cons]; rfl
    have onward : now ≤ (calls.getLast?.map Prod.fst).getD now := by
      cases found : calls.getLast? with
      | none => exact le_rfl
      | some other => exact after other (mem_of_getLast? found)
    rw [final]
    unfold takes
    dsimp only
    generalize (calls.getLast?.map Prod.fst).getD now = stop at rest onward ⊢
    -- Milliseconds are rounded down, and what is cut off is lost.
    have dripped : Duration.asMillis (now - b.last) * b.perSecond * 10 ^ 6 ≤ b.perSecond * (now - b.last) := by
      rw [Nat.mul_right_comm, Nat.mul_comm b.perSecond]
      exact Nat.mul_le_mul_right _ (Nat.div_mul_le_self _ _)
    have total : b.perSecond * (now - b.last) + b.perSecond * (stop - now) = b.perSecond * (stop - b.last) := by
      rw [← Nat.mul_add, Nat.add_comm, Nat.sub_add_sub_cancel onward here]
    have spent := le_trans spent (Nat.min_le_left _ _)
    generalize (if (b.take now cost).1 then cost else 0) = granted at spent ⊢
    linarith only [rest, dripped, total, spent]

theorem takes_keeps (calls : List (Instant × Nat)) (small : b.capacityMilli < u64Max) :
    (b.takes calls).2.perSecond = b.perSecond ∧ (b.takes calls).2.capacityMilli = b.capacityMilli := by
  induction calls generalizing b with
  | nil => exact ⟨rfl, rfl⟩
  | cons call calls ih =>
    obtain ⟨rate, capacity, _, _⟩ := b.take_spec call.1 call.2 small
    obtain ⟨rate', capacity'⟩ := ih (by rw [capacity]; exact small)
    exact ⟨rate'.trans rate, capacity'.trans capacity⟩

theorem takes_from {calls : List (Instant × Nat)} (now : Instant) (cost : Nat)
    (small : b.capacityMilli < u64Max) (later : ∀ call ∈ calls, now ≤ call.1)
    (sorted : calls.Pairwise fun earlier later => earlier.1 ≤ later.1) : (b.takes ((now, cost) :: calls)).1 * 10 ^ 9 ≤
      b.capacityMilli * 10 ^ 6 + b.perSecond * ((calls.getLast?.map Prod.fst).getD now - now) := by
  obtain ⟨rate, capacity, last, spent⟩ := b.take_spec now cost small
  have rest := takes_spec (by rw [capacity]; exact small)
    (by rw [last]; exact later) sorted
  rw [rate, last] at rest
  have spent := le_trans spent (Nat.min_le_right _ _)
  unfold takes
  linarith only [rest, spent]

end TokenBucket

/-- Between any two calls a bucket grants at most its burst and what its rate comes to in the time between
them. -/
theorem granted_within_rate (perSecond burst : UInt32) (start : Instant) (before calls : List (Instant × Nat))
    (first last : Instant × Nat) (sorted : (before ++ calls).Pairwise fun earlier later => earlier.1 ≤ later.1)
    (begins : calls.head? = some first) (ends : calls.getLast? = some last) :
    ((((TokenBucket.new perSecond.toNat burst.toNat start).takes before).2.takes calls).1 : ℚ) ≤
      burst.toNat + perSecond.toNat * (((last.1 : ℚ) - first.1) / 10 ^ 9) := by
  have short : burst.toNat * 1000 < u64Max := by
    have bound := burst.toNat_lt
    unfold u64Max
    omega
  obtain ⟨rate, capacity⟩ :=
    TokenBucket.takes_keeps (b := TokenBucket.new perSecond.toNat burst.toNat start) before short
  generalize ((TokenBucket.new perSecond.toNat burst.toNat start).takes before).2 = b at rate capacity ⊢
  cases calls with
  | nil => cases begins
  | cons call calls =>
    cases begins
    obtain ⟨later, sorted⟩ := pairwise_cons.mp (pairwise_append.mp sorted).2.1
    have granted := TokenBucket.takes_from first.1 first.2 (by rw [capacity]; exact short)
      later sorted
    have final : (calls.getLast?.map Prod.fst).getD first.1 = last.1 := by
      cases calls with
      | nil =>
        cases ends
        rfl
      | cons other calls =>
        rw [getLast?_cons_cons] at ends
        rw [ends]
        rfl
    have forward : first.1 ≤ last.1 := by
      rcases mem_cons.mp (mem_of_getLast? ends) with rfl | among
      · exact le_rfl
      · exact later last among
    rw [final, rate, capacity] at granted
    have exact : ((b.takes (first :: calls)).1 : ℚ) * 10 ^ 9 ≤
        burst.toNat * 1000 * 10 ^ 6 + perSecond.toNat * ((last.1 : ℚ) - first.1) := by
      exact_mod_cast granted
    linarith only [exact]

theorem granted_within_rate_burst :
    let calls : List (Instant × Nat) := [(0, 1), (0, 1), (0, 1), (0, 1), (Duration.ofMillis 100, 1)]
    let granted := ((TokenBucket.new (10 : UInt32).toNat (3 : UInt32).toNat 0).takes calls).1
    granted = 4 ∧ (granted : ℚ) ≤
      (3 : UInt32).toNat + (10 : UInt32).toNat * ((((Duration.ofMillis 100 : Nat) : ℚ) - (0 : Nat)) / 10 ^ 9) := by
  intro calls granted
  exact ⟨by decide, granted_within_rate 10 3 0 [] calls (0, 1) (Duration.ofMillis 100, 1) (by decide) rfl rfl⟩

namespace TokenBucket

def refuses (b : TokenBucket) : List (Instant × Nat) → Bool
  | [] => true
  | (now, cost) :: calls => !(b.take now cost).1 && (b.take now cost).2.refuses calls

def cutOff (last : Instant) : List (Instant × Nat) → Duration
  | [] => 0
  | (now, _) :: calls => (now - last) % 10 ^ 6 + cutOff now calls

def counted (last : Instant) : List (Instant × Nat) → Nat
  | [] => 0
  | (now, _) :: calls => Duration.asMillis (now - last) + counted now calls

def refilled (b : TokenBucket) (now : Instant) : Nat :=
  min (b.milli + Duration.asMillis (now - b.last) * b.perSecond) b.capacityMilli

variable {b : TokenBucket}

theorem take_eq {now : Instant} {cost : Nat} (small : b.capacityMilli < u64Max) : b.take now cost =
      if cost * 1000 ≤ b.refilled now then (true, { b with last := now, milli := b.refilled now - cost * 1000 })
      else (false, { b with last := now, milli := b.refilled now }) := by
  have dripped : min (satAdd b.milli (satMul (min (Duration.asMillis (now - b.last)) u64Max) b.perSecond))
      b.capacityMilli = b.refilled now := by
    unfold refilled satAdd satMul
    generalize Duration.asMillis (now - b.last) = elapsed
    rcases Nat.eq_zero_or_pos b.perSecond with still | drips
    · simp only [still, Nat.mul_zero]
      omega
    by_cases short : elapsed ≤ u64Max
    · rw [Nat.min_eq_left short]
      omega
    -- So long a time fills the bucket.
    have much := Nat.le_mul_of_pos_right u64Max drips
    have more := Nat.le_mul_of_pos_right elapsed drips
    rw [Nat.min_eq_right (Nat.le_of_not_le short)]
    omega
  unfold take
  dsimp only
  rw [dripped]
  by_cases affordable : cost * 1000 ≤ b.refilled now
  · have exact : satMul cost 1000 = cost * 1000 := by
      unfold satMul
      omega
    rw [exact]
  · have saturated : ¬ b.refilled now ≥ satMul cost 1000 := by
      unfold satMul
      omega
    rw [if_neg saturated, if_neg affordable]

theorem take_refused {now : Instant} {cost : Nat} (small : b.capacityMilli < u64Max)
    (refused : (b.take now cost).1 = false) :
    (b.take now cost).2 = { b with last := now, milli := b.refilled now } := by
  rw [take_eq small] at refused ⊢
  split at refused
  · cases refused
  · next dear => rw [if_neg dear]

theorem takes_append (b : TokenBucket) (calls more : List (Instant × Nat)) :
    (b.takes (calls ++ more)).2 = ((b.takes calls).2.takes more).2 := by
  induction calls generalizing b with
  | nil => rfl
  | cons call calls ih => exact ih _

theorem takes_last (b : TokenBucket) (calls : List (Instant × Nat)) (call : Instant × Nat)
    (small : b.capacityMilli < u64Max) : (b.takes (calls ++ [call])).2.last = call.1 := by
  rw [takes_append]
  have kept := (takes_keeps calls small).2
  exact ((b.takes calls).2.take_spec call.1 call.2 (by rw [kept]; exact small)).2.2.1

theorem refilled_after {between : List (Instant × Nat)} (small : b.capacityMilli < u64Max)
    (refused : b.refuses between = true) (last : Instant × Nat) : (b.takes between).2.refilled last.1 =
      min (b.milli + counted b.last (between ++ [last]) * b.perSecond) b.capacityMilli := by
  induction between generalizing b with
  | nil => rfl
  | cons call between ih =>
    obtain ⟨now, cost⟩ := call
    unfold refuses at refused
    rw [Bool.and_eq_true, Bool.not_eq_true'] at refused
    have left := take_refused small refused.1
    rw [left] at refused
    have rest := ih (b := { b with last := now, milli := b.refilled now }) small refused.2
    simp only [cons_append, takes, counted, left, Nat.add_mul]
    rw [rest]
    unfold refilled
    dsimp only
    omega

theorem counted_cutOff {last : Instant} {between : List (Instant × Nat)} {final : Instant × Nat}
    (later : ∀ call ∈ between ++ [final], last ≤ call.1)
    (sorted : (between ++ [final]).Pairwise fun earlier later => earlier.1 ≤ later.1) :
    counted last (between ++ [final]) * 10 ^ 6 + cutOff last (between ++ [final]) = final.1 - last := by
  induction between generalizing last with
  | nil => exact Nat.div_add_mod' _ _
  | cons call between ih =>
    obtain ⟨after, sorted⟩ := pairwise_cons.mp sorted
    have rest := ih after sorted
    have begun : last ≤ call.1 := later call mem_cons_self
    have passed : call.1 ≤ final.1 := after final (mem_append_right _ (mem_singleton_self _))
    have here : Duration.asMillis (call.1 - last) * 10 ^ 6 + (call.1 - last) % 10 ^ 6 = call.1 - last :=
      Nat.div_add_mod' _ _
    have whole := Nat.sub_add_sub_cancel passed begun
    simp only [cons_append, counted, cutOff, Nat.add_mul]
    rw [Nat.add_add_add_comm, here, rest, Nat.add_comm]
    exact whole

end TokenBucket

/-- A call is granted once its cost has dripped in since an earlier call, but for a millisecond, when only refusals
lie between and what is cut off the times between them comes to no more than a millisecond. -/
theorem granted_after_refusals (perSecond burst : UInt32) (start : Instant) (before between : List (Instant × Nat))
    (first last : Instant × Nat)
    (sorted : (first :: between ++ [last]).Pairwise fun earlier later => earlier.1 ≤ later.1)
    (refused :
      (((TokenBucket.new perSecond.toNat burst.toNat start).takes (before ++ [first])).2.refuses between) = true)
    (regular : TokenBucket.cutOff first.1 (between ++ [last]) ≤ 10 ^ 6)
    (dripped : (last.2 : ℚ) ≤ perSecond.toNat * (((last.1 : ℚ) - first.1) / 10 ^ 9 - 1 / 1000))
    (fits : last.2 ≤ burst.toNat) :
    (((TokenBucket.new perSecond.toNat burst.toNat start).takes (before ++ first :: between)).2.take last.1 last.2).1
      = true := by
  have short : burst.toNat * 1000 < u64Max := by
    have bound := burst.toNat_lt
    unfold u64Max
    omega
  obtain ⟨rate, capacity⟩ :=
    TokenBucket.takes_keeps (b := TokenBucket.new perSecond.toNat burst.toNat start) (before ++ [first]) short
  have begun := (TokenBucket.new perSecond.toNat burst.toNat start).takes_last before first short
  rw [append_cons before first between, TokenBucket.takes_append]
  generalize ((TokenBucket.new perSecond.toNat burst.toNat start).takes (before ++ [first])).2 = b
    at refused rate capacity begun ⊢
  replace rate : b.perSecond = perSecond.toNat := rate
  replace capacity : b.capacityMilli = burst.toNat * 1000 := capacity
  have small : b.capacityMilli < u64Max := by rw [capacity]; exact short
  have kept := (TokenBucket.takes_keeps between small).2
  obtain ⟨later, sorted⟩ := pairwise_cons.mp sorted
  have time := TokenBucket.counted_cutOff later sorted
  have held := TokenBucket.refilled_after small refused last
  rw [begun, rate, capacity] at held
  have forward : first.1 ≤ last.1 := later last (mem_append_right _ (mem_singleton_self _))
  have enough : last.2 * 1000 ≤ TokenBucket.counted first.1 (between ++ [last]) * perSecond.toNat := by
    have span : ((last.1 - first.1 : Nat) : ℚ) = (last.1 : ℚ) - first.1 := Nat.cast_sub forward
    rw [← time] at span
    have most : (last.1 : ℚ) - first.1 ≤ TokenBucket.counted first.1 (between ++ [last]) * 10 ^ 6 + 10 ^ 6 := by
      rw [← span]
      exact_mod_cast Nat.add_le_add_left regular _
    have weighed := mul_le_mul_of_nonneg_left most (Nat.cast_nonneg perSecond.toNat : (0 : ℚ) ≤ _)
    have exact : (last.2 : ℚ) * 1000 ≤ TokenBucket.counted first.1 (between ++ [last]) * perSecond.toNat := by
      linarith only [dripped, weighed]
    exact_mod_cast exact
  rw [TokenBucket.take_eq (by rw [kept]; exact small), if_pos]
  omega

theorem granted_after_refusals_once :
    ((TokenBucket.new (1 : UInt32).toNat (1 : UInt32).toNat 0).takes [(0, 1)]).2.refuses
      [(Duration.ofMillis 500, 1)] = true ∧
    (((TokenBucket.new (1 : UInt32).toNat (1 : UInt32).toNat 0).takes [(0, 1), (Duration.ofMillis 500, 1)]).2.take
      (Duration.ofMillis 1001) 1).1 = true :=
  ⟨by decide, granted_after_refusals 1 1 0 [] [(Duration.ofMillis 500, 1)] (0, 1) (Duration.ofMillis 1001, 1)
    (by decide) (by decide) (by decide) (by norm_num [Duration.ofMillis]; decide) (by decide)⟩

/-- A bucket of a thousand tokens a second refuses one token two milliseconds after it was emptied, because it was
asked every half millisecond meanwhile. -/
theorem refusals_stop_refill :
    let half (n : Nat) : Instant × Nat := (n * (Duration.ofMillis 1 / 2), 1)
    let emptied := (TokenBucket.new (1000 : UInt32).toNat (1 : UInt32).toNat 0).takes [half 0]
    let between := [half 1, half 2, half 3]
    emptied.1 = 1 ∧ emptied.2.refuses between = true ∧
    ((1 : Nat) : ℚ) ≤ (1000 : UInt32).toNat * ((((half 4).1 : ℚ) - (half 0).1) / 10 ^ 9 - 1 / 1000) ∧
    ((emptied.2.takes between).2.take (half 4).1 1).1 = false := by
  intro half emptied between
  refine ⟨by decide, by decide, ?_, by decide⟩
  rw [show (1000 : UInt32).toNat = 1000 from rfl]
  simp only [half, Duration.ofMillis]
  norm_num

namespace Pacer

structure Call where
  elapsed : Duration
  speed : Speed
  slowest : Option Nat

/-- The frontier and the clock after some calls, each of which is given the result of the one before as what
is sealed. -/
def advances (p : Pacer) (sealed : Nat) (calls : List Call) : Nat × Pacer :=
  calls.foldl (fun (sealed, p) call => p.advance call.elapsed call.speed call.slowest sealed) (sealed, p)

/-- The slowest member is far enough along for the clock not to wait. -/
def Uncapped (p : Pacer) (call : Call) : Prop :=
  ∀ slowest, call.slowest = some slowest →
    satAdd (p.tickClock call.elapsed call.speed).ideal (p.lead call.speed) ≤ satAdd slowest (p.window call.speed)

variable {p : Pacer} {elapsed : Duration} {speed : Speed} {slowest sealed : Nat}

theorem lead_le_window (p : Pacer) (speed : Speed) : p.lead speed ≤ p.window speed := by
  unfold window
  refine le_trans ?_ (Nat.le_add_right _ _)
  split
  · next slow =>
    unfold lead
    rw [if_neg (show ¬ Speed.normal.isPaused = true by decide)]
    have steps := p.stepsIn_mono p.inputDelay (Nat.le_of_lt slow)
    split <;> omega
  · exact le_rfl

theorem lead_le_max (p : Pacer) (speed : Speed) : p.lead speed ≤ u64Max := by
  unfold lead stepsIn
  split
  · exact Nat.zero_le _
  · exact Nat.max_le.mpr ⟨Nat.min_le_right _ _, by decide⟩

theorem tickClock_fixed (p : Pacer) (elapsed : Duration) (speed : Speed) :
    ∃ ideal remainder, p.tickClock elapsed speed = { p with ideal, remainder } := by
  unfold tickClock
  split
  · exact ⟨_, _, rfl⟩
  · exact ⟨_, _, rfl⟩

theorem advance_some (p : Pacer) (elapsed : Duration) (speed : Speed) (slowest sealed : Nat) :
    ∃ ideal remainder, p.advance elapsed speed (some slowest) sealed = (max (satAdd ideal (p.lead speed)) sealed,
        { p with ideal, remainder }) ∧
      satAdd ideal (p.lead speed) =
        min (satAdd (p.tickClock elapsed speed).ideal (p.lead speed)) (satAdd slowest (p.window speed)) ∧
      (speed.isPaused = false → remainder < unitsPerStep) := by
  have within : p.lead speed ≤ satAdd slowest (p.window speed) := by
    have one := p.lead_le_window speed
    have other := p.lead_le_max speed
    unfold satAdd
    omega
  have small : satAdd slowest (p.window speed) ≤ u64Max := Nat.min_le_right _ _
  obtain ⟨ideal, remainder, ticked⟩ := p.tickClock_fixed elapsed speed
  have short : speed.isPaused = false → remainder < unitsPerStep := by
    intro running
    have same := congrArg Pacer.remainder ticked
    unfold tickClock at same
    rw [running] at same
    rw [← show _ = remainder from same]
    exact Nat.mod_lt _ (by decide)
  unfold advance
  rw [ticked]
  by_cases waits : satAdd ideal (p.lead speed) > satAdd slowest (p.window speed)
  · have back : satAdd (min ideal (satAdd slowest (p.window speed) - p.lead speed)) (p.lead speed) =
        satAdd slowest (p.window speed) := by
      generalize satAdd slowest (p.window speed) = cap at waits within small ⊢
      unfold satAdd at waits ⊢
      omega
    refine ⟨min ideal (satAdd slowest (p.window speed) - p.lead speed), 0, ?_, ?_, fun _ => by decide⟩
    · rw [back]
      exact if_pos waits
    · rw [back]
      exact (Nat.min_eq_right (Nat.le_of_lt waits)).symm
  · refine ⟨ideal, remainder, if_neg waits, ?_, short⟩
    exact (Nat.min_eq_left (not_lt.mp waits)).symm

theorem advance_le (p : Pacer) (elapsed : Duration) (speed : Speed) (slowest sealed : Nat) :
    (p.advance elapsed speed (some slowest) sealed).1 ≤ max sealed (slowest + p.window speed) := by
  obtain ⟨ideal, remainder, moved, capped, _⟩ := p.advance_some elapsed speed slowest sealed
  rw [moved, capped]
  unfold satAdd
  omega

theorem add_div_le_ceilDiv {remainder step : Nat} (units : Nat) (short : remainder < step) :
    (remainder + units) / step ≤ units ⌈/⌉ step := by
  exact Nat.div_le_div_right (by omega)

theorem satAdd_le_add {before after more : Nat} (lead : Nat) (moved : after ≤ before + more) :
    satAdd after lead ≤ satAdd before lead + more := by
  unfold satAdd
  omega

theorem le_satAdd {ideal : Nat} (more : Nat) (small : ideal ≤ u64Max) : ideal ≤ satAdd ideal more := by
  unfold satAdd
  omega

theorem satAdd_satAdd (ideal first second : Nat) :
    satAdd (satAdd ideal (min first u64Max)) (min second u64Max) = satAdd ideal (min (first + second) u64Max) := by
  unfold satAdd
  omega

theorem advance_again (p : Pacer) (elapsed elapsed' : Duration) (speed : Speed) (slowest slowest' sealed : Nat) :
    ((p.advance elapsed speed (some slowest) sealed).2.advance elapsed' speed (some slowest')
        (p.advance elapsed speed (some slowest) sealed).1).1 ≤
      (p.advance elapsed speed (some slowest) sealed).1 +
        (elapsed'.asMicros * p.stepsPerSecond.toNat * speed.percent.toNat) ⌈/⌉ unitsPerStep := by
  obtain ⟨ideal, remainder, moved, _, short⟩ := p.advance_some elapsed speed slowest sealed
  rw [moved]
  obtain ⟨_, _, moved', capped', _⟩ :=
    ({ p with ideal, remainder } : Pacer).advance_some elapsed' speed slowest'
      (max (satAdd ideal (p.lead speed)) sealed)
  rw [moved', capped']
  have ticked : (({ p with ideal, remainder } : Pacer).tickClock elapsed' speed).ideal ≤
      ideal + (elapsed'.asMicros * p.stepsPerSecond.toNat * speed.percent.toNat) ⌈/⌉ unitsPerStep := by
    unfold tickClock
    cases paused : speed.isPaused with
    | true => exact Nat.le_add_right _ _
    | false =>
      have whole := add_div_le_ceilDiv (elapsed'.asMicros * p.stepsPerSecond.toNat * speed.percent.toNat) (short paused)
      rw [if_neg Bool.false_ne_true]
      unfold satAdd
      dsimp only
      omega
  show max (min (satAdd _ (p.lead speed)) _) _ ≤ _
  generalize (elapsed'.asMicros * p.stepsPerSecond.toNat * speed.percent.toNat) ⌈/⌉ unitsPerStep = more at ticked ⊢
  have forward := satAdd_le_add (p.lead speed) ticked
  omega

/-! Time adds up: ticking twice is ticking once for both times, the rest of a step included. -/

theorem tickClock_add {first : Duration} (p : Pacer) (second : Duration) (speed : Speed) (whole : 1000 ∣ first) :
    (p.tickClock first speed).tickClock second speed = p.tickClock (first + second) speed := by
  unfold tickClock
  cases paused : speed.isPaused with
  | true => rfl
  | false =>
    simp only [Bool.false_eq_true, if_false]
    obtain ⟨micros, rfl⟩ := whole
    have time : Duration.asMicros (1000 * micros + second) = Duration.asMicros
      (1000 * micros) + Duration.asMicros second := by
      unfold Duration.asMicros
      omega
    rw [time, Nat.add_mul, Nat.add_mul, ← Nat.add_assoc]
    generalize p.remainder + Duration.asMicros (1000 * micros) * p.stepsPerSecond.toNat * speed.percent.toNat = before
    generalize Duration.asMicros second * p.stepsPerSecond.toNat * speed.percent.toNat = after
    have steps : before / unitsPerStep + (before % unitsPerStep + after) / unitsPerStep =
      (before + after) / unitsPerStep := by
      unfold unitsPerStep
      omega
    have rest : (before % unitsPerStep + after) % unitsPerStep = (before + after) % unitsPerStep :=
      Nat.mod_add_mod _ _ _
    rw [rest, ← steps, satAdd_satAdd]

theorem tickClock_forward (p : Pacer) (first second : Duration) (speed : Speed) :
    (p.tickClock first speed).ideal ≤ ((p.tickClock first speed).tickClock second speed).ideal := by
  unfold tickClock
  cases paused : speed.isPaused with
  | true => exact le_rfl
  | false =>
    exact le_satAdd _ (Nat.min_le_right _ _)

theorem advance_uncapped (sealed : Nat) (uncapped : p.Uncapped ⟨elapsed, speed, some slowest⟩) :
    p.advance elapsed speed (some slowest) sealed =
      (max (satAdd (p.tickClock elapsed speed).ideal (p.lead speed)) sealed, p.tickClock elapsed speed) := by
  have within := uncapped slowest rfl
  obtain ⟨ideal, remainder, ticked⟩ := p.tickClock_fixed elapsed speed
  unfold advance
  rw [ticked] at within ⊢
  exact if_neg (not_lt.mpr within)

theorem advances_split {parts : List Duration} (p : Pacer) (sealed : Nat) (speed : Speed) (slowest : Option Nat)
    (some_ : parts ≠ []) (whole : ∀ part ∈ parts, 1000 ∣ part) (uncapped : p.Uncapped ⟨parts.sum, speed, slowest⟩) :
    p.advances sealed (parts.map fun part => ⟨part, speed, slowest⟩) = p.advance parts.sum speed slowest sealed := by
  induction parts generalizing p sealed with
  | nil => exact absurd rfl some_
  | cons part parts ih =>
    by_cases last : parts = []
    · subst last
      rfl
    have first : 1000 ∣ part := whole part mem_cons_self
    have rest : ∀ other ∈ parts, 1000 ∣ other := fun other among => whole other (mem_cons_of_mem _ among)
    show (p.advance part speed slowest sealed).2.advances (p.advance part speed slowest sealed).1 _ = _
    rw [sum_cons] at uncapped ⊢
    cases slowest with
    | none => exact ih p sealed last rest nofun
    | some slowest =>
      have added := p.tickClock_add parts.sum speed first
      have forward := p.tickClock_forward part parts.sum speed
      obtain ⟨ideal, remainder, ticked⟩ := p.tickClock_fixed part speed
      -- The clock waits at the end if it waits on the way.
      have early : p.Uncapped ⟨part, speed, some slowest⟩ := by
        rintro _ ⟨⟩
        have late := uncapped slowest rfl
        dsimp only at late ⊢
        rw [← added] at late
        unfold satAdd at late ⊢
        omega
      have late : (p.tickClock part speed).Uncapped ⟨parts.sum, speed, some slowest⟩ := by
        rintro _ ⟨⟩
        have late := uncapped slowest rfl
        rw [← added] at late
        rw [ticked] at late ⊢
        exact late
      rw [advance_uncapped sealed early, advance_uncapped sealed uncapped]
      rw [ih _ _ last rest late, advance_uncapped _ late, added]
      have same : (p.tickClock part speed).lead speed = p.lead speed := by
        rw [ticked]
        rfl
      rw [same, ← added]
      apply congrArg (·, _)
      unfold satAdd
      omega

theorem advances_concat (p : Pacer) (sealed : Nat) (calls : List Call) (call : Call) :
    p.advances sealed (calls ++ [call]) = (p.advances sealed calls).2.advance call.elapsed call.speed call.slowest
      (p.advances sealed calls).1 :=
  foldl_concat ..

theorem advances_append (p : Pacer) (sealed : Nat) (calls more : List Call) :
    p.advances sealed (calls ++ more) = (p.advances sealed calls).2.advances (p.advances sealed calls).1 more :=
  foldl_append

theorem advances_fixed (p : Pacer) (sealed : Nat) (calls : List Call) :
    ∃ ideal remainder, (p.advances sealed calls).2 = { p with ideal, remainder } := by
  induction calls using List.reverseRecOn with
  | nil => exact ⟨_, _, rfl⟩
  | append_singleton calls call ih =>
    obtain ⟨ideal, remainder, same⟩ := ih
    rw [advances_concat, same]
    cases call.slowest with
    | none => exact ⟨ideal, remainder, rfl⟩
    | some slowest =>
      obtain ⟨ideal', remainder', moved, _⟩ :=
        ({ p with ideal, remainder } : Pacer).advance_some call.elapsed call.speed slowest (p.advances sealed calls).1
      exact ⟨ideal', remainder', congrArg Prod.snd moved⟩

end Pacer

/-- Over any calls the frontier never goes back nor past what the slowest member allows; a call moves it
no further than its own time is worth once the call before was at the same speed, however long the room
waited; and where nobody holds the clock, it does not matter into how many parts the time is split. -/
theorem advance_keeps_pace (p : Pacer) (sealed : Nat) (calls : List Pacer.Call) :
    (∀ call : Pacer.Call, (p.advances sealed calls).1 ≤ (p.advances sealed (calls ++ [call])).1 ∧
      (p.advances sealed (calls ++ [call])).1 ≤
        max (p.advances sealed calls).1 (call.slowest.elim 0 fun slowest => slowest + p.window call.speed)) ∧
    (∀ first second : Pacer.Call, first.slowest.isSome → second.slowest.isSome → first.speed = second.speed →
      (p.advances sealed (calls ++ [first, second])).1 ≤ (p.advances sealed (calls ++ [first])).1 +
        (second.elapsed.asMicros * p.stepsPerSecond.toNat * second.speed.percent.toNat) ⌈/⌉ 10 ^ 8) ∧
    ∀ (parts : List Duration) (speed : Speed) (slowest : Option Nat), parts ≠ [] → (∀ part ∈ parts, 1000 ∣ part) →
      (p.advances sealed calls).2.Uncapped ⟨parts.sum, speed, slowest⟩ →
      (p.advances sealed (calls ++ parts.map fun part => ⟨part, speed, slowest⟩)).1 =
        (p.advances sealed (calls ++ [⟨parts.sum, speed, slowest⟩])).1 := by
  obtain ⟨ideal, remainder, same⟩ := p.advances_fixed sealed calls
  refine ⟨fun call => ?_, fun ⟨elapsed, speed, slowest⟩ ⟨elapsed', speed', slowest'⟩ given given' alike => ?_,
    fun parts speed slowest some_ whole uncapped => ?_⟩
  · rw [Pacer.advances_concat]
    refine ⟨Pacer.advance_forward .., ?_⟩
    cases call.slowest with
    | none => exact Nat.le_max_left _ _
    | some slowest =>
      have capped := (p.advances sealed calls).2.advance_le call.elapsed call.speed slowest (p.advances sealed calls).1
      have window : (p.advances sealed calls).2.window call.speed = p.window call.speed := by
        rw [same]
        rfl
      rw [window] at capped
      rw [Option.elim_some]
      exact capped
  · obtain ⟨slowest, rfl⟩ := Option.isSome_iff_exists.mp given
    obtain ⟨slowest', rfl⟩ := Option.isSome_iff_exists.mp given'
    subst alike
    have again := Pacer.advance_again (p.advances sealed calls).2 elapsed elapsed' speed slowest slowest'
      (p.advances sealed calls).1
    have units : unitsPerStep = 10 ^ 8 := by norm_num [unitsPerStep]
    rw [same, units] at again
    rw [append_cons, Pacer.advances_concat, Pacer.advances_concat, same]
    exact again
  · rw [Pacer.advances_append, Pacer.advances_concat, Pacer.advances_split _ _ speed slowest some_ whole uncapped]

theorem advance_keeps_pace_waiting :
    let p := Pacer.new 5 (Duration.ofMillis 250) (Duration.ofSecs 2)
    let waits : Pacer.Call := ⟨Duration.ofSecs 3600, .normal, some 0⟩
    let goes : Pacer.Call := ⟨Duration.ofMillis 200, .normal, some 1000⟩
    (p.advances 0 [waits]).1 = 12 ∧ (p.advances 0 [waits, goes]).1 ≤ (p.advances 0 [waits]).1 +
      (goes.elapsed.asMicros * p.stepsPerSecond.toNat * goes.speed.percent.toNat) ⌈/⌉ 10 ^ 8 := by
  intro p waits goes
  exact ⟨by decide +kernel, (advance_keeps_pace p 0 []).2.1 waits goes rfl rfl rfl⟩

end Tpf3Mp.Server
