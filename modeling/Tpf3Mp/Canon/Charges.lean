import Tpf3Mp.Canon.Lua
import Tpf3Mp.Data.Carry
import Tpf3Mp.Data.SortedMap
import Mathlib.Algebra.BigOperators.Ring.List

/-!
Amounts that are charged or scaled bit by bit, the remainder carried from call to call (`economy/costs.rs`,
`economy/difficulty.rs`, and the wallets and rates of `economy/settlement.rs` and `economy/flow.rs`).
-/

namespace Tpf3Mp.Canon
open Data List

def accumulatorLimit : Int := 1000000000000000

def clamp (value low high : Int) : Int := max low (min value high)

def financialYearSeconds : Int := 3 * 3600

def nonNegative (value : Int) : Int := clamp value 0 accumulatorLimit

def periodCharge (annualCents residual periodSeconds : Int) : Option (Int × Int) := do
  let annual := nonNegative annualCents
  let period := max periodSeconds 0
  let quotient := annual.tdiv financialYearSeconds
  let remainder := annual.tmod financialYearSeconds
  let tail ← Lua.add (← Lua.mul remainder period) (max residual 0)
  let charge ← Lua.add (← Lua.mul quotient period) (tail.tdiv financialYearSeconds)
  return (min charge accumulatorLimit, tail.tmod financialYearSeconds)

/-- The parts of the split come to the whole product, and stay exact on the way. -/
theorem periodCharge_eq {annual residual period : Int} (money : 0 ≤ annual ∧ annual ≤ accumulatorLimit)
    (carried : 0 ≤ residual ∧ residual < financialYearSeconds) (day : 0 ≤ period ∧ period ≤ 86400) :
    periodCharge annual residual period =
      some (min ((annual * period + residual) / financialYearSeconds) accumulatorLimit,
      (annual * period + residual) % financialYearSeconds) := by
  have same : nonNegative annual = annual := by
    unfold nonNegative clamp
    omega
  unfold accumulatorLimit at money
  change 0 ≤ residual ∧ residual < 10800 at carried
  have quotient : annual.tdiv 10800 = annual / 10800 := Int.tdiv_eq_ediv_of_nonneg money.1
  have remainder : annual.tmod 10800 = annual % 10800 := Int.tmod_eq_emod_of_nonneg money.1
  have low := Int.emod_nonneg annual (by decide : (10800 : Int) ≠ 0)
  have bits : 0 ≤ annual % 10800 * period ∧ annual % 10800 * period ≤ 10799 * 86400 :=
    ⟨mul_nonneg low day.1, mul_le_mul (by omega) day.2 day.1 (by decide)⟩
  have bulk : 0 ≤ annual / 10800 * period ∧ annual / 10800 * period ≤ 92592592592 * 86400 :=
    ⟨mul_nonneg (by omega) day.1, mul_le_mul (by omega) day.2 day.1 (by decide)⟩
  obtain ⟨division, rest⟩ := split_ediv (by decide : (10800 : Int) ≠ 0) annual period residual
  generalize tailed : annual % 10800 * period + residual = tail at division rest
  have first : Lua.mul (annual % 10800) period = some _ := Lua.exactly_of (by omega) (by omega) (by omega)
  have second : Lua.add (annual % 10800 * period) residual = some _ := Lua.exactly_of (by omega) (by omega) (by omega)
  have third : Lua.mul (annual / 10800) period = some _ := Lua.exactly_of (by omega) (by omega) (by omega)
  have fourth : Lua.add (annual / 10800 * period) (tail / 10800) = some _ :=
    Lua.exactly_of (by omega) (by omega) (by omega)
  change (do
    let tail ← Lua.add (← Lua.mul ((nonNegative annual).tmod 10800) (max period 0)) (max residual 0)
    let charge ← Lua.add (← Lua.mul ((nonNegative annual).tdiv 10800) (max period 0)) (tail.tdiv 10800)
    return (min charge accumulatorLimit, tail.tmod 10800)) = some (min (_ / 10800) _, _ % 10800)
  rw [same, quotient, remainder, max_eq_left day.1, max_eq_left carried.1, division, rest]
  simp only [first, second, third, tailed, Option.bind_eq_bind, Option.bind_some,
    Int.tdiv_eq_ediv_of_nonneg (a := tail) (by omega), Int.tmod_eq_emod_of_nonneg (a := tail) (by omega), fourth]
  rfl

theorem map_min_eq {limit : Int} {amounts : List Int} (below : ∀ amount ∈ amounts.map (min · limit), amount < limit) :
    amounts.map (min · limit) = amounts := by
  rw [map_congr_left, map_id]
  intro amount among
  have less := below _ (mem_map_of_mem among)
  rcases min_choice amount limit with same | same
  · exact same
  · exact absurd same less.ne

/-- However the time is cut into periods, each charged with the remainder of the last: every call has a result, and
unless one is capped the charges add up to the whole time's share. -/
theorem periodCharges_add_up (annual residual : Int) (periods : List Int)
    (money : 0 ≤ annual ∧ annual ≤ accumulatorLimit) (carried : 0 ≤ residual ∧ residual < financialYearSeconds)
    (days : ∀ period ∈ periods, 0 ≤ period ∧ period ≤ 86400) :
    ∃ charges final, chain (periodCharge annual) residual periods = some (charges, final) ∧
      (0 ≤ final ∧ final < financialYearSeconds) ∧
      ((∀ charge ∈ charges, charge < accumulatorLimit) →
        charges.sum = (annual * periods.sum + residual) / financialYearSeconds ∧
        final = (annual * periods.sum + residual) % financialYearSeconds ∧
        ∀ years, residual = 0 → periods.sum = years * financialYearSeconds → charges.sum = years * annual) := by
  have positive : 0 < financialYearSeconds := by decide
  obtain ⟨charges, final, divided⟩ : ∃ charges final,
      carry financialYearSeconds residual (periods.map (annual * ·)) = (charges, final) := ⟨_, _, rfl⟩
  have chained : chain (periodCharge annual) residual periods =
      some ((carry financialYearSeconds residual (periods.map (annual * ·))).1.map (min · accumulatorLimit),
        (carry financialYearSeconds residual (periods.map (annual * ·))).2) :=
    chain_eq positive (fun residual low high period among _ => periodCharge_eq money ⟨low, high⟩ (days period among))
      (fun period among => mul_nonneg money.1 (days period among).1) carried.1 carried.2 (Int.lt_succ _)
  obtain ⟨sum, rest⟩ := carry_eq positive carried.1 carried.2 (periods.map (annual * ·))
  have bounds := carry_remainder positive carried.1 carried.2 (periods.map (annual * ·))
  rw [divided] at chained sum rest bounds
  refine ⟨_, _, chained, bounds, fun below => ?_⟩
  rw [sum_map_mul_left, map_id'] at sum rest
  rw [map_min_eq below, sum, rest]
  refine ⟨rfl, rfl, fun years none whole => ?_⟩
  rw [none, whole, ← mul_assoc, add_zero, Int.mul_ediv_cancel _ positive.ne', mul_comm]

theorem periodCharges_add_up_thirds : chain (periodCharge 100) 0 [3600, 3600, 3600] = some ([33, 33, 34], 0) ∧
    ([33, 33, 34] : List Int).sum = 1 * 100 := by
  have run : chain (periodCharge 100) 0 [3600, 3600, 3600] = some ([33, 33, 34], 0) := by decide
  obtain ⟨charges, final, chained, _, exact⟩ :=
    periodCharges_add_up 100 0 [3600, 3600, 3600] (by decide) (by decide) (by decide)
  cases chained
  exact ⟨run, (exact (by decide)).2.2 1 rfl rfl⟩

def scale : Int := 1000000

def maxMultiplierPpm : Int := 4000000

/-- Scales an amount. There is no result if an operation overflows. -/
def apply (rawCents multiplierPpm residual : Int) : Option (Int × Int) := do
  let raw := clamp rawCents 0 accumulatorLimit
  let multiplier := clamp multiplierPpm 0 maxMultiplierPpm
  let carried := clamp residual 0 (scale - 1)
  let whole := raw.tdiv scale
  let remainder := raw.tmod scale
  let base ← i64 (whole * multiplier)
  if base ≥ accumulatorLimit then return (accumulatorLimit, 0)
  else
    let tail ← i64 ((← i64 (remainder * multiplier)) + carried)
    let scaled ← i64 (base + tail.tdiv scale)
    if scaled ≥ accumulatorLimit then return (accumulatorLimit, 0)
    else return (scaled, tail.tmod scale)

/-- What an amount comes to in millionths, with its arguments as they are clamped. -/
def millionths (rawCents multiplierPpm residual : Int) : Int :=
  clamp rawCents 0 accumulatorLimit * clamp multiplierPpm 0 maxMultiplierPpm + clamp residual 0 (scale - 1)

/-- Nothing overflows, and the parts come to the whole. -/
theorem apply_eq (rawCents multiplierPpm residual : Int) : apply rawCents multiplierPpm residual =
      let total := millionths rawCents multiplierPpm residual
      if total / scale ≥ accumulatorLimit then some (accumulatorLimit, 0) else some (total / scale, total % scale) := by
  have money : 0 ≤ clamp rawCents 0 accumulatorLimit ∧ clamp rawCents 0 accumulatorLimit ≤ 1000000000000000 := by
    unfold clamp accumulatorLimit
    omega
  have factor : 0 ≤ clamp multiplierPpm 0 maxMultiplierPpm ∧ clamp multiplierPpm 0 maxMultiplierPpm ≤ 4000000 := by
    unfold clamp maxMultiplierPpm
    omega
  have carried : 0 ≤ clamp residual 0 (scale - 1) ∧ clamp residual 0 (scale - 1) < 1000000 := by
    unfold clamp scale
    omega
  unfold apply millionths
  generalize clamp rawCents 0 accumulatorLimit = raw at *
  generalize clamp multiplierPpm 0 maxMultiplierPpm = multiplier at *
  generalize clamp residual 0 (scale - 1) = rest at *
  obtain ⟨division, remainder⟩ := split_ediv (by decide : scale ≠ 0) raw multiplier rest
  dsimp only
  rw [division, remainder, Int.tdiv_eq_ediv_of_nonneg money.1, Int.tmod_eq_emod_of_nonneg money.1]
  have bits : 0 ≤ raw % scale * multiplier ∧ raw % scale * multiplier ≤ 999999 * 4000000 := by
    unfold scale
    exact ⟨mul_nonneg (by omega) factor.1, mul_le_mul (by omega) factor.2 factor.1 (by decide)⟩
  have bulk : 0 ≤ raw / scale * multiplier ∧ raw / scale * multiplier ≤ 1000000000 * 4000000 := by
    unfold scale
    exact ⟨mul_nonneg (by omega) factor.1, mul_le_mul (by omega) factor.2 factor.1 (by decide)⟩
  have first : i64 (raw / scale * multiplier) = some _ := if_pos (by omega)
  have second : i64 (raw % scale * multiplier) = some _ := if_pos (by omega)
  have third : i64 (raw % scale * multiplier + rest) = some _ := if_pos (by omega)
  generalize tailed : raw % scale * multiplier + rest = tail at third ⊢
  have short : 0 ≤ tail / scale ∧ tail / scale ≤ 4000000 := by
    unfold scale
    omega
  have fourth : i64 (raw / scale * multiplier + tail / scale) = some _ := if_pos (by omega)
  simp only [first, second, tailed, third, Option.bind_eq_bind, Option.bind_some,
    Int.tdiv_eq_ediv_of_nonneg (a := tail) (by omega),
    Int.tmod_eq_emod_of_nonneg (a := tail) (by omega), fourth]
  by_cases capped : raw / scale * multiplier ≥ accumulatorLimit
  · rw [if_pos capped, if_pos (by omega)]
    rfl
  · rw [if_neg capped]
    rfl

/-- Whether one call was capped, which depends on the whole only. -/
theorem apply_cents (rawCents multiplierPpm residual : Int) : ∃ rest, apply rawCents multiplierPpm residual =
    some (min accumulatorLimit (millionths rawCents multiplierPpm residual / scale), rest) := by
  rw [apply_eq]
  dsimp only
  split
  · next capped => exact ⟨0, by rw [min_eq_left capped]⟩
  · next below => exact ⟨_, by rw [min_eq_right (by omega)]⟩

/-- Payments made one after another come to what the whole comes to in one, with the same remainder, unless there
are none and the remainder is not one; and no call overflows or returns anything but the exact amount, capped. -/
theorem applies_add_up (multiplierPpm residual : Int) :
    (∀ raws : List Int, (∀ raw ∈ raws, 0 ≤ raw) → raws.sum ≤ accumulatorLimit →
      millionths raws.sum multiplierPpm residual / scale < accumulatorLimit →
      (raws ≠ [] ∨ 0 ≤ residual ∧ residual < scale) →
      ∃ cents final, chain (fun residual raw => apply raw multiplierPpm residual) residual raws = some (cents, final) ∧
        apply raws.sum multiplierPpm residual = some (cents.sum, final) ∧ 0 ≤ final ∧ final < scale) ∧
    ∀ raw, ∃ rest, apply raw multiplierPpm residual =
      some (min accumulatorLimit (millionths raw multiplierPpm residual / scale), rest) := by
  refine ⟨fun raws amounts small below proper => ?_, fun raw => apply_cents raw multiplierPpm residual⟩
  have positive : 0 < scale := by decide
  obtain ⟨low, high⟩ : 0 ≤ clamp residual 0 (scale - 1) ∧ clamp residual 0 (scale - 1) < scale := by
    unfold clamp scale
    omega
  have whole : clamp raws.sum 0 accumulatorLimit = raws.sum := by
    have some_ := sum_nonneg amounts
    unfold clamp
    omega
  have started : chain (fun residual raw => apply raw multiplierPpm residual) residual raws =
      chain (fun residual raw => apply raw multiplierPpm residual) (clamp residual 0 (scale - 1)) raws := by
    cases raws with
    | nil =>
      have proper := proper.resolve_left fun some_ => some_ rfl
      have same : clamp residual 0 (scale - 1) = residual := by
        unfold clamp
        omega
      rw [same]
    | cons raw raws =>
      have same : clamp (clamp residual 0 (scale - 1)) 0 (scale - 1) = clamp residual 0 (scale - 1) := by
        unfold clamp
        omega
      simp only [chain, apply, same]
  unfold millionths at below
  have total := apply_eq raws.sum multiplierPpm residual
  unfold millionths at total
  rw [whole] at below total
  generalize clamp residual 0 (scale - 1) = rest at *
  have divides (residual : Int) (low : 0 ≤ residual) (high : residual < scale) (raw : Int) (among : raw ∈ raws)
      (bounded : raw * clamp multiplierPpm 0 maxMultiplierPpm + residual < accumulatorLimit * scale) :
      apply raw multiplierPpm residual = some (id ((raw * clamp multiplierPpm 0 maxMultiplierPpm + residual) / scale),
        (raw * clamp multiplierPpm 0 maxMultiplierPpm + residual) % scale) := by
    have least := amounts raw among
    have most := single_le_sum amounts raw among
    have money : clamp raw 0 accumulatorLimit = raw := by
      unfold clamp
      omega
    have carried : clamp residual 0 (scale - 1) = residual := by
      unfold clamp
      omega
    rw [apply_eq, millionths, money, carried]
    exact if_neg (not_le.mpr (Int.ediv_lt_of_lt_mul positive bounded))
  have factor : 0 ≤ clamp multiplierPpm 0 maxMultiplierPpm := by
    unfold clamp
    omega
  have chained := chain_eq positive divides (fun raw among => mul_nonneg (amounts raw among) factor) low high
    (by rw [sum_map_mul_right, map_id']; exact (Int.ediv_lt_iff_lt_mul positive).mp below)
  obtain ⟨sum, last⟩ := carry_eq positive low high (raws.map (· * clamp multiplierPpm 0 maxMultiplierPpm))
  rw [sum_map_mul_right, map_id'] at sum last
  rw [map_id] at chained
  refine ⟨_, _, started.trans chained, ?_, carry_remainder positive low high _⟩
  rw [total, sum, last]
  exact if_neg (not_le.mpr below)

theorem applies_add_up_halves :
    chain (fun residual raw => apply raw 500000 residual) 0 [1, 1, 1] = some ([0, 1, 0], 500000) ∧
    apply ([1, 1, 1] : List Int).sum 500000 0 = some (([0, 1, 0] : List Int).sum, 500000) := by
  have run : chain (fun residual raw => apply raw 500000 residual) 0 [1, 1, 1] = some ([0, 1, 0], 500000) := by decide
  obtain ⟨cents, final, chained, whole, _⟩ :=
    (applies_add_up 500000 0).1 [1, 1, 1] (by decide) (by decide) (by decide) (by decide)
  cases chained
  exact ⟨run, whole⟩

/-- Without payments a remainder that is none stays one. -/
theorem applies_keep_residual :
    chain (fun residual raw => apply raw 1000000 residual) (-1) [] = some ([], -1) ∧
    apply ([] : List Int).sum 1000000 (-1) = some (0, 0) := by
  decide

def centsPerDollar : Int := 100

/-- A sum of two `i64`, which saturates. -/
def signedAdd (left right : Int) : Int :=
  clamp (clamp (left + right) (-2 ^ 63) (2 ^ 63 - 1)) (-accumulatorLimit) accumulatorLimit

def walletDeltaDollars (netRevenueCents carriedResidualCents : Int) : Int × Int :=
  let combined := signedAdd netRevenueCents carriedResidualCents
  (combined.tdiv centsPerDollar, combined.tmod centsPerDollar)

def scaledRate (hourly residual periodSeconds : Int) : Option (Int × Int) := do
  let numerator ← Lua.add (← Lua.mul (max hourly 0) periodSeconds) (max residual 0)
  return (← Lua.floorDiv numerator 3600, ← Lua.modulo numerator 3600)

/-- No settlement along the way is clamped. -/
def Unclamped : Int → List Int → Prop
  | _, [] => True
  | residual, revenue :: revenues =>
    signedAdd revenue residual = revenue + residual ∧ Unclamped (walletDeltaDollars revenue residual).2 revenues

theorem walletDeltaDollars_divides {residual revenue : Int} (plain : signedAdd revenue residual = revenue + residual) :
    (walletDeltaDollars revenue residual).2.natAbs < 100 ∧
    100 * (walletDeltaDollars revenue residual).1 + (walletDeltaDollars revenue residual).2 = revenue + residual := by
  unfold walletDeltaDollars centsPerDollar
  rw [plain]
  refine ⟨?_, Int.mul_tdiv_add_tmod _ _⟩
  rw [Int.natAbs_tmod]
  exact Nat.mod_lt _ (by decide)

theorem scaledRate_divides {hourly residual period result rest : Int} (rate : 0 ≤ hourly)
    (carried : 0 ≤ residual ∧ residual < 3600) (scaled : scaledRate hourly residual period = some (result, rest)) :
    (0 ≤ rest ∧ rest < 3600) ∧ 3600 * result + rest = hourly * period + residual := by
  simp only [scaledRate, Option.bind_eq_bind, Option.bind_eq_some_iff, Lua.add_some, Lua.mul_some,
    Lua.floorDiv_some (by decide : (0 : Int) < 3600), max_eq_left rate, max_eq_left carried.1] at scaled
  obtain ⟨_, ⟨_, _, _, rfl⟩, _, ⟨_, _, _, rfl⟩, _, ⟨_, _, rfl⟩, _, divided, made⟩ := scaled
  rw [Lua.modulo_some (by decide) divided] at made
  cases made
  omega

theorem residuals_never_drift :
    (∀ residual revenues, residual.natAbs < 100 → Unclamped residual revenues →
      ∃ dollars final, chain (fun residual revenue => some (walletDeltaDollars revenue residual)) residual revenues =
      some (dollars, final) ∧
        final.natAbs < 100 ∧ 100 * dollars.sum + final = revenues.sum + residual) ∧
    ∀ (residual : Int) (inputs : List (Int × Int)) amounts final, 0 ≤ residual ∧ residual < 3600 →
      (∀ input ∈ inputs, 0 ≤ input.1 ∧ 0 ≤ input.2) →
      chain (fun residual input => scaledRate input.1 residual input.2) residual inputs = some (amounts, final) →
      (0 ≤ final ∧ final < 3600) ∧
        3600 * amounts.sum + final = (inputs.map fun input => input.1 * input.2).sum + residual := by
  constructor
  · intro residual revenues small plain
    induction revenues generalizing residual with
    | nil => exact ⟨[], residual, rfl, small, by simp⟩
    | cons revenue revenues ih =>
      obtain ⟨kept, here⟩ := walletDeltaDollars_divides plain.1
      obtain ⟨dollars, final, chained, last, total⟩ := ih _ kept plain.2
      refine ⟨_, final, by simp only [chain, Option.bind_eq_bind, Option.bind_some, chained]; rfl, last, ?_⟩
      rw [sum_cons, sum_cons, mul_add]
      omega
  · intro residual inputs amounts final carried rates chained
    exact chain_total (fun _ carried input among _ _ scaled => scaledRate_divides
      (rates input among).1 carried scaled) carried chained

theorem residuals_never_drift_cent :
    chain (fun residual revenue => some (walletDeltaDollars revenue residual)) 0 [-1, -99, 250] =
      some ([0, -1, 2], 50) ∧
    100 * ([0, -1, 2] : List Int).sum + 50 = ([-1, -99, 250] : List Int).sum + 0 ∧
    3600 * ([3, 3, 4] : List Int).sum + 0 =
      ([(10, 1200), (10, 1200), (10, 1200)].map fun input : Int × Int => input.1 * input.2).sum + 0 := by
  have run : chain (fun residual revenue => some (walletDeltaDollars revenue residual)) 0 [-1, -99, 250] = some
    ([0, -1, 2], 50) := by
    decide
  obtain ⟨dollars, final, chained, _, total⟩ :=
    residuals_never_drift.1 0 [-1, -99, 250] (by decide) ⟨rfl, rfl, rfl, trivial⟩
  cases chained
  exact ⟨run, total, (residuals_never_drift.2 0 _ [3, 3, 4] 0 (by decide) (by decide) (by decide)).2⟩

def capitalShare (base remainder : Int) (index : Nat) : Int := base + if (index : Int) < remainder then 1 else 0

def orderedIds (cids : List String) : List String := sortedSet (cids.filter (· ≠ ""))

def allocateCapital (cids : List String) (totalCents : Int) : Option (SortedMap String Int) :=
  let ordered := orderedIds cids
  if ordered = [] then some []
  else
    let total := nonNegative totalCents
    if ordered.length < 2 ^ 63 then
      let base := total.tdiv ordered.length
      let remainder := total.tmod ordered.length
      some (ordered.zipIdx.foldl (fun result (cid, index) =>
        SortedMap.insert cid (capitalShare base remainder index) result) [])
    else none

theorem capitalShare_sum {base remainder : Int} (rest : 0 ≤ remainder) (count : Nat) :
    ((range count).map (capitalShare base remainder)).sum = base * count + min (count : Int) remainder := by
  induction count with
  | zero => simpa using rest
  | succ count ih =>
    rw [range_succ, map_append, sum_append, ih, map_singleton, sum_singleton, capitalShare, Nat.cast_succ,
      mul_add, mul_one]
    split <;> omega

theorem mem_orderedIds {cid : String} {cids : List String} : cid ∈ orderedIds cids ↔ cid ∈ cids ∧ cid ≠ "" := by
  rw [orderedIds, mem_sortedSet, mem_filter, decide_eq_true_eq]

section Capital
variable {cids : List String} {totalCents : Int} {result : SortedMap String Int}
  (allocated : allocateCapital cids totalCents = some result) (some : result ≠ [])
include allocated some

theorem allocateCapital_eq : ∃ base remainder : Int,
    result = (orderedIds cids).zipIdx.map (fun entry => (entry.1, capitalShare base remainder entry.2)) ∧
      result.map Prod.fst = orderedIds cids ∧
      0 ≤ remainder ∧ remainder < result.length ∧ base * result.length + remainder = nonNegative totalCents := by
  have ordered : (orderedIds cids).Pairwise (· < ·) := sortedSet_ordered _
  unfold allocateCapital at allocated
  dsimp only at allocated
  generalize orderedIds cids = ids at allocated ordered
  split at allocated
  · cases allocated
    contradiction
  rename_i listed
  split at allocated
  · cases allocated
    have total : 0 ≤ nonNegative totalCents := le_max_left ..
    have count : (0 : Int) < ids.length := mod_cast length_pos_of_ne_nil listed
    rw [Int.tdiv_eq_ediv_of_nonneg total, Int.tmod_eq_emod_of_nonneg total] at some ⊢
    generalize shares : ids.zipIdx.map (fun entry => (entry.1, capitalShare (nonNegative totalCents / ids.length)
      (nonNegative totalCents % ids.length) entry.2)) = result
    have keys : result.map Prod.fst = ids := by
      rw [← shares, map_map]
      exact zipIdx_map_fst ..
    have inserted := SortedMap.inserts_ordered (keys ▸ ordered)
    rw [← shares, foldl_map, shares] at inserted
    have size : result.length = ids.length := by rw [← keys, length_map]
    rw [inserted, size]
    exact ⟨_, _, shares.symm, keys, Int.emod_nonneg _ count.ne', Int.emod_lt_of_pos _ count, Int.ediv_mul_add_emod ..⟩
  · cases allocated

/-- Capital is split over the distinct non-empty ids to the last cent, as evenly as it can be, whatever the
order and the repetitions they are given in. -/
theorem capital_splits : (result.map Prod.fst).Nodup ∧ (∀ cid, cid ∈ result.map Prod.fst ↔ cid ∈ cids ∧ cid ≠ "") ∧
    (result.map Prod.snd).sum = clamp totalCents 0 accumulatorLimit ∧
    (∀ a ∈ result, ∀ b ∈ result, a.1 < b.1 → b.2 ≤ a.2 ∧ a.2 ≤ b.2 + 1) ∧
    ∀ others, (∀ cid, cid ∈ others ↔ cid ∈ cids) → allocateCapital others totalCents = .some result := by
  obtain ⟨base, remainder, shares, keys, rest, less, total⟩ := allocateCapital_eq allocated some
  have ordered : (orderedIds cids).Pairwise (· < ·) := sortedSet_ordered _
  refine ⟨keys ▸ ordered_nodup ordered, fun cid => ?_, ?_, fun a first b second before => ?_, fun others same => ?_⟩
  · rw [keys, mem_orderedIds]
  · have amounts : result.map Prod.snd = (range result.length).map (capitalShare base remainder) := by
      rw [← length_map Prod.fst, keys, shares, map_map, range_eq_range', ← zipIdx_map_snd, map_map]
      rfl
    rw [amounts, capitalShare_sum rest, min_eq_right less.le, total]
    rfl
  · rw [shares] at first second
    obtain ⟨⟨cid, i⟩, here, rfl⟩ := mem_map.mp first
    obtain ⟨⟨other, j⟩, there, rfl⟩ := mem_map.mp second
    replace here : (orderedIds cids)[i]? = cid := mem_zipIdx_iff_getElem?.mp here
    replace there : (orderedIds cids)[j]? = other := mem_zipIdx_iff_getElem?.mp there
    obtain ⟨inside, rfl⟩ := List.getElem?_eq_some_iff.mp here
    obtain ⟨inside', rfl⟩ := List.getElem?_eq_some_iff.mp there
    have earlier : i < j := by
      by_contra later
      rcases (not_lt.mp later).eq_or_lt with rfl | later
      · exact Std.lt_irrefl before
      · exact Std.lt_irrefl (Std.lt_trans before (pairwise_iff_getElem.mp ordered j i inside' inside later))
    dsimp only [capitalShare]
    split <;> split <;> omega
  · have ids : orderedIds others = orderedIds cids := by
      refine ordered_ext (sortedSet_ordered _) ordered fun cid => ?_
      rw [mem_orderedIds, mem_orderedIds, same]
    unfold allocateCapital at allocated ⊢
    rw [ids]
    exact allocated

end Capital

theorem capital_splits_roads :
    allocateCapital ["road", "", "bridge", "road"] 101 = some [("bridge", 51), ("road", 50)] ∧
    ([("bridge", 51), ("road", 50)].map Prod.snd).sum = clamp 101 0 accumulatorLimit := by
  have allocated : allocateCapital ["road", "", "bridge", "road"] 101 = some [("bridge", 51), ("road", 50)] := by
    decide +kernel
  exact ⟨allocated, (capital_splits allocated (by decide)).2.2.1⟩

end Tpf3Mp.Canon
