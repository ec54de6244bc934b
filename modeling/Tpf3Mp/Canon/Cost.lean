import Tpf3Mp.Canon.Lua
import Mathlib.Order.Lattice

/-!
What a journey costs its riders, and the weight that gives it among the services they choose from (`economy/flow.rs`).
A service that is nowhere worse than another costs no more, and weighs no less.
-/

namespace Tpf3Mp.Canon

def shareScale : Int := 1000000

/-- The exponential of tenths, in parts of `2 ^ 16`. -/
def expTable : List Int := [
  65536, 59299, 53656, 48550, 43930, 39750, 35967, 32544, 29447, 26645, 24109, 21815, 19739, 17861, 16161, 14623, 13231,
  11972, 10833, 9802, 8869, 8025, 7262, 6571, 5945, 5380, 4868, 4404, 3985, 3606, 3263, 2952, 2671, 2417, 2187, 1979,
  1791, 1620, 1466, 1327, 1200, 1086, 983, 889, 805, 728, 659, 596, 539, 488, 442, 400, 362, 327, 296, 268, 242, 219,
  198, 180, 162, 147, 133, 120, 109, 99, 89, 81, 73, 66, 60, 54, 49, 44, 40, 36, 33, 30, 27, 24, 22]

def cutoffCentinats : Int := 800

def defaultWaitWeightPm : Int := 2000

structure CostParams where
  maxWaitSeconds : Int
  transferSeconds : Int
  crowdThresholdPpm : Int

structure MarketCost where
  votCentsPerHour : Int
  waitWeightPm : Option Int
  transferSeconds : Option Int

structure ServiceCost where
  headwaySeconds : Int
  journeySeconds : Int
  transfers : Int
  lagLoadPpm : Int
  quality : Int
  fareCents : Int

structure FeederAccessFactors where
  baseComfortCents : Int
  feederAccessCents : Int
  deriving DecidableEq

structure GeneralizedCost where
  fareCents : Int
  timeCostCents : Int
  waitCostCents : Int
  transferCostCents : Int
  crowdCostCents : Int
  comfortCents : Int
  gcCents : Int
  feederAccess : Option FeederAccessFactors
  deriving DecidableEq

def generalizedCost (params : CostParams) (market : MarketCost) (service : ServiceCost)
    (feederAccessCents : Option Int) :
    Option GeneralizedCost := do
  let vot := market.votCentsPerHour
  let waitWeightPm := market.waitWeightPm.getD defaultWaitWeightPm
  let transferSeconds := market.transferSeconds.getD params.transferSeconds
  let waitSeconds := min (← Lua.floorDiv service.headwaySeconds 2) params.maxWaitSeconds
  let timeCostCents ← Lua.floorDiv (← Lua.mul vot service.journeySeconds) 3600
  let waitCostCents ← Lua.floorDiv (← Lua.mul (← Lua.mul vot waitSeconds) waitWeightPm) 3600000
  let transferCostCents ← Lua.floorDiv (← Lua.mul (← Lua.mul vot service.transfers) transferSeconds) 3600
  let crowdSpan ← Lua.sub shareScale params.crowdThresholdPpm
  let crowdExcess := Lua.clamp (← Lua.sub service.lagLoadPpm params.crowdThresholdPpm) 0 crowdSpan
  let crowdCostCents ← Lua.floorDiv (← Lua.mul timeCostCents crowdExcess) crowdSpan
  let accessCents := max (feederAccessCents.getD 0) 0
  let comfortCents ← Lua.add service.quality accessCents
  let total ← [waitCostCents, transferCostCents, crowdCostCents].foldlM Lua.add
    (← Lua.add service.fareCents timeCostCents)
  let gcCents := max (← Lua.sub total comfortCents) 1
  return {
    fareCents := service.fareCents, timeCostCents, waitCostCents, transferCostCents, crowdCostCents,
      comfortCents, gcCents
    feederAccess := feederAccessCents.map fun _ => ⟨service.quality, accessCents⟩ }

/-- The table read between two of its entries. The table falls, so that the step is rounded away from zero. -/
def interpolated (centinats : Int) : Option Int := do
  let index := (centinats.tdiv 10).toNat
  let fraction := centinats.tmod 10
  let left ← expTable[index]?
  let right ← expTable[index + 1]?
  return left + (← Lua.floorDiv ((right - left) * fraction) 10)

def logitWeight (gcCents gcMinCents thetaCents cutoffWeight : Int) : Option Int := do
  let centinats ← Lua.floorDiv (← Lua.mul (← Lua.sub gcCents gcMinCents) 100) thetaCents
  if centinats ≥ cutoffCentinats then return cutoffWeight
  else return max cutoffWeight (← interpolated (max centinats 0))

/-- The crowding a load causes, between none and the whole span above the threshold. -/
def crowding (params : CostParams) (lagLoadPpm : Int) : Int :=
  Lua.clamp (lagLoadPpm - params.crowdThresholdPpm) 0 (shareScale - params.crowdThresholdPpm)

theorem generalizedCost_some {params : CostParams} {market : MarketCost} {service : ServiceCost} {access : Option Int}
    {cost : GeneralizedCost} (crowded : params.crowdThresholdPpm < shareScale)
    (priced : generalizedCost params market service access = some cost) :
    cost.gcCents = max (service.fareCents + market.votCentsPerHour * service.journeySeconds / 3600
      + market.votCentsPerHour * min (service.headwaySeconds / 2) params.maxWaitSeconds
        * market.waitWeightPm.getD defaultWaitWeightPm / 3600000
      + market.votCentsPerHour * service.transfers * market.transferSeconds.getD params.transferSeconds / 3600
      + market.votCentsPerHour * service.journeySeconds / 3600 * crowding params service.lagLoadPpm
        / (shareScale - params.crowdThresholdPpm)
      - (service.quality + max (access.getD 0) 0)) 1 := by
  have span : 0 < shareScale - params.crowdThresholdPpm := Int.sub_pos_of_lt crowded
  have priced := Lua.floorDiv_bind (by decide) priced
  have priced := Lua.floorDiv_bind (by decide) (Lua.exactly_bind priced)
  have priced := Lua.floorDiv_bind (by decide) (Lua.exactly_bind (Lua.exactly_bind priced))
  have priced := Lua.floorDiv_bind (by decide) (Lua.exactly_bind (Lua.exactly_bind priced))
  have priced := Lua.floorDiv_bind span (Lua.exactly_bind (Lua.exactly_bind (Lua.exactly_bind priced)))
  have priced := Lua.exactly_bind (Lua.exactly_bind priced)
  obtain ⟨_, summed, priced⟩ := Option.bind_eq_some_iff.mp priced
  have summed := Lua.exactly_bind (Lua.exactly_bind (Lua.exactly_bind summed))
  cases summed
  have priced := Lua.exactly_bind priced
  cases priced
  rfl

theorem crowding_mono {params : CostParams} {low high : Int} (crowded : params.crowdThresholdPpm < shareScale)
    (less : low ≤ high) : 0 ≤ crowding params low ∧ crowding params low ≤ crowding params high := by
  unfold crowding Lua.clamp
  omega

theorem interpolated_falls {low high : Nat} (less : low ≤ high) (inside : high < 800) :
    (interpolated high).getD 0 ≤ (interpolated low).getD 0 := by
  have table : ∀ centinats < 799, (interpolated (centinats + 1 : Nat)).getD 0 ≤
    (interpolated (centinats : Nat)).getD 0 := by
    decide +kernel
  induction high, less using Nat.le_induction with
  | base => exact Int.le_refl _
  | succ high _ ih => exact (table high (by omega)).trans (ih (by omega))

variable {cutoffWeight thetaCents gcMinCents : Int}

theorem logitWeight_some {gcCents weight : Int} (positive : 0 < thetaCents)
    (weighed : logitWeight gcCents gcMinCents thetaCents cutoffWeight = some weight) :
    weight = if (gcCents - gcMinCents) * 100 / thetaCents ≥ cutoffCentinats then cutoffWeight
      else max cutoffWeight ((interpolated ((gcCents - gcMinCents) * 100 / thetaCents).toNat).getD 0) := by
  have weighed := Lua.floorDiv_bind positive (Lua.exactly_bind (Lua.exactly_bind weighed))
  split at weighed
  · next far =>
    rw [if_pos far]
    exact (Option.some.inj weighed).symm
  rename_i near
  obtain ⟨_, read, made⟩ := Option.bind_eq_some_iff.mp weighed
  rw [if_neg near, Int.toNat_eq_max, read]
  exact (Option.some.inj made).symm

theorem logitWeight_falls {gcCents other weight weight' : Int} (positive : 0 < thetaCents)
    (less : gcCents ≤ other) (weighed : logitWeight gcCents gcMinCents thetaCents cutoffWeight = some weight)
    (weighed' : logitWeight other gcMinCents thetaCents cutoffWeight = some weight') : weight' ≤ weight := by
  have farther : (gcCents - gcMinCents) * 100 / thetaCents ≤ (other - gcMinCents) * 100 / thetaCents :=
    Int.ediv_le_ediv positive (by omega)
  rw [logitWeight_some positive weighed, logitWeight_some positive weighed']
  unfold cutoffCentinats
  split
  · split
    · exact Int.le_refl _
    · exact le_max_left _ _
  · rw [if_neg (by omega)]
    exact max_le_max_left _ (interpolated_falls (by omega) (by omega))

theorem logitWeight_le {gcCents weight : Int} (positive : 0 < thetaCents)
    (weighed : logitWeight gcCents gcMinCents thetaCents cutoffWeight = some weight) :
    weight ≤ max 65536 cutoffWeight := by
  rw [logitWeight_some positive weighed, max_comm 65536]
  unfold cutoffCentinats
  split
  · exact le_max_left _ _
  · exact max_le_max_left _ (interpolated_falls (Nat.zero_le _) (by omega))

/-- A service whose fare, time, headway, transfers and load are no higher than another's, and whose quality and access
are no lower, costs its riders no more and weighs no less; and no weight exceeds the table's first and the cutoff's. -/
theorem better_service_weighs_more (params : CostParams) (market : MarketCost) (a b : ServiceCost)
    (accessA accessB : Option Int)
    (costA costB : GeneralizedCost) (crowded : params.crowdThresholdPpm < 1000000) (vot : 0 ≤ market.votCentsPerHour)
    (waits : 0 ≤ market.waitWeightPm.getD defaultWaitWeightPm)
    (changes : 0 ≤ market.transferSeconds.getD params.transferSeconds)
    (forward : 0 ≤ a.journeySeconds) (fare : a.fareCents ≤ b.fareCents) (journey : a.journeySeconds ≤ b.journeySeconds)
    (headway : a.headwaySeconds ≤ b.headwaySeconds) (transfers : a.transfers ≤ b.transfers)
    (load : a.lagLoadPpm ≤ b.lagLoadPpm) (quality : b.quality ≤ a.quality) (access : accessB.getD 0 ≤ accessA.getD 0)
    (pricedA : generalizedCost params market a accessA = some costA)
    (pricedB : generalizedCost params market b accessB = some costB) :
    costA.gcCents ≤ costB.gcCents ∧ ∀ gcMin theta cutoff, 0 < theta →
      (∀ weightA weightB, logitWeight costA.gcCents gcMin theta cutoff = some weightA →
        logitWeight costB.gcCents gcMin theta cutoff = some weightB → weightB ≤ weightA) ∧
      ∀ gc weight, logitWeight gc gcMin theta cutoff = some weight → weight ≤ max 65536 cutoff := by
  have dearer : costA.gcCents ≤ costB.gcCents := by
    rw [generalizedCost_some crowded pricedA, generalizedCost_some crowded pricedB]
    have time : market.votCentsPerHour * a.journeySeconds / 3600 ≤ market.votCentsPerHour * b.journeySeconds / 3600 :=
      Int.ediv_le_ediv (by decide) (Int.mul_le_mul_of_nonneg_left journey vot)
    have spent : 0 ≤ market.votCentsPerHour * a.journeySeconds / 3600 :=
      Int.ediv_nonneg (Int.mul_nonneg vot forward) (by decide)
    have half : min (a.headwaySeconds / 2) params.maxWaitSeconds ≤ min
      (b.headwaySeconds / 2) params.maxWaitSeconds := by omega
    have wait := Int.ediv_le_ediv (by decide : (0 : Int) < 3600000)
      (Int.mul_le_mul_of_nonneg_right (Int.mul_le_mul_of_nonneg_left half vot) waits)
    have change := Int.ediv_le_ediv (by decide : (0 : Int) < 3600)
      (Int.mul_le_mul_of_nonneg_right (Int.mul_le_mul_of_nonneg_left transfers vot) changes)
    obtain ⟨some_, more⟩ := crowding_mono crowded load
    have crowd := Int.ediv_le_ediv (Int.sub_pos_of_lt crowded) (Int.mul_le_mul time more some_ (spent.trans time))
    unfold shareScale
    omega
  exact ⟨dearer, fun gcMin theta cutoff positive =>
    ⟨fun _ _ weighedA weighedB => logitWeight_falls positive dearer weighedA weighedB,
    fun _ _ weighed => logitWeight_le positive weighed⟩⟩

theorem better_service_weighs_more_express :
    let params : CostParams := ⟨1800, 300, 800000⟩
    let market : MarketCost := ⟨1200, none, none⟩
    ∃ express bus, generalizedCost params market ⟨600, 1800, 0, 900000, 10, 250⟩ (some 20) = some express ∧
      generalizedCost params market ⟨1200, 3600, 1, 950000, 0, 250⟩ none = some bus ∧ express.gcCents < bus.gcCents ∧
      ∀ weightA weightB, logitWeight express.gcCents 500 300 0 = some weightA →
        logitWeight bus.gcCents 500 300 0 = some weightB →
        weightB ≤ weightA := by
  refine ⟨_, _, rfl, rfl, by decide, ?_⟩
  exact ((better_service_weighs_more ⟨1800, 300, 800000⟩ ⟨1200, none, none⟩ ⟨600, 1800, 0, 900000, 10, 250⟩
    ⟨1200, 3600, 1, 950000, 0, 250⟩ (some 20) none _ _ (by decide) (by decide) (by decide) (by decide)
      (by decide) (by decide)
    (by decide) (by decide) (by decide) (by decide) (by decide) (by decide) rfl rfl).2 500 300 0 (by decide)).1

end Tpf3Mp.Canon
