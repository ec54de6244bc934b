import Tpf3Mp.Canon.Lua
import Tpf3Mp.Data.SortedMap
import Mathlib.Algebra.Order.BigOperators.Group.List

/-!
How towns grow from the passengers that are carried (`economy/town_demand.rs`). A town grows by whole units and keeps
what is left of one, so it does not matter in how many parts the passengers come.
-/

namespace Tpf3Mp.Canon
open Data List

def nominalCapacityPerBuilding : Int := 4

def maxTownSize : Int := 100000

def growthPassengersPerBuilding : Int := 400

@[ext] structure Town where
  size : Int
  growthResid : Int
  totalGrowth : Int
  deriving DecidableEq

structure TownGrowth where
  carried : Int
  previousSize : Int
  size : Int
  gained : Int
  growthResid : Int
  deriving DecidableEq

def growTown (town : Town) (carried : Int) : Option (Town × TownGrowth) := do
  let numerator ← Lua.add (max town.growthResid 0) (← Lua.mul (max carried 0) nominalCapacityPerBuilding)
  let gain := numerator.tdiv growthPassengersPerBuilding
  let growthResid := numerator.tmod growthPassengersPerBuilding
  let size := min (← Lua.add town.size gain) maxTownSize
  let totalGrowth := min (← Lua.sub (← Lua.add (max town.totalGrowth 0) size) town.size) maxTownSize
  return (⟨size, growthResid, totalGrowth⟩, ⟨carried, town.size, size, ← Lua.sub size town.size, growthResid⟩)

structure CarriedMarket (κ : Type) where
  townA : κ
  townB : κ
  delivered : List Int

section Carried
variable {κ : Type} [LinearOrder κ]

/-- Adds one market's passengers: half of them to its first town, the others to its second. -/
def CarriedMarket.carry (carried : SortedMap κ Int) (market : CarriedMarket κ) : Option (SortedMap κ Int) := do
  let total ← market.delivered.foldlM (fun total delivered => Lua.add total (max delivered 0)) 0
  let half ← Lua.floorDiv total 2
  let carried := carried.insert market.townA (← Lua.add ((carried.find market.townA).getD 0) half)
  let sum ← Lua.add ((carried.find market.townB).getD 0) total
  return carried.insert market.townB (← Lua.sub sum half)

def carriedByTown (markets : List (CarriedMarket κ)) : Option (SortedMap κ Int) := markets.foldlM CarriedMarket.carry []

end Carried

structure Town.Fits (town : Town) : Prop where
  size : 1 ≤ town.size ∧ town.size ≤ maxTownSize
  resid : 0 ≤ town.growthResid ∧ town.growthResid < growthPassengersPerBuilding
  growth : 0 ≤ town.totalGrowth ∧ town.totalGrowth ≤ maxTownSize

/-- What a town grows to, without regard to how far Lua counts. -/
def Town.grown (town : Town) (carried : Int) : Town :=
  let size := min (town.size + (town.growthResid + carried * 4) / 400) maxTownSize
  ⟨size, (town.growthResid + carried * 4) % 400, min (town.totalGrowth + size - town.size) maxTownSize⟩

variable {town : Town}

section
variable (fits : town.Fits)
include fits

theorem growTown_some {carried : Int} {after : Town} {report : TownGrowth} (some_ : 0 ≤ carried)
    (grown : growTown town carried = some (after, report)) : after = town.grown carried := by
  have positive : 0 ≤ town.growthResid + carried * 4 := by
    have resid := fits.resid.1
    omega
  have grown := Lua.exactly_bind
    (Lua.exactly_bind (Lua.exactly_bind (Lua.exactly_bind (Lua.exactly_bind (Lua.exactly_bind grown)))))
  rw [max_eq_left fits.resid.1, max_eq_left some_, max_eq_left fits.growth.1] at grown
  unfold nominalCapacityPerBuilding growthPassengersPerBuilding at grown
  rw [Int.tdiv_eq_ediv_of_nonneg positive, Int.tmod_eq_emod_of_nonneg positive] at grown
  cases grown
  rfl

theorem Town.Fits.grown {carried : Int} (some_ : 0 ≤ carried) : (town.grown carried).Fits := by
  obtain ⟨size, resid, growth⟩ := fits
  unfold Town.grown
  constructor
  · dsimp only
    omega
  · unfold growthPassengersPerBuilding
    dsimp only
    omega
  · dsimp only
    omega

theorem Town.grown_zero : town.grown 0 = town := by
  obtain ⟨size, resid, growth⟩ := fits
  unfold growthPassengersPerBuilding at resid
  unfold Town.grown
  ext
  · dsimp only
    omega
  · dsimp only
    omega
  · dsimp only
    omega

theorem Town.grown_add {first second : Int} (right : 0 ≤ second) :
    (town.grown first).grown second = town.grown (first + second) := by
  obtain ⟨size, resid, growth⟩ := fits
  unfold Town.grown
  ext
  · dsimp only
    omega
  · dsimp only
    omega
  · dsimp only
    omega

theorem growTowns_some {counts : List Int} {last : Town} (some_ : ∀ carried ∈ counts, 0 ≤ carried)
    (grown : counts.foldlM (fun town carried => (growTown town carried).map Prod.fst) town = some last) :
    last = town.grown counts.sum := by
  induction counts generalizing town with
  | nil =>
    cases grown
    exact (Town.grown_zero fits).symm
  | cons carried counts ih =>
    obtain ⟨_, one, rest⟩ := Option.bind_eq_some_iff.mp grown
    obtain ⟨⟨next, report⟩, made, rfl⟩ := Option.map_eq_some_iff.mp one
    have here := some_ carried mem_cons_self
    have later : ∀ other ∈ counts, 0 ≤ other := fun other among => some_ other (mem_cons_of_mem _ among)
    rw [growTown_some fits here made] at rest
    rw [ih (fits.grown here) later rest, Town.grown_add fits (sum_nonneg later), sum_cons]

end

section Carried
variable {κ : Type} [LinearOrder κ]

/-- The passengers of all towns together, each town with at least none. -/
structure Carried (carried : SortedMap κ Int) (total : Int) : Prop where
  ordered : (carried.map Prod.fst).Pairwise (· < ·)
  some_ : ∀ entry ∈ carried, 0 ≤ entry.2
  total : (carried.map Prod.snd).sum = total

variable {carried : SortedMap κ Int} {total : Int}

theorem Carried.insert (holds : Carried carried total) (town : κ) (more : Int)
    (least : 0 ≤ (carried.find town).getD 0 + more) :
    Carried (carried.insert town ((carried.find town).getD 0 + more)) (total + more) := by
  refine ⟨SortedMap.insert_ordered _ _ holds.ordered, fun entry among => ?_, ?_⟩
  · rcases SortedMap.mem_of_insert among with rfl | old
    · exact least
    · exact holds.some_ entry old
  · have sum := SortedMap.sum_insert town ((carried.find town).getD 0 + more) holds.ordered
    rw [holds.total] at sum
    omega

theorem Carried.find (holds : Carried carried total) (town : κ) : 0 ≤ (carried.find town).getD 0 := by
  cases found : carried.find town with
  | none => exact Int.le_refl _
  | some value => exact holds.some_ _ (SortedMap.find_mem found)

theorem Carried.carry {after : SortedMap κ Int} {market : CarriedMarket κ} (holds : Carried carried total)
    (added : market.carry carried = some after) : Carried after (total + (market.delivered.map (max · 0)).sum) := by
  obtain ⟨sum, summed, added⟩ := Option.bind_eq_some_iff.mp added
  have summed := Lua.foldlM_add summed
  rw [Int.zero_add] at summed
  have positive : 0 ≤ sum := by
    rw [summed]
    exact sum_nonneg fun value among => by
      obtain ⟨delivered, _, rfl⟩ := mem_map.mp among
      exact le_max_right _ _
  have added := Lua.exactly_bind (Lua.exactly_bind (Lua.exactly_bind (Lua.floorDiv_bind (by decide) added)))
  have first := holds.insert market.townA (sum / 2) (by have least := holds.find market.townA; omega)
  have second := first.insert market.townB (sum - sum / 2) (by have least := first.find market.townB; omega)
  rw [← summed]
  rw [Int.add_assoc, Int.add_comm (sum / 2), Int.sub_add_cancel, ← Int.add_sub_assoc] at second
  cases added
  exact second

theorem Carried.carries {before after : SortedMap κ Int} {markets : List (CarriedMarket κ)}
    (holds : Carried before total) (added : markets.foldlM CarriedMarket.carry before = some after) :
    Carried after (total + (markets.map fun market => (market.delivered.map (max · 0)).sum).sum) := by
  induction markets generalizing before total with
  | nil =>
    cases added
    rwa [map_nil, sum_nil, Int.add_zero]
  | cons market markets ih =>
    obtain ⟨next, one, rest⟩ := Option.bind_eq_some_iff.mp added
    rw [map_cons, sum_cons, ← Int.add_assoc]
    exact ih (holds.carry one) rest

end Carried

/-- Carrying passengers in parts or all at once, a town grows to the same; and the towns together carry exactly the
passengers that the markets delivered. -/
theorem growth_ignores_parts {κ : Type} [LinearOrder κ] :
    (∀ town : Town, (1 ≤ town.size ∧ town.size ≤ maxTownSize) → (0 ≤ town.growthResid ∧ town.growthResid < 400) →
      (0 ≤ town.totalGrowth ∧ town.totalGrowth ≤ maxTownSize) → ∀ (counts : List Int) last once report,
      (∀ carried ∈ counts, 0 ≤ carried) →
      counts.foldlM (fun town carried => (growTown town carried).map Prod.fst) town = some last →
      growTown town counts.sum = some (once, report) → last = once) ∧
    ∀ (markets : List (CarriedMarket κ)) carried, carriedByTown markets = some carried →
      (∀ entry ∈ carried, 0 ≤ entry.2) ∧
      (carried.map Prod.snd).sum = (markets.map fun market => (market.delivered.map (max · 0)).sum).sum := by
  constructor
  · intro town size resid growth counts last once report some_ parts whole
    have fits : town.Fits := ⟨size, resid, growth⟩
    rw [growTowns_some fits some_ parts, growTown_some fits (sum_nonneg some_) whole]
  intro markets carried added
  have start : Carried ([] : SortedMap κ Int) 0 := ⟨.nil, fun _ among => absurd among not_mem_nil, rfl⟩
  have all := start.carries added
  rw [Int.zero_add] at all
  exact ⟨all.some_, all.total⟩

theorem growth_ignores_parts_full :
    (growTown ⟨99999, 399, 5⟩ 250).map Prod.fst = some ⟨100000, 199, 6⟩ ∧
    carriedByTown [⟨1, 2, [3, -2]⟩, ⟨1, 1, [5]⟩] = some [(1, 6), (2, 2)] ∧ ([6, 2] : List Int).sum = [3, 5].sum := by
  have parts : [100, 150].foldlM (fun town carried => (growTown town carried).map Prod.fst) ⟨99999, 399, 5⟩ = some
    ⟨100000, 199, 6⟩ := by
    decide
  obtain ⟨once, whole⟩ : ∃ once, growTown ⟨99999, 399, 5⟩ 250 = some once := ⟨_, rfl⟩
  have carried : carriedByTown [⟨1, 2, [3, -2]⟩, ⟨1, 1, [5]⟩] = some [(1, 6), (2, 2)] := by decide
  have same := (@growth_ignores_parts Nat _).1 ⟨99999, 399, 5⟩ (by decide) (by decide)
    (by decide) [100, 150] _ _ _ (by decide)
    parts whole
  exact ⟨rfl, carried, (growth_ignores_parts.2 _ _ carried).2⟩

end Tpf3Mp.Canon
