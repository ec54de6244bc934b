import Mathlib.Algebra.Order.BigOperators.Group.List
import Mathlib.Algebra.Order.Ring.Int
import Mathlib.Tactic.Linarith
import Mathlib.Tactic.Ring

/-!
Dividing amounts one after another, each with the remainder of the one before: nothing is lost to rounding.
-/

namespace Data
open List

def carry (divisor : Int) (remainder : Int) : List Int → List Int × Int
  | [] => ([], remainder)
  | amount :: amounts =>
    let rest := carry divisor ((amount + remainder) % divisor) amounts
    ((amount + remainder) / divisor :: rest.1, rest.2)

/-- Calls that hand their remainder on, as far as they have results. -/
def chain {α : Type} (call : Int → α → Option (Int × Int)) (remainder : Int) : List α → Option (List Int × Int)
  | [] => some ([], remainder)
  | input :: inputs => do
    let (result, remainder) ← call remainder input
    let (results, remainder) ← chain call remainder inputs
    return (result :: results, remainder)

variable {divisor remainder : Int}

theorem carry_total (divisor remainder : Int) (amounts : List Int) :
    divisor * (carry divisor remainder amounts).1.sum + (carry divisor remainder amounts).2 =
      amounts.sum + remainder := by
  induction amounts generalizing remainder with
  | nil => simp [carry]
  | cons amount amounts ih =>
    have here := Int.mul_ediv_add_emod (amount + remainder) divisor
    have rest := ih ((amount + remainder) % divisor)
    simp only [carry, sum_cons, mul_add]
    linarith only [here, rest]

theorem carry_remainder (positive : 0 < divisor) (low : 0 ≤ remainder) (high : remainder < divisor)
    (amounts : List Int) :
    0 ≤ (carry divisor remainder amounts).2 ∧ (carry divisor remainder amounts).2 < divisor := by
  induction amounts generalizing remainder with
  | nil => exact ⟨low, high⟩
  | cons amount amounts ih => exact ih (Int.emod_nonneg _ positive.ne') (Int.emod_lt_of_pos _ positive)

theorem carry_eq (positive : 0 < divisor) (low : 0 ≤ remainder) (high : remainder < divisor) (amounts : List Int) :
    (carry divisor remainder amounts).1.sum = (amounts.sum + remainder) / divisor ∧
    (carry divisor remainder amounts).2 = (amounts.sum + remainder) % divisor := by
  have total := carry_total divisor remainder amounts
  have unique := (Int.ediv_emod_unique positive).mpr
    ⟨(Int.add_comm _ _).trans total, carry_remainder positive low high amounts⟩
  exact ⟨unique.1.symm, unique.2.symm⟩

/-- A product may be divided by parts, its first factor split into a multiple of the divisor and the rest. -/
theorem split_ediv (nonzero : divisor ≠ 0) (a b rest : Int) :
    (a * b + rest) / divisor = a / divisor * b + (a % divisor * b + rest) / divisor ∧
    (a * b + rest) % divisor = (a % divisor * b + rest) % divisor := by
  have parts : a * b + rest = a % divisor * b + rest + divisor * (a / divisor * b) := by
    nth_rewrite 1 [← Int.mul_ediv_add_emod a divisor]
    ring
  rw [parts]
  exact ⟨(Int.add_mul_ediv_left _ _ nonzero).trans (Int.add_comm _ _), Int.add_mul_emod_self_left _ _ _⟩

/-- Calls that divide their amount, and cap the result, divide the whole of it, as long as all that is left to
divide stays below a bound. -/
theorem chain_eq {α : Type} {call : Int → α → Option (Int × Int)} {amount : α → Int} {cap : Int → Int} {bound : Int}
    {inputs : List α} (positive : 0 < divisor)
    (divides : ∀ remainder, 0 ≤ remainder → remainder < divisor → ∀ input ∈ inputs, amount input + remainder < bound →
      call remainder input = some (cap ((amount input + remainder) / divisor), (amount input + remainder) % divisor))
    (amounts : ∀ input ∈ inputs, 0 ≤ amount input) (low : 0 ≤ remainder) (high : remainder < divisor)
    (below : (inputs.map amount).sum + remainder < bound) :
    chain call remainder inputs = some ((carry divisor remainder (inputs.map amount)).1.map cap,
      (carry divisor remainder (inputs.map amount)).2) := by
  induction inputs generalizing remainder with
  | nil => rfl
  | cons input inputs ih =>
    rw [map_cons, sum_cons] at below
    have some_ : 0 ≤ amount input := amounts input mem_cons_self
    have rest : 0 ≤ (inputs.map amount).sum := by
      refine sum_nonneg fun value among => ?_
      obtain ⟨other, later, rfl⟩ := mem_map.mp among
      exact amounts other (mem_cons_of_mem _ later)
    have less : (amount input + remainder) % divisor ≤ amount input + remainder := by
      have whole := Int.mul_ediv_add_emod (amount input + remainder) divisor
      have quotient := mul_nonneg positive.le (Int.ediv_nonneg (add_nonneg some_ low) positive.le)
      omega
    have after := ih (fun remainder low high other later => divides remainder low high other (mem_cons_of_mem _ later))
      (fun other later => amounts other (mem_cons_of_mem _ later))
        (Int.emod_nonneg (amount input + remainder) positive.ne')
      (Int.emod_lt_of_pos _ positive) (by omega)
    unfold chain
    rw [divides remainder low high input mem_cons_self (by omega), Option.bind_eq_bind, Option.bind_some]
    dsimp only
    rw [after]
    rfl

theorem chain_total {α : Type} {call : Int → α → Option (Int × Int)} {amount : α → Int} {fits : Int → Prop}
    {inputs : List α} {results : List Int} {final : Int}
    (divides : ∀ remainder, fits remainder → ∀ input ∈ inputs, ∀ result rest,
      call remainder input = some (result, rest) →
      fits rest ∧ divisor * result + rest = amount input + remainder)
    (start : fits remainder) (chained : chain call remainder inputs = some (results, final)) :
    fits final ∧ divisor * results.sum + final = (inputs.map amount).sum + remainder := by
  induction inputs generalizing remainder results with
  | nil =>
    cases chained
    exact ⟨start, by simp⟩
  | cons input inputs ih =>
    simp only [chain, Option.bind_eq_bind, Option.bind_eq_some_iff] at chained
    obtain ⟨⟨result, rest⟩, called, ⟨later, final'⟩, onward, made⟩ := chained
    cases made
    obtain ⟨kept, here⟩ := divides remainder start input mem_cons_self result rest called
    obtain ⟨last, total⟩ :=
      ih (fun remainder fits other later => divides remainder fits other (mem_cons_of_mem _ later))
      kept onward
    refine ⟨last, ?_⟩
    dsimp only at total ⊢
    rw [sum_cons, map_cons, sum_cons, mul_add]
    omega

end Data
