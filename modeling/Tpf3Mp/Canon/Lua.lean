import Mathlib.Data.Rat.Floor
import Mathlib.Tactic.FieldSimp
import Mathlib.Tactic.Linarith

/-!
Lua's numbers on exact integers (`tpf3mp-canon`, `lua.rs`). An `i64` is an integer here, and an operation that is
checked has no result when it leaves the range.
-/

namespace Tpf3Mp.Canon

/-- The result of a checked operation. -/
def i64 (value : Int) : Option Int := if -2 ^ 63 ≤ value ∧ value < 2 ^ 63 then some value else none

def checkedDiv (a b : Int) : Option Int := if b = 0 then none else i64 (a.tdiv b)

def checkedRem (a b : Int) : Option Int := if b = 0 ∨ a = -2 ^ 63 ∧ b = -1 then none else some (a.tmod b)

/-- `floor_div` of `lib.rs`, for any `i64`. -/
def floorDiv (a b : Int) : Option Int := do
  let quotient ← checkedDiv a b
  let remainder ← checkedRem a b
  if remainder ≠ 0 ∧ decide (remainder < 0) ≠ decide (b < 0) then i64 (quotient - 1) else some quotient

namespace Lua

def maxExactInteger : Int := 2 ^ 53 - 1

def exact (value : Int) : Option Int := if value.natAbs ≤ maxExactInteger.natAbs then some value else none

/-- An operation on exact integers whose result has to be exact too. -/
def exactly (op : Int → Int → Int) (a b : Int) : Option Int := do exact (← i64 (op (← exact a) (← exact b)))

def add : Int → Int → Option Int := exactly (· + ·)

def sub : Int → Int → Option Int := exactly (· - ·)

def mul : Int → Int → Option Int := exactly (· * ·)

def floorDiv (a b : Int) : Option Int := do Canon.floorDiv (← exact a) (← exact b)

def modulo (a b : Int) : Option Int := do
  let _ ← exact (← i64 ((← i64 (← exact a).natAbs) + (← i64 (← exact b).natAbs)))
  let remainder ← checkedRem a b
  if remainder ≠ 0 ∧ decide (remainder < 0) ≠ decide (b < 0) then some (remainder + b) else some remainder

def clamp (value low high : Int) : Int := if value < low then low else if value > high then high else value

abbrev Exact (value : Int) : Prop := -(2 ^ 53 - 1) ≤ value ∧ value ≤ 2 ^ 53 - 1

variable {a b c : Int}

theorem exact_some : exact a = some c ↔ Exact a ∧ c = a := by
  unfold exact Exact maxExactInteger
  split
  · simp only [Option.some.injEq, eq_comm]
    omega
  · simp only [reduceCtorEq, false_iff]
    omega

theorem i64_exact (small : Exact a) : i64 a = some a := by
  exact if_pos (by omega)

theorem i64_some (made : i64 a = some c) : c = a := by
  unfold i64 at made
  split at made
  · exact (Option.some.inj made).symm
  · cases made

variable {op : Int → Int → Int}

theorem exactly_some : exactly op a b = some c ↔ Exact a ∧ Exact b ∧ Exact (op a b) ∧ c = op a b := by
  simp only [exactly, Option.bind_eq_bind, Option.bind_eq_some_iff, exact_some]
  constructor
  · rintro ⟨_, ⟨left, same⟩, _, ⟨right, same'⟩, v, made, small, result⟩
    rw [same, same'] at made
    rw [i64_some made] at small result
    exact ⟨left, right, small, result⟩
  · rintro ⟨left, right, small, result⟩
    exact ⟨a, ⟨left, rfl⟩, b, ⟨right, rfl⟩, _, i64_exact small, small, result⟩

theorem exactly_of (left : Exact a) (right : Exact b) (small : Exact (op a b)) :
    exactly op a b = some (op a b) := exactly_some.mpr ⟨left, right, small, rfl⟩

theorem exactly_bind {β : Type} {f : Int → Option β} {result : β}
    (made : (exactly op a b).bind f = some result) : f (op a b) = some result := by
  obtain ⟨_, operated, made⟩ := Option.bind_eq_some_iff.mp made
  rwa [← (exactly_some.mp operated).2.2.2]

theorem foldlM_add {ι : Type} {amount : ι → Int} {items : List ι} {start sum : Int}
    (added : items.foldlM (fun sum item => add sum (amount item)) start = some sum) :
    sum = start + (items.map amount).sum := by
  induction items generalizing start with
  | nil =>
    cases added
    exact (Int.add_zero _).symm
  | cons item items ih =>
    rw [ih (exactly_bind added), List.map_cons, List.sum_cons, Int.add_assoc]

theorem add_some : add a b = some c ↔ Exact a ∧ Exact b ∧ Exact (a + b) ∧ c = a + b := exactly_some

theorem mul_some : mul a b = some c ↔ Exact a ∧ Exact b ∧ Exact (a * b) ∧ c = a * b := exactly_some

/-- The quotient of two numbers rounded down, and what is left of the first, with the sign of the second. -/
def Divides (a b quotient rest : Int) : Prop :=
  a = b * quotient + rest ∧ (0 ≤ rest ∧ rest < b ∨ b < rest ∧ rest ≤ 0)

/-- Rust's division rounds towards zero, so that the quotient is one too high where the remainder has the other sign. -/
theorem truncated (nonzero : b ≠ 0) :
    if a.tmod b ≠ 0 ∧ decide (a.tmod b < 0) ≠ decide (b < 0) then Divides a b (a.tdiv b - 1) (a.tmod b + b)
    else Divides a b (a.tdiv b) (a.tmod b) := by
  have parts := Int.mul_tdiv_add_tmod a b
  have small : (a.tmod b).natAbs < b.natAbs := by
    rw [Int.natAbs_tmod]
    exact Nat.mod_lt _ (Int.natAbs_pos.mpr nonzero)
  simp only [ne_eq, decide_eq_decide, Divides, mul_sub, mul_one]
  split
  · omega
  · omega

theorem floorDiv_divides (nonzero : b ≠ 0) (small : Exact a) :
    ∃ quotient rest, Canon.floorDiv a b = some quotient ∧ Divides a b quotient rest := by
  have bound := Int.natAbs_tdiv_le_natAbs a b
  have inRange : ¬ (b = 0 ∨ a = -2 ^ 63 ∧ b = -1) := by omega
  have quotient : i64 (a.tdiv b) = some (a.tdiv b) := i64_exact (by omega)
  have lowered : i64 (a.tdiv b - 1) = some (a.tdiv b - 1) := if_pos (by omega)
  have divides := truncated (a := a) nonzero
  simp only [Canon.floorDiv, checkedDiv, checkedRem, if_neg nonzero, if_neg inRange, quotient, Option.bind_eq_bind,
    Option.bind_some]
  split at divides
  · next crossed => exact ⟨_, _, by rw [if_pos crossed, lowered], divides⟩
  · next level => exact ⟨_, _, by rw [if_neg level], divides⟩

theorem modulo_divides (nonzero : b ≠ 0) (sum : Exact (a.natAbs + b.natAbs)) :
    ∃ quotient rest, modulo a b = some rest ∧ Divides a b quotient rest := by
  have inRange : ¬ (b = 0 ∨ a = -2 ^ 63 ∧ b = -1) := by omega
  have remainder : checkedRem a b = some (a.tmod b) := if_neg inRange
  have lengths : i64 a.natAbs = some (a.natAbs : Int) ∧ i64 b.natAbs = some (b.natAbs : Int) :=
    ⟨i64_exact (by omega), i64_exact (by omega)⟩
  have made {rest : Int} (corrected : (if a.tmod b ≠ 0 ∧ decide (a.tmod b < 0) ≠ decide (b < 0) then some (a.tmod b + b)
      else some (a.tmod b)) = some rest) : modulo a b = some rest := by
    simp only [modulo, Option.bind_eq_bind, Option.bind_eq_some_iff, exact_some]
    exact ⟨a, ⟨by omega, rfl⟩, _, lengths.1, b, ⟨by omega, rfl⟩, _, lengths.2, _, i64_exact sum, _,
      ⟨sum, rfl⟩, _, remainder,
      corrected⟩
  have divides := truncated (a := a) nonzero
  split at divides
  · next crossed => exact ⟨_, _, made (if_pos crossed), divides⟩
  · next level => exact ⟨_, _, made (if_neg level), divides⟩

section Positive
variable (positive : 0 < b)
include positive

theorem Divides.eq {quotient rest : Int} (divides : Divides a b quotient rest) : quotient = a / b ∧ rest = a % b := by
  obtain ⟨parts, range⟩ := divides
  have unique := (Int.ediv_emod_unique (a := a) positive).mpr ⟨by rw [parts, add_comm], by omega, by omega⟩
  exact ⟨unique.1.symm, unique.2.symm⟩

theorem floorDiv_some : floorDiv a b = some c ↔ Exact a ∧ Exact b ∧ c = a / b := by
  simp only [floorDiv, Option.bind_eq_bind, Option.bind_eq_some_iff, exact_some]
  have divided (left : Exact a) : Canon.floorDiv a b = some (a / b) := by
    obtain ⟨quotient, rest, made, divides⟩ := floorDiv_divides positive.ne' left
    rw [made, (divides.eq positive).1]
  constructor
  · rintro ⟨_, ⟨left, rfl⟩, _, ⟨right, rfl⟩, result⟩
    rw [divided left] at result
    exact ⟨left, right, (Option.some.inj result).symm⟩
  · rintro ⟨left, right, rfl⟩
    exact ⟨a, ⟨left, rfl⟩, b, ⟨right, rfl⟩, divided left⟩

theorem floorDiv_bind {β : Type} {f : Int → Option β} {result : β} (made : (floorDiv a b).bind f = some result) :
    f (a / b) = some result := by
  obtain ⟨_, divided, made⟩ := Option.bind_eq_some_iff.mp made
  rwa [← ((floorDiv_some positive).mp divided).2.2]

theorem modulo_some (result : modulo a b = some c) : c = a % b := by
  have sum : Exact (a.natAbs + b.natAbs) := by
    simp only [modulo, Option.bind_eq_bind, Option.bind_eq_some_iff, exact_some] at result
    obtain ⟨_, ⟨_, rfl⟩, _, first, _, ⟨_, rfl⟩, _, second, _, third, _, ⟨small, _⟩, _⟩ := result
    rwa [i64_some third, i64_some first, i64_some second] at small
  obtain ⟨quotient, rest, made, divides⟩ := modulo_divides positive.ne' sum
  rw [made] at result
  rw [← Option.some.inj result, (divides.eq positive).2]

end Positive

section Rounding
variable {rnd : ℚ → ℚ} (near : ∀ x, |rnd x - x| ≤ |x| / 2 ^ 53) (fixed : ∀ n : Int, |n| ≤ 2 ^ 53 → rnd n = n)
include near fixed

/-- A quotient that is no integer is at least one part in `b` away from the next, and rounding moves it by less. -/
theorem Divides.floor {quotient rest : Int} (divides : Divides a b quotient rest) (small : Exact a) :
    ⌊rnd ((a : ℚ) / b)⌋ = quotient := by
  obtain ⟨parts, range⟩ := divides
  have nonzero : b ≠ 0 := by omega
  have scaled : (0 : ℚ) < |(b : ℚ)| := abs_pos.mpr (Int.cast_ne_zero.mpr nonzero)
  by_cases whole : rest = 0
  · have exactly_ : (a : ℚ) / b = quotient := by
      rw [parts, whole, add_zero, Int.cast_mul, mul_div_cancel_left₀ _ (Int.cast_ne_zero.mpr nonzero)]
    have bound : quotient.natAbs ≤ a.natAbs := by
      rw [parts, whole, add_zero, Int.natAbs_mul]
      exact Nat.le_mul_of_pos_left _ (Int.natAbs_pos.mpr nonzero)
    rw [exactly_, fixed quotient (abs_le.mpr ⟨by omega, by omega⟩), Int.floor_intCast]
  · have split : (a : ℚ) / b = quotient + |(rest : ℚ)| / |(b : ℚ)| := by
      have same : (rest : ℚ) / b = |(rest : ℚ)| / |(b : ℚ)| := by
        rw [← abs_div, eq_comm, abs_eq_self, div_nonneg_iff]
        rcases range with ⟨low, high⟩ | ⟨low, high⟩
        · exact .inl ⟨Int.cast_nonneg low, Int.cast_nonneg (by omega)⟩
        · exact .inr ⟨Int.cast_nonpos.mpr high, Int.cast_nonpos.mpr (by omega)⟩
      rw [← same, parts, Int.cast_add, Int.cast_mul, add_div, mul_div_cancel_left₀ _ (Int.cast_ne_zero.mpr nonzero)]
    have moved := near ((a : ℚ) / b)
    have least : (1 : ℚ) ≤ |(rest : ℚ)| := by exact_mod_cast Int.one_le_abs whole
    have most : |(rest : ℚ)| + 1 ≤ |(b : ℚ)| := by
      have apart : |rest| + 1 ≤ |b| := by
        rw [Int.abs_eq_natAbs, Int.abs_eq_natAbs]
        omega
      exact_mod_cast apart
    have less : |(a : ℚ)| / 2 ^ 53 < 1 := by
      rw [div_lt_one (by positivity)]
      have inside : |a| < 2 ^ 53 := abs_lt.mpr ⟨by omega, by omega⟩
      exact_mod_cast inside
    have step : |(a : ℚ) / b| / 2 ^ 53 < 1 / |(b : ℚ)| := by
      rw [abs_div, div_right_comm]
      exact div_lt_div_of_pos_right less scaled
    have low : 1 / |(b : ℚ)| ≤ |(rest : ℚ)| / |(b : ℚ)| := div_le_div_of_nonneg_right least scaled.le
    have high : |(rest : ℚ)| / |(b : ℚ)| + 1 / |(b : ℚ)| ≤ 1 := by
      rw [← add_div]
      exact (div_le_one scaled).mpr most
    obtain ⟨down, up⟩ := abs_le.mp moved
    rw [Int.floor_eq_iff]
    constructor
    · linarith
    · linarith

end Rounding

/-- Lua divides doubles and rounds the quotient before it takes the floor. However it rounds, the floor is that of the
exact quotient, and what Lua computes with it for a remainder is exact. -/
theorem rounding_keeps_floor (rnd : ℚ → ℚ) (near : ∀ x, |rnd x - x| ≤ |x| / 2 ^ 53)
    (fixed : ∀ n : Int, |n| ≤ 2 ^ 53 → rnd n = n) (a b : Int) (left : |a| ≤ 2 ^ 53 - 1) (right : |b| ≤ 2 ^ 53 - 1)
    (nonzero : b ≠ 0) :
    floorDiv a b = some ⌊rnd (a / b)⌋ ∧ (|a| + |b| ≤ 2 ^ 53 - 1 →
      |⌊rnd (a / b)⌋ * b| ≤ 2 ^ 53 ∧ |a - ⌊rnd (a / b)⌋ * b| ≤ 2 ^ 53 ∧ modulo a b = some (a - ⌊rnd (a / b)⌋ * b)) := by
  have small : Exact a := abs_le.mp left
  constructor
  · obtain ⟨quotient, rest, made, divides⟩ := floorDiv_divides nonzero small
    rw [divides.floor near fixed small]
    simp only [floorDiv, Option.bind_eq_bind, Option.bind_eq_some_iff, exact_some]
    exact ⟨a, ⟨small, rfl⟩, b, ⟨abs_le.mp right, rfl⟩, made⟩
  · intro sum
    rw [Int.abs_eq_natAbs, Int.abs_eq_natAbs] at sum
    obtain ⟨quotient, rest, made, divides⟩ := modulo_divides nonzero ⟨by omega, sum⟩
    rw [divides.floor near fixed small, made]
    obtain ⟨parts, range⟩ := divides
    have product : quotient * b = a - rest := by rw [mul_comm, parts, add_sub_cancel_right]
    exact ⟨abs_le.mpr ⟨by omega, by omega⟩, abs_le.mpr ⟨by omega, by omega⟩, congrArg some (by omega)⟩

theorem rounding_keeps_floor_up : floorDiv (-7) 2 = some (-4) ∧ modulo (-7) 2 = some 1 ∧
    ⌊(fun x : ℚ => if x.den = 1 then x else x + |x| / 2 ^ 53) ((-7 : Int) / (2 : Int))⌋ = -4 := by
  have run : floorDiv (-7) 2 = some (-4) := by decide
  have near (x : ℚ) : |(if x.den = 1 then x else x + |x| / 2 ^ 53) - x| ≤ |x| / 2 ^ 53 := by
    split
    · rw [sub_self, abs_zero]
      positivity
    · rw [add_sub_cancel_left, abs_of_nonneg (by positivity)]
  have rounded := (rounding_keeps_floor _ near (fun n _ => if_pos rfl) (-7) 2 (by decide) (by decide) (by decide)).1
  exact ⟨run, by decide, (Option.some.inj rounded).symm⟩

end Lua

end Tpf3Mp.Canon
