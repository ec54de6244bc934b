import Mathlib.Data.List.Forall2

/-!
Runs of step functions: how a computation that may fail is taken apart, and how what one step
preserves is preserved by a list of steps.
-/

namespace Run

variable {ε α β σ ι : Type} {f : α → Except ε β} {x : Except ε α}

theorem bind_ok {b : β} : (x >>= f) = .ok b ↔ ∃ a, x = .ok a ∧ f a = .ok b := by
  cases x with
  | error e => simp [bind, Except.bind]
  | ok a => simp [bind, Except.bind]

theorem ok_bind (a : α) (f : α → Except ε β) : (Except.ok a >>= f) = f a := rfl

theorem bind_congr_ok {g : α → Except ε β} (same : ∀ a, x = .ok a → f a = g a) : (x >>= f) = (x >>= g) := by
  cases x with
  | error e => rfl
  | ok a => exact same a rfl

theorem map_ok {f : α → β} {b : β} : (f <$> x) = .ok b ↔ ∃ a, x = .ok a ∧ f a = b := by
  cases x with
  | error e => simp [Functor.map, Except.map]
  | ok a => simp [Functor.map, Except.map]

theorem mapError_ok {ε' : Type} {f : ε → ε'} {a : α} : x.mapError f = .ok a ↔ x = .ok a := by
  cases x with
  | error e => simp [Except.mapError]
  | ok a => simp [Except.mapError]

theorem mapM_ok {xs : List α} {ys : List β} :
    xs.mapM f = .ok ys ↔ List.Forall₂ (fun x y => f x = .ok y) xs ys := by
  induction xs generalizing ys with
  | nil =>
    rw [List.mapM_nil, List.forall₂_nil_left_iff]
    exact ⟨fun same => (Except.ok.inj same).symm, fun same => congrArg Except.ok same.symm⟩
  | cons x xs ih =>
    rw [List.mapM_cons, bind_ok, List.forall₂_cons_left_iff]
    refine exists_congr fun y => ?_
    rw [bind_ok, ← exists_and_left]
    refine exists_congr fun rest => ?_
    rw [ih, and_congr_right_iff]
    exact fun _ => and_congr_right fun _ =>
      ⟨fun same => (Except.ok.inj same).symm, fun same => congrArg Except.ok same.symm⟩

theorem mapM_total {xs : List α} : (∃ ys, xs.mapM f = .ok ys) ↔ ∀ x ∈ xs, ∃ y, f x = .ok y := by
  simp only [mapM_ok]
  induction xs with
  | nil => simp
  | cons x xs ih =>
    rw [List.forall_mem_cons, ← ih]
    constructor
    · rintro ⟨_, all⟩
      cases all with
      | cons here rest => exact ⟨⟨_, here⟩, _, rest⟩
    · rintro ⟨⟨_, here⟩, _, rest⟩
      exact ⟨_, .cons here rest⟩

def ensure (p : Prop) [Decidable p] (e : ε) : Except ε Unit := if p then .ok () else .error e

theorem ensure_ok {p : Prop} [Decidable p] {e : ε} {u : Unit} : ensure p e = .ok u ↔ p := by
  unfold ensure
  split
  · next holds => exact iff_of_true rfl holds
  · next fails => exact iff_of_false nofun fails

theorem foldl_preserves {step : σ → ι → σ} {Inv : σ → Prop} (preserves : ∀ s i, Inv s → Inv (step s i))
    {s : σ} (start : Inv s) (inputs : List ι) : Inv (inputs.foldl step s) := by
  induction inputs generalizing s with
  | nil => exact start
  | cons input inputs ih => exact ih (preserves s input start)

theorem foldlM_simulates {τ : Type} {step : σ → ι → Except ε σ} {step' : τ → ι → Except ε τ} {f : σ → τ}
    (simulates : ∀ {s i s'}, step s i = .ok s' → step' (f s) i = .ok (f s')) {s s' : σ} {inputs : List ι}
    (run : inputs.foldlM step s = .ok s') : inputs.foldlM step' (f s) = .ok (f s') := by
  induction inputs generalizing s with
  | nil =>
    cases run
    rfl
  | cons input inputs ih =>
    rw [List.foldlM_cons] at run ⊢
    obtain ⟨middle, one, rest⟩ := bind_ok.mp run
    rw [simulates one]
    exact ih rest

end Run
