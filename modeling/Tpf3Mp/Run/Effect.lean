import Mathlib.Tactic.Common

/-!
Computations that change a state and may fail, which keep the state they failed in, and rules for
what they leave behind: a precondition, what holds when they return, and what holds when they fail.
-/

namespace Run

abbrev Effect (ε σ α : Type) := ExceptT ε (StateM σ) α

variable {ε σ α β : Type}

def require (p : Prop) [Decidable p] (e : ε) : Effect ε σ Unit := if p then pure () else throw e

/-- From every state in `P` the computation returns into `Q` or fails into `E`. -/
def Triple (P : σ → Prop) (x : Effect ε σ α) (Q : α → σ → Prop) (E : ε → σ → Prop) : Prop :=
  ∀ s, P s → match x.run s with
    | (.ok a, s') => Q a s'
    | (.error e, s') => E e s'

/-- Whatever comes of the computation, it leaves `P` true. -/
abbrev Keeps (P : σ → Prop) (x : Effect ε σ α) : Prop := Triple P x (fun _ => P) fun _ => P

namespace Triple

variable {P P' : σ → Prop} {x : Effect ε σ α} {Q Q' : α → σ → Prop} {E E' : ε → σ → Prop}

theorem returned (triple : Triple P x Q E) {s s' : σ} {a : α} (start : P s) (run : x.run s = (.ok a, s')) : Q a s' := by
  have after := triple s start
  rwa [run] at after

theorem returns (triple : Triple P x Q fun _ _ => False) {s : σ} (start : P s) :
    ∃ a s', x.run s = (.ok a, s') ∧ Q a s' := by
  have after := triple s start
  cases run : x.run s with
  | mk result s' =>
    rw [run] at after
    cases result with
    | ok a => exact ⟨a, s', rfl, after⟩
    | error e => exact after.elim

theorem weaken (triple : Triple P x Q E) (before : ∀ s, P' s → P s) (after : ∀ a s, Q a s → Q' a s)
    (failing : ∀ e s, E e s → E' e s) : Triple P' x Q' E' := by
  intro s start
  have reached := triple s (before s start)
  cases run : x.run s with
  | mk result s' =>
    rw [run] at reached
    cases result with
    | ok a => exact after a s' reached
    | error e => exact failing e s' reached

theorem given (before : ∀ s, P' s → P s) (triple : Triple P x Q E) : Triple P' x Q E :=
  triple.weaken before (fun _ _ after => after) fun _ _ failed => failed

variable {p : Prop} {F : ε → σ → Prop} {e : ε}

theorem orElse (triple : Triple P x Q E) (failing : ∀ e s, E e s → F e s) : Triple P x Q F :=
  triple.weaken (fun _ start => start) (fun _ _ after => after) failing

theorem and {R : α → σ → Prop} (triple : Triple P x Q E) (other : Triple P' x R F) :
    Triple (fun s => P s ∧ P' s) x (fun a s => Q a s ∧ R a s) fun e s => E e s ∧ F e s := by
  rintro s ⟨start, start'⟩
  have reached := triple s start
  have reached' := other s start'
  cases run : x.run s with
  | mk result s' =>
    rw [run] at reached reached'
    cases result with
    | ok a => exact ⟨reached, reached'⟩
    | error e => exact ⟨reached, reached'⟩

theorem exists_intro {ι : Type} {P : ι → σ → Prop} (each : ∀ i, Triple (P i) x Q E) :
    Triple (fun s => ∃ i, P i s) x Q E :=
  fun s ⟨i, start⟩ => each i s start

theorem and_intro (given : p → Triple P x Q E) : Triple (fun s => P s ∧ p) x Q E :=
  fun s ⟨start, holds⟩ => given holds s start

theorem trivial (x : Effect ε σ α) : Triple P x (fun _ _ => True) fun _ _ => True := by
  intro s _
  split
  · exact True.intro
  · exact True.intro

theorem pure {a : α} (after : ∀ s, P s → Q a s) : Triple P (pure a : Effect ε σ α) Q E :=
  after

theorem throw (failing : ∀ s, P s → E e s) : Triple P (throw e : Effect ε σ α) Q E :=
  failing

variable {R : β → σ → Prop}

theorem bind {f : α → Effect ε σ β} (first : Triple P x Q E)
    (rest : ∀ a, Triple (Q a) (f a) R E) : Triple P (x >>= f) R E := by
  intro s start
  have reached := first s start
  change match ((ExceptT.bindCont f) (x.run s).1).run (x.run s).2 with
    | (.ok b, s') => R b s'
    | (.error e, s') => E e s'
  cases run : x.run s with
  | mk result s' =>
    rw [run] at reached
    cases result with
    | ok a => exact rest a s' reached
    | error e => exact reached

theorem after {f : α → Effect ε σ β} (first : Triple P x Q fun _ _ => False)
    (rest : ∀ a, Triple (Q a) (f a) R E) : Triple P (x >>= f) R E :=
  bind (first.orElse fun _ _ never => never.elim) rest

theorem get {Q : σ → σ → Prop} (after : ∀ s, P s → Q s s) : Triple P (get : Effect ε σ σ) Q E :=
  after

theorem seen {f : σ → Effect ε σ β} (rest : ∀ s, P s → Triple P (f s) R E) :
    Triple P (MonadState.get >>= f) R E :=
  fun s start => rest s start s start

theorem modify {f : σ → σ} {Q : Unit → σ → Prop} (after : ∀ s, P s → Q () (f s)) :
    Triple P (modify f : Effect ε σ Unit) Q E :=
  after

theorem lift {y : Except ε α} (after : ∀ a, y = .ok a → ∀ s, P s → Q a s)
    (failing : ∀ e, y = .error e → ∀ s, P s → E e s) : Triple P (liftM y : Effect ε σ α) Q E := by
  cases y with
  | ok a => exact after a rfl
  | error e => exact failing e rfl

theorem caught {h : ε → Effect ε σ α} (attempted : Triple P x Q F) (handled : ∀ e, Triple (F e) (h e) Q E) :
    Triple P (tryCatch x h) Q E := by
  intro s start
  have reached := attempted s start
  have unfolded : (tryCatch x h).run s = match x.run s with
      | (.ok a, s') => (.ok a, s')
      | (.error e, s') => (h e).run s' := by
    change (x.run >>= fun result => match result with
      | .ok a => fun s => (.ok a, s)
      | .error e => h e) s = _
    cases run : x.run s with
    | mk result s' =>
      simp only [Bind.bind, StateT.bind, run]
      cases result <;> rfl
  rw [unfolded]
  cases run : x.run s with
  | mk result s' =>
    rw [run] at reached
    cases result with
    | ok a => exact reached
    | error e => exact handled e s' reached

theorem ite [Decidable p] {y : Effect ε σ α} (yes : p → Triple P x Q E) (no : ¬ p → Triple P y Q E) :
    Triple P (if p then x else y) Q E := by
  split
  · next holds => exact yes holds
  · next fails => exact no fails

theorem require [Decidable p] {Q : Unit → σ → Prop} (after : ∀ s, P s → p → Q () s)
    (failing : ∀ s, P s → ¬ p → E e s) : Triple P (require p e) Q E :=
  ite (fun holds => pure fun s start => after s start holds) fun fails => throw fun s start => failing s start fails

theorem guarded [Decidable p] {f : Unit → Effect ε σ β}
    (failing : ∀ s, P s → ¬ p → E e s) (rest : p → Triple P (f ()) R E) : Triple P (Run.require p e >>= f) R E := by
  by_cases holds : p
  · exact bind (require (fun _ start _ => start) failing) fun _ => rest holds
  · exact bind (require (Q := fun _ _ => False) (fun _ _ holds' => holds holds') failing) fun _ _ none => none.elim

end Triple
end Run
