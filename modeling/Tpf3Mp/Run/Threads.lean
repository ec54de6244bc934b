import Mathlib.Logic.Function.Basic
import Mathlib.Logic.Relation
import Mathlib.Tactic.Common

/-!
Threads over one shared state. A program is a tree of atomic actions, and a system takes one action of any
of its threads at a time. A discipline states an invariant, what every action of a thread keeps to, and
which steps are considered: if each thread keeps to it whatever the others do within it, all that the
system reaches does.
-/

namespace Run

inductive Prog (σ α : Type) : Type 1 where
  | ret (a : α)
  | act {β : Type} (outcomes : σ → List (β × σ)) (next : β → Prog σ α)

namespace Prog

variable {ι σ α β ε : Type}

def bind : Prog σ α → (α → Prog σ β) → Prog σ β
  | ret a, f => f a
  | act outcomes next, f => act outcomes fun b => (next b).bind f

instance : Monad (Prog σ) where
  pure := ret
  bind := bind

def once (outcomes : σ → List (α × σ)) : Prog σ α := act outcomes ret

theorem lift_bind (x : Prog σ α) (f : α → ExceptT ε (Prog σ) β) :
    (ExceptT.lift x >>= f).run = x >>= fun a => (f a).run := by
  induction x with
  | ret a => rfl
  | act outcomes next ih => exact congrArg (act outcomes) (funext ih)

/-- Programs put together from parts of some kinds. -/
inductive Made (part : ∀ α : Type, Prog σ α → Prop) : ∀ {α : Type}, Prog σ α → Prop where
  | ret {α : Type} (a : α) : Made part (ret a)
  | part {α : Type} {x : Prog σ α} (known : part α x) : Made part x
  | bind {α β : Type} {x : Prog σ α} {f : α → Prog σ β} (first : Made part x) (rest : ∀ a, Made part (f a)) :
    Made part (x.bind f)

namespace Made

variable {part part' : ∀ α : Type, Prog σ α → Prop}

theorem next {x : Prog σ α} {f : α → Prog σ β} (first : Made part x) (rest : ∀ a, Made part (f a)) :
    Made part (x >>= f) := .bind first rest

theorem exceptBind {x : ExceptT ε (Prog σ) α} {f : α → ExceptT ε (Prog σ) β} (first : Made part x.run)
    (rest : ∀ a, Made part (f a).run) : Made part (x >>= f).run := by
  refine next first fun result => ?_
  cases result with
  | ok a => exact rest a
  | error e => exact .ret _

theorem lift {x : Prog σ α} (made : Made part x) : Made part (ExceptT.lift x : ExceptT ε (Prog σ) α).run :=
  next made fun _ => .ret _

theorem mono (finer : ∀ {α : Type} {x : Prog σ α}, part α x → part' α x) {x : Prog σ α} (made : Made part x) :
    Made part' x := by
  induction made with
  | ret a => exact .ret a
  | part known => exact .part (finer known)
  | bind _ _ first rest => exact .bind first rest

end Made

def Each (r : σ → σ → Prop) {α : Type} (x : Prog σ α) : Prop :=
  Made (fun _ x => ∃ outcomes, x = once outcomes ∧ ∀ s a s', (a, s') ∈ outcomes s → r s s') x

theorem Each.once {r : σ → σ → Prop} {outcomes : σ → List (α × σ)} (each : ∀ s a s', (a, s') ∈ outcomes s → r s s') :
    Each r (once outcomes) := .part ⟨outcomes, rfl, each⟩

theorem Each.one {r : σ → σ → Prop} {f : σ → α × σ} (kept : ∀ s, r s (f s).2) : Each r (Prog.once fun s => [f s]) := by
  refine once fun s a s' among => ?_
  have same : s' = (f s).2 := congrArg Prod.snd (List.mem_singleton.mp among)
  rw [same]
  exact kept s

end Prog

structure System (ι σ : Type) : Type 1 where
  state : σ
  threads : ι → Prog σ Unit

namespace System

variable {ι σ : Type} [DecidableEq ι]

def advance (sys : System ι σ) (i : ι) (outcome : Nat) : Option (System ι σ) :=
  match sys.threads i with
  | .ret _ => none
  | .act outcomes next =>
    (outcomes sys.state)[outcome]?.map fun (b, state) => ⟨state, Function.update sys.threads i (next b)⟩

/-- What the system reaches by steps that are all allowed. -/
inductive Reaches (allow : ι → σ → σ → Prop) (start : System ι σ) : System ι σ → Prop where
  | refl : Reaches allow start start
  | step {sys sys' : System ι σ} (i : ι) (outcome : Nat) (before : Reaches allow start sys)
    (next : sys.advance i outcome = some sys') (allowed : allow i sys.state sys'.state) : Reaches allow start sys'

def run (allow : ι → σ → σ → Prop) [∀ i s s', Decidable (allow i s s')] :
    List (ι × Nat) → System ι σ → Option (System ι σ)
  | [], sys => some sys
  | (i, outcome) :: schedule, sys => (sys.advance i outcome).bind fun next =>
    if allow i sys.state next.state then run allow schedule next else none

theorem run_reaches {allow : ι → σ → σ → Prop} [∀ i s s', Decidable (allow i s s')] {schedule : List (ι × Nat)}
    {start sys sys' : System ι σ} (before : Reaches allow start sys) (ran : run allow schedule sys = some sys') :
    Reaches allow start sys' := by
  induction schedule generalizing sys with
  | nil =>
    cases ran
    exact before
  | cons first schedule ih =>
    obtain ⟨middle, next, rest⟩ := Option.bind_eq_some_iff.mp ran
    split at rest
    · next allowed => exact ih (before.step first.1 first.2 next allowed) rest
    · cases rest

end System

theorem unchanged {σ : Type} {inv p : σ → Prop} : ∀ s, inv s → p s → p s := fun _ _ holds => holds

structure Discipline (ι σ : Type) where
  /-- Holds in every state between actions. -/
  inv : σ → Prop
  /-- What an action of a thread may do. -/
  guar : ι → σ → σ → Prop
  /-- The actions that are considered. -/
  allow : ι → σ → σ → Prop

namespace Discipline

variable {ι σ α β ε : Type} (d : Discipline ι σ) (i : ι)

def Meanwhile : σ → σ → Prop := Relation.ReflTransGen fun s s' => (∃ j, j ≠ i ∧ d.guar j s s') ∧ d.inv s'

/-- From this state the program keeps to the discipline, and ends as `post` states. -/
def Safe : Prog σ α → (α → σ → Prop) → σ → Prop
  | .ret a, post, s => ∀ s', d.Meanwhile i s s' → post a s'
  | .act outcomes next, post, s => ∀ s', d.Meanwhile i s s' → ∀ b s'', (b, s'') ∈ outcomes s' → d.allow i s' s'' →
    d.guar i s' s'' ∧ d.inv s'' ∧ Safe (next b) post s''

def Stable (p : σ → Prop) : Prop := ∀ j s s', j ≠ i → d.inv s → p s → d.guar j s s' → d.inv s' → p s'

/-- From every state in `p` the program keeps to the discipline, and ends in `q`. -/
def Spec (p : σ → Prop) (x : Prog σ α) (q : α → σ → Prop) : Prop := ∀ s, d.inv s → p s → d.Safe i x q s

variable {d i} {p p' : σ → Prop} {x : Prog σ α} {q q' : α → σ → Prop} {s s' : σ}

theorem Meanwhile.keeps_inv (later : d.Meanwhile i s s') (inv : d.inv s) : d.inv s' := by
  induction later with
  | refl => exact inv
  | tail _ step _ => exact step.2

theorem Stable.later (stable : d.Stable i p) (later : d.Meanwhile i s s') (inv : d.inv s) (holds : p s) : p s' := by
  induction later with
  | refl => exact holds
  | tail before step ih =>
    obtain ⟨⟨j, other, done⟩, inv'⟩ := step
    exact stable j _ _ other (Meanwhile.keeps_inv before inv) ih done inv'

theorem Stable.and (left : d.Stable i p) (right : d.Stable i p') : d.Stable i fun s => p s ∧ p' s :=
  fun j s s' other inv both done inv' =>
    ⟨left j s s' other inv both.1 done inv', right j s s' other inv both.2 done inv'⟩

theorem Stable.const (holds : Prop) : d.Stable i fun _ => holds := fun _ _ _ _ _ holds _ _ => holds

theorem Safe.later (safe : d.Safe i x q s) (later : d.Meanwhile i s s') : d.Safe i x q s' := by
  cases x with
  | ret a => exact fun s'' more => safe s'' (later.trans more)
  | act outcomes next => exact fun s'' more => safe s'' (later.trans more)

theorem Safe.weaken (safe : d.Safe i x q s) (inv : d.inv s) (after : ∀ a s, d.inv s → q a s → q' a s) :
    d.Safe i x q' s := by
  induction x generalizing s with
  | ret a => exact fun s' later => after a s' (Meanwhile.keeps_inv later inv) (safe s' later)
  | act outcomes next ih =>
    intro s' later b s'' among allowed
    obtain ⟨done, inv', rest⟩ := safe s' later b s'' among allowed
    exact ⟨done, inv', ih b rest inv'⟩

theorem Safe.bind {f : α → Prog σ β} {r : β → σ → Prop} (first : d.Safe i x q s) (inv : d.inv s)
    (rest : ∀ a, d.Spec i (q a) (f a) r) : d.Safe i (x >>= f) r s := by
  induction x generalizing s with
  | ret a => exact rest a s inv (first s .refl)
  | act outcomes next ih =>
    intro s' later b s'' among allowed
    obtain ⟨done, inv', after⟩ := first s' later b s'' among allowed
    exact ⟨done, inv', ih b after inv'⟩

namespace Spec

theorem weaken (spec : d.Spec i p x q) (before : ∀ s, d.inv s → p' s → p s) (after : ∀ a s, d.inv s → q a s → q' a s) :
    d.Spec i p' x q' :=
  fun s inv start => (spec s inv (before s inv start)).weaken inv after

theorem given (before : ∀ s, d.inv s → p' s → p s) (spec : d.Spec i p x q) : d.Spec i p' x q :=
  spec.weaken before fun _ _ _ after => after

theorem ret {a : α} (stable : d.Stable i p) (after : ∀ s, d.inv s → p s → q a s) : d.Spec i p (pure a : Prog σ α) q :=
  fun _ inv start s' later => after s' (later.keeps_inv inv) (stable.later later inv start)

theorem once {outcomes : σ → List (α × σ)} (stable : d.Stable i p) (stable' : ∀ a, d.Stable i (q a))
    (each : ∀ s, d.inv s → p s → ∀ a s', (a, s') ∈ outcomes s → d.allow i s s' →
      d.guar i s s' ∧ d.inv s' ∧ q a s') : d.Spec i p (Prog.once outcomes) q := by
  intro s inv start s' later a s'' among allowed
  obtain ⟨done, inv', after⟩ := each s' (later.keeps_inv inv) (stable.later later inv start) a s'' among allowed
  exact ⟨done, inv', fun s''' more => (stable' a).later more inv' after⟩

theorem bind {f : α → Prog σ β} {r : β → σ → Prop} (first : d.Spec i p x q) (rest : ∀ a, d.Spec i (q a) (f a) r) :
    d.Spec i p (x >>= f) r :=
  fun s inv start => (first s inv start).bind inv rest

theorem exceptBind {x : ExceptT ε (Prog σ) α} {f : α → ExceptT ε (Prog σ) β} {q : Except ε α → σ → Prop}
    {r : Except ε β → σ → Prop} (first : d.Spec i p x.run q) (rest : ∀ a, d.Spec i (q (.ok a)) (f a).run r)
    (failed : ∀ e, d.Spec i (q (.error e)) (pure (.error e)) r) : d.Spec i p (x >>= f).run r := by
  refine bind first fun result => ?_
  cases result with
  | ok a => exact rest a
  | error e => exact failed e

theorem liftBind {f : α → ExceptT ε (Prog σ) β} {r : Except ε β → σ → Prop} (first : d.Spec i p x q)
    (rest : ∀ a, d.Spec i (q a) (f a).run r) : d.Spec i p (ExceptT.lift x >>= f).run r := by
  rw [Prog.lift_bind]
  exact bind first rest

theorem and_intro {c : Prop} (spec : c → d.Spec i p x q) : d.Spec i (fun s => p s ∧ c) x q :=
  fun s inv start => spec start.2 s inv start.1

theorem made {part : ∀ α : Type, Prog σ α → Prop} (stable : d.Stable i p)
    (parts : ∀ {α : Type} {x : Prog σ α}, part α x → d.Spec i p x fun _ => p) (made : Prog.Made part x) :
    d.Spec i p x fun _ => p := by
  induction made with
  | ret a => exact ret stable unchanged
  | part known => exact parts known
  | bind _ _ first rest => exact bind first rest

theorem each {r : σ → σ → Prop} (stable : d.Stable i p)
    (step : ∀ s s', d.inv s → p s → r s s' → d.allow i s s' → d.guar i s s' ∧ d.inv s' ∧ p s') (each : Prog.Each r x) :
    d.Spec i p x fun _ => p := by
  refine .made stable ?_ each
  rintro _ _ ⟨outcomes, rfl, kept⟩
  exact .once stable (fun _ => stable) fun s inv start a s' among allowed =>
    step s s' inv start (kept s a s' among) allowed

end Spec

variable [DecidableEq ι] {sys start : System ι σ}

theorem advance_safe {sys' : System ι σ} {outcome : Nat}
    (safe : ∀ j, d.Safe j (sys.threads j) (fun _ _ => True) sys.state) (next : sys.advance i outcome = some sys')
    (allowed : d.allow i sys.state sys'.state) : d.guar i sys.state sys'.state ∧ d.inv sys'.state ∧
      ∀ j, d.Safe j (sys'.threads j) (fun _ _ => True) sys'.state := by
  have mine := safe i
  unfold System.advance at next
  cases here : sys.threads i with
  | ret a =>
    rw [here] at next
    cases next
  | act outcomes rest =>
    rw [here] at next mine
    obtain ⟨⟨b, state⟩, taken, rfl⟩ := Option.map_eq_some_iff.mp next
    obtain ⟨done, inv', after⟩ := mine sys.state .refl b state (List.mem_of_getElem? taken) allowed
    refine ⟨done, inv', ?_⟩
    intro j
    dsimp only
    by_cases same : j = i
    · subst same
      rw [Function.update_self]
      exact after
    · rw [Function.update_of_ne same]
      exact (safe j).later (.single ⟨⟨i, Ne.symm same, done⟩, inv'⟩)

theorem reaches_safe {sys : System ι σ} (inv : d.inv start.state)
    (safe : ∀ j, d.Safe j (start.threads j) (fun _ _ => True) start.state)
    (reaches : System.Reaches d.allow start sys) :
    d.inv sys.state ∧ ∀ j, d.Safe j (sys.threads j) (fun _ _ => True) sys.state := by
  induction reaches with
  | refl => exact ⟨inv, safe⟩
  | step i outcome _ next allowed ih => exact (advance_safe ih.2 next allowed).2

end Discipline

end Run
