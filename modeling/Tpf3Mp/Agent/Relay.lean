import Tpf3Mp.Agent.Actions
import Tpf3Mp.Agent.Outbox

/-!
Between the follower and the game stand the outbox and the hook's gate. Whatever the pace of the
pump and of the hook, what the hook has done, what is on its way to it and what the follower still
holds make up the follower's plan.
-/

namespace Tpf3Mp.Agent
open Proto Tpf3Mp.Bridge List
open Server (Instant)

def executes (before through : Nat) : List Action :=
  (range' (before + 1) (through - before)).map .execute

@[simp] theorem executes_self (step : Nat) : executes step step = [] := by
  simp [executes]

variable {before through released : Nat}

theorem executes_past (past : through ≤ before) : executes before through = [] := by
  simp [executes, Nat.sub_eq_zero_of_le past]

theorem executes_cons (more : before < through) :
    executes before through = .execute (before + 1) :: executes (before + 1) through := by
  obtain ⟨count, rfl⟩ : ∃ count, through = before + (count + 1) := ⟨through - before - 1, by omega⟩
  have rest : before + (count + 1) - (before + 1) = count := by omega
  simp [executes, range'_succ, rest]

theorem executes_append {middle : Nat} (first : before ≤ middle) (second : middle ≤ through) :
    executes before through = executes before middle ++ executes middle through := by
  obtain ⟨count, rfl⟩ := Nat.exists_eq_add_of_le first
  obtain ⟨more, rfl⟩ := Nat.exists_eq_add_of_le second
  have whole : before + count + more - before = count + more := by omega
  have start : before + 1 + count = before + count + 1 := by omega
  simp only [executes, whole, Nat.add_sub_cancel_left, ← map_append, ← range'_append_1, start]

theorem executes_succ (step : Nat) : executes step (step + 1) = [.execute (step + 1)] := by
  rw [executes_cons (Nat.lt_succ_self step), executes_self]

/-- How far the messages release the game, which was released through `released`. -/
def level (released : Nat) : List ToHook → Nat
  | [] => released
  | .release through :: messages => level through messages
  | _ :: messages => level released messages

def carried (released : Nat) : List ToHook → List Action
  | [] => []
  | .apply event :: messages => .apply event :: carried released messages
  | .release through :: messages => executes released through ++ carried through messages
  | _ :: messages => carried released messages

def Telling : ToHook → Prop
  | .speed _ | .diverged .. | .refused .. | .chat .. => True
  | _ => False

/-- Messages in the order the gate requires: each event is for the step after the last release. -/
def WellFed (released : Nat) : List ToHook → Prop
  | [] => True
  | .apply event :: messages => event.step = released + 1 ∧ WellFed released messages
  | .release through :: messages => released ≤ through ∧ WellFed through messages
  | message :: messages => Telling message ∧ WellFed released messages

theorem level_append (released : Nat) (before after : List ToHook) :
    level released (before ++ after) = level (level released before) after := by
  induction before generalizing released with
  | nil => rfl
  | cons message before ih => cases message <;> exact ih _

theorem carried_append (released : Nat) (before after : List ToHook) :
    carried released (before ++ after) = carried released before ++ carried (level released before) after := by
  induction before generalizing released with
  | nil => rfl
  | cons message before ih => cases message <;> simp [carried, level, ih]

theorem wellFed_append {before after : List ToHook} :
    WellFed released (before ++ after) ↔ WellFed released before ∧ WellFed (level released before) after := by
  induction before generalizing released with
  | nil => simp [WellFed, level]
  | cons message before ih => cases message <;> simp [WellFed, level, ih, and_assoc]

theorem WellFed.le_level {messages : List ToHook} (fed : WellFed released messages) :
    released ≤ level released messages := by
  induction messages generalizing released with
  | nil => exact le_rfl
  | cons message messages ih =>
    cases message with
    | release through => exact le_trans fed.1 (ih fed.2)
    | _ => exact ih fed.2

variable {g : TurnFollower}

namespace TurnFollower

theorem nextStep_some {f : TurnFollower} {step : Nat} (next : f.nextStep = some step) :
    f.nextAction = (some (.execute step), { f with executed := step }) := by
  unfold nextStep at next
  unfold nextAction
  cases queue : f.queue with
  | nil =>
    simp only [queue, head?_nil, Option.any_none, Bool.not_false, Bool.true_and, decide_eq_true_eq,
      Option.ite_none_right_eq_some, Option.some.injEq] at next
    obtain ⟨sealed, rfl⟩ := next
    simp only [if_pos sealed]
  | cons event rest =>
    simp only [queue, head?_cons, Option.any_some, Bool.and_eq_true, Bool.not_eq_true',
      beq_eq_false_iff_ne, decide_eq_true_eq, Option.ite_none_right_eq_some, Option.some.injEq] at next
    obtain ⟨⟨other, sealed⟩, rfl⟩ := next
    simp only [if_neg other, if_pos sealed]

theorem nextAction_step {f : TurnFollower} {action : Action} (ordered : f.Ordered)
    (called : f.nextAction = (some action, g)) :
    (∃ event, action = .apply event ∧ event.step = f.executed + 1 ∧ g.executed = f.executed) ∨
    (action = .execute (f.executed + 1) ∧ g.executed = f.executed + 1) := by
  have upcoming := upcoming_eq ordered
  unfold nextAction at called
  rw [upcoming] at called
  dsimp only at called
  split at called
  · next event rest queue =>
    split at called
    · next due =>
      cases called
      exact .inl ⟨event, rfl, due, rfl⟩
    split at called
    · cases called
      exact .inr ⟨rfl, rfl⟩
    · cases called
  · split at called
    · cases called
      exact .inr ⟨rfl, rfl⟩
    · cases called

end TurnFollower

theorem Outbox.release_messages (o : Outbox) (released : Option Nat) :
    (o.release released).messages = o.messages ++ (released.map ToHook.release).toList := by
  cases released <;> simp [Outbox.release, Outbox.pushBack]

variable {pause : Pause} {fuel : Nat}

namespace Pumping

def messages (p : Pumping) : List ToHook := (p.out.release p.released).messages

/-- The pump in the middle of its loop, for a game released through `released`. -/
structure Flowing (released : Nat) (p : Pumping) : Prop where
  ordered : p.follower.Ordered
  fed : WellFed released p.out.messages
  held : ∀ through ∈ p.released, level released p.out.messages ≤ through
  reached : level released p.messages = p.follower.executed

/-- What a pump hands over is what the follower no longer holds. -/
structure Hands (released : Nat) (p q : Pumping) : Prop where
  flowing : q.Flowing released
  frontier : q.follower.sealedThrough = p.follower.sealedThrough
  handed : carried released q.messages ++ q.follower.remaining = carried released p.messages ++ p.follower.remaining

variable {released : Nat} {p : Pumping} {now : Instant} {q : Pumping}

section
variable (flowing : p.Flowing released)
include flowing

theorem Flowing.wellFed : WellFed released p.messages := by
  rw [messages, Outbox.release_messages, wellFed_append]
  refine ⟨flowing.fed, ?_⟩
  cases held : p.released with
  | none => trivial
  | some through => exact ⟨flowing.held through held, trivial⟩

theorem Flowing.executed (playout : Playout)
    (called : p.follower.nextAction = (some (.execute (p.follower.executed + 1)), g)) :
    Hands released p { p with follower := g, playout, released := some (p.follower.executed + 1) } := by
  rcases p.follower.nextAction_cases flowing.ordered with ⟨action, next, again, ordered, head, frontier, _⟩ | ⟨again, _⟩
  · obtain ⟨rfl, rfl⟩ : action = .execute (p.follower.executed + 1) ∧ next = g := by
      simpa [called, eq_comm] using again
    have moved : next.executed = p.follower.executed + 1 := by
      rcases TurnFollower.nextAction_step flowing.ordered called with ⟨event, other, _⟩ | ⟨_, moved⟩
      · cases other
      · exact moved
    have reached := flowing.reached
    rw [messages, Outbox.release_messages, level_append] at reached
    -- What was held back so far ends at the step executed last.
    have below : level released p.out.messages ≤ p.follower.executed := by
      cases held : p.released with
      | none => simp [held, level] at reached; omega
      | some through =>
        have bound := flowing.held through held
        simp [held, level] at reached
        omega
    have upTo : carried released p.messages =
        carried released p.out.messages ++ executes (level released p.out.messages) p.follower.executed := by
      rw [messages, Outbox.release_messages, carried_append]
      cases held : p.released with
      | none =>
        simp [held, level] at reached
        simp [carried, reached]
      | some through =>
        simp [held, level] at reached
        simp [carried, reached]
    refine ⟨⟨ordered, flowing.fed, ?_, ?_⟩, frontier, ?_⟩
    · rintro through ⟨⟩
      exact Nat.le_succ_of_le below
    · simp [messages, Outbox.release_messages, level_append, level, moved]
    · rw [upTo, head, messages, Outbox.release_messages, carried_append]
      simp [carried, executes_append below (Nat.le_succ _), executes_succ]
  · simp [called] at again

theorem Flowing.applied {event : Event}
    (called : p.follower.nextAction = (some (.apply event), g)) : Hands released p
      { p with follower := g, out := (p.out.release p.released).pushBack (.apply event), released := none } := by
  rcases p.follower.nextAction_cases flowing.ordered with ⟨action, next, again, ordered, head, frontier, _⟩ | ⟨again, _⟩
  · obtain ⟨rfl, rfl⟩ : action = .apply event ∧ next = g := by simpa [called, eq_comm] using again
    obtain ⟨due, still⟩ : event.step = p.follower.executed + 1 ∧ next.executed = p.follower.executed := by
      rcases TurnFollower.nextAction_step flowing.ordered called with ⟨other, same, due, still⟩ | ⟨other, _⟩
      · cases same
        exact ⟨due, still⟩
      · cases other
    have reached := flowing.reached
    have fed := flowing.wellFed
    unfold messages at reached fed
    refine ⟨⟨ordered, ?_, by simp, ?_⟩, frontier, ?_⟩
    · exact wellFed_append.mpr ⟨fed, by rw [reached]; exact due, trivial⟩
    · show level released ((p.out.release p.released).messages ++ [.apply event]) = next.executed
      rw [level_append, reached, still]
      rfl
    show carried released ((p.out.release p.released).messages ++ [.apply event]) ++ next.remaining =
      carried released (p.out.release p.released).messages ++ p.follower.remaining
    rw [carried_append, head]
    simp [carried]
  · simp [called] at again

theorem Flowing.turn (turned : p.turn now = .ok q) :
    Hands released p q ∧ q.follower.remaining.length < p.follower.remaining.length := by
  have shorter : ∀ {action : Option Action}, p.follower.nextAction = (action, q.follower) → action ≠ none →
      q.follower.remaining.length < p.follower.remaining.length := by
    intro action called some
    rcases p.follower.nextAction_cases flowing.ordered with ⟨first, next, again, _, head, _⟩ | ⟨again, _⟩
    · obtain ⟨_, rfl⟩ := Prod.mk.inj (called.symm.trans again)
      rw [head]
      exact Nat.lt_succ_self _
    · exact absurd (Prod.mk.inj (called.symm.trans again)).1 some
  have next {step : Nat} {follower : TurnFollower}
      (called : p.follower.nextAction = (some (.execute step), follower)) : step = p.follower.executed + 1 := by
    rcases TurnFollower.nextAction_step flowing.ordered called with ⟨event, other, _⟩ | ⟨same, _⟩
    · cases other
    · cases same
      rfl
  unfold Pumping.turn at turned
  split at turned
  · cases turned
  split at turned
  · next step due =>
    have called := TurnFollower.nextStep_some due
    dsimp only at turned
    split at turned
    · cases turned
    obtain rfl := next called
    rw [called] at turned
    cases turned
    exact ⟨flowing.executed _ called, shorter called (by simp)⟩
  · split at turned
    · next event follower called =>
      cases turned
      exact ⟨flowing.applied called, shorter called (by simp)⟩
    · next step follower called =>
      obtain rfl := next called
      cases turned
      exact ⟨flowing.executed _ called, shorter called (by simp)⟩
    · cases turned

end

theorem Hands.trans {r : Pumping} (first : Hands released p q) (second : Hands released q r) : Hands released p r :=
  ⟨second.flowing, second.frontier.trans first.frontier, second.handed.trans first.handed⟩

def Left (now : Instant) (p : Pumping) : Pause → Prop
  | .full => p.out.isFull
  | .notDue due => now < due ∧ ∃ step rest, p.follower.remaining = .execute step :: rest ∧
      (p.playout.due step now).getD now = due
  | .drained => p.follower.remaining = []

section
variable (flowing : p.Flowing released)
include flowing

theorem Flowing.left (stopped : p.turn now = .error pause) : p.Left now pause := by
  unfold Pumping.turn at stopped
  split at stopped
  · next full =>
    cases stopped
    exact full
  split at stopped
  · next step next =>
    dsimp only at stopped
    split at stopped
    · next late =>
      cases stopped
      have called := TurnFollower.nextStep_some next
      rcases p.follower.nextAction_cases flowing.ordered with ⟨action, g, again, _, head, _⟩ | ⟨again, _⟩
      · obtain ⟨same, _⟩ := Prod.mk.inj (called.symm.trans again)
        cases same
        exact ⟨late, step, _, head, rfl⟩
      · simp [called] at again
    · cases stopped
  · split at stopped
    · cases stopped
    · cases stopped
    · next follower called =>
      cases stopped
      exact (TurnFollower.finished_empty flowing.ordered (by rw [called])).2

theorem Flowing.loop (looped : Pumping.loop now fuel p = some (pause, q)) :
    Hands released p q ∧ q.Left now pause := by
  induction fuel generalizing p with
  | zero => cases looped
  | succ fuel ih =>
    unfold Pumping.loop at looped
    split at looped
    · next stopped =>
      cases looped
      exact ⟨⟨flowing, rfl, rfl⟩, flowing.left stopped⟩
    rename_i next turned
    have hands := (flowing.turn turned).1
    obtain ⟨rest, left⟩ := ih hands.flowing looped
    exact ⟨hands.trans rest, left⟩

theorem Flowing.ends (enough : p.follower.remaining.length < fuel) :
    ∃ pause q, Pumping.loop now fuel p = some (pause, q) := by
  induction fuel generalizing p with
  | zero => cases enough
  | succ fuel ih =>
    unfold Pumping.loop
    cases turned : p.turn now with
    | error pause => exact ⟨pause, p, rfl⟩
    | ok next =>
      obtain ⟨hands, shorter⟩ := flowing.turn turned
      exact ih hands.flowing (by omega)

end

end Pumping

variable {follower : TurnFollower}

theorem pump_hands {now : Instant} {follower' : TurnFollower} {playout playout' : Playout}
    {out out' : Outbox} (ordered : follower.Ordered) (fed : WellFed released out.messages)
    (reached : level released out.messages = follower.executed)
    (pumped : pump fuel follower playout now out = some (pause, follower', playout', out')) :
    follower'.Ordered ∧ follower'.sealedThrough = follower.sealedThrough ∧ WellFed released out'.messages ∧
    level released out'.messages = follower'.executed ∧
    carried released out'.messages ++ follower'.remaining = carried released out.messages ++ follower.remaining ∧
    (pause ≠ .full → follower'.remaining = [] ∨ ∃ due step rest, pause = .notDue due ∧ now < due ∧
      follower'.remaining = .execute step :: rest ∧ (playout'.due step now).getD now = due) := by
  obtain ⟨⟨stop, p⟩, looped, same⟩ := Option.map_eq_some_iff.mp pumped
  cases same
  have flowing : Pumping.Flowing released { follower, playout, out, released := none } :=
    ⟨ordered, fed, by simp, reached⟩
  obtain ⟨hands, left⟩ := flowing.loop looped
  refine ⟨hands.flowing.ordered, hands.frontier, hands.flowing.wellFed, hands.flowing.reached, hands.handed, ?_⟩
  intro space
  cases pause with
  | full => exact absurd rfl space
  | drained => exact .inl left
  | notDue due =>
    obtain ⟨late, step, rest, head, same⟩ := left
    exact .inr ⟨due, step, rest, rfl, late, head, same⟩

def actionsOf : Gated → List Action
  | .apply event => [.apply event]
  | _ => []

structure Relay where
  follower : TurnFollower
  outbox : Outbox
  gate : Gate
  done : List Action

namespace Relay

def begun (start : TurnStart) : Relay where
  follower := .new start
  outbox := .empty
  gate := (Gate.new 1).loaded (start.sealedThrough + 1)
  done := []

/-- The hook reads only while it may not run a step. -/
inductive Step (pumping : Bool) (r : Relay) : List Turn → Relay → Prop where
  | accepted {turn : Turn} {follower : TurnFollower} (took : r.follower.accept turn = .ok follower) :
    Step pumping r [turn] { r with follower }
  | pumped {fuel : Nat} {playout playout' : Playout} {now : Instant} {pause : Pause} {follower : TurnFollower}
    {out : Outbox} (on : pumping = true)
    (ran : pump fuel r.follower playout now r.outbox = some (pause, follower, playout', out)) :
    Step pumping r [] { r with follower, outbox := out }
  | told {message : ToHook} (telling : Telling message) :
    Step pumping r [] { r with outbox := r.outbox.pushBack message }
  | read {message : ToHook} {out : Outbox} {gated : Gated} {gate : Gate} (waits : r.gate.mayRun = false)
    (front : r.outbox.popFront = some (message, out)) (handled : r.gate.onMessage message = .ok (gated, gate)) :
    Step pumping r [] { r with outbox := out, gate, done := r.done ++ actionsOf gated }
  | ran {step : Nat} {gate : Gate} (may : r.gate.mayRun = true) (stepped : r.gate.ran = .ok (step, gate)) :
    Step pumping r [] { r with gate, done := r.done ++ [.execute step] }

/-- A run from `first`, with the turns the follower accepted on the way. -/
inductive Runs (pumping : Bool) (first : Relay) : List Turn → Relay → Prop where
  | start : Runs pumping first [] first
  | step {turns more : List Turn} {r s : Relay} (before : Runs pumping first turns r) (moved : Step pumping r more s) :
    Runs pumping first (turns ++ more) s

/-- What is on its way: the steps released and not run, and what the messages carry. -/
def inFlight (r : Relay) : List Action :=
  executes (r.gate.nextStep - 1) r.gate.released ++ carried r.gate.released r.outbox.messages

/-- The hook's end: an open gate before messages in its order. -/
structure Attached (r : Relay) : Prop where
  awake : r.gate.ended = false
  loaded : r.gate.loading = false
  first : 0 < r.gate.nextStep
  near : r.gate.nextStep ≤ r.gate.released + 1
  fed : WellFed r.gate.released r.outbox.messages

variable {r : Relay} {turns : List Turn} {start : TurnStart} {message : ToHook} {out : Outbox} {gate : Gate}
  {s : Relay}

theorem mayRun_iff (attached : r.Attached) : r.gate.mayRun = true ↔ r.gate.nextStep ≤ r.gate.released := by
  simp [Gate.mayRun, attached.awake, attached.loaded]

theorem popFront_some {o : Outbox} (front : o.popFront = some (message, out)) :
    o.messages = message :: out.messages := by
  unfold Outbox.popFront at front
  split at front
  · cases front
  · next messages =>
    cases front
    exact messages

theorem Attached.takes (attached : r.Attached) (waits : r.gate.mayRun = false)
    (front : r.outbox.popFront = some (message, out)) : ∃ gated gate, r.gate.onMessage message = .ok (gated, gate) ∧
      Attached { r with outbox := out, gate, done := r.done ++ actionsOf gated } ∧
      actionsOf gated ++ inFlight { r with outbox := out, gate, done := r.done ++ actionsOf gated } = r.inFlight := by
  have stopped : ¬ r.gate.nextStep ≤ r.gate.released := by
    rw [← mayRun_iff attached]
    simp [waits]
  have near := attached.near
  have queue := popFront_some front
  have fed := attached.fed
  rw [queue] at fed
  have closed : executes (r.gate.nextStep - 1) r.gate.released = [] := executes_past (by omega)
  unfold inFlight
  rw [closed, queue]
  cases message with
  | apply event =>
    obtain ⟨due, fed⟩ := fed
    refine ⟨.apply event, r.gate, ?_, ⟨attached.awake, attached.loaded, attached.first, near, fed⟩, ?_⟩
    · simp [Gate.onMessage, attached.loaded, show event.step = r.gate.nextStep by omega, stopped]
    · simp [actionsOf, carried, closed]
  | release through =>
    obtain ⟨forward, fed⟩ := fed
    refine ⟨.nothing, { r.gate with released := through }, ?_,
      ⟨attached.awake, attached.loaded, attached.first, by dsimp only; omega, fed⟩, ?_⟩
    · simp [Gate.onMessage, attached.loaded, not_lt.mpr forward]
    · simp [actionsOf, carried, show r.gate.nextStep - 1 = r.gate.released by omega]
  | speed speed =>
    exact ⟨.speed speed, r.gate, by simp [Gate.onMessage, attached.loaded],
      ⟨attached.awake, attached.loaded, attached.first, near, fed.2⟩, by simp [actionsOf, carried, closed]⟩
  | diverged step lanes =>
    exact ⟨.diverged step lanes, r.gate, by simp [Gate.onMessage, attached.loaded],
      ⟨attached.awake, attached.loaded, attached.first, near, fed.2⟩, by simp [actionsOf, carried, closed]⟩
  | refused command reason =>
    exact ⟨.refused command reason, r.gate, by simp [Gate.onMessage, attached.loaded],
      ⟨attached.awake, attached.loaded, attached.first, near, fed.2⟩, by simp [actionsOf, carried, closed]⟩
  | chat sender text =>
    exact ⟨.chat sender text, r.gate, by simp [Gate.onMessage, attached.loaded],
      ⟨attached.awake, attached.loaded, attached.first, near, fed.2⟩, by simp [actionsOf, carried, closed]⟩
  | hello version => exact absurd fed.1 not_false
  | «begin» rules rate interval saves => exact absurd fed.1 not_false
  | «end» reason => exact absurd fed.1 not_false
  | load file nextStep => exact absurd fed.1 not_false

theorem onMessage_level {gate' : Gate} {messages : List ToHook} {gated : Gated}
    (loaded : gate.loading = false) (handled : gate.onMessage message = .ok (gated, gate')) :
    level gate.released (message :: messages) = level gate'.released messages := by
  unfold Gate.onMessage at handled
  cases message <;> simp at handled
  all_goals grind [level]

theorem ran_ok {gate' : Gate} {step : Nat} (stepped : gate.ran = .ok (step, gate')) :
    step = gate.nextStep ∧ gate' = { gate with nextStep := gate.nextStep + 1 } := by
  unfold Gate.ran at stepped
  split at stepped
  · cases stepped
    exact ⟨rfl, rfl⟩
  · cases stepped

theorem Attached.runs_step (attached : r.Attached) (may : r.gate.mayRun = true) {step : Nat}
    (stepped : r.gate.ran = .ok (step, gate)) : Attached { r with gate, done := r.done ++ [.execute step] } ∧
      .execute step :: inFlight { r with gate, done := r.done ++ [.execute step] } = r.inFlight := by
  obtain ⟨rfl, rfl⟩ := ran_ok stepped
  have released := (mayRun_iff attached).mp may
  have first := attached.first
  refine ⟨⟨attached.awake, attached.loaded, Nat.succ_pos _, Nat.succ_le_succ released, attached.fed⟩, ?_⟩
  have head := executes_cons (show r.gate.nextStep - 1 < r.gate.released by omega)
  rw [Nat.sub_add_cancel first] at head
  simp [inFlight, head]

theorem told_carried {released : Nat} {messages : List ToHook} (telling : Telling message)
    (fed : WellFed released messages) : WellFed released (messages ++ [message]) ∧
      carried released (messages ++ [message]) = carried released messages ∧
      level released (messages ++ [message]) = level released messages := by
  rw [wellFed_append, carried_append, level_append]
  cases message with
  | apply event => exact absurd telling not_false
  | release through => exact absurd telling not_false
  | _ => exact ⟨⟨fed, telling, trivial⟩, append_nil _, rfl⟩

theorem Attached.step (attached : r.Attached) (moved : Step false r turns s) :
    s.Attached ∧ s.done ++ s.inFlight = r.done ++ r.inFlight := by
  cases moved with
  | accepted took => exact ⟨⟨attached.awake, attached.loaded, attached.first, attached.near, attached.fed⟩, rfl⟩
  | pumped on => cases on
  | told telling =>
    obtain ⟨fed, same, _⟩ := told_carried telling attached.fed
    refine ⟨⟨attached.awake, attached.loaded, attached.first, attached.near, fed⟩, ?_⟩
    simp only [inFlight, Outbox.pushBack, same]
  | read waits front handled =>
    obtain ⟨gated, gate, taken, after, same⟩ := attached.takes waits front
    cases handled.symm.trans taken
    exact ⟨after, by rw [← same, ← append_assoc]⟩
  | ran may stepped =>
    obtain ⟨after, same⟩ := attached.runs_step may stepped
    exact ⟨after, by rw [← same, append_assoc]; rfl⟩

theorem Attached.runs (attached : r.Attached) (ran : Runs false r turns s) :
    s.Attached ∧ s.done ++ s.inFlight = r.done ++ r.inFlight := by
  induction ran with
  | start => exact ⟨attached, rfl⟩
  | step before moved ih =>
    obtain ⟨after, same⟩ := ih.1.step moved
    exact ⟨after, same.trans ih.2⟩

/-- The whole relay: what is done, on its way and still held is the plan of every turn accepted. -/
structure Coupled (start : TurnStart) (turns : List Turn) (r : Relay) : Prop extends Attached r where
  ordered : r.follower.Ordered
  frontier : r.follower.sealedThrough = lastFrontier start.sealedThrough turns
  forward : start.sealedThrough ≤ r.follower.sealedThrough
  past : ∀ event ∈ turns.flatMap Turn.events, event.step ≤ r.follower.sealedThrough + 1
  reached : level r.gate.released r.outbox.messages = r.follower.executed
  planned : r.done ++ (r.inFlight ++ r.follower.remaining) =
    plan (turns.flatMap Turn.events) start.sealedThrough r.follower.sealedThrough

theorem begun_coupled (room : start.sealedThrough < u64Max) : Coupled start [] (begun start) where
  awake := rfl
  loaded := rfl
  first := Nat.succ_pos _
  near := by simp [begun, Gate.loaded]
  fed := trivial
  ordered := TurnFollower.new_ordered room
  frontier := rfl
  forward := le_rfl
  past := by simp
  reached := by simp [begun, Outbox.empty, level, Gate.loaded, TurnFollower.new]
  planned := by
    simp [begun, inFlight, Gate.loaded, Outbox.empty, carried, TurnFollower.remaining, TurnFollower.new, plan_nil]

section
variable (coupled : Coupled start turns r)
include coupled

theorem Coupled.accepted {turn : Turn} (took : r.follower.accept turn = .ok follower)
    (room : turn.sealedThrough < u64Max) : Coupled start (turns ++ [turn]) { r with follower } := by
  obtain ⟨continues, rfl⟩ := TurnFollower.accept_ok took
  have onward := continues.forward
  have events : (turns ++ [turn]).flatMap Turn.events = turns.flatMap Turn.events ++ turn.events := by simp
  refine ⟨⟨coupled.awake, coupled.loaded, coupled.first, coupled.near, coupled.fed⟩,
    TurnFollower.taken_ordered coupled.ordered continues room, ?_,
    le_trans coupled.forward onward, ?_, coupled.reached, ?_⟩
  · rw [lastFrontier_append]
    rfl
  · intro event member
    rw [events] at member
    dsimp only [TurnFollower.taken]
    rcases mem_append.mp member with old | fresh
    · have := coupled.past event old
      omega
    · have := continues.steps event fresh
      omega
  · -- The plan grows at its end by what the turn brings.
    rw [events, TurnFollower.taken_remaining coupled.ordered continues, ← append_assoc, ← append_assoc,
      append_assoc r.done]
    apply (congrArg (· ++ _) coupled.planned).trans
    exact (plan_append coupled.past continues.steps coupled.forward onward).symm

theorem Coupled.pumped {playout playout' : Playout} {now : Instant} 
   
    (ran : pump fuel r.follower playout now r.outbox = some (pause, follower, playout', out)) :
    Coupled start turns { r with follower, outbox := out } := by
  obtain ⟨ordered, frontier, fed, reached, handed, _⟩ := pump_hands coupled.ordered coupled.fed coupled.reached ran
  refine ⟨⟨coupled.awake, coupled.loaded, coupled.first, coupled.near, fed⟩, ordered,
    frontier.trans coupled.frontier, by rw [frontier]; exact coupled.forward, by rw [frontier]; exact coupled.past,
    reached, ?_⟩
  have same := coupled.planned
  rw [frontier]
  unfold inFlight at same ⊢
  rw [append_assoc] at same ⊢
  rwa [handed]

theorem Coupled.step {more : List Turn} (room : ∀ turn ∈ more, turn.sealedThrough < u64Max)
    (moved : Step true r more s) : Coupled start (turns ++ more) s := by
  have kept : ∀ {s : Relay}, s.Attached → s.done ++ s.inFlight = r.done ++ r.inFlight → s.follower = r.follower →
      level s.gate.released s.outbox.messages = level r.gate.released r.outbox.messages → Coupled start turns s := by
    intro s attached same follower reached
    refine ⟨attached, follower ▸ coupled.ordered, follower ▸ coupled.frontier, follower ▸ coupled.forward,
      follower ▸ coupled.past, by rw [reached, follower]; exact coupled.reached, ?_⟩
    rw [← append_assoc, same, follower, append_assoc]
    exact coupled.planned
  cases moved with
  | accepted took => exact coupled.accepted took (room _ (mem_singleton.mpr rfl))
  | pumped _ ran =>
    rw [append_nil]
    exact coupled.pumped ran
  | told telling =>
    rw [append_nil]
    obtain ⟨attached, same⟩ := coupled.toAttached.step (.told telling)
    exact kept attached same rfl (told_carried telling coupled.fed).2.2
  | read waits front handled =>
    rw [append_nil]
    obtain ⟨attached, same⟩ := coupled.toAttached.step (.read waits front handled)
    apply kept attached same rfl
    rw [popFront_some front]
    exact (onMessage_level coupled.loaded handled).symm
  | ran may stepped =>
    rw [append_nil]
    obtain ⟨attached, same⟩ := coupled.toAttached.step (.ran may stepped)
    apply kept attached same rfl
    rw [(ran_ok stepped).2]

end

theorem Coupled.runs (room : start.sealedThrough < u64Max)
    (rooms : ∀ turn ∈ turns, turn.sealedThrough < u64Max) (ran : Runs true (begun start) turns r) :
    Coupled start turns r := by
  induction ran with
  | start => exact begun_coupled room
  | step before moved ih =>
    have earlier := ih (fun turn member => rooms turn (mem_append_left _ member))
    exact earlier.step (fun turn member => rooms turn (mem_append_right _ member)) moved

theorem Attached.idle (attached : r.Attached) (read : r.outbox.messages = []) (waits : r.gate.mayRun = false) :
    r.inFlight = [] := by
  have stopped : ¬ r.gate.nextStep ≤ r.gate.released := by
    rw [← mayRun_iff attached]
    simp [waits]
  rw [inFlight, read, executes_past (by omega)]
  rfl

/-- However the pump and the hook are scheduled, the gate takes every message, the game does the
follower's actions in their order, and after a pump that did not stop at a full outbox it gets as far
as the first step that was not due. -/
theorem hook_keeps_order {start : TurnStart} {turns : List Turn} {r : Relay} (room : start.sealedThrough < u64Max)
    (rooms : ∀ turn ∈ turns, turn.sealedThrough < u64Max) (ran : Runs true (begun start) turns r) :
    let planned := plan (turns.flatMap Turn.events) start.sealedThrough (lastFrontier start.sealedThrough turns)
    (r.gate.mayRun = false → ∀ message out, r.outbox.popFront = some (message, out) →
      ∃ gated gate, r.gate.onMessage message = .ok (gated, gate)) ∧
    (r.gate.mayRun = true → ∃ gate, r.gate.ran = .ok (r.gate.nextStep, gate)) ∧
    r.done <+: planned ∧
    (∀ playout now, ∃ fuel result, pump fuel r.follower playout now r.outbox = some result) ∧
    (∀ fuel playout playout' now pause follower out more s,
      pump fuel r.follower playout now r.outbox = some (pause, follower, playout', out) → pause ≠ .full →
      Runs false { r with follower, outbox := out } more s → s.outbox.messages = [] → s.gate.mayRun = false →
      ∃ left, s.done ++ left = planned ∧ (left = [] ∨ ∃ due step rest, pause = .notDue due ∧ now < due ∧
        left = .execute step :: rest ∧ (playout'.due step now).getD now = due)) := by
  intro planned
  have coupled := Coupled.runs room rooms ran
  have whole := coupled.planned
  rw [coupled.frontier] at whole
  refine ⟨?_, ?_, ⟨_, whole⟩, ?_, ?_⟩
  · intro waits message out front
    obtain ⟨gated, gate, taken, _⟩ := coupled.toAttached.takes waits front
    exact ⟨gated, gate, taken⟩
  · intro may
    -- Nothing past the frontier is ever released.
    have released := (mayRun_iff coupled.toAttached).mp may
    have below := coupled.fed.le_level
    rw [coupled.reached] at below
    have reached := coupled.ordered.reached
    have bound := coupled.ordered.room
    exact ⟨_, by rw [Gate.ran, if_pos (by omega)]⟩
  · intro playout now
    have flowing : Pumping.Flowing r.gate.released
        { follower := r.follower, playout, out := r.outbox, released := none } :=
      ⟨coupled.ordered, coupled.fed, by simp, coupled.reached⟩
    obtain ⟨pause, p, looped⟩ : ∃ pause p, Pumping.loop now _ _ = some (pause, p) :=
      flowing.ends (Nat.lt_succ_self _)
    exact ⟨_, _, by rw [pump, looped]; rfl⟩
  · intro fuel playout playout' now pause follower out more s pumped space after read waits
    have next := coupled.pumped pumped
    obtain ⟨attached, same⟩ := next.toAttached.runs after
    rw [attached.idle read waits, append_nil] at same
    have held := next.planned
    rw [← append_assoc, ← same, next.frontier] at held
    exact ⟨_, held, (pump_hands coupled.ordered coupled.fed coupled.reached pumped).2.2.2.2.2 space⟩

def startAfter (sealedThrough : Nat) : TurnStart where
  room := .fill 16 0
  rules := .empty
  nextTurn := 3
  nextEvent := 7
  sealedThrough
  stepsPerSecond := 1
  checkpointInterval := 100
  history := 1
  world := none

theorem hook_keeps_order_saving :
    let save : Event := { seq := 7, step := 5, body := .save }
    let turn : Turn := { number := 3, sealedThrough := 5, speed := .normal, events := [save] }
    ∃ r, Runs true (begun (startAfter 4)) [turn] r ∧ r.done = [.apply save] ∧ r.done <+: [.apply save, .execute 5] ∧
      ∃ gate, r.gate.ran = .ok (5, gate) := by
  intro save turn
  have accepted : Runs true (begun (startAfter 4)) [turn]
      { begun (startAfter 4) with follower := (TurnFollower.new (startAfter 4)).taken turn } :=
    Runs.start.step (.accepted (by rfl))
  have pumped := accepted.step (.pumped rfl
    (show pump 3 _ (.new 1 0 0) 0 _ = some (.drained, _, _, _) by rfl))
  have applied := pumped.step (.read (by rfl) (by rfl) (by rfl))
  have released := applied.step (.read (by rfl) (by rfl) (by rfl))
  obtain ⟨_, runs, order, _⟩ := hook_keeps_order (by decide) (by decide) released
  exact ⟨_, released, by rfl, order, runs (by rfl)⟩

/-- At the end of the counter the follower's next step wraps to zero, and the pump releases the game
backwards. -/
theorem release_wraps_backwards :
    let turn : Turn := { number := 3, sealedThrough := u64Max, speed := .normal, events := [] }
    ∃ r out, Runs true (begun (startAfter (u64Max - 1))) [turn] r ∧ r.gate.mayRun = false ∧
      r.outbox.popFront = some (.release 1, out) ∧
      r.gate.onMessage (.release 1) = .error (.releaseBackwards (u64Max - 1) 1) := by
  intro turn
  -- The schedule of a stream that was resumed: steps 0 and 1 are due, step 2 is not.
  let playout : Playout :=
    { Playout.new 1 0 (10 * 10 ^ 9) with frontier := 5, base := some 0, recent := [(0, 0)] }
  let follower := (TurnFollower.new (startAfter (u64Max - 1))).taken turn
  have accepted : Runs true (begun (startAfter (u64Max - 1))) [turn]
      { begun (startAfter (u64Max - 1)) with follower } :=
    Runs.start.step (.accepted (by rfl))
  have wraps : pump 4 follower playout (10 ^ 9) .empty = some (.notDue (2 * 10 ^ 9), { follower with executed := 1 },
      playout.play 1 (10 ^ 9), Outbox.empty.pushBack (.release 1)) := by
    decide +kernel
  exact ⟨_, .empty, accepted.step (.pumped rfl wraps), by decide +kernel, by decide +kernel, by decide +kernel⟩

end Relay

end Tpf3Mp.Agent
