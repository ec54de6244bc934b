import Tpf3Mp.Agent.Follower
import Tpf3Mp.Proto.Chain
import Tpf3Mp.Run.Basic
import Mathlib.Data.List.Basic

/-!
The follower's actions do not depend on when the game asks for them. `plan` lists what a queue of
events leaves to do between two frontiers; every call of `nextAction` takes the head of the plan, and
every accepted turn extends it at its end.
-/

namespace Tpf3Mp.Agent
open Proto List

def plan (events : List Event) (executed frontier : Nat) : List Action :=
  (range' (executed + 1) (frontier - executed)).flatMap
      (fun step => (events.filter (·.step = step)).map .apply ++ [.execute step]) ++
    (events.filter (·.step = frontier + 1)).map .apply

def Action.event : Action → Option Event
  | .apply event => some event
  | .execute _ => none

variable {events : List Event} {executed frontier : Nat}

theorem filter_step_none {step : Nat} (other : ∀ event ∈ events, event.step ≠ step) :
    events.filter (·.step = step) = [] := by
  apply filter_eq_nil_iff.mpr
  intro event member
  simpa using other event member

theorem plan_nil (frontier : Nat) : plan [] frontier frontier = [] := by
  simp [plan]

theorem plan_apply {event : Event} (due : event.step = executed + 1) (reached : executed ≤ frontier) :
    plan (event :: events) executed frontier = .apply event :: plan events executed frontier := by
  rcases Nat.eq_or_lt_of_le reached with same | before
  · subst same
    simp [plan, due]
  obtain ⟨count, rfl⟩ : ∃ count, frontier = executed + (count + 1) := ⟨frontier - executed - 1, by omega⟩
  have later : ∀ step ∈ range' (executed + 1 + 1) count, (event :: events).filter (·.step = step) =
      events.filter (·.step = step) := by
    intro step member
    have bound := mem_range'_1.mp member
    exact filter_cons_of_neg (by simp only [decide_eq_true_eq]; omega)
  have last : (event :: events).filter (·.step = executed + (count + 1) + 1) =
      events.filter (·.step = executed + (count + 1) + 1) :=
    filter_cons_of_neg (by simp only [decide_eq_true_eq]; omega)
  have head : (event :: events).filter (·.step = executed + 1) =
      event :: events.filter (·.step = executed + 1) :=
    filter_cons_of_pos (by simpa using due)
  have tail := flatMap_congr (fun step member => congrArg
    (fun found => found.map Action.apply ++ [Action.execute step]) (later step member))
  simp only [plan, Nat.add_sub_cancel_left, range'_succ, flatMap_cons, head, last, tail,
    map_cons, cons_append]

theorem plan_execute (later : ∀ event ∈ events, event.step ≠ executed + 1) (before : executed < frontier) :
    plan events executed frontier = .execute (executed + 1) :: plan events (executed + 1) frontier := by
  obtain ⟨count, rfl⟩ : ∃ count, frontier = executed + (count + 1) := ⟨frontier - executed - 1, by omega⟩
  have rest : executed + (count + 1) - (executed + 1) = count := by omega
  simp only [plan, Nat.add_sub_cancel_left, range'_succ, flatMap_cons, filter_step_none later,
    map_nil, nil_append, cons_append, rest]

theorem plan_steps {count : Nat} (past : ∀ event ∈ events, event.step ≤ executed) :
    plan events executed (executed + count) = (range' (executed + 1) count).map .execute := by
  induction count generalizing executed with
  | zero =>
    have none : events.filter (·.step = executed + 1) = [] :=
      filter_step_none (fun event member => by have := past event member; omega)
    simp [plan, none]
  | succ count ih =>
    rw [plan_execute (fun event member => by have := past event member; omega) (by omega),
      show executed + (count + 1) = executed + 1 + count by omega,
      ih (fun event member => by have := past event member; omega)]
    rfl

theorem plan_split {later : List Event} {target : Nat}
    (old : ∀ event ∈ events, event.step ≤ frontier + 1) (new : ∀ event ∈ later, frontier < event.step)
    (reached : executed ≤ frontier) (forward : frontier ≤ target) :
    plan (events ++ later) executed target = plan events executed frontier ++ plan later frontier target := by
  have sooner : ∀ step ∈ range' (executed + 1) (frontier - executed),
      (events ++ later).filter (·.step = step) = events.filter (·.step = step) := by
    intro step member
    have bound := mem_range'_1.mp member
    have none : later.filter (·.step = step) = [] :=
      filter_step_none (fun event inside => by have := new event inside; omega)
    rw [filter_append, none, append_nil]
  have past : ∀ step, frontier + 1 < step → (events ++ later).filter (·.step = step) =
      later.filter (·.step = step) := by
    intro step after
    have none : events.filter (·.step = step) = [] :=
      filter_step_none (fun event inside => by have := old event inside; omega)
    rw [filter_append, none, nil_append]
  have common := flatMap_congr (fun step member => congrArg
    (fun found => found.map Action.apply ++ [Action.execute step]) (sooner step member))
  rcases Nat.eq_or_lt_of_le forward with same | before
  · subst same
    rw [plan, common, plan, plan]
    simp only [filter_append, map_append, Nat.sub_self, range'_zero, flatMap_nil,
      nil_append, append_assoc]
  · obtain ⟨count, rfl⟩ : ∃ count, target = frontier + (count + 1) := ⟨target - frontier - 1, by omega⟩
    have steps : range' (executed + 1) (frontier + (count + 1) - executed) =
        range' (executed + 1) (frontier - executed) ++
          (frontier + 1) :: range' (frontier + 1 + 1) count := by
      rw [show frontier + (count + 1) - executed = (frontier - executed) + (count + 1) by omega,
        ← range'_append_1, range'_succ, show executed + 1 + (frontier - executed) = frontier + 1 by omega]
    have tail := flatMap_congr (fun step (member : step ∈ range' (frontier + 1 + 1) count) => congrArg
      (fun found => found.map Action.apply ++ [Action.execute step])
      (past step (by have := mem_range'_1.mp member; omega)))
    have last := past (frontier + (count + 1) + 1) (by omega)
    rw [plan, steps, flatMap_append, common, flatMap_cons, tail, last, plan, plan]
    simp only [filter_append, map_append, Nat.add_sub_cancel_left, range'_succ, flatMap_cons,
      append_assoc]

theorem plan_due {target : Nat} (due : ∀ event ∈ events, event.step = frontier + 1) (forward : frontier ≤ target) :
    plan events frontier target =
      events.map .apply ++ (range' (frontier + 1) (target - frontier)).map .execute := by
  induction events with
  | nil =>
    obtain ⟨count, rfl⟩ := Nat.exists_eq_add_of_le forward
    rw [plan_steps (by simp), Nat.add_sub_cancel_left]
    rfl
  | cons event events ih =>
    rw [plan_apply (due event mem_cons_self) forward, ih (fun other member => due other (mem_cons_of_mem _ member))]
    rfl

theorem plan_append {fresh : List Event} {target : Nat}
    (old : ∀ event ∈ events, event.step ≤ frontier + 1) (new : ∀ event ∈ fresh, event.step = frontier + 1)
    (reached : executed ≤ frontier) (forward : frontier ≤ target) :
    plan (events ++ fresh) executed target = plan events executed frontier ++
      (fresh.map .apply ++ (range' (frontier + 1) (target - frontier)).map .execute) := by
  rw [plan_split old (fun event member => by rw [new event member]; omega) reached forward, plan_due new forward]

theorem mem_plan {event : Event} (member : .apply event ∈ plan events executed frontier) : event ∈ events := by
  simp only [plan, mem_append, mem_flatMap, mem_map, mem_filter, Action.apply.injEq,
    exists_eq_right, mem_singleton, reduceCtorEq, or_false] at member
  rcases member with ⟨_, _, inside, _⟩ | ⟨inside, _⟩
  · exact inside
  · exact inside

namespace TurnFollower

theorem checkedSucc_ok {n m : Nat} : checkedSucc n = .ok m ↔ n < u64Max ∧ m = n + 1 := by
  unfold checkedSucc
  split
  · simp_all [eq_comm]
  · simp_all

theorem checkEvents_ok {step expected bytes : Nat} {events : List Event} {result : Nat × Nat} :
    checkEvents step expected bytes events = .ok result ↔
      Numbered expected events ∧ (∀ event ∈ events, event.step = step) ∧
      (events ≠ [] → expected + events.length ≤ u64Max) ∧
      result = (expected + events.length, bytes + (events.map eventSize).sum) := by
  induction events generalizing expected bytes with
  | nil => simp [checkEvents, Numbered, eq_comm]
  | cons event events ih =>
    rw [checkEvents, numbered_cons]
    by_cases gap : event.seq = expected
    · by_cases due : event.step = step
      · by_cases room : expected < u64Max
        · have next : checkedSucc expected = .ok (expected + 1) := checkedSucc_ok.mpr ⟨room, rfl⟩
          simp only [gap, due, ne_eq, not_true_eq_false, if_false, next, bind, Except.bind, ih]
          simp only [mem_cons, forall_eq_or_imp, due, true_and, length_cons, map_cons,
            sum_cons, reduceCtorEq, not_false_eq_true, forall_true_left]
          constructor
          · rintro ⟨numbered, steps, bound, rfl⟩
            refine ⟨numbered, steps, ?_, by simp only [Prod.mk.injEq]; omega⟩
            rcases events with _ | ⟨other, events⟩
            · simp only [length_nil]; omega
            · have := bound (by simp); simp only [length_cons] at this ⊢; omega
          · rintro ⟨numbered, steps, bound, rfl⟩
            exact ⟨numbered, steps, fun _ => by omega, by simp only [Prod.mk.injEq]; omega⟩
        · have full : checkedSucc expected = .error .overflow := by simp [checkedSucc, room]
          simp only [gap, due, ne_eq, not_true_eq_false, if_false, full, bind, Except.bind, reduceCtorEq, false_iff]
          rintro ⟨_, _, bound, _⟩
          have := bound (by simp)
          simp only [length_cons] at this
          omega
      · simp [gap, due]
    · simp [gap]

structure Continues (f : TurnFollower) (turn : Turn) : Prop where
  number : turn.number = f.nextTurn
  forward : f.sealedThrough ≤ turn.sealedThrough
  turnRoom : f.nextTurn < u64Max
  stepRoom : f.sealedThrough < u64Max
  numbered : Numbered f.nextEvent turn.events
  steps : ∀ event ∈ turn.events, event.step = f.sealedThrough + 1
  eventRoom : turn.events ≠ [] → f.nextEvent + turn.events.length ≤ u64Max

def taken (f : TurnFollower) (turn : Turn) : TurnFollower :=
  { f with
    nextTurn := f.nextTurn + 1
    nextEvent := f.nextEvent + turn.events.length
    sealedThrough := turn.sealedThrough
    speed := turn.speed
    queuedBytes := f.queuedBytes + (turn.events.map eventSize).sum
    queue := f.queue ++ turn.events }

variable {f g : TurnFollower} {calls : List Call} {actions : List Action}

theorem accept_continues {turn : Turn} (continues : f.Continues turn) :
    f.accept turn = if f.queuedBytes + (turn.events.map eventSize).sum > maxQueuedBytes
      then .error .backlog else .ok (f.taken turn) := by
  have events : checkEvents (f.sealedThrough + 1) f.nextEvent 0 turn.events =
      .ok (f.nextEvent + turn.events.length, (turn.events.map eventSize).sum) :=
    checkEvents_ok.mpr ⟨continues.numbered, continues.steps, continues.eventRoom, by rw [Nat.zero_add]⟩
  have forward : ¬ turn.sealedThrough < f.sealedThrough := not_lt.mpr continues.forward
  simp only [accept, continues.number, ne_eq, not_true_eq_false, if_false, forward, bind, Except.bind,
    checkedSucc_ok.mpr ⟨continues.turnRoom, rfl⟩, checkedSucc_ok.mpr ⟨continues.stepRoom, rfl⟩, events, taken]

theorem accept_ok {turn : Turn} (accepted : f.accept turn = .ok g) : f.Continues turn ∧ g = f.taken turn := by
  have continues : f.Continues turn := by
    unfold accept at accepted
    split at accepted
    · cases accepted
    rename_i number
    split at accepted
    · cases accepted
    rename_i forward
    obtain ⟨nextTurn, turnRoom, accepted⟩ := Run.bind_ok.mp accepted
    obtain ⟨step, stepRoom, accepted⟩ := Run.bind_ok.mp accepted
    obtain ⟨⟨expected, bytes⟩, events, _⟩ := Run.bind_ok.mp accepted
    obtain ⟨turnBound, _⟩ := checkedSucc_ok.mp turnRoom
    obtain ⟨stepBound, rfl⟩ := checkedSucc_ok.mp stepRoom
    obtain ⟨numbered, steps, eventRoom, _⟩ := checkEvents_ok.mp events
    exact ⟨not_not.mp number, not_lt.mp forward, turnBound, stepBound, numbered, steps, eventRoom⟩
  rw [accept_continues continues] at accepted
  split at accepted
  · cases accepted
  · cases accepted
    exact ⟨continues, rfl⟩

variable {start : TurnStart}

theorem restart_ok :
    f.restart start = .ok g ↔ start.nextTurn = f.nextTurn ∧ start.nextEvent = f.nextEvent ∧
      start.sealedThrough = f.sealedThrough ∧ g = { f with history := start.history } := by
  unfold restart
  by_cases turn : start.nextTurn = f.nextTurn
  · by_cases event : start.nextEvent = f.nextEvent
    · by_cases frontier : start.sealedThrough = f.sealedThrough
      · simp [turn, event, frontier, eq_comm]
      · simp [turn, event, frontier]
    · simp [turn, event]
  · simp [turn]

/-- A queue in step order between what was executed and the frontier: no event is late, and none
is behind a later one. -/
structure Ordered (f : TurnFollower) : Prop where
  reached : f.executed ≤ f.sealedThrough
  room : f.sealedThrough < u64Max
  due : ∀ event ∈ f.queue, f.executed < event.step ∧ event.step ≤ f.sealedThrough + 1
  sorted : f.queue.Pairwise (fun left right => left.step ≤ right.step)

def remaining (f : TurnFollower) : List Action := plan f.queue f.executed f.sealedThrough

theorem new_ordered (room : start.sealedThrough < u64Max) : (new start).Ordered :=
  ⟨le_rfl, room, by simp [new], by simp [new]⟩

section
variable (ordered : f.Ordered)
include ordered

theorem taken_ordered {turn : Turn} (continues : f.Continues turn)
    (room : turn.sealedThrough < u64Max) : (f.taken turn).Ordered := by
  have forward := continues.forward
  have reached := ordered.reached
  refine ⟨le_trans reached forward, room, ?_, ?_⟩
  · intro event member
    rcases mem_append.mp member with queued | fresh
    · have due := ordered.due event queued
      exact ⟨due.1, by dsimp only [taken]; omega⟩
    · have step := continues.steps event fresh
      dsimp only [taken]
      omega
  · refine pairwise_append.mpr ⟨ordered.sorted, ?_, ?_⟩
    · apply pairwise_of_forall_mem_list
      intro left leftFresh right rightFresh
      rw [continues.steps left leftFresh, continues.steps right rightFresh]
    · intro left queued right fresh
      rw [continues.steps right fresh]
      exact (ordered.due left queued).2

theorem taken_remaining {turn : Turn} (continues : f.Continues turn) :
    (f.taken turn).remaining = f.remaining ++ (turn.events.map .apply ++
      (range' (f.sealedThrough + 1) (turn.sealedThrough - f.sealedThrough)).map .execute) :=
  plan_append (fun event queued => (ordered.due event queued).2) continues.steps ordered.reached continues.forward

theorem upcoming_eq : f.upcoming = f.executed + 1 := by
  have reached := ordered.reached
  have room := ordered.room
  exact Nat.mod_eq_of_lt (by unfold u64Max at room; omega)

theorem nextAction_cases :
    (∃ action g, f.nextAction = (some action, g) ∧ g.Ordered ∧ f.remaining = action :: g.remaining ∧
      g.sealedThrough = f.sealedThrough ∧ (∀ step, action = .execute step → step ≤ f.sealedThrough)) ∨
    (f.nextAction = (none, f) ∧ f.queue = [] ∧ f.remaining = []) := by
  have reached := ordered.reached
  have upcoming := upcoming_eq ordered
  -- Executing is next once no queued event is for the upcoming step.
  have executing : (∀ event ∈ f.queue, event.step ≠ f.executed + 1) → f.executed < f.sealedThrough →
      ({ f with executed := f.executed + 1 } : TurnFollower).Ordered ∧ f.remaining =
        .execute (f.executed + 1) :: ({ f with executed := f.executed + 1 } : TurnFollower).remaining := by
    intro later before
    refine ⟨⟨before, ordered.room, ?_, ordered.sorted⟩, plan_execute later before⟩
    intro event queued
    have due := ordered.due event queued
    have other := later event queued
    exact ⟨by dsimp only; omega, due.2⟩
  cases queue : f.queue with
  | nil =>
    have later : ∀ event ∈ f.queue, event.step ≠ f.executed + 1 := by simp [queue]
    by_cases before : f.executed < f.sealedThrough
    · obtain ⟨after, rest⟩ := executing later before
      refine .inl ⟨_, _, ?_, after, rest, rfl, by rintro step ⟨⟩; exact before⟩
      simp only [nextAction, queue, upcoming, if_pos (Nat.succ_le_of_lt before)]
    have same : f.executed = f.sealedThrough := by omega
    refine .inr ⟨?_, rfl, ?_⟩
    · simp only [nextAction, queue, upcoming, if_neg (show ¬ f.executed + 1 ≤ f.sealedThrough by omega)]
    · rw [remaining, queue, same, plan_nil]
  | cons event rest =>
    have due := ordered.due event (by simp [queue])
    have sorted := ordered.sorted
    rw [queue] at sorted
    by_cases now : event.step = f.executed + 1
    · refine .inl ⟨.apply event,
        { f with queue := rest, queuedBytes := f.queuedBytes - eventSize event }, ?_, ?_, ?_, rfl, by simp⟩
      · simp only [nextAction, queue, upcoming, if_pos now]
      · exact ⟨reached, ordered.room, fun other member => ordered.due other (by simp [queue, member]),
          (pairwise_cons.mp sorted).2⟩
      · rw [remaining, queue, plan_apply now reached]
        rfl
    · -- The first event is the earliest, so none is for the upcoming step.
      have later : ∀ other ∈ f.queue, other.step ≠ f.executed + 1 := by
        intro other member
        rw [queue] at member
        rcases mem_cons.mp member with rfl | member
        · exact now
        · have after := (pairwise_cons.mp sorted).1 other member
          omega
      have before : f.executed < f.sealedThrough := by omega
      obtain ⟨after, left⟩ := executing later before
      refine .inl ⟨_, _, ?_, after, left, rfl, by rintro step ⟨⟩; exact before⟩
      simp only [nextAction, queue, upcoming, if_neg now, if_pos (Nat.succ_le_of_lt before)]

end

inductive Call where
  | accept (turn : Turn)
  | nextAction

def Call.turn : Call → Option Turn
  | .accept turn => some turn
  | .nextAction => none

/-- The actions a sequence of calls produces, until `accept` refuses a turn. -/
def drive (f : TurnFollower) : List Call → Except FollowError (List Action × TurnFollower)
  | [] => .ok ([], f)
  | .accept turn :: calls => do
    let f ← f.accept turn
    f.drive calls
  | .nextAction :: calls => do
    let (action, f) := f.nextAction
    let (actions, f) ← f.drive calls
    return (action.toList ++ actions, f)

theorem drive_cons_nextAction (ran : f.drive (.nextAction :: calls) = .ok (actions, g)) :
    ∃ rest, f.nextAction.2.drive calls = .ok (rest, g) ∧ actions = f.nextAction.1.toList ++ rest := by
  obtain ⟨⟨rest, last⟩, ran, done⟩ := Run.bind_ok.mp ran
  cases done
  exact ⟨rest, ran, rfl⟩

theorem drive_nextAction {rest : List Action} (ran : f.nextAction.2.drive calls = .ok (rest, g)) :
    f.drive (.nextAction :: calls) = .ok (f.nextAction.1.toList ++ rest, g) :=
  Run.bind_ok.mpr ⟨(rest, g), ran, rfl⟩

theorem drive_plan {done : List Action} {events : List Event}
    {first : Nat} (ordered : f.Ordered) (room : ∀ turn ∈ calls.filterMap Call.turn, turn.sealedThrough < u64Max)
    (ran : f.drive calls = .ok (actions, g)) (reached : first ≤ f.sealedThrough)
    (past : ∀ event ∈ events, first < event.step ∧ event.step ≤ f.sealedThrough + 1)
    (covered : done ++ f.remaining = plan events first f.sealedThrough) :
    g.Ordered ∧ f.sealedThrough ≤ g.sealedThrough ∧
    g.sealedThrough = lastFrontier f.sealedThrough (calls.filterMap Call.turn) ∧
    (∀ step, .execute step ∈ actions → step ≤ g.sealedThrough) ∧
    (∀ event ∈ events ++ (calls.filterMap Call.turn).flatMap Turn.events,
      first < event.step ∧ event.step ≤ g.sealedThrough + 1) ∧
    done ++ (actions ++ g.remaining) =
      plan (events ++ (calls.filterMap Call.turn).flatMap Turn.events) first g.sealedThrough := by
  induction calls generalizing f actions done events with
  | nil =>
    cases ran
    exact ⟨ordered, le_rfl, rfl, by simp, by simpa using past, by simpa using covered⟩
  | cons call calls ih =>
    cases call with
    | accept turn =>
      obtain ⟨middle, accepted, ran⟩ := Run.bind_ok.mp ran
      obtain ⟨continues, rfl⟩ := accept_ok accepted
      have forward := continues.forward
      have turns : (Call.accept turn :: calls).filterMap Call.turn = turn :: calls.filterMap Call.turn := rfl
      have room' : turn.sealedThrough < u64Max := room turn (by rw [turns]; exact mem_cons_self)
      have extended : done ++ (f.taken turn).remaining =
          plan (events ++ turn.events) first (f.taken turn).sealedThrough := by
        rw [taken_remaining ordered continues, ← append_assoc, covered]
        exact (plan_append (fun event old => (past event old).2) continues.steps reached forward).symm
      have past' : ∀ event ∈ events ++ turn.events,
          first < event.step ∧ event.step ≤ (f.taken turn).sealedThrough + 1 := by
        intro event member
        rcases mem_append.mp member with old | fresh
        · have := past event old
          dsimp only [taken]
          omega
        · have := continues.steps event fresh
          dsimp only [taken]
          omega
      obtain ⟨after, onward, frontier, executed, steps, same⟩ := ih (taken_ordered ordered continues room')
        (fun other member => room other (by rw [turns]; exact mem_cons_of_mem _ member))
        ran (le_trans reached forward) past' extended
      rw [append_assoc, ← flatMap_cons, ← turns] at steps same
      exact ⟨after, le_trans forward onward, frontier, executed, steps, same⟩
    | nextAction =>
      obtain ⟨rest, called_rest, rfl⟩ := drive_cons_nextAction ran
      rcases nextAction_cases ordered with ⟨action, next, called, ordered', head, frontier', bound⟩ | ⟨called, _, _⟩
      · rw [called] at called_rest ⊢
        have covered' : (done ++ [action]) ++ next.remaining = plan events first next.sealedThrough := by
          rw [append_assoc, singleton_append, ← head, covered, frontier']
        obtain ⟨after, onward, frontier, executed, steps, same⟩ :=
          ih ordered' room called_rest (by rw [frontier']; exact reached)
          (by rw [frontier']; exact past) covered'
        rw [frontier'] at onward frontier
        refine ⟨after, onward, frontier, ?_, steps, ?_⟩
        · intro step member
          rcases mem_append.mp member with here | later
          · simp only [Option.toList_some, mem_singleton] at here
            exact le_trans (bound step here.symm) onward
          · exact executed step later
        · rw [filterMap_cons_none rfl, ← same]
          simp
      · rw [called] at called_rest ⊢
        rw [filterMap_cons_none rfl]
        simpa using ih ordered room called_rest reached past covered

theorem drive_append {h : TurnFollower} {before after : List Call} {done rest : List Action}
    (first : f.drive before = .ok (done, g)) (second : g.drive after = .ok (rest, h)) :
    f.drive (before ++ after) = .ok (done ++ rest, h) := by
  induction before generalizing f done with
  | nil =>
    cases first
    exact second
  | cons call before ih =>
    cases call with
    | accept turn =>
      obtain ⟨middle, accepted, ran⟩ := Run.bind_ok.mp first
      exact Run.bind_ok.mpr ⟨middle, accepted, ih ran⟩
    | nextAction =>
      obtain ⟨actions, ran, rfl⟩ := drive_cons_nextAction first
      rw [append_assoc]
      exact drive_nextAction (ih ran)

theorem drain (ordered : f.Ordered) (left : f.remaining = actions) :
    ∃ g, f.drive (replicate actions.length .nextAction) = .ok (actions, g) ∧ g.nextAction.1 = none := by
  induction actions generalizing f with
  | nil =>
    rcases nextAction_cases ordered with ⟨action, next, _, _, head, _⟩ | ⟨called, _⟩
    · cases left.symm.trans head
    · exact ⟨f, rfl, by rw [called]⟩
  | cons action actions ih =>
    rcases nextAction_cases ordered with ⟨first, next, called, ordered', head, _⟩ | ⟨_, _, empty⟩
    · rw [left] at head
      obtain ⟨rfl, rest⟩ := List.cons.inj head
      obtain ⟨g, ran, finished⟩ := ih ordered' rest.symm
      have again := drive_nextAction (show f.nextAction.2.drive _ = _ by rw [called]; exact ran)
      rw [called] at again
      exact ⟨g, again, finished⟩
    · cases empty.symm.trans left

theorem finished_empty (ordered : f.Ordered) (finished : f.nextAction.1 = none) : f.queue = [] ∧ f.remaining = [] := by
  rcases nextAction_cases ordered with ⟨action, next, called, _⟩ | ⟨_, empty⟩
  · rw [called] at finished
    cases finished
  · exact empty

theorem nextAction_fields (f : TurnFollower) :
    ∃ executed queue bytes, f.nextAction.2 = { f with executed, queue, queuedBytes := bytes } := by
  unfold nextAction
  dsimp only
  repeat' split
  all_goals exact ⟨_, _, _, rfl⟩

theorem drive_numbered (ran : f.drive calls = .ok (actions, g)) :
    Numbered f.nextEvent ((calls.filterMap Call.turn).flatMap Turn.events) := by
  induction calls generalizing f actions with
  | nil => rfl
  | cons call calls ih =>
    cases call with
    | accept turn =>
      obtain ⟨middle, accepted, ran⟩ := Run.bind_ok.mp ran
      obtain ⟨continues, rfl⟩ := accept_ok accepted
      exact numbered_append.mpr ⟨continues.numbered, ih ran⟩
    | nextAction =>
      obtain ⟨rest, called, _⟩ := drive_cons_nextAction ran
      obtain ⟨executed, queue, bytes, same⟩ := nextAction_fields f
      have numbered := ih called
      rw [same] at numbered
      exact numbered

theorem nextAction_event (f : TurnFollower) :
    f.nextAction.1.toList.filterMap Action.event ++ f.nextAction.2.queue = f.queue := by
  unfold nextAction
  dsimp only
  repeat' split
  all_goals simp_all [Action.event]

theorem drive_applied (ran : f.drive calls = .ok (actions, g)) : actions.filterMap Action.event ++ g.queue =
      f.queue ++ (calls.filterMap Call.turn).flatMap Turn.events := by
  induction calls generalizing f actions with
  | nil =>
    cases ran
    simp
  | cons call calls ih =>
    cases call with
    | accept turn =>
      obtain ⟨middle, accepted, ran⟩ := Run.bind_ok.mp ran
      obtain ⟨_, rfl⟩ := accept_ok accepted
      rw [ih ran]
      simp [taken, Call.turn]
    | nextAction =>
      obtain ⟨rest, called, rfl⟩ := drive_cons_nextAction ran
      rw [filterMap_append, append_assoc, ih called, ← append_assoc, nextAction_event]
      rfl

theorem turns_replicate (calls : List Call) (count : Nat) :
    (calls ++ replicate count Call.nextAction).filterMap Call.turn = calls.filterMap Call.turn := by
  rw [filterMap_append, filterMap_replicate_of_none rfl, append_nil]

theorem drained_plan (room : start.sealedThrough < u64Max)
    (rooms : ∀ turn ∈ calls.filterMap Call.turn, turn.sealedThrough < u64Max)
    (ran : (new start).drive calls = .ok (actions, f)) (finished : f.nextAction.1 = none) :
    actions = plan ((calls.filterMap Call.turn).flatMap Turn.events) start.sealedThrough
        (lastFrontier start.sealedThrough (calls.filterMap Call.turn)) ∧
      actions.filterMap Action.event = (calls.filterMap Call.turn).flatMap Turn.events ∧ f.queue = [] := by
  have begun : [] ++ (new start).remaining = plan [] start.sealedThrough start.sealedThrough := rfl
  obtain ⟨ordered, _, frontier, _, _, planned⟩ :=
    drive_plan (new_ordered room) rooms ran le_rfl (by simp) begun
  obtain ⟨empty, nothing⟩ := finished_empty ordered finished
  have applied := drive_applied ran
  rw [nothing, frontier] at planned
  rw [empty] at applied
  exact ⟨by simpa [new] using planned, by simpa [new] using applied, empty⟩

/-- However the calls of `nextAction` fall between the turns, the game does the same: step by step
up to the last frontier, each step's events before it, and then the events of the step after. -/
theorem actions_confluent {start : TurnStart} {calls : List Call} {actions : List Action} {f : TurnFollower}
    (room : start.sealedThrough < u64Max) (rooms : ∀ turn ∈ calls.filterMap Call.turn, turn.sealedThrough < u64Max)
    (ran : (new start).drive calls = .ok (actions, f)) :
    let turns := calls.filterMap Call.turn
    let events := turns.flatMap Turn.events
    f.sealedThrough = lastFrontier start.sealedThrough turns ∧
    (∀ step, .execute step ∈ actions → step ≤ f.sealedThrough) ∧
    (∃ count rest g, f.drive (replicate count .nextAction) = .ok (rest, g) ∧ g.nextAction.1 = none) ∧
    (∀ count rest g, f.drive (replicate count .nextAction) = .ok (rest, g) → g.nextAction.1 = none →
      actions ++ rest = plan events start.sealedThrough (lastFrontier start.sealedThrough turns) ∧
      (actions ++ rest).filterMap Action.event = events ∧ g.queue = []) ∧
    Numbered start.nextEvent events ∧
    (∀ event ∈ events, start.sealedThrough < event.step ∧
      event.step ≤ lastFrontier start.sealedThrough turns + 1) := by
  intro turns events
  have begun : [] ++ (new start).remaining = plan [] start.sealedThrough start.sealedThrough := rfl
  obtain ⟨ordered, _, frontier, sealed, steps, _⟩ :=
    drive_plan (new_ordered room) rooms ran le_rfl (by simp) begun
  have finish : ∀ count rest g, f.drive (replicate count .nextAction) = .ok (rest, g) →
      g.nextAction.1 = none →
      actions ++ rest = plan events start.sealedThrough (lastFrontier start.sealedThrough turns) ∧
      (actions ++ rest).filterMap Action.event = events ∧ g.queue = [] := by
    intro count rest g drained finished
    have same := turns_replicate calls count
    have done := drained_plan room (by rw [same]; exact rooms) (drive_append ran drained) finished
    rw [same] at done
    exact done
  obtain ⟨g, drained, finished⟩ := drain ordered rfl
  rw [frontier] at steps
  exact ⟨frontier, sealed, ⟨_, _, g, drained, finished⟩, finish, drive_numbered ran, steps⟩

theorem actions_confluent_interleaved : let start : TurnStart :=
      { room := ⟨replicate 16 0, rfl⟩, rules := ⟨"", by decide⟩, nextTurn := 3, nextEvent := 7,
        sealedThrough := 4, stepsPerSecond := 5, checkpointInterval := 100, history := 1, world := none }
    let player : PlayerId := ⟨replicate 32 0, rfl⟩
    let left : Event := { seq := 7, step := 5, body := .playerLeft player false }
    let save : Event := { seq := 8, step := 6, body := .save }
    let calls : List Call := [.accept { number := 3, sealedThrough := 5, speed := .normal, events := [left] },
      .nextAction, .accept { number := 4, sealedThrough := 7, speed := .normal, events := [save] }]
    ∃ f, (new start).drive calls = .ok ([.apply left], f) ∧
      ∀ count rest g, f.drive (replicate count .nextAction) = .ok (rest, g) → g.nextAction.1 = none →
        [.apply left] ++ rest = [.apply left, .execute 5, .apply save, .execute 6, .execute 7] := by
  intro start player left save calls
  have room : start.sealedThrough < u64Max := by decide
  have rooms : ∀ turn ∈ calls.filterMap Call.turn, turn.sealedThrough < u64Max := by decide
  have ran : ∃ f, (new start).drive calls = .ok ([.apply left], f) := ⟨_, by rfl⟩
  obtain ⟨f, ran⟩ := ran
  obtain ⟨_, _, _, finish, _⟩ := actions_confluent room rooms ran
  refine ⟨f, ran, ?_⟩
  intro count rest g drained finished
  rw [(finish count rest g drained finished).1]
  decide

structure At (f : TurnFollower) (o : Origin) : Prop where
  nextTurn : f.nextTurn = o.turn
  nextEvent : f.nextEvent = o.event
  sealedThrough : f.sealedThrough = o.frontier

variable {o : Origin}

section
variable (position : f.At o)
include position

theorem At.continues {turn : Turn} (next : o.Next turn)
    (turnRoom : o.turn < u64Max) (stepRoom : o.frontier < u64Max)
    (eventRoom : o.event + turn.events.length ≤ u64Max) : f.Continues turn := by
  obtain ⟨nextTurn, nextEvent, sealedThrough⟩ := position
  have limit : u64Max < 2 ^ 64 := by decide
  have steps := next.steps
  rw [Nat.mod_eq_of_lt (by omega)] at steps
  refine ⟨by rw [next.number, nextTurn], by rw [sealedThrough]; exact next.forward, by omega, by omega,
    ?_, ?_, by omega⟩
  · rw [nextEvent]
    exact next.numbered
  · rw [sealedThrough]
    exact steps

theorem At.taken (turn : Turn) : (f.taken turn).At (o.after [turn]) := by
  obtain ⟨nextTurn, nextEvent, sealedThrough⟩ := position
  refine ⟨?_, ?_, rfl⟩
  · rw [TurnFollower.taken, nextTurn]
    rfl
  · rw [TurnFollower.taken, nextEvent]
    simp [Origin.after]

theorem At.nextAction : f.nextAction.2.At o := by
  obtain ⟨executed, queue, bytes, same⟩ := f.nextAction_fields
  rw [same]
  exact ⟨position.nextTurn, position.nextEvent, position.sealedThrough⟩

theorem drive_chain (chain : Chain o (calls.filterMap Call.turn))
    (turnRoom : (o.after (calls.filterMap Call.turn)).turn ≤ u64Max)
    (stepRoom : (o.after (calls.filterMap Call.turn)).frontier < u64Max)
    (eventRoom : (o.after (calls.filterMap Call.turn)).event ≤ u64Max) :
    (∃ result, f.drive calls = .ok result) ∨ f.drive calls = .error .backlog := by
  induction calls generalizing f o with
  | nil => exact .inl ⟨_, rfl⟩
  | cons call calls ih =>
    cases call with
    | accept turn =>
      have turns : (Call.accept turn :: calls).filterMap Call.turn = turn :: calls.filterMap Call.turn := rfl
      rw [turns] at chain turnRoom stepRoom eventRoom
      have rest := o.after_append [turn] (calls.filterMap Call.turn)
      rw [singleton_append] at rest
      rw [rest] at turnRoom stepRoom eventRoom
      have forward := chain.2.forward
      have here := chain.1.forward
      have continues : f.Continues turn := by
        apply position.continues chain.1
        · simp only [Origin.after, length_singleton] at turnRoom
          omega
        · exact lt_of_le_of_lt (le_trans here forward) stepRoom
        · simp only [Origin.after, flatMap_singleton] at eventRoom
          omega
      have accepted := accept_continues continues
      rw [drive, accepted]
      split
      · exact .inr rfl
      · exact ih (position.taken turn) chain.2 turnRoom stepRoom eventRoom
    | nextAction =>
      rcases ih position.nextAction chain turnRoom stepRoom eventRoom with ⟨⟨rest, last⟩, ran⟩ | full
      · exact .inl ⟨_, drive_nextAction ran⟩
      refine .inr ?_
      rw [drive]
      dsimp only
      rw [full]
      rfl

end

end TurnFollower

end Tpf3Mp.Agent
