import Tpf3Mp.Agent.Actions
import Tpf3Mp.Run.Effect

/-!
What a server can make of a follower. Every number of a turn stream comes from the server, and the
follower's own counters start where it says.
-/

namespace Tpf3Mp.Agent
open Proto Run

def eventsSize (turn : Turn) : Nat := (turn.events.map eventSize).sum

/-- A turn in memory. Each event and its payload take up at least as many bytes as they are counted for. -/
def Received := { turn : Turn // eventsSize turn < 2 ^ 63 }

namespace TurnFollower

/-- `accept` as it runs: it changes the follower in place, one counter after another. -/
def acceptInPlace (turn : Turn) : Effect FollowError TurnFollower Unit := do
  let f ← get
  require (turn.number = f.nextTurn) (.turnGap f.nextTurn turn.number)
  require (f.sealedThrough ≤ turn.sealedThrough) (.frontierRegressed f.sealedThrough turn.sealedThrough)
  let nextTurn ← checkedSucc f.nextTurn
  let step ← checkedSucc f.sealedThrough
  let (expected, bytes) ← checkEvents step f.nextEvent 0 turn.events
  require (f.queuedBytes + bytes ≤ maxQueuedBytes) .backlog
  modify fun f => { f with nextTurn }
  modify fun f => { f with nextEvent := expected }
  modify fun f => { f with sealedThrough := turn.sealedThrough }
  modify fun f => { f with speed := turn.speed }
  modify fun f => { f with queuedBytes := f.queuedBytes + bytes }
  modify fun f => { f with queue := f.queue ++ turn.events }

theorem acceptInPlace_spec (f : TurnFollower) (turn : Turn) : Triple (· = f) (acceptInPlace turn)
    (fun _ f' => f.accept turn = .ok f') (fun error f' => f' = f ∧ f.accept turn = .error error) := by
  unfold acceptInPlace accept
  refine .bind (.get (Q := fun g s => s = f ∧ g = f) fun s start => ⟨start, start⟩) fun g => ?_
  refine Triple.and_intro fun same => ?_
  subst same
  refine .guarded (fun s start apart => ⟨start, if_pos apart⟩) fun numbered => ?_
  rw [if_neg (not_not.mpr numbered)]
  refine .guarded (fun s start back => ⟨start, if_pos (not_le.mp back)⟩) fun forward => ?_
  rw [if_neg (not_lt.mpr forward)]
  refine .bind (.lift (Q := fun next s => s = g ∧ checkedSucc g.nextTurn = .ok next)
    (fun next counted s start => ⟨start, counted⟩)
    fun error failed s start => ⟨start, by rw [failed]; rfl⟩) fun nextTurn => ?_
  refine Triple.and_intro fun counted => ?_
  rw [counted, ok_bind]
  refine .bind (.lift (Q := fun step s => s = g ∧ checkedSucc g.sealedThrough = .ok step)
    (fun step stepped s start => ⟨start, stepped⟩) fun error failed s start => ⟨start, by rw [failed]; rfl⟩)
      fun step => ?_
  refine Triple.and_intro fun stepped => ?_
  rw [stepped, ok_bind]
  refine .bind (.lift (Q := fun checked s => s = g ∧ checkEvents step g.nextEvent 0 turn.events = .ok checked)
    (fun checked events s start => ⟨start, events⟩) fun error failed s start => ⟨start, by rw [failed]; rfl⟩)
      fun checked => ?_
  refine Triple.and_intro fun events => ?_
  rw [events, ok_bind]
  obtain ⟨expected, bytes⟩ := checked
  dsimp only
  refine .guarded (fun s start heavy => ⟨start, if_pos (not_le.mp heavy)⟩) fun light => ?_
  rw [if_neg (not_lt.mpr light)]
  rintro _ rfl
  rfl

inductive Use where
  | accept (turn : Received)
  | nextStep
  | nextAction

def call (f : TurnFollower) : Use → TurnFollower
  | .accept turn => ((acceptInPlace turn.1).run f).2
  | .nextStep => f
  | .nextAction => f.nextAction.2

def calls (f : TurnFollower) (cs : List Use) : TurnFollower := cs.foldl call f

def handsOut (f : TurnFollower) : Use → Option Nat
  | .accept _ => none
  | .nextStep => f.nextStep
  | .nextAction =>
    match f.nextAction.1 with
    | some (.execute step) => some step
    | _ => none

/-- An addition of the call that nothing guards leaves its type. Those of turns, events and the step of new
events are checked. -/
def Overflows (f : TurnFollower) : Use → Prop
  | .accept turn => 2 ^ 64 ≤ f.queuedBytes + eventsSize turn.1
  | .nextStep | .nextAction => 2 ^ 64 ≤ f.executed + 1

def Use.Bounded : Use → Prop
  | .accept turn => turn.1.sealedThrough < u64Max
  | .nextStep | .nextAction => True

/-- A follower of a stream that began after `first`. -/
structure InRange (first : Nat) (f : TurnFollower) : Prop where
  turn : f.nextTurn ≤ u64Max
  event : f.nextEvent ≤ u64Max
  begun : first ≤ f.executed
  sealed : f.executed ≤ f.sealedThrough
  below : f.sealedThrough < u64Max
  light : f.queuedBytes ≤ maxQueuedBytes

section InRange
variable {first : Nat} {f f' : TurnFollower}

theorem InRange.upcoming (range : f.InRange first) : f.upcoming = f.executed + 1 := by
  have below := range.below
  have sealed := range.sealed
  unfold u64Max at below
  exact Nat.mod_eq_of_lt (by omega)

theorem InRange.accept {turn : Turn} (range : f.InRange first) (bounded : turn.sealedThrough < u64Max)
    (accepted : f.accept turn = .ok f') : f'.InRange first := by
  obtain ⟨continues, rfl⟩ := accept_ok accepted
  rw [accept_continues continues] at accepted
  split at accepted
  · cases accepted
  rename_i light
  have event : f.nextEvent + turn.events.length ≤ u64Max := by
    by_cases none : turn.events = []
    · rw [none]
      exact range.event
    · exact continues.eventRoom none
  exact ⟨continues.turnRoom, event, range.begun, le_trans range.sealed continues.forward, bounded,
    not_lt.mp light⟩

theorem nextAction_shape (f : TurnFollower) : (∃ event rest, f.nextAction = (some (.apply event),
        { f with queue := rest, queuedBytes := f.queuedBytes - eventSize event })) ∨
      (f.upcoming ≤ f.sealedThrough ∧ f.nextAction = (some (.execute f.upcoming), { f with executed := f.upcoming })) ∨
      f.nextAction = (none, f) := by
  unfold nextAction
  dsimp only
  split
  · next event rest _ =>
    split
    · exact .inl ⟨event, rest, rfl⟩
    · split
      · next due => exact .inr (.inl ⟨due, rfl⟩)
      · exact .inr (.inr rfl)
  · split
    · next due => exact .inr (.inl ⟨due, rfl⟩)
    · exact .inr (.inr rfl)

theorem nextStep_due {step : Nat} (handed : f.nextStep = some step) : step = f.upcoming ∧ step ≤ f.sealedThrough := by
  unfold nextStep at handed
  dsimp only at handed
  split at handed
  · next due =>
    cases handed
    rw [Bool.and_eq_true, decide_eq_true_eq] at due
    exact ⟨rfl, due.2⟩
  · cases handed

section
variable (range : f.InRange first)
include range

theorem InRange.nextAction : f.nextAction.2.InRange first := by
  have upcoming := range.upcoming
  obtain ⟨turn, event, begun, sealed, below, light⟩ := range
  rcases f.nextAction_shape with ⟨_, _, applied⟩ | ⟨due, executed⟩ | waits
  · rw [applied]
    exact ⟨turn, event, begun, sealed, below, le_trans (Nat.sub_le _ _) light⟩
  · rw [executed]
    rw [upcoming] at due ⊢
    exact ⟨turn, event, Nat.le_succ_of_le begun, due, below, light⟩
  · rw [waits]
    exact ⟨turn, event, begun, sealed, below, light⟩

theorem InRange.call {c : Use} (bounded : c.Bounded) : (f.call c).InRange first := by
  cases c with
  | accept turn =>
    have accepts := acceptInPlace_spec f turn.1 f rfl
    show InRange first ((acceptInPlace turn.1).run f).2
    generalize (acceptInPlace turn.1).run f = result at accepts ⊢
    obtain ⟨_ | _, f'⟩ := result
    · obtain ⟨rfl, _⟩ := accepts
      exact range
    · exact range.accept bounded accepts
  | nextStep => exact range
  | nextAction => exact range.nextAction

theorem InRange.calls {cs : List Use} (bounded : ∀ c ∈ cs, c.Bounded) : (f.calls cs).InRange first := by
  induction cs generalizing f with
  | nil => exact range
  | cons c cs ih =>
    exact ih (range.call (bounded c List.mem_cons_self)) fun other among => bounded other (List.mem_cons_of_mem _ among)

theorem InRange.quiet (c : Use) : ¬ f.Overflows c ∧
    ∀ step, f.handsOut c = some step → first < step ∧ step ≤ f.sealedThrough := by
  have upcoming := range.upcoming
  obtain ⟨_, _, begun, sealed, below, light⟩ := range
  unfold u64Max at below
  unfold maxQueuedBytes at light
  cases c with
  | accept turn =>
    have held := turn.2
    refine ⟨fun ending => ?_, nofun⟩
    unfold Overflows at ending
    omega
  | nextStep =>
    refine ⟨fun ending => ?_, fun step handed => ?_⟩
    · unfold Overflows at ending
      omega
    · obtain ⟨rfl, due⟩ := nextStep_due handed
      rw [upcoming] at due ⊢
      exact ⟨Nat.lt_succ_of_le begun, due⟩
  | nextAction =>
    refine ⟨fun ending => ?_, fun step handed => ?_⟩
    · unfold Overflows at ending
      omega
    unfold handsOut at handed
    rcases f.nextAction_shape with ⟨_, _, applied⟩ | ⟨due, executed⟩ | waits
    · rw [applied] at handed
      cases handed
    · rw [executed] at handed
      cases handed
      rw [upcoming] at due ⊢
      exact ⟨Nat.lt_succ_of_le begun, due⟩
    · rw [waits] at handed
      cases handed

end

end InRange

end TurnFollower

open TurnFollower

/-- Whatever a server sends and however a follower is used: as long as no frontier is at the end of its
range, no counter overflows, every step handed out lies above the start's frontier and within the current
one, and a turn that is refused changes nothing. -/
theorem follower_stays_in_range (start : TurnStart) (cs : List Use) (turn : start.nextTurn < 2 ^ 64)
    (event : start.nextEvent < 2 ^ 64) (below : start.sealedThrough < u64Max) (bounded : ∀ c ∈ cs, c.Bounded) :
    InRange start.sealedThrough ((new start).calls cs) ∧ ∀ c,
      ¬ ((new start).calls cs).Overflows c ∧
      (∀ step, ((new start).calls cs).handsOut c = some step →
        start.sealedThrough < step ∧ step ≤ ((new start).calls cs).sealedThrough) ∧
      ∀ turn error f', c = .accept turn → (acceptInPlace turn.1).run ((new start).calls cs) = (.error error, f') →
        f' = (new start).calls cs := by
  have begins : InRange start.sealedThrough (new start) :=
    ⟨Nat.le_of_lt_succ turn, Nat.le_of_lt_succ event, le_rfl, le_rfl, below, Nat.zero_le _⟩
  have range := begins.calls bounded
  refine ⟨range, fun c => ?_⟩
  obtain ⟨quiet, steps⟩ := range.quiet c
  refine ⟨quiet, steps, fun turn error f' _ failed => ?_⟩
  have refused := acceptInPlace_spec _ turn.1 ((new start).calls cs) rfl
  rw [failed] at refused
  exact refused.1

def startAt (sealedThrough : Nat) : TurnStart where
  room := .fill 16 0
  rules := .native
  nextTurn := 1
  nextEvent := 1
  sealedThrough
  stepsPerSecond := 5
  checkpointInterval := 10
  history := 7
  world := none

def firstTurn : Received := ⟨⟨1, 2, .normal, []⟩, Nat.two_pow_pos 63⟩

/-- A turn is accepted and a step run; the next one is handed out, and the same turn again is refused. -/
theorem follower_stays_in_range_refusing : ∃ f, f = (new (startAt 0)).calls [.accept firstTurn, .nextAction] ∧
    f.handsOut .nextStep = some 2 ∧ (0 < 2 ∧ 2 ≤ f.sealedThrough) ∧
    (acceptInPlace firstTurn.1).run f = (.error (.turnGap 2 1), f) := by
  obtain ⟨_, quiet⟩ := follower_stays_in_range (startAt 0) [.accept firstTurn, .nextAction] (by decide) (by decide)
    (by decide) (List.forall_mem_cons.mpr ⟨show 2 < u64Max by decide, List.forall_mem_singleton.mpr trivial⟩)
  refine ⟨_, rfl, rfl, (quiet .nextStep).2.1 2 rfl, Prod.ext rfl ?_⟩
  exact (quiet (.accept firstTurn)).2.2 _ (.turnGap 2 1) _ rfl rfl

/-- A stream whose start is at the end of the range makes the follower count past it, and begin again at step 0. -/
theorem follower_wraps : (new (startAt u64Max)).Overflows .nextAction ∧
    (new (startAt u64Max)).handsOut .nextAction = some 0 ∧ (new (startAt u64Max)).handsOut .nextStep = some 0 ∧
    ((new (startAt u64Max)).call .nextAction).handsOut .nextAction = some 1 := by
  refine ⟨?_, by decide, by decide, by decide⟩
  unfold Overflows
  decide

end Tpf3Mp.Agent
