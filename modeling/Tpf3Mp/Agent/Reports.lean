import Tpf3Mp.Agent.Loads

/-!
Which world the bridge's reports describe. Reports of a world that was replaced are still on the link
when the next stream arrives; the bridge passes over them by waiting for the answer to its load.
-/

namespace Tpf3Mp.Agent
open Proto Tpf3Mp.Bridge List
open Server (Instant)

def Effect.isIngest : Effect → Bool
  | .ingest .. => true
  | _ => false

def isReport : GameMessage → Bool
  | .intent .. => false
  | _ => true

/-- Whether an effect describes a world, now or when its work is done. -/
def Effect.tells : Effect → Bool
  | .send message => isReport message
  | .ingest .. => true
  | _ => false

theorem Bridge.Silent.untold {effects : List Effect} (silent : Bridge.Silent effects) {effect : Effect}
    (inside : effect ∈ effects) : ¬ effect.tells = true := by
  obtain ⟨unsent, unkept⟩ := silent effect inside
  cases effect with
  | send message => cases unsent
  | ingest event lanes file => exact absurd rfl (unkept event lanes file)
  | _ => simp [Effect.tells]

namespace Play
variable {γ : Type} {game : Game γ}

/-- No world is replaced while a load is unanswered or a save is being taken in. -/
def reportsSettled : Scope γ
  | p, .hear event => p.bridge.replaces event = true →
      p.unanswered = [] ∧ ∀ job ∈ p.jobs, job.1.isIngest = false
  | _, .read _ => True

/-- The link from the hook: first what is left of worlds that were replaced, without an answer to a
load, and then what the game sent since it loaded the world of this era. -/
structure Divided (era running : Nat) (old new : List (ToAgent × Mark)) : Prop where
  unloaded : ∀ sent ∈ old, loadedOf sent.1 = none
  marked : ∀ sent ∈ new, sent.2.era = era
  unsent : running ≠ era → new = []

structure Current (p : Play γ) : Prop where
  bound : p.running ≤ p.era
  down : ∀ sent ∈ p.down, loadOf sent.1 ≠ none → sent.2 = p.era
  pending : p.session.pendingLoad ≠ none → p.ordered = p.era
  up : ∃ old new, p.up = old ++ new ∧ Divided p.era p.running old new ∧ (p.bridge.world = .ready → old = [])
  ready : p.bridge.world = .ready → p.running = p.era
  progress : p.bridge.progress ≠ none → p.bridge.world = .ready ∧ p.described = p.era

variable {p : Play γ} {mark : Mark} {o : Outcome} {away : Bool} {ending : Option (Except BridgeFault BridgeEnd)}
  {q : Play γ} {message : ToAgent} {rest : List (ToAgent × Mark)} {jobs : List (Effect × Nat)}

theorem Current.alike (current : p.Current) (alike : p.bridge.Alike o.bridge) :
    Current { after { p with jobs } o mark with away, ending } := by
  refine ⟨current.bound, current.down, current.pending, ?_, ?_, ?_⟩
  · show ∃ old new, p.up = old ++ new ∧ Divided p.era p.running old new ∧ (o.bridge.world = .ready → old = [])
    rw [alike.world]
    exact current.up
  · show o.bridge.world = .ready → p.running = p.era
    rw [alike.world]
    exact current.ready
  · show o.bridge.progress ≠ none → o.bridge.world = .ready ∧ p.described = p.era
    rw [alike.world, alike.progress]
    exact current.progress

theorem Current.replaced (current : p.Current) (replaced : p.bridge.Replaced o.bridge) :
    Current { after { p with jobs } o mark with away, ending } := by
  refine ⟨current.bound, current.down, current.pending, ?_, fun ready => absurd ready replaced.away,
    fun moved => absurd replaced.progress moved⟩
  obtain ⟨old, new, up, divided, _⟩ := current.up
  exact ⟨old, new, up, divided, fun ready => absurd ready replaced.away⟩

theorem Current.next (current : p.Current) (answered : p.unanswered = []) (replaced : p.bridge.Replaced o.bridge) :
    Current { after { p with era := p.era + 1 } o mark with away, ending } := by
  obtain ⟨up, rest⟩ := append_eq_nil_iff.mp answered
  obtain ⟨pending, down⟩ := append_eq_nil_iff.mp rest
  refine ⟨Nat.le_succ_of_le current.bound, ?_, ?_, ?_, fun ready => absurd ready replaced.away,
    fun moved => absurd replaced.progress moved⟩
  · intro sent member load
    exact absurd (filterMap_eq_nil_iff.mp down sent member) load
  · intro some
    cases load : p.session.pendingLoad with
    | none => exact absurd load some
    | some load' => simp [load] at pending
  · refine ⟨p.up, [], (append_nil _).symm, ⟨?_, by simp, fun _ => rfl⟩, fun ready => absurd ready replaced.away⟩
    exact fun sent member => filterMap_eq_nil_iff.mp up sent member

theorem goes_final {fault : BridgeFault}
    (goes : Goes (.error fault) away ending) (final : fault ≠ .disconnected) : ending ≠ none := by
  cases goes with
  | lost => exact absurd rfl final
  | fails => simp

section
variable (current : p.Current)
include current

theorem Current.moves {replaces : Bool} (moves : p.bridge.Moves replaces o) :
    Current { after { p with jobs } o mark with away, ending } := by
  obtain ⟨_, _, ⟨_, replaced⟩ | ⟨alike, _⟩⟩ := moves
  · exact current.replaced replaced
  · exact current.alike alike

section
variable (front : p.up = (message, mark) :: rest)
include front

theorem Current.read :
    ∃ old new, rest = old ++ new ∧ Divided p.era p.running old new ∧
      (p.bridge.world = .ready ∨ loadedOf message ≠ none → old = [] ∧ mark.era = p.era ∧ p.running = p.era) := by
  obtain ⟨old, new, up, divided, ready⟩ := current.up
  rw [front] at up
  cases old with
  | nil =>
    refine ⟨[], rest, rfl, ⟨by simp, ?_, ?_⟩, ?_⟩
    · intro sent member
      exact divided.marked sent (by rw [← nil_append new, ← up]; exact mem_cons_of_mem _ member)
    · intro elsewhere
      cases up.trans (divided.unsent elsewhere)
    intro _
    refine ⟨rfl, divided.marked (message, mark) (by rw [← nil_append new, ← up]; exact mem_cons_self), ?_⟩
    by_contra elsewhere
    cases up.trans (divided.unsent elsewhere)
  | cons first old =>
    obtain ⟨rfl, rfl⟩ := List.cons.inj up
    refine ⟨old, new, rfl, ⟨fun sent member => divided.unloaded sent (mem_cons_of_mem _ member),
      divided.marked, divided.unsent⟩, ?_⟩
    rintro (current' | answer)
    · cases ready current'
    · exact absurd (divided.unloaded (message, mark) mem_cons_self) answer

theorem Current.after_read {described : Nat}
    (ready : o.bridge.world = .ready → p.bridge.world = .ready ∨ loadedOf message ≠ none)
    (progress : o.bridge.progress ≠ none → o.bridge.world = .ready ∧ described = p.era) :
    Current { after { p with up := rest, described } o mark with away, ending } := by
  obtain ⟨old, new, up, divided, first⟩ := current.read front
  refine ⟨current.bound, current.down, current.pending, ?_, ?_, progress⟩
  · exact ⟨old, new, up, divided, fun now => (first (ready now)).1⟩
  · exact fun now => (first (ready now)).2.2

theorem Current.reads (read : p.bridge.Read p.lost message o) (goes : Goes o.result away ending)
    (lasts : ending = none) : Current { after { p with
      up := rest
      described := if ToAgent.moves p.bridge.world message then mark.era else p.described } o mark with
    away, ending } := by
  obtain ⟨_, _, _, _, first⟩ := current.read front
  -- Nothing the bridge keeps of the world changes.
  have alike : ∀ {o : Outcome}, p.bridge.Alike o.bridge → Current { after { p with
      up := rest
      described := if ToAgent.moves p.bridge.world message then mark.era else p.described } o mark with
    away, ending } := by
    intro o alike
    refine current.after_read front (fun ready => .inl (alike.world ▸ ready)) ?_
    rw [alike.world, alike.progress]
    intro moved
    obtain ⟨ready, described⟩ := current.progress moved
    refine ⟨ready, ?_⟩
    split
    · exact (first (.inl ready)).2.1
    · exact described
  cases read with
  | stray unexpected final => exact absurd lasts (goes_final goes final)
  | @unanswered nextStep expected down =>
    refine current.after_read front (fun _ => .inr (by simp [loadedOf])) ?_
    intro moved
    have ready := (current.progress moved).1
    cases expected.symm.trans ready
  | @answered nextStep expected online =>
    have era := (first (.inr (by simp [loadedOf]))).2.1
    exact current.after_read front (fun _ => .inr (by simp [loadedOf])) (fun _ => ⟨rfl, era⟩)
  | passed online => exact current.after_read front .inl current.progress
  | dropped down => exact alike (.refl _)
  | ran ready =>
    have era := (first (.inl ready)).2.1
    apply current.after_read front .inl
    exact fun _ => ⟨ready, by simp [ToAgent.moves, ready, era]⟩
  | reported ready reports other => exact alike reports.alike
  | ingests ready => exact alike (.refl _)
  | quiet moves other =>
    obtain ⟨_, _, ⟨no, _⟩ | ⟨same, _⟩⟩ := moves
    · cases no
    · exact alike same
  | early unready => exact absurd lasts (goes_final goes (by simp))

end

theorem Current.call (call : Call loadsAnswered p o mark q)
    (goes : Goes o.result away ending) (lasts : ending = none) : Current { q.after o mark with away, ending } := by
  cases call with
  | @reads message mark rest front meant => exact current.reads front (p.bridge.readHook_read p.lost message) goes lasts
  | reports now => exact current.alike (p.bridge.reportProgress_reports p.lost now).1.alike
  | hears event now space meant =>
    have moves := p.bridge.onEvent_moves now event
    cases replaces : p.bridge.replaces event with
    | false => exact current.moves moves
    | true =>
      rw [replaces] at moves
      obtain ⟨_, _, ⟨_, replaced⟩ | ⟨_, failed⟩⟩ := moves
      · exact current.next (meant replaces) replaced
      · obtain ⟨fault, result, final⟩ := failed rfl
        rw [result] at goes
        exact absurd lasts (goes_final goes final)
  | @finishes before rest job era done waiting answers =>
    by_cases ingest : ∃ event lanes result, done = .ingested event lanes result
    · obtain ⟨event, lanes, result, rfl⟩ := ingest
      exact current.alike (p.bridge.ingested_reports p.lost event lanes result).alike
    · obtain ⟨replaces, moves, _⟩ := p.bridge.onDone_moves p.lost
        (fun event lanes result same => ingest ⟨event, lanes, result, same⟩)
      exact current.moves moves
  | checks beat now => exact current.moves (p.bridge.checkHook_moves beat now)

theorem Current.bridged (up : q.up = p.up) (session : q.session = p.session)
    (eras : q.era = p.era ∧ q.running = p.running ∧ q.ordered = p.ordered ∧ q.described = p.described)
    (down : ∀ sent ∈ q.down, loadOf sent.1 ≠ none → sent.2 = q.era)
    (world : q.bridge.world = p.bridge.world) (progress : q.bridge.progress = p.bridge.progress) : q.Current := by
  obtain ⟨era, running, ordered, described⟩ := eras
  refine ⟨by rw [era, running]; exact current.bound, down, by rw [session, ordered, era]; exact current.pending, ?_,
    by rw [world, running, era]; exact current.ready, by rw [progress, world, described, era]; exact current.progress⟩
  rw [up, era, running, world]
  exact current.up

theorem Current.replied (replies : List ToAgent) (number : Nat) (plain : ∀ reply ∈ replies, loadedOf reply = none)
    (up : q.up = p.up ++ replies.map fun reply => (reply, { era := p.running, number }))
    (eras : q.era = p.era ∧ q.running = p.running ∧ q.described = p.described) (bridge : q.bridge = p.bridge)
    (down : ∀ sent ∈ q.down, sent ∈ p.down)
    (pending : q.session.pendingLoad ≠ none → q.ordered = p.era) : q.Current := by
  obtain ⟨era, running, described⟩ := eras
  refine ⟨by rw [era, running]; exact current.bound, ?_, by rw [era]; exact pending, ?_,
    by rw [bridge, running, era]; exact current.ready, by rw [bridge, described, era]; exact current.progress⟩
  · intro sent member load
    rw [era]
    exact current.down sent (down sent member) load
  obtain ⟨old, new, before, divided, ready⟩ := current.up
  rw [up, before, era, running, bridge]
  by_cases here : p.running = p.era
  · refine ⟨old, new ++ _, append_assoc _ _ _, ⟨divided.unloaded, ?_, fun other => absurd here other⟩, ready⟩
    intro sent member
    rcases mem_append.mp member with sooner | fresh
    · exact divided.marked sent sooner
    · obtain ⟨reply, _, rfl⟩ := mem_map.mp fresh
      exact here
  · -- The game still runs a world that was replaced.
    rw [divided.unsent here, append_nil]
    refine ⟨old ++ _, [], (append_nil _).symm, ⟨?_, by simp, fun _ => rfl⟩, ?_⟩
    · intro sent member
      rcases mem_append.mp member with sooner | fresh
      · exact divided.unloaded sent sooner
      · obtain ⟨reply, inside, rfl⟩ := mem_map.mp fresh
        exact plain reply inside
    · exact fun now => absurd (current.ready now) here

theorem Current.loaded (pending : p.session.pendingLoad ≠ none) {session : Session}
    (none : session.pendingLoad = none) {world : γ} {reply : ToAgent} :
    Current { Play.replied { p with running := p.ordered } [reply] 0 with session, world } := by
  have era := current.pending pending
  refine ⟨le_of_eq era, current.down, fun some => absurd none some, ?_, fun _ => era, current.progress⟩
  obtain ⟨old, new, before, divided, ready⟩ := current.up
  refine ⟨old, new ++ [(reply, { era := p.ordered, number := 0 })], ?_,
    ⟨divided.unloaded, ?_, fun other => absurd era other⟩,
    ready⟩
  · show p.up ++ [_] = _
    rw [before, append_assoc]
  intro sent member
  rcases mem_append.mp member with sooner | fresh
  · exact divided.marked sent sooner
  · obtain rfl := mem_singleton.mp fresh
    exact era

end

theorem Current.step (current : p.ending = none → p.Current) (moved : Step game loadsAnswered p q)
    (lasts : q.ending = none) : q.Current := by
  cases moved with
  | calls here live call goes => exact (current live).call call goes lasts
  | pumps here live ran =>
    have alike := Bridge.pumped_alike ran
    exact (current live).bridged rfl rfl ⟨rfl, rfl, rfl, rfl⟩ (current live).down alike.world alike.progress
  | flushes here live front =>
    obtain ⟨_, world, progress, _⟩ := Bridge.flush_loads front
    refine (current live).bridged rfl rfl ⟨rfl, rfl, rfl, rfl⟩ ?_ world progress
    intro sent member load
    rcases mem_append.mp member with sooner | fresh
    · exact (current live).down sent sooner load
    · obtain rfl := mem_singleton.mp fresh
      rfl
  | loses => exact (current lasts).bridged rfl rfl ⟨rfl, rfl, rfl, rfl⟩ (current lasts).down rfl rfl
  | rejoins gone => exact (current lasts).bridged rfl rfl ⟨rfl, rfl, rfl, rfl⟩ (current lasts).down rfl rfl
  | attaches build fresh =>
    exact (current lasts).replied [_] 0 (by simp [loadedOf]) rfl ⟨rfl, rfl, rfl⟩ rfl (fun _ member => member)
      (current lasts).pending
  | greets stage front greeted =>
    exact (current lasts).replied [] 0 (by simp) (append_nil _).symm ⟨rfl, rfl, rfl⟩ rfl
      (fun _ member => by rw [front]; exact mem_cons_of_mem _ member) (current lasts).pending
  | begins stage front waited =>
    obtain ⟨_, pending, _⟩ := Session.waitForBegin_ok waited
    refine (current lasts).replied [] 0 (by simp) (append_nil _).symm ⟨rfl, rfl, rfl⟩ rfl
      (fun _ member => by rw [front]; exact mem_cons_of_mem _ member) ?_
    rw [pending]
    exact (current lasts).pending
  | @handles message era rest session world replies stage waits front handled =>
    obtain ⟨_, plain, pending⟩ := Session.handle_ok handled
    refine (current lasts).replied _ 0 (fun reply inside => (plain reply inside).unloaded) rfl ⟨rfl, rfl, rfl⟩ rfl
      (fun _ member => by rw [front]; exact mem_cons_of_mem _ member) ?_
    -- Only a load makes one pending, and it came in this era.
    intro some
    apply (current lasts).down (message, era) (by rw [front]; exact mem_cons_self)
    intro none
    rw [Session.stepGate_wait waits, none] at pending
    exact some (Option.map_eq_none_iff.mp pending)
  | loads world stage due loaded =>
    obtain ⟨pending, none, _, rfl⟩ := Session.loaded_ok loaded
    exact (current lasts).loaded (fun absent => by simp [absent] at pending) none
  | runs world stage may stepped =>
    obtain ⟨pending, _, plain⟩ := Session.afterStep_ok stepped
    refine (current lasts).replied _ 0 (fun reply inside => (plain reply inside).unloaded) rfl ⟨rfl, rfl, rfl⟩ rfl
      (fun _ member => member) ?_
    rw [pending]
    exact (current lasts).pending
  | commands stage handed =>
    cases handed
    exact (current lasts).replied [_] _ (by simp [loadedOf]) rfl ⟨rfl, rfl, rfl⟩ rfl (fun _ member => member)
      (current lasts).pending
  | chats stage =>
    exact (current lasts).replied [_] 0 (by simp [loadedOf]) rfl ⟨rfl, rfl, rfl⟩ rfl (fun _ member => member)
      (current lasts).pending
  | logs stage =>
    exact (current lasts).replied [_] 0 (by simp [loadedOf]) rfl ⟨rfl, rfl, rfl⟩ rfl (fun _ member => member)
      (current lasts).pending

theorem Reaches.current (reached : Reaches game loadsAnswered p) (lasts : p.ending = none) : p.Current := by
  induction reached with
  | start options beat now world =>
    refine ⟨le_rfl, by simp [begun], fun _ => rfl, ⟨[], [], rfl, ?_, fun _ => rfl⟩, fun _ => rfl,
      by simp [begun, Bridge.new]⟩
    exact ⟨by simp, by simp, fun _ => rfl⟩
  | step before moved ih => exact Current.step ih moved lasts

theorem Current.marks
    (current : p.Current) (front : p.up = (message, mark) :: rest) (read : p.bridge.Read p.lost message o) :
    ∀ effect ∈ o.effects, effect.tells = true → mark.era = p.era := by
  obtain ⟨_, _, _, _, first⟩ := current.read front
  intro effect inside tells
  cases read with
  | stray | unanswered | dropped | early => cases inside
  | answered => exact (first (.inr (by simp [loadedOf]))).2.1
  | passed =>
    rw [mem_singleton.mp inside] at tells
    cases tells
  | ran ready | reported ready | ingests ready => exact (first (.inl ready)).2.1
  | quiet moves => exact absurd tells (moves.1.untold inside)

structure Told (p : Play γ) : Prop where
  jobs : p.ending = none → ∀ job ∈ p.jobs, job.1.isIngest = true → job.2 = p.era
  told : ∀ report ∈ p.passed, isReport report.message = true → report.mark.era = report.era

theorem told_after (told : p.Told) (passed : q.passed = p.passed)
    (marked : ∀ effect ∈ o.effects, effect.tells = true → mark.era = q.era)
    (jobs : ∀ job ∈ q.jobs, job.1.isIngest = true → job.2 = q.era) : Told { q.after o mark with away, ending } := by
  refine ⟨fun _ job member ingest => ?_, fun report member about => ?_⟩
  · rcases mem_append.mp member with old | fresh
    · exact jobs job old ingest
    · obtain ⟨effect, inside, rfl⟩ := mem_map.mp fresh
      apply marked effect (mem_filter.mp inside).1
      cases effect <;> first | rfl | cases ingest
  · rcases mem_append.mp member with old | fresh
    · exact told.told report (passed ▸ old) about
    obtain ⟨message, sent, rfl⟩ := mem_map.mp fresh
    obtain ⟨effect, inside, found⟩ := mem_filterMap.mp sent
    cases effect with
    | send other =>
      cases found
      exact marked _ inside about
    | _ => cases found

theorem Told.call (told : p.Told) (current : p.Current) (live : p.ending = none)
    (call : Call reportsSettled p o mark q) : Told { q.after o mark with away, ending } := by
  have jobs := told.jobs live
  cases call with
  | @reads message mark rest front meant =>
    exact told_after told rfl (current.marks front (p.bridge.readHook_read p.lost message)) jobs
  | reports now =>
    refine told_after told rfl (fun effect inside _ => ?_) jobs
    refine (current.progress fun none => ?_).2
    rw [(p.bridge.reportProgress_reports p.lost now).2 none] at inside
    cases inside
  | hears event now space meant =>
    refine told_after told rfl (fun effect inside tells => ?_) (fun job waiting ingest => ?_)
    · exact absurd tells ((p.bridge.onEvent_moves now event).1.untold inside)
    cases replaces : p.bridge.replaces event with
    | false => exact jobs job waiting ingest
    | true =>
      rw [(meant replaces).2 job waiting] at ingest
      cases ingest
  | @finishes before rest job era done waiting answers =>
    have left : ∀ other ∈ before ++ rest, other.1.isIngest = true → other.2 = p.era := by
      intro other member
      apply jobs other
      rw [waiting]
      rcases mem_append.mp member with sooner | later
      · exact mem_append_left _ sooner
      · exact mem_append_right _ (mem_cons_of_mem _ later)
    refine told_after told rfl (fun effect inside tells => ?_) left
    by_cases ingest : ∃ event lanes result, done = .ingested event lanes result
    · obtain ⟨event, lanes, result, rfl⟩ := ingest
      apply jobs (job, era) (by simp [waiting])
      cases job <;> first | rfl | cases answers
    · obtain ⟨replaces, moves, _⟩ := p.bridge.onDone_moves p.lost
        (fun event lanes result same => ingest ⟨event, lanes, result, same⟩)
      exact absurd tells (moves.1.untold inside)
  | checks beat now =>
    exact told_after told rfl (fun effect inside tells =>
      absurd tells ((p.bridge.checkHook_moves beat now).1.untold inside)) jobs

theorem Told.step (told : p.Told) (current : p.ending = none → p.Current)
    (moved : Step game reportsSettled p q) : q.Told := by
  cases moved with
  | calls here live call goes => exact told.call (current live) live call
  | _ => exact ⟨told.jobs, told.told⟩

theorem Step.mono {scope wider : Scope γ} (within : ∀ p input, scope p input → wider p input)
    (moved : Step game scope p q) : Step game wider p q := by
  cases moved with
  | calls here live call goes =>
    refine .calls here live ?_ goes
    cases call with
    | reads front meant => exact .reads front (within _ _ meant)
    | reports now => exact .reports now
    | hears event now space meant => exact .hears event now space (within _ _ meant)
    | finishes before done waiting answers => exact .finishes before done waiting answers
    | checks beat now => exact .checks beat now
  | pumps here live ran => exact .pumps here live ran
  | flushes here live front => exact .flushes here live front
  | loses => exact .loses
  | rejoins gone => exact .rejoins gone
  | attaches build fresh => exact .attaches build fresh
  | greets stage front greeted => exact .greets stage front greeted
  | begins stage front waited => exact .begins stage front waited
  | handles stage waits front handled => exact .handles stage waits front handled
  | loads world stage due loaded => exact .loads world stage due loaded
  | runs world stage may stepped => exact .runs world stage may stepped
  | commands stage handed => exact .commands stage handed
  | chats stage => exact .chats stage
  | logs stage => exact .logs stage

theorem Reaches.mono {scope wider : Scope γ} (within : ∀ p input, scope p input → wider p input)
    (reached : Reaches game scope p) : Reaches game wider p := by
  induction reached with
  | start options beat now world => exact .start options beat now world
  | step before moved ih => exact .step ih (moved.mono within)

theorem reportsSettled_answered (p : Play γ) (input : Input) (settled : reportsSettled p input) :
    loadsAnswered p input := by
  cases input with
  | read message => trivial
  | hear event => exact fun replaces => (settled replaces).1

/-- As long as no world is replaced over an unanswered load or an unfinished save, every report
describes the world of the era it is sent in. -/
theorem reports_current {p : Play γ} (reached : Reaches game reportsSettled p) :
    ∀ report ∈ p.passed, isReport report.message = true → report.mark.era = report.era := by
  have told : p.Told := by
    induction reached with
    | start options beat now world => exact ⟨by simp [begun], by simp [begun]⟩
    | step before moved ih => exact ih.step (before.mono reportsSettled_answered).current moved
  exact told.told

theorem reports_current_replaced : ∃ p, Reaches plainGame reportsSettled p ∧ p.passed.map Passed.era = [1, 2] ∧
    ∀ report ∈ p.passed, isReport report.message = true → report.mark.era = report.era := by
  obtain ⟨p, reached, _, _, eras⟩ := @reaches_replaced reportsSettled (fun _ _ _ => trivial)
    fun _ _ answered done _ => ⟨answered, by simp [done]⟩
  exact ⟨p, reached, eras, reports_current reached⟩

/-- A save the agent is still taking in when the room replaces the world is reported afterwards. -/
theorem late_save_describes_replaced_world : ∃ p : Play Unit, Reaches plainGame anything p ∧
    ∃ report ∈ p.passed, (∃ event lanes world, report.message = .saved event lanes world) ∧
      report.era = 2 ∧ report.mark.era = 1 ∧
      ∃ offer nextStep attempt, p.bridge.world = .fetching offer nextStep attempt := by
  let save : Turn := ⟨1, 0, .normal, [⟨1, 1, .save⟩]⟩
  have ready : Reaches plainGame anything readyPlay := reaches_ready (fun _ _ _ => trivial) (fun _ _ _ _ => trivial)
  have turned := ready.step (.calls rfl rfl (.hears (.turn save) 0 rfl trivial) .on)
  have pumped := turned.step (.pumps rfl rfl (show Bridge.pumped _ 2 0 = some _ from rfl))
  have flushed := pumped.step (.flushes rfl rfl rfl)
  have saved := flushed.step (.handles rfl rfl rfl rfl)
  have handedOff := saved.step (.calls rfl rfl (.reads rfl trivial) .on)
  have replaced := handedOff.step
    (.calls rfl rfl (.hears (.turnStream (streamOf (some someWorld))) 0 rfl trivial) .on)
  have reported := replaced.step (.calls rfl rfl (.finishes []
    (.ingested 1 [] (.ok (someWorld.snapshot, { snapshot := someWorld.snapshot, size := 0 }))) rfl ⟨rfl, rfl⟩) .on)
  exact ⟨_, reported, _, mem_cons_of_mem _ mem_cons_self, ⟨_, _, _, rfl⟩, rfl, rfl, _, _, _, rfl⟩

end Play

end Tpf3Mp.Agent
