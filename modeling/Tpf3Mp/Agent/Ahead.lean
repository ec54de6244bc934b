import Tpf3Mp.Agent.Reports

/-!
What a progress report promises. As long as no load is overtaken, a report that the bridge passed on
in its present era names a step that the game has reached in the world of that era.
-/

namespace Tpf3Mp.Bridge
open Proto List

def ToAgent.reach : ToAgent → Nat
  | .loaded nextStep => nextStep - 1
  | .ran step => step
  | _ => 0

namespace Session
variable {γ : Type} {game : Game γ}

/-- The last step the game ran, or that its world was saved after. -/
def reached (s : Session) : Nat := s.gate.nextStep - 1

variable {s : Session} {message : ToHook} {t : Session} {replies : List ToAgent}

theorem onMessage_nextStep {gate gate' : Gate} {gated : Gated}
    (taken : gate.onMessage message = .ok (gated, gate')) : gate'.nextStep = gate.nextStep := by
  unfold Gate.onMessage at taken
  split at taken
  · cases taken
  cases message <;> dsimp only at taken
  case apply event =>
    repeat' split at taken
    all_goals cases taken
    rfl
  case release through =>
    split at taken
    all_goals cases taken
    rfl
  all_goals cases taken
  all_goals rfl

theorem save_reach (world : γ) (event : Nat) : ∀ reply ∈ save game world event, reply.reach = 0 := by
  intro reply member
  unfold save at member
  split at member
  · obtain rfl := mem_singleton.mp member
    rfl
  simp only [mem_cons, not_mem_nil, or_false] at member
  rcases member with rfl | rfl
  · rfl
  · rfl

theorem handle_reach {world world' : γ} (handled : s.handle game world message = .ok (t, world', replies)) :
    t.reached = s.reached ∧ ∀ reply ∈ replies, reply.reach = 0 := by
  unfold handle at handled
  split at handled
  · cases handled
  · next event gate gated =>
    split at handled
    · cases handled
      exact ⟨by simp only [reached, onMessage_nextStep gated], save_reach _ _⟩
    · cases handled
      exact ⟨by simp only [reached, onMessage_nextStep gated], by simp⟩
  all_goals
    next gated =>
      cases handled
      exact ⟨by simp only [reached, onMessage_nextStep gated], by simp⟩

theorem loaded_reach {nextStep : Nat} (loaded : s.loaded nextStep = .ok (t, replies)) : t.reached = nextStep - 1 := by
  unfold Session.loaded at loaded
  split at loaded
  · cases loaded
  split at loaded
  · cases loaded
  · cases loaded
    rfl

theorem afterStep_reach {world : γ} (stepped : s.afterStep game world = .ok (t, replies)) :
    s.reached ≤ t.reached ∧ ∀ reply ∈ replies, reply.reach ≤ t.reached := by
  unfold afterStep Gate.ran at stepped
  split at stepped
  · cases stepped
  rename_i step gate ran
  split at ran
  · cases ran
    cases stepped
    refine ⟨Nat.sub_le_sub_right (Nat.le_succ _) 1, ?_⟩
    intro reply member
    rcases mem_cons.mp member with rfl | member
    · exact le_rfl
    split at member
    · obtain rfl := mem_singleton.mp member
      exact Nat.zero_le _
    · cases member
  · cases ran

theorem waitForBegin_reach {begun : Option Session}
    (waited : s.waitForBegin message = .ok begun) : (begun.getD s).reached = s.reached := by
  cases message <;> cases waited
  all_goals rfl

end Session

end Tpf3Mp.Bridge

namespace Tpf3Mp.Agent
open Proto Tpf3Mp.Bridge List
open Server (Instant)

def World.fetches : World → Bool
  | .fetching .. => true
  | _ => false

namespace Bridge

variable {b : Bridge} {lost : Bool} {step : Nat}

theorem readHook_progress {message : ToAgent}
    (sent : .send (.progress step) ∈ (b.readHook lost message).effects) : ∃ nextStep, message = .loaded nextStep := by
  cases message with
  | loaded nextStep => exact ⟨nextStep, rfl⟩
  | hello version build =>
    simp only [readHook, fault, done] at sent
    repeat' split at sent
    all_goals cases sent
  | command | ran | checkpoint | saved | chat | log =>
    simp only [readHook, savedWorld, send, fault, done] at sent
    repeat' split at sent
    all_goals simp at sent

theorem reportProgress_progress {now : Instant}
    (sent : .send (.progress step) ∈ (b.reportProgress lost now).effects) : b.progress = some step := by
  unfold reportProgress at sent
  split at sent
  · cases sent
  rename_i progress known
  rw [known]
  simp only [send, fault, done] at sent
  repeat' split at sent
  all_goals simp at sent
  all_goals exact congrArg some sent.symm

theorem onDone_progress {done : Done} : .send (.progress step) ∉ (b.onDone lost done).effects := by
  intro sent
  by_cases ingest : ∃ event lanes result, done = .ingested event lanes result
  · obtain ⟨event, lanes, result, rfl⟩ := ingest
    cases result with
    | error reason =>
      simp only [onDone, send, fault, Bridge.done] at sent
      split at sent <;> simp at sent
    | ok kept =>
      simp only [onDone, send, fault, Bridge.done, tidy] at sent
      repeat' split at sent
      all_goals simp at sent
  · obtain ⟨_, moves, _⟩ := b.onDone_moves lost fun event lanes result same => ingest ⟨event, lanes, result, same⟩
    cases (moves.1 _ sent).1

end Bridge

namespace Play
variable {γ : Type} {game : Game γ}

def loading (p : Play γ) : List Nat :=
  (p.session.pendingLoad.map Load.nextStep).toList ++ p.down.filterMap (loadOf ·.1)

/-- While the session lasts, messages and progress of the world the game runs name steps it reached. -/
structure Ahead (p : Play γ) : Prop where
  fresh : p.running = p.era → p.loading = [] ∧ p.bridge.loads = [] ∧ p.bridge.world.fetches = false
  marks : ∀ sent ∈ p.up, sent.2.era ≤ p.running
  up : ∀ sent ∈ p.up, sent.2.era = p.running → sent.1.reach ≤ p.session.reached
  progress : ∀ step, p.bridge.progress = some step → step ≤ p.session.reached

/-- A report of this era is one of a step the game reached in the world of the era. -/
structure Backs (p : Play γ) (report : Passed) : Prop where
  era : report.era ≤ p.era
  step : report.era = p.era → ∀ step, report.message = .progress step →
    p.running = p.era ∧ step ≤ p.session.reached ∧ p.loading = []

structure Reached (p : Play γ) : Prop where
  ahead : p.ending = none → p.Ahead
  passed : ∀ report ∈ p.passed, p.Backs report

variable {p : Play γ} {o : Outcome} {mark : Mark} {away : Bool} {ending : Option (Except BridgeFault BridgeEnd)}
  {q : Play γ}

theorem reached_after (ahead : ending = none → Ahead { q.after o mark with away, ending })
    (passed : ∀ report ∈ q.passed, q.Backs report)
    (sends : ∀ step, .send (.progress step) ∈ o.effects → q.running = q.era ∧ step ≤ q.session.reached ∧
      q.loading = []) : Reached { q.after o mark with away, ending } := by
  refine ⟨ahead, fun report member => ?_⟩
  rcases mem_append.mp member with old | fresh
  · exact ⟨(passed report old).era, (passed report old).step⟩
  obtain ⟨message, sent, rfl⟩ := mem_map.mp fresh
  refine ⟨le_rfl, ?_⟩
  rintro _ step rfl
  obtain ⟨effect, inside, found⟩ := mem_filterMap.mp sent
  cases effect with
  | send other =>
    cases found
    exact sends step inside
  | _ => cases found

theorem Ahead.alike {up : List (ToAgent × Mark)} {jobs : List (Effect × Nat)} {described : Nat} (ahead : p.Ahead)
    (rest : ∀ sent ∈ up, sent ∈ p.up) (alike : p.bridge.Alike o.bridge) :
    Ahead { after { p with up, jobs, described } o mark with away, ending } := by
  refine ⟨?_, fun sent member => ahead.marks sent (rest sent member),
    fun sent member => ahead.up sent (rest sent member), ?_⟩
  · show p.running = p.era → p.loading = [] ∧ o.bridge.loads = [] ∧ o.bridge.world.fetches = false
    rw [alike.loads, alike.world]
    exact ahead.fresh
  · show ∀ step, o.bridge.progress = some step → step ≤ p.session.reached
    rw [alike.progress]
    exact ahead.progress

theorem Ahead.replaced {jobs : List (Effect × Nat)} {era : Nat} (ahead : p.Ahead) (elsewhere : p.running ≠ era)
    (replaced : p.bridge.Replaced o.bridge) : Ahead { after { p with jobs, era } o mark with away, ending } := by
  refine ⟨fun here => absurd here elsewhere, ahead.marks, ahead.up, fun step moved => ?_⟩
  have none := replaced.progress
  change o.bridge.progress = some step at moved
  cases none.symm.trans moved

theorem Ahead.reads {message : ToAgent} {rest : List (ToAgent × Mark)}
    {described : Nat} (ahead : p.Ahead) (current : p.Current)
    (front : p.up = (message, mark) :: rest) (read : p.bridge.Read p.lost message o) :
    Ahead { after { p with up := rest, described } o mark with away, ending } := by
  have later : ∀ sent ∈ rest, sent ∈ p.up := fun sent member => by
    rw [front]
    exact mem_cons_of_mem _ member
  have here : (message, mark) ∈ p.up := by
    rw [front]
    exact mem_cons_self
  obtain ⟨_, _, _, _, first⟩ := current.read front
  -- The bridge takes its progress from a message about the world the game runs.
  have moved (told : p.bridge.world = .ready ∨ loadedOf message ≠ none) : message.reach ≤ p.session.reached := by
    obtain ⟨_, era, running⟩ := first told
    exact ahead.up _ here (era.trans running.symm)
  have marks : ∀ sent ∈ rest, sent.2.era ≤ p.running := fun sent member => ahead.marks sent (later sent member)
  have up : ∀ sent ∈ rest, sent.2.era = p.running → sent.1.reach ≤ p.session.reached :=
    fun sent member => ahead.up sent (later sent member)
  cases read with
  | stray | early | dropped => exact ahead.alike later (.refl _)
  | unanswered expected =>
    exact ⟨fun era => ⟨(ahead.fresh era).1, (ahead.fresh era).2.1, rfl⟩, marks, up, ahead.progress⟩
  | answered expected =>
    refine ⟨fun era => ⟨(ahead.fresh era).1, (ahead.fresh era).2.1, rfl⟩, marks, up, ?_⟩
    rintro step ⟨⟩
    exact moved (.inr (by simp [loadedOf]))
  | passed online => exact ⟨ahead.fresh, marks, up, ahead.progress⟩
  | ran ready =>
    refine ⟨ahead.fresh, marks, up, ?_⟩
    rintro step ⟨⟩
    exact moved (.inl ready)
  | reported ready reports other => exact ahead.alike later reports.alike
  | ingests ready => exact ahead.alike later (.refl _)
  | quiet moves other =>
    obtain ⟨_, _, ⟨no, _⟩ | ⟨same, _⟩⟩ := moves
    · cases no
    · exact ahead.alike later same

section
variable (reached : p.Reached)
include reached

theorem Reached.call (current : p.Current) (live : p.ending = none)
    (call : Call loadsAnswered p o mark q) : Reached { q.after o mark with away, ending } := by
  have ahead := reached.ahead live
  have passed : ∀ report ∈ p.passed, p.Backs report := reached.passed
  have whole : ∀ sent ∈ p.up, sent ∈ p.up := fun _ member => member
  cases call with
  | @reads message mark rest front meant =>
    refine reached_after (fun _ => ahead.reads current front (p.bridge.readHook_read p.lost message))
      (fun report member => ⟨(passed report member).era, (passed report member).step⟩) (fun step sent => ?_)
    obtain ⟨nextStep, rfl⟩ := Bridge.readHook_progress sent
    obtain ⟨_, _, _, _, first⟩ := current.read front
    obtain ⟨_, era, running⟩ := first (.inr (by simp [loadedOf]))
    refine ⟨running, ?_, (ahead.fresh running).1⟩
    have reach := ahead.up _ (by rw [front]; exact mem_cons_self) (era.trans running.symm)
    have read := p.bridge.readHook_read p.lost (.loaded nextStep)
    generalize p.bridge.readHook p.lost (.loaded nextStep) = o at read sent
    cases read with
    | answered =>
      cases mem_singleton.mp sent
      exact reach
    | reported _ _ other => cases other.unloaded
    | quiet moves => cases (moves.1 _ sent).1
    | stray | unanswered | early => cases sent
  | reports now =>
    refine reached_after (fun _ => ahead.alike whole (p.bridge.reportProgress_reports p.lost now).1.alike) passed
      (fun step sent => ?_)
    have known := Bridge.reportProgress_progress sent
    have running := current.ready (current.progress (by simp [known])).1
    exact ⟨running, ahead.progress step known, (ahead.fresh running).1⟩
  | hears event now space meant =>
    have moves := p.bridge.onEvent_moves now event
    have silent := moves.1
    have unsent : ∀ step, .send (.progress step) ∉ (p.bridge.onEvent now event).effects := by
      intro step sent
      cases (silent _ sent).1
    cases replaces : p.bridge.replaces event with
    | false =>
      rw [replaces] at moves
      obtain ⟨_, _, ⟨no, _⟩ | ⟨alike, _⟩⟩ := moves
      · cases no
      · exact reached_after (fun _ => ahead.alike whole alike) passed (fun step sent => absurd sent (unsent step))
    | true =>
      have older : ∀ report ∈ p.passed, Backs { p with era := p.era + 1 } report := by
        intro report member
        have era := (passed report member).era
        refine ⟨Nat.le_succ_of_le era, fun now => ?_⟩
        change report.era = p.era + 1 at now
        omega
      have elsewhere : p.running ≠ p.era + 1 := by
        have bound := current.bound
        omega
      refine reached_after (fun _ => ?_) older (fun step sent => absurd sent (unsent step))
      obtain ⟨_, _, ⟨_, replaced⟩ | ⟨alike, _⟩⟩ := moves
      · exact ahead.replaced elsewhere replaced
      refine ⟨fun here => absurd here elsewhere, ahead.marks, ahead.up, ?_⟩
      show ∀ step, (p.bridge.onEvent now event).bridge.progress = some step → step ≤ p.session.reached
      rw [alike.progress]
      exact ahead.progress
  | @finishes before rest job era done waiting answers =>
    refine reached_after (fun _ => ?_) (fun report member => ⟨(passed report member).era, (passed report member).step⟩)
      (fun step sent => absurd sent Bridge.onDone_progress)
    by_cases ingest : ∃ event lanes result, done = .ingested event lanes result
    · obtain ⟨event, lanes, result, rfl⟩ := ingest
      exact ahead.alike whole (p.bridge.ingested_reports p.lost event lanes result).alike
    obtain ⟨replaces, moves, fetching⟩ := p.bridge.onDone_moves p.lost
      (fun event lanes result same => ingest ⟨event, lanes, result, same⟩)
    obtain ⟨_, _, ⟨replacing, replaced⟩ | ⟨alike, _⟩⟩ := moves
    · obtain ⟨offer, nextStep, attempt, world⟩ := fetching replacing
      refine ahead.replaced (fun here => ?_) replaced
      have idle := (ahead.fresh here).2.2
      rw [world] at idle
      cases idle
    · exact ahead.alike whole alike
  | checks beat now =>
    obtain ⟨silent, _, ⟨no, _⟩ | ⟨alike, _⟩⟩ := p.bridge.checkHook_moves beat now
    · cases no
    · refine reached_after (fun _ => ahead.alike whole alike) passed (fun step sent => ?_)
      cases (silent _ sent).1

theorem Reached.replied (replies : List ToAgent) (number : Nat)
    (up : q.up = p.up ++ replies.map fun reply => (reply, { era := p.running, number }))
    (further : p.session.reached ≤ q.session.reached) (reach : ∀ reply ∈ replies, reply.reach ≤ q.session.reached)
    (eras : q.era = p.era ∧ q.running = p.running) (loading : q.loading = p.loading)
    (rest : q.bridge = p.bridge ∧ q.ending = p.ending ∧ q.passed = p.passed) : q.Reached := by
  obtain ⟨era, running⟩ := eras
  obtain ⟨bridge, ending, passed⟩ := rest
  refine ⟨fun lasts => ?_, fun report member => ?_⟩
  · have ahead := reached.ahead (ending ▸ lasts)
    refine ⟨?_, ?_, ?_, ?_⟩
    · rw [era, running, loading, bridge]
      exact ahead.fresh
    · rw [up, running]
      intro sent member
      rcases mem_append.mp member with sooner | fresh
      · exact ahead.marks sent sooner
      · obtain ⟨reply, _, rfl⟩ := mem_map.mp fresh
        exact le_rfl
    · rw [up, running]
      intro sent member same
      rcases mem_append.mp member with sooner | fresh
      · exact le_trans (ahead.up sent sooner same) further
      · obtain ⟨reply, inside, rfl⟩ := mem_map.mp fresh
        exact reach reply inside
    · rw [bridge]
      intro step moved
      exact le_trans (ahead.progress step moved) further
  · rw [passed] at member
    have backs := reached.passed report member
    refine ⟨by rw [era]; exact backs.era, ?_⟩
    rw [era, running, loading]
    intro now step same
    obtain ⟨here, low, none⟩ := backs.step now step same
    exact ⟨here, le_trans low further, none⟩

theorem Reached.loaded (current : p.ending = none → p.Current)
    (matched : p.Matched) {load : Load} {session : Session} {replies : List ToAgent} (world : γ)
    (loaded : p.session.loaded load.nextStep = .ok (session, replies)) :
    Reached { Play.replied { p with running := p.ordered } replies 0 with session, world } := by
  obtain ⟨pending, none, _, rfl⟩ := Session.loaded_ok loaded
  have reach := Session.loaded_reach loaded
  have busy : p.loading ≠ [] := by
    rw [Play.loading, pending]
    simp
  refine ⟨fun lasts => ?_, fun report member => ?_⟩
  · have ahead := reached.ahead lasts
    have era := (current lasts).pending (fun absent => by simp [absent] at pending)
    have elsewhere : p.running ≠ p.era := fun here => busy (ahead.fresh here).1
    have older : p.running < p.ordered := by
      have bound := (current lasts).bound
      omega
    -- The load was the only one under way.
    have alone := matched.loads lasts
    have single : (p.unanswered ++ p.bridge.loads).length ≤ 1 := by
      rw [alone]
      cases p.bridge.world <;> simp [World.expects]
    have waiting : p.bridge.world.fetches = false := by
      cases at_ : p.bridge.world with
      | fetching offer nextStep attempt =>
        rw [at_] at alone
        have empty := (append_eq_nil_iff.mp alone).1
        exact absurd (append_eq_nil_iff.mp empty).2 busy
      | _ => rfl
    rw [unanswered, pending] at single
    simp only [Option.toList_some, length_append, length_singleton] at single
    refine ⟨fun _ => ⟨?_, eq_nil_of_length_eq_zero (l := p.bridge.loads) (by omega), waiting⟩, ?_, ?_, ?_⟩
    · show (session.pendingLoad.map Load.nextStep).toList ++ p.down.filterMap (loadOf ·.1) = []
      rw [none, eq_nil_of_length_eq_zero (l := p.down.filterMap (loadOf ·.1)) (by omega)]
      rfl
    · intro sent member
      rcases mem_append.mp member with sooner | fresh
      · exact le_of_lt (lt_of_le_of_lt (ahead.marks sent sooner) older)
      · cases mem_singleton.mp fresh
        exact le_rfl
    · intro sent member same
      rcases mem_append.mp member with sooner | fresh
      · have bound := ahead.marks sent sooner
        change sent.2.era = p.ordered at same
        exact absurd same (Nat.ne_of_lt (lt_of_le_of_lt bound older))
      · cases mem_singleton.mp fresh
        exact le_of_eq reach.symm
    · intro step moved
      exact absurd ((current lasts).ready ((current lasts).progress (by
        change p.bridge.progress = some step at moved
        simp [moved])).1) elsewhere
  · have backs := reached.passed report member
    refine ⟨backs.era, fun now step same => ?_⟩
    exact absurd (backs.step now step same).2.2 busy

theorem Reached.step (current : p.ending = none → p.Current) (matched : p.Matched)
    (moved : Step game loadsAnswered p q) : q.Reached := by
  cases moved with
  | calls here live call goes => exact reached.call (current live) live call
  | pumps here live ran =>
    have alike := Bridge.pumped_alike ran
    refine ⟨fun lasts => ?_, fun report member =>
      ⟨(reached.passed report member).era, (reached.passed report member).step⟩⟩
    have ahead := reached.ahead live
    refine ⟨?_, ahead.marks, ahead.up, ?_⟩
    · rw [alike.loads, alike.world]
      exact ahead.fresh
    · rw [alike.progress]
      exact ahead.progress
  | @flushes message bridge here live front =>
    obtain ⟨loads, world, progress, _⟩ := Bridge.flush_loads front
    have ahead := reached.ahead live
    -- Nothing is left to load of the world the game runs.
    have still (here : p.running = p.era) :
        loading { p with bridge, down := p.down ++ [(message, p.era)] } = [] ∧ bridge.loads = [] := by
      obtain ⟨idle, empty, _⟩ := ahead.fresh here
      rw [loads] at empty
      obtain ⟨plain, empty⟩ := append_eq_nil_iff.mp empty
      refine ⟨?_, empty⟩
      have none : loadOf message = none := by simpa using plain
      rw [← idle]
      simp [Play.loading, none]
    refine ⟨fun lasts => ⟨fun here => ?_, ahead.marks, ahead.up, ?_⟩, fun report member => ?_⟩
    · refine ⟨(still here).1, (still here).2, ?_⟩
      rw [world]
      exact (ahead.fresh here).2.2
    · rw [progress]
      exact ahead.progress
    have backs := reached.passed report member
    refine ⟨backs.era, fun now step same => ?_⟩
    obtain ⟨running, low, _⟩ := backs.step now step same
    exact ⟨running, low, (still running).1⟩
  | loses => exact reached.replied [] 0 (append_nil _).symm le_rfl (by simp) ⟨rfl, rfl⟩ rfl ⟨rfl, rfl, rfl⟩
  | rejoins gone => exact reached.replied [] 0 (append_nil _).symm le_rfl (by simp) ⟨rfl, rfl⟩ rfl ⟨rfl, rfl, rfl⟩
  | attaches build fresh =>
    exact reached.replied [_] 0 rfl le_rfl (by simp [ToAgent.reach]) ⟨rfl, rfl⟩ rfl ⟨rfl, rfl, rfl⟩
  | greets stage front greeted =>
    refine reached.replied [] 0 (append_nil _).symm le_rfl (by simp) ⟨rfl, rfl⟩ ?_ ⟨rfl, rfl, rfl⟩
    simp only [loading]
    rw [front, filterMap_cons, Session.greeted_ok greeted]
  | begins stage front waited =>
    obtain ⟨plain, pending, _⟩ := Session.waitForBegin_ok waited
    refine reached.replied [] 0 (append_nil _).symm (le_of_eq (Session.waitForBegin_reach waited).symm) (by simp)
      ⟨rfl, rfl⟩ ?_ ⟨rfl, rfl, rfl⟩
    simp only [loading]
    rw [front, filterMap_cons, plain, pending]
  | handles stage waits front handled =>
    obtain ⟨_, _, pending⟩ := Session.handle_ok handled
    obtain ⟨same, zero⟩ := Session.handle_reach handled
    refine reached.replied _ 0 rfl (le_of_eq same.symm) (fun reply inside => by simp [zero reply inside]) ⟨rfl, rfl⟩ ?_
      ⟨rfl, rfl, rfl⟩
    simp only [loading]
    rw [front, filterMap_cons, pending, Session.stepGate_wait waits]
    cases loadOf _ <;> rfl
  | loads world stage due loaded => exact reached.loaded current matched world loaded
  | runs world stage may stepped =>
    obtain ⟨pending, _, _⟩ := Session.afterStep_ok stepped
    obtain ⟨further, reach⟩ := Session.afterStep_reach stepped
    refine reached.replied _ 0 rfl further reach ⟨rfl, rfl⟩ ?_ ⟨rfl, rfl, rfl⟩
    simp only [loading]
    rw [pending]
    rfl
  | commands stage handed =>
    cases handed
    exact reached.replied [_] _ rfl le_rfl (by simp [ToAgent.reach]) ⟨rfl, rfl⟩ rfl ⟨rfl, rfl, rfl⟩
  | chats stage => exact reached.replied [_] 0 rfl le_rfl (by simp [ToAgent.reach]) ⟨rfl, rfl⟩ rfl ⟨rfl, rfl, rfl⟩
  | logs stage => exact reached.replied [_] 0 rfl le_rfl (by simp [ToAgent.reach]) ⟨rfl, rfl⟩ rfl ⟨rfl, rfl, rfl⟩

end

theorem Reaches.reached (run : Reaches game loadsAnswered p) : p.Reached := by
  induction run with
  | start options beat now world =>
    refine ⟨fun _ => ⟨fun _ => ⟨rfl, rfl, rfl⟩, by simp [begun], by simp [begun], by simp [begun, Bridge.new]⟩,
      by simp [begun]⟩
  | step before moved ih => exact ih.step before.current before.matched moved

end Play

end Tpf3Mp.Agent
