import Tpf3Mp.Agent.Play

/-!
What the bridge is told of worlds. A load is answered by one `loaded`, and the bridge keeps the step of
the load it waits for; both fit only while no load is overtaken by another.
-/

namespace Tpf3Mp.Agent
open Proto Tpf3Mp.Bridge List
open Server (Instant)

def World.expects : World → List Nat
  | .loading nextStep => [nextStep]
  | _ => []

def Misplaced : Except BridgeFault (Option BridgeEnd) → Prop
  | .error (.unexpected what) => what = "a world nobody ordered"
  | .error (.loadedElsewhere _ _) => True
  | _ => False

namespace Bridge

def loads (b : Bridge) : List Nat := b.outbox.messages.filterMap loadOf

/-- The same in what concerns the world and the commands. -/
structure Alike (b c : Bridge) : Prop where
  world : c.world = b.world
  loads : c.loads = b.loads
  progress : c.progress = b.progress
  commands : c.commands = b.commands

/-- Effects that tell nothing of a world. -/
def Silent (effects : List Effect) : Prop :=
  ∀ effect ∈ effects, effect.sent = none ∧ ∀ event lanes file, effect ≠ .ingest event lanes file

/-- The world is replaced: what waited for it is dropped, and at most its load is ordered. -/
structure Replaced (b c : Bridge) : Prop where
  loads : c.loads = c.world.expects
  away : c.world ≠ .ready
  progress : c.progress = none
  commands : c.commands = b.commands

variable (b : Bridge)

theorem Alike.refl : b.Alike b := ⟨rfl, rfl, rfl, rfl⟩

theorem Alike.trans {a b c : Bridge} (first : a.Alike b) (second : b.Alike c) : a.Alike c :=
  ⟨second.world.trans first.world, second.loads.trans first.loads, second.progress.trans first.progress,
    second.commands.trans first.commands⟩

theorem Alike.replaced {a b c : Bridge} (first : a.Alike b) (second : b.Replaced c) : a.Replaced c :=
  ⟨second.loads, second.away, second.progress, second.commands.trans first.commands⟩

theorem silent_nil : Silent [] := by
  simp [Silent]

theorem voidWorld_loads : b.voidWorld.loads = [] := by
  apply filterMap_eq_nil_iff.mpr
  intro message member
  have kept := (mem_filter.mp member).2
  cases message <;> simp_all [forWorld, loadOf]

theorem pushBack_loads (message : ToHook) :
    loads { b with outbox := b.outbox.pushBack message } = b.loads ++ (loadOf message).toList := by
  simp only [loads, Outbox.pushBack, filterMap_append]
  cases message <;> rfl

theorem pathText_refused {file : Option String} {fault : BridgeFault} (failed : file.mapM pathText = .error fault) :
    ∃ path, fault = .pathTooLong path := by
  cases file with
  | none => cases failed
  | some path =>
    change (pathText path).map some = .error fault at failed
    unfold pathText at failed
    split at failed
    · cases failed
    · cases failed
      exact ⟨path, rfl⟩

variable {effects : List Effect}

theorem orderLoad_cases (file : Option String) (nextStep : Nat) (silent : Silent effects) :
    Silent (b.orderLoad file nextStep effects).effects ∧
    (b.Replaced (b.orderLoad file nextStep effects).bridge ∧ (b.orderLoad file nextStep effects).result = .ok none ∨
      b.Alike (b.orderLoad file nextStep effects).bridge ∧
        ∃ path, (b.orderLoad file nextStep effects).result = .error (.pathTooLong path)) := by
  unfold orderLoad
  split
  · next fault failed =>
    obtain ⟨path, rfl⟩ := pathText_refused failed
    exact ⟨silent, .inr ⟨.refl b, path, rfl⟩⟩
  · next file _ =>
    refine ⟨silent, .inl ⟨⟨?_, by simp [done], rfl, rfl⟩, rfl⟩⟩
    exact (pushBack_loads b.voidWorld _).trans (by rw [voidWorld_loads]; rfl)

theorem begin_alike (start : TurnStart) : b.Alike (b.begin start).1 ∧ (b.begin start).1.follower = b.follower ∧
      ∀ fault, (b.begin start).2 = .error fault → ∃ path, fault = .pathTooLong path := by
  unfold begin
  split
  · exact ⟨.refl b, rfl, by simp⟩
  dsimp only
  split
  · next fault failed =>
    refine ⟨⟨rfl, rfl, rfl, rfl⟩, rfl, ?_⟩
    rintro _ ⟨⟩
    unfold pathText at failed
    split at failed
    · cases failed
    · cases failed
      exact ⟨_, rfl⟩
  · refine ⟨⟨rfl, ?_, rfl, rfl⟩, rfl, by simp⟩
    exact (pushBack_loads _ _).trans (append_nil _)

/-- What a call comes to that replaces the world unless it fails for good. -/
def Moves (b : Bridge) (replaces : Bool) (o : Outcome) : Prop :=
  Silent o.effects ∧ ¬ Misplaced o.result ∧
    (replaces = true ∧ b.Replaced o.bridge ∨
      b.Alike o.bridge ∧ (replaces = true → ∃ fault, o.result = .error fault ∧ fault ≠ .disconnected))

theorem Alike.moves {a b : Bridge} {replaces : Bool} {o : Outcome} (first : a.Alike b) (second : b.Moves replaces o) :
    a.Moves replaces o := by
  obtain ⟨silent, placed, ⟨replaces, replaced⟩ | ⟨alike, failed⟩⟩ := second
  · exact ⟨silent, placed, .inl ⟨replaces, first.replaced replaced⟩⟩
  · exact ⟨silent, placed, .inr ⟨first.trans alike, failed⟩⟩

theorem moves_fault {b : Bridge} {fault : BridgeFault} (replaces : Bool) (placed : ¬ Misplaced (.error fault))
    (final : fault ≠ .disconnected) : b.Moves replaces (b.fault fault) :=
  ⟨silent_nil, placed, .inr ⟨.refl b, fun _ => ⟨fault, rfl, final⟩⟩⟩

theorem moves_done {b c : Bridge} (alike : b.Alike c) (silent : Silent effects) :
    b.Moves false (c.done effects) :=
  ⟨silent, not_false, .inr ⟨alike, by simp⟩⟩

theorem orderLoad_moves (file : Option String) (nextStep : Nat)
    (silent : Silent effects) : b.Moves true (b.orderLoad file nextStep effects) := by
  obtain ⟨silent, ⟨replaced, result⟩ | ⟨alike, path, result⟩⟩ := b.orderLoad_cases file nextStep silent
  · exact ⟨silent, by simp [result, Misplaced], .inl ⟨rfl, replaced⟩⟩
  · exact ⟨silent, by simp [result, Misplaced], .inr ⟨alike, fun _ => ⟨_, result, by simp⟩⟩⟩

theorem fetchWorld_moves (offer : WorldOffer) (nextStep : Nat) : b.Moves true (b.fetchWorld offer nextStep) := by
  unfold fetchWorld
  split
  · exact moves_fault true (by simp [Misplaced]) (by simp)
  · refine ⟨?_, not_false, .inl ⟨rfl, b.voidWorld_loads, by simp [done], rfl, rfl⟩⟩
    simp [Silent, done, Effect.sent]

theorem follow_moves (start : TurnStart) : b.Moves (b.replaces (.turnStream start)) (b.follow start) := by
  have followed : ∀ follower, b.Alike { b with follower } := fun _ => ⟨rfl, rfl, rfl, rfl⟩
  unfold follow
  split
  · next offer world =>
    rw [show b.replaces (.turnStream start) = true by simp [replaces, world]]
    exact (followed _).moves (fetchWorld_moves _ offer _)
  · next world follower =>
    rw [show b.replaces (.turnStream start) = true by simp [replaces, follower]]
    exact (followed _).moves (orderLoad_moves _ none _ silent_nil)
  rename_i follower world following
  split
  · next next restarted =>
    rw [show b.replaces (.turnStream start) = false by simp [replaces, world, following, restarted, Except.isOk,
      Except.toBool]]
    exact moves_done (followed _) silent_nil
  · next error restarted =>
    rw [show b.replaces (.turnStream start) = true by simp [replaces, following, restarted, Except.isOk,
      Except.toBool]]
    split
    · exact (followed _).moves (orderLoad_moves _ none _ silent_nil)
    · exact moves_fault true (by simp [Misplaced]) (by simp)

theorem onTurnStream_moves (start : TurnStart) : b.Moves (b.replaces (.turnStream start)) (b.onTurnStream start) := by
  unfold onTurnStream
  dsimp only
  generalize fresh : ({ b with
    reported := none
    playout := some (.new start.stepsPerSecond b.options.playoutMargin b.options.playoutMemory) } : Bridge) = c
  have alike : b.Alike c := by
    subst fresh
    exact ⟨rfl, rfl, rfl, rfl⟩
  have same : c.follower = b.follower := by
    subst fresh
    rfl
  obtain ⟨begun, follower, failing⟩ := c.begin_alike start
  split
  · next next fault failed =>
    rw [failed] at begun failing
    obtain ⟨path, rfl⟩ := failing fault rfl
    exact (alike.trans begun).moves (moves_fault _ (by simp [Misplaced]) (by simp))
  · next next announced =>
    rw [announced] at begun follower
    have followed : next.follower = b.follower := follower.trans same
    have replacing : b.replaces (.turnStream start) = next.replaces (.turnStream start) := by
      simp only [replaces, followed]
    rw [replacing]
    exact (alike.trans begun).moves (next.follow_moves start)

theorem onTurn_moves (turn : Turn) (now : Instant) : b.Moves false (b.onTurn turn now) := by
  unfold onTurn
  split
  · exact moves_fault false (by simp [Misplaced]) (by simp)
  split
  · exact moves_fault false (by simp [Misplaced]) (by simp)
  dsimp only
  split
  · apply moves_done _ silent_nil
    exact ⟨rfl, (pushBack_loads b _).trans (append_nil _), rfl, rfl⟩
  · apply moves_done _ silent_nil
    exact ⟨rfl, rfl, rfl, rfl⟩

theorem onEvent_moves (now : Instant) (event : ClientEvent) : b.Moves (b.replaces event) (b.onEvent now event) := by
  have pushed : ∀ message, loadOf message = none → b.Alike { b with outbox := b.outbox.pushBack message } := by
    intro message plain
    exact ⟨rfl, by rw [pushBack_loads, plain]; exact append_nil _, rfl, rfl⟩
  cases event with
  | turnStream start => exact b.onTurnStream_moves start
  | turn turn => exact b.onTurn_moves turn now
  | intentRejected clientSeq reason => exact moves_done (pushed _ rfl) silent_nil
  | diverged step lanes => exact moves_done (pushed _ rfl) silent_nil
  | upload event snapshot =>
    apply moves_done (.refl b)
    split
    · simp [Silent, Effect.sent]
    · exact silent_nil
  | chat sender text =>
    simp only [onEvent]
    split
    · exact moves_done (pushed _ rfl) silent_nil
    · exact moves_done (.refl b) silent_nil
  | roomUpdate view =>
    apply moves_done _ silent_nil
    exact ⟨rfl, rfl, rfl, rfl⟩
  | kicked => exact ⟨silent_nil, not_false, .inr ⟨.refl b, by simp [replaces]⟩⟩
  | closed worthRejoining => exact ⟨silent_nil, not_false, .inr ⟨.refl b, by simp [replaces]⟩⟩

theorem tidy_silent : Silent b.tidy := by
  unfold tidy
  split
  · simp [Silent, Effect.sent]
  · exact silent_nil

theorem onDone_moves (lost : Bool) {done : Done} (other : ∀ event lanes result, done ≠ .ingested event lanes result) :
    ∃ replaces, b.Moves replaces (b.onDone lost done) ∧
      (replaces = true → ∃ offer nextStep attempt, b.world = .fetching offer nextStep attempt) := by
  cases done with
  | ingested event lanes result => exact absurd rfl (other event lanes result)
  | uploaded snapshot result => exact ⟨false, moves_done (.refl b) silent_nil, by simp⟩
  | fetched attempt result =>
    simp only [onDone]
    split
    · next offer nextStep current fetching =>
      split
      · exact ⟨false, moves_done (.refl b) silent_nil, by simp⟩
      split
      · next file id =>
        have alike : b.Alike { b with received := some id } := ⟨rfl, rfl, rfl, rfl⟩
        exact ⟨true, alike.moves (orderLoad_moves _ (some file) _ (tidy_silent _)), fun _ => ⟨_, _, _, fetching⟩⟩
      · exact ⟨false, ⟨silent_nil, not_false, .inr ⟨.refl b, by simp⟩⟩, by simp⟩
    · exact ⟨false, moves_done (.refl b) silent_nil, by simp⟩

/-- A report sent without a change to the world, or a send that failed. -/
structure Reports (b : Bridge) (o : Outcome) : Prop where
  alike : b.Alike o.bridge
  placed : ¬ Misplaced o.result
  kept : ∀ event lanes file, .ingest event lanes file ∉ o.effects
  plain : ∀ clientSeq payload, .send (.intent clientSeq payload) ∉ o.effects

theorem send_reports {b c : Bridge} {lost : Bool} {message : GameMessage} (alike : b.Alike c)
    (plain : ∀ clientSeq payload, message ≠ .intent clientSeq payload) : b.Reports (b.send lost message c) := by
  unfold send
  split
  · exact ⟨.refl b, not_false, by simp [fault], by simp [fault]⟩
  refine ⟨alike, not_false, by simp [done], ?_⟩
  intro clientSeq payload member
  simp only [done, mem_singleton, Effect.send.injEq] at member
  exact plain clientSeq payload member.symm

theorem reportProgress_reports (lost : Bool) (now : Instant) : b.Reports (b.reportProgress lost now) ∧
    (b.progress = none → (b.reportProgress lost now).effects = []) := by
  have nothing : b.Reports (b.done []) := ⟨.refl b, not_false, by simp [done], by simp [done]⟩
  unfold reportProgress
  split
  · exact ⟨nothing, fun _ => rfl⟩
  rename_i progress known
  have moving : ¬ b.progress = none := by simp [known]
  have sends : b.Reports (b.send lost (.progress progress) { b with reported := some progress, lastReport := now }) :=
    send_reports ⟨rfl, rfl, rfl, rfl⟩ (by simp)
  split
  · exact ⟨sends, fun none => absurd none moving⟩
  · split
    · exact ⟨sends, fun none => absurd none moving⟩
    · exact ⟨nothing, fun none => absurd none moving⟩

theorem ingested_reports (lost : Bool) (event : Nat) (lanes : List LaneDigest)
    (result : Except String (SnapshotId × SavedWorld)) : b.Reports (b.onDone lost (.ingested event lanes result)) := by
  cases result with
  | error reason => exact send_reports (.refl b) (by simp)
  | ok kept =>
    obtain ⟨id, world⟩ := kept
    simp only [onDone]
    generalize fresh : ({ b with saved := (b.saved ++ [id]).drop ((b.saved ++ [id]).length - savesKept) } : Bridge) = c
    have alike : b.Alike c := by
      subst fresh
      exact ⟨rfl, rfl, rfl, rfl⟩
    have sends : c.Reports (c.send lost (.saved event lanes (some world)) c) := send_reports (.refl c) (by simp)
    have silent := tidy_silent c
    refine ⟨alike.trans sends.alike, sends.placed, ?_, ?_⟩
    · intro event' lanes' file member
      rcases mem_append.mp member with tidied | sent
      · exact (silent _ tidied).2 event' lanes' file rfl
      · exact sends.kept event' lanes' file sent
    · intro clientSeq payload member
      rcases mem_append.mp member with tidied | sent
      · cases (silent _ tidied).1
      · exact sends.plain clientSeq payload sent

theorem checkHook_moves (beat : Nat) (now : Instant) : b.Moves false (b.checkHook beat now) := by
  unfold checkHook
  dsimp only
  generalize (if b.loaded = true then b.options.hookTimeout else b.options.loadTimeout) = limit
  split
  · apply moves_done _ silent_nil
    exact ⟨rfl, rfl, rfl, rfl⟩
  · split
    · exact moves_fault false (by simp [Misplaced]) (by simp)
    · exact moves_done (.refl b) silent_nil

/-- What reading one message of the hook comes to. -/
inductive Read (b : Bridge) (lost : Bool) : ToAgent → Outcome → Prop where
  | stray {nextStep : Nat} {fault : BridgeFault} (unexpected : nextStep ∉ b.world.expects)
    (final : fault ≠ .disconnected) : Read b lost (.loaded nextStep) (b.fault fault)
  | unanswered {nextStep : Nat} (expected : b.world = .loading nextStep) (down : lost = true) :
    Read b lost (.loaded nextStep) ({ b with world := .ready }.fault .disconnected)
  | answered {nextStep : Nat} (expected : b.world = .loading nextStep) (online : lost = false) :
    Read b lost (.loaded nextStep)
      ({ b with world := .ready, progress := some (nextStep - 1), reported := some (nextStep - 1), loaded := true }.done
        [.send (.progress (nextStep - 1))])
  | passed {payload : Payload} (online : lost = false) :
    Read b lost (.command payload) ({ b with commands := b.commands + 1 }.done [.send (.intent b.commands payload)])
  | dropped {payload : Payload} (down : lost = true) : Read b lost (.command payload) (b.fault .disconnected)
  | ran {step : Nat} (current : b.world = .ready) : Read b lost (.ran step) ({ b with progress := some step }.done [])
  | reported {message : ToAgent} {o : Outcome} (current : b.world = .ready) (reports : b.Reports o)
    (other : message.Plain) : Read b lost message o
  | ingests {event : Nat} {lanes : List LaneDigest} {file : PathText} (current : b.world = .ready) :
    Read b lost (.saved event lanes (some file)) (b.done [.ingest event lanes file])
  | quiet {message : ToAgent} {o : Outcome} (moves : b.Moves false o)
    (other : message.Plain) : Read b lost message o
  | early {message : ToAgent} (unready : b.hookReady = false) :
    Read b lost message (b.fault (.unexpected "a message before its hello"))

theorem savedWorld_read {b : Bridge} (current : b.world = .ready) (lost : Bool) (event : Nat) (lanes : List LaneDigest)
    (file : Option PathText) : b.Read lost (.saved event lanes file) (b.savedWorld lost event lanes file) := by
  unfold savedWorld
  split
  · exact .ingests current
  · exact .reported current (send_reports (.refl b) (by simp)) ⟨rfl, rfl⟩

theorem readHook_read (lost : Bool) (message : ToAgent) : b.Read lost message (b.readHook lost message) := by
  unfold readHook
  split
  · next version build =>
    refine .quiet ?_ ⟨rfl, rfl⟩
    split
    · exact moves_fault false (by simp [Misplaced]) (by simp)
    split
    · exact moves_fault false (by simp [Misplaced]) (by simp)
    · apply moves_done _ silent_nil
      exact ⟨rfl, rfl, rfl, rfl⟩
  · next notHello =>
    split
    · next unready => exact .early (by simpa using unready)
    have ignored : message.Plain → b.Read lost message (b.done []) :=
      fun other => .quiet (moves_done (.refl b) silent_nil) other
    cases message with
    | hello version build => exact ignored ⟨rfl, rfl⟩
    | log line => exact ignored ⟨rfl, rfl⟩
    | chat text =>
      refine .quiet (moves_done (.refl b) ?_) ⟨rfl, rfl⟩
      simp [Silent, Effect.sent]
    | command payload =>
      dsimp only [send]
      split
      · next down => exact .dropped down
      · next online => exact .passed (by simpa using online)
    | ran step =>
      dsimp only
      split
      · next current => exact .ran current
      · exact ignored ⟨rfl, rfl⟩
    | checkpoint step lanes =>
      dsimp only
      split
      · next current => exact .reported current (send_reports (.refl b) (by simp)) ⟨rfl, rfl⟩
      · exact ignored ⟨rfl, rfl⟩
    | saved event lanes file =>
      dsimp only
      split
      · next current => exact savedWorld_read current lost event lanes file
      · exact ignored ⟨rfl, rfl⟩
    | loaded nextStep =>
      dsimp only
      split
      · next expected loading =>
        split
        · next other => exact .stray (by simp [loading, World.expects, other]) (by simp)
        rename_i same
        have loading' : b.world = .loading nextStep := by rw [loading, not_not.mp same]
        dsimp only [send]
        split
        · next down => exact .unanswered loading' down
        · next online => exact .answered loading' (by simpa using online)
      · next other =>
        refine .stray ?_ (by simp)
        cases world : b.world with
        | ready => simp [World.expects]
        | fetching offer step attempt => simp [World.expects]
        | loading expected => exact absurd world (other expected)

end Bridge

def Outbox.loads (o : Outbox) : List Nat := o.messages.filterMap loadOf

theorem Outbox.release_loads (o : Outbox) (released : Option Nat) : (o.release released).loads = o.loads := by
  rw [loads, release_messages, filterMap_append]
  cases released <;> simp [loads, loadOf]

theorem Pumping.turn_loads {p q : Pumping} {now : Instant} (turned : p.turn now = .ok q) :
    q.out.loads = p.out.loads := by
  unfold Pumping.turn at turned
  split at turned
  · cases turned
  split at turned
  · dsimp only at turned
    split at turned
    · cases turned
    · cases turned
      rfl
  · split at turned
    · cases turned
      have released := p.out.release_loads p.released
      simp only [Outbox.loads, Outbox.pushBack, filterMap_append] at released ⊢
      rw [released]
      exact append_nil _
    · cases turned
      rfl
    · cases turned

theorem Pumping.loop_loads {fuel : Nat} {p q : Pumping} {now : Instant} {pause : Pause}
    (looped : Pumping.loop now fuel p = some (pause, q)) : q.out.loads = p.out.loads := by
  induction fuel generalizing p with
  | zero => cases looped
  | succ fuel ih =>
    unfold Pumping.loop at looped
    split at looped
    · cases looped
      rfl
    · next next turned => rw [ih looped, turn_loads turned]

namespace Bridge

theorem pumped_alike {b c : Bridge} {fuel : Nat} {now : Instant} (ran : b.pumped fuel now = some c) : b.Alike c := by
  unfold pumped at ran
  split at ran
  · cases ran
    exact .refl b
  · obtain ⟨⟨pause, follower, playout, outbox⟩, pumped, rfl⟩ := Option.map_eq_some_iff.mp ran
    obtain ⟨⟨stop, p⟩, looped, same⟩ := Option.map_eq_some_iff.mp pumped
    cases same
    exact ⟨rfl, (Outbox.release_loads _ _).trans (Pumping.loop_loads looped), rfl, rfl⟩
  · cases ran
    exact .refl b

theorem flush_loads {b c : Bridge} {message : ToHook} (front : b.flush = some (message, c)) :
    b.loads = (loadOf message).toList ++ c.loads ∧ c.world = b.world ∧ c.progress = b.progress ∧
      c.commands = b.commands := by
  unfold flush at front
  split at front
  · obtain ⟨⟨first, outbox⟩, popped, same⟩ := Option.map_eq_some_iff.mp front
    cases same
    refine ⟨?_, rfl, rfl, rfl⟩
    rw [loads, Relay.popFront_some popped, filterMap_cons]
    cases loadOf message <;> rfl
  · cases front

end Bridge

namespace Play
variable {γ : Type} {game : Game γ} {p q : Play γ} {o : Outcome} {mark : Mark} {away : Bool}
  {ending : Option (Except BridgeFault BridgeEnd)}

/-- The loads handed to the link that the bridge has no answer to, the next to be answered first. -/
def unanswered (p : Play γ) : List Nat :=
  p.up.filterMap (loadedOf ·.1) ++ ((p.session.pendingLoad.map Load.nextStep).toList ++ p.down.filterMap (loadOf ·.1))

/-- No world is replaced while the answer to a load that was handed to the link is outstanding. -/
def loadsAnswered : Scope γ
  | p, .hear event => p.bridge.replaces event = true → p.unanswered = []
  | _, .read _ => True

/-- While the session lasts, the bridge waits for the load that is under way. -/
structure Matched (p : Play γ) : Prop where
  loads : p.ending = none → p.unanswered ++ p.bridge.loads = p.bridge.world.expects
  placed : ∀ fault, p.ending = some (.error fault) → ¬ Misplaced (.error fault)

theorem goes_placed {result : Except BridgeFault (Option BridgeEnd)}
    (goes : Goes result away ending) (placed : ¬ Misplaced result) :
    ∀ fault, ending = some (.error fault) → ¬ Misplaced (.error fault) := by
  intro fault failed
  cases goes <;> cases failed
  exact placed

theorem matched_after (goes : Goes o.result away ending) (placed : ¬ Misplaced o.result)
    (loads : ending = none → q.unanswered ++ o.bridge.loads = o.bridge.world.expects) :
    Matched { q.after o mark with away, ending } :=
  ⟨loads, goes_placed goes placed⟩

theorem matched_moves {replaces : Bool}
 (loads : q.unanswered ++ p.bridge.loads = p.bridge.world.expects)
    (settled : replaces = true → q.unanswered = []) (moves : p.bridge.Moves replaces o)
    (goes : Goes o.result away ending) : Matched { q.after o mark with away, ending } := by
  obtain ⟨_, placed, ⟨replacing, replaced⟩ | ⟨alike, _⟩⟩ := moves
  · refine matched_after goes placed (fun _ => ?_)
    rw [settled replacing, replaced.loads]
    rfl
  · refine matched_after goes placed (fun _ => ?_)
    rw [alike.loads, alike.world]
    exact loads

theorem matched_reports
 (loads : q.unanswered ++ p.bridge.loads = p.bridge.world.expects)
    (reports : p.bridge.Reports o) (goes : Goes o.result away ending) :
    Matched { q.after o mark with away, ending } := by
  refine matched_after goes reports.placed (fun _ => ?_)
  rw [reports.alike.loads, reports.alike.world]
  exact loads

theorem matched_reads {message : ToAgent}
 (loads : (loadedOf message).toList ++ q.unanswered ++ p.bridge.loads = p.bridge.world.expects)
    (read : p.bridge.Read p.lost message o) (goes : Goes o.result away ending) :
    Matched { q.after o mark with away, ending } := by
  cases read with
  | @stray nextStep fault unexpected final =>
    exact absurd (by rw [← loads]; simp [loadedOf]) unexpected
  | @unanswered nextStep expected down =>
    rw [expected] at loads
    exact matched_after goes not_false (fun _ => (List.cons.inj loads).2)
  | @answered nextStep expected online =>
    rw [expected] at loads
    exact matched_after goes not_false (fun _ => (List.cons.inj loads).2)
  | passed online => exact matched_after goes not_false (fun _ => loads)
  | dropped down => exact matched_after goes not_false (fun _ => loads)
  | ran current => exact matched_after goes not_false (fun _ => loads)
  | reported current reports other =>
    rw [other.unloaded] at loads
    exact matched_reports loads reports goes
  | ingests current => exact matched_after goes not_false (fun _ => loads)
  | quiet moves other =>
    rw [other.unloaded] at loads
    exact matched_moves loads (by simp) moves goes
  | early unready =>
    apply matched_after goes (by simp [Bridge.fault, Misplaced])
    cases goes
    simp

theorem Matched.call (matched : p.Matched) (live : p.ending = none)
    (call : Call loadsAnswered p o mark q) (goes : Goes o.result away ending) :
    Matched { q.after o mark with away, ending } := by
  have loads := matched.loads live
  cases call with
  | @reads message mark rest front meant =>
    refine matched_reads ?_ (p.bridge.readHook_read p.lost message) goes
    rw [← loads]
    simp only [unanswered, front, filterMap_cons]
    cases loadedOf message <;> rfl
  | reports now => exact matched_reports loads (p.bridge.reportProgress_reports p.lost now).1 goes
  | hears event now space meant => exact matched_moves loads meant (p.bridge.onEvent_moves now event) goes
  | @finishes before rest job era done waiting answers =>
    by_cases ingest : ∃ event lanes result, done = .ingested event lanes result
    · obtain ⟨event, lanes, result, rfl⟩ := ingest
      exact matched_reports loads (p.bridge.ingested_reports p.lost event lanes result) goes
    obtain ⟨replaces, moves, fetching⟩ := p.bridge.onDone_moves p.lost
      (fun event lanes result same => ingest ⟨event, lanes, result, same⟩)
    refine matched_moves loads ?_ moves goes
    -- A world is fetched only while no load is under way.
    intro replacing
    obtain ⟨offer, nextStep, attempt, world⟩ := fetching replacing
    rw [world] at loads
    exact (append_eq_nil_iff.mp loads).1
  | checks beat now => exact matched_moves loads (by simp) (p.bridge.checkHook_moves beat now) goes

theorem Matched.replied (matched : p.Matched) (replies : List ToAgent) (number : Nat)
    (plain : ∀ reply ∈ replies, reply.Plain)
    (up : q.up = p.up ++ replies.map fun reply => (reply, { era := p.running, number }))
    (loads : (q.session.pendingLoad.map Load.nextStep).toList ++ q.down.filterMap (loadOf ·.1) =
      (p.session.pendingLoad.map Load.nextStep).toList ++ p.down.filterMap (loadOf ·.1))
    (bridge : q.bridge = p.bridge) (ending : q.ending = p.ending) : q.Matched := by
  have none : (replies.map fun reply => ((reply, { era := p.running, number }) : ToAgent × Mark)).filterMap
      (loadedOf ·.1) = [] := by
    apply filterMap_eq_nil_iff.mpr
    intro reply member
    obtain ⟨message, inside, rfl⟩ := mem_map.mp member
    exact (plain message inside).unloaded
  have same : q.unanswered = p.unanswered := by
    rw [unanswered, up, filterMap_append, none, append_nil, loads]
    rfl
  exact ⟨by rw [same, bridge, ending]; exact matched.loads, by rw [ending]; exact matched.placed⟩

theorem Matched.step (matched : p.Matched) (moved : Step game loadsAnswered p q) : q.Matched := by
  cases moved with
  | calls here live call goes => exact matched.call live call goes
  | pumps here live ran =>
    have alike := Bridge.pumped_alike ran
    refine ⟨fun live => ?_, matched.placed⟩
    have loads := matched.loads live
    rwa [← alike.loads, ← alike.world] at loads
  | @flushes message bridge here live front =>
    obtain ⟨first, world, _⟩ := Bridge.flush_loads front
    refine ⟨fun live => ?_, matched.placed⟩
    have loads := matched.loads live
    rw [first, ← world] at loads
    rw [← loads]
    simp only [unanswered, filterMap_append, append_assoc]
    cases load : loadOf message <;> simp [load]
  | loses => exact ⟨matched.loads, matched.placed⟩
  | rejoins gone => exact ⟨matched.loads, matched.placed⟩
  | attaches build fresh => exact matched.replied _ 0 (by simpa using ⟨rfl, rfl⟩) rfl rfl rfl rfl
  | greets stage front greeted =>
    refine matched.replied [] 0 (by simp) (by simp) ?_ rfl rfl
    rw [front, filterMap_cons, Session.greeted_ok greeted]
  | begins stage front waited =>
    obtain ⟨plain, pending, _⟩ := Session.waitForBegin_ok waited
    refine matched.replied [] 0 (by simp) (by simp) ?_ rfl rfl
    rw [front, filterMap_cons, plain, pending]
  | handles stage waits front handled =>
    obtain ⟨_, plain, pending⟩ := Session.handle_ok handled
    refine matched.replied _ 0 plain rfl ?_ rfl rfl
    rw [front, filterMap_cons, pending, Session.stepGate_wait waits]
    cases loadOf _ <;> rfl
  | loads world stage due loaded =>
    obtain ⟨pending, none, _, rfl⟩ := Session.loaded_ok loaded
    refine ⟨fun live => ?_, matched.placed⟩
    refine Eq.trans ?_ (matched.loads live)
    simp [unanswered, Play.replied, pending, none, loadedOf]
  | runs world stage may stepped =>
    obtain ⟨pending, _, plain⟩ := Session.afterStep_ok stepped
    refine matched.replied _ 0 plain rfl ?_ rfl rfl
    rw [pending]
    rfl
  | commands stage handed =>
    cases handed
    refine ⟨fun live => ?_, matched.placed⟩
    refine Eq.trans ?_ (matched.loads live)
    simp [unanswered, Play.replied, loadedOf]
  | chats stage => exact matched.replied _ 0 (by simpa using ⟨rfl, rfl⟩) rfl rfl rfl rfl
  | logs stage => exact matched.replied _ 0 (by simpa using ⟨rfl, rfl⟩) rfl rfl rfl rfl

theorem Reaches.matched (reached : Reaches game loadsAnswered p) : p.Matched := by
  induction reached with
  | start options beat now world => exact ⟨fun _ => rfl, by simp [begun]⟩
  | step before moved ih => exact ih.step moved

def plainOptions : BridgeOptions where
  playoutMargin := 0
  playoutMemory := 0
  hookTimeout := 0
  loadTimeout := 0
  progressEvery := 0
  worlds := some ""
  tempSaves := ""
  status := false
  playerText _ := .empty

def plainGame : Game Unit where
  apply world _ := world
  lanes _ := []
  save _ _ := .ok .empty
  notice world _ := world

def streamOf (world : Option WorldOffer) : TurnStart where
  room := .fill 16 0
  rules := .empty
  nextTurn := 1
  nextEvent := 1
  sealedThrough := 0
  stepsPerSecond := 1
  checkpointInterval := 100
  history := 1
  world

def someWorld : WorldOffer := { snapshot := .fill 32 0, size := 0 }

def loadingPlay : Play Unit where
  bridge := { Bridge.new plainOptions 0 0 with
    follower := some (.new (streamOf none))
    playout := some (.new 1 0 0)
    hookReady := true
    begun := true
    world := .loading 1 }
  stage := .playing
  session :=
    { gate := { Gate.new 1 with loading := true }, pendingLoad := some { file := none, nextStep := 1 },
      checkpointInterval := 100, commands := 0 }
  world := ()
  down := []
  up := []
  jobs := []
  era := 1
  ordered := 1
  running := 0
  described := 0
  lost := false
  away := false
  ending := none
  passed := []

variable {scope : Scope Unit}

theorem reaches_loading (reads : ∀ p message, commandOf message = none → scope p (.read message))
    (hears : ∀ p event, p.unanswered = [] → p.jobs = [] → scope p (.hear event)) :
    Reaches plainGame scope loadingPlay := by
  have attached := (Reaches.start plainOptions 0 0 () : Reaches plainGame scope _).step
    (.attaches ⟨"", by decide⟩ rfl)
  have greeted := attached.step (.calls rfl rfl (.reads rfl (reads _ _ rfl)) .on)
  have started := greeted.step (.calls rfl rfl (.hears (.turnStream (streamOf none)) 0 rfl (hears _ _ rfl rfl)) .on)
  have first := started.step (.flushes rfl rfl rfl)
  have second := first.step (.flushes rfl rfl rfl)
  have third := second.step (.flushes rfl rfl rfl)
  have waiting := third.step (.greets rfl rfl rfl)
  have begins := waiting.step (.begins rfl rfl rfl)
  have handled := begins.step (.handles rfl rfl rfl rfl)
  exact handled

def readyPlay : Play Unit :=
  { loadingPlay with
    bridge := { loadingPlay.bridge with world := .ready, loaded := true, progress := some 0, reported := some 0 }
    session := { gate := .new 1, pendingLoad := none, checkpointInterval := 100, commands := 0 }
    running := 1
    described := 1
    passed := [{ message := .progress 0, mark := { era := 1, number := 0 }, era := 1 }] }

theorem reaches_ready (reads : ∀ p message, commandOf message = none → scope p (.read message))
    (hears : ∀ p event, p.unanswered = [] → p.jobs = [] → scope p (.hear event)) :
    Reaches plainGame scope readyPlay := by
  have loaded := (reaches_loading reads hears).step (.loads () rfl rfl rfl)
  have answered := loaded.step (.calls rfl rfl (.reads rfl (reads _ _ rfl)) .on)
  exact answered

/-- The room replaces the world the game runs, and the game reports from the new one. -/
theorem reaches_replaced (reads : ∀ p message, commandOf message = none → scope p (.read message))
    (hears : ∀ p event, p.unanswered = [] → p.jobs = [] → scope p (.hear event)) :
    ∃ p, Reaches plainGame scope p ∧ p.era = 2 ∧ p.running = 2 ∧ p.passed.map Passed.era = [1, 2] := by
  have replaced := (reaches_ready reads hears).step
    (.calls rfl rfl (.hears (.turnStream (streamOf (some someWorld))) 0 rfl (hears _ _ rfl rfl)) .on)
  have fetched := replaced.step
    (.calls rfl rfl (.finishes [] (.fetched 1 (.ok ("", someWorld.snapshot))) rfl rfl) .on)
  have flushed := fetched.step (.flushes rfl rfl rfl)
  have handled := flushed.step (.handles rfl rfl rfl rfl)
  have loaded := handled.step (.loads () rfl rfl rfl)
  have answered := loaded.step (.calls rfl rfl (.reads rfl (reads _ _ rfl)) .on)
  exact ⟨_, answered, rfl, rfl, rfl⟩
/-- As long as no load is overtaken, every answer the bridge reads is the one it waits for. -/
theorem loads_expected {p : Play γ} (reached : Reaches game loadsAnswered p) :
    p.ending ≠ some (.error (.unexpected "a world nobody ordered")) ∧
    ∀ expected got, p.ending ≠ some (.error (.loadedElsewhere expected got)) := by
  have matched := reached.matched
  refine ⟨?_, ?_⟩
  · intro failed
    exact matched.placed _ failed rfl
  · intro expected got failed
    exact matched.placed _ failed trivial

theorem loads_expected_replaced : ∃ p, Reaches plainGame loadsAnswered p ∧ p.running = 2 ∧
    p.ending ≠ some (.error (.unexpected "a world nobody ordered")) ∧
    ∀ expected got, p.ending ≠ some (.error (.loadedElsewhere expected got)) := by
  obtain ⟨p, reached, _, running, _⟩ :=
    @reaches_replaced loadsAnswered (fun _ _ _ => trivial) fun _ _ answered _ _ => answered
  exact ⟨p, reached, running, loads_expected reached⟩

/-- A stream that replaces the world while the game still loads another: the answer to the load it
overtook ends the session. -/
theorem overtaken_load_ends_session : ∃ p : Play Unit, Reaches plainGame anything p ∧
    p.ending = some (.error (.unexpected "a world nobody ordered")) := by
  have loading : Reaches plainGame anything loadingPlay :=
    reaches_loading (fun _ _ _ => trivial) (fun _ _ _ _ => trivial)
  have replaced := loading.step (.calls rfl rfl (.hears (.turnStream (streamOf (some someWorld))) 0 rfl trivial) .on)
  have loaded := replaced.step (.loads () rfl rfl rfl)
  have read := loaded.step (.calls rfl rfl (.reads rfl trivial) (.fails _))
  exact ⟨_, read, rfl⟩

end Play

end Tpf3Mp.Agent
