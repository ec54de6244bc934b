import Tpf3Mp.Agent.Loads

/-!
The numbers of commands. The session numbers the commands it sends, and the bridge the intents it
passes on; both count for themselves.
-/

namespace Tpf3Mp.Agent
open Proto Tpf3Mp.Bridge List
open Server (Instant)

/-- The intent passed for a command, and the command's own number. -/
def Passed.intent (passed : Passed) : Option (Nat × Nat) :=
  match passed.message with
  | .intent clientSeq _ => some (clientSeq, passed.mark.number)
  | _ => none

namespace Play
variable {γ : Type} {game : Game γ}

def intentsArrive : Scope γ
  | p, .read (.command _) => p.lost = false
  | _, _ => True

def commandsUp (p : Play γ) : List Nat :=
  p.up.filterMap fun sent => (commandOf sent.1).map fun _ => sent.2.number

/-- The bridge has counted the commands the hook sent, up to those on the link. -/
structure Counted (p : Play γ) : Prop where
  sent : p.ending = none → ∃ waiting, p.commandsUp = range' p.bridge.commands waiting ∧
    p.session.commands = p.bridge.commands + waiting
  passed : ∃ count, p.passed.filterMap Passed.intent = (range count).map (fun number => (number, number)) ∧
    (p.ending = none → count = p.bridge.commands)

variable {p q : Play γ} {o : Outcome} {mark : Mark} {away : Bool} {ending : Option (Except BridgeFault BridgeEnd)}

theorem counted_after (counted : p.Counted) (live : p.ending = none)
    (passed : q.passed = p.passed) (session : q.session = p.session)
    (plain : ∀ clientSeq payload, .send (.intent clientSeq payload) ∉ o.effects)
    (kept : ending = none → q.commandsUp = p.commandsUp ∧ o.bridge.commands = p.bridge.commands) :
    Counted { q.after o mark with away, ending } := by
  obtain ⟨count, known, all⟩ := counted.passed
  refine ⟨?_, count, ?_, ?_⟩
  · intro still
    obtain ⟨up, commands⟩ := kept still
    show ∃ waiting, q.commandsUp = range' o.bridge.commands waiting ∧
      q.session.commands = o.bridge.commands + waiting
    rw [up, commands, session]
    exact counted.sent live
  · have none : ((o.effects.filterMap Effect.sent).map fun message =>
      ({ message, mark, era := q.era } : Passed)).filterMap
        Passed.intent = [] := by
      apply filterMap_eq_nil_iff.mpr
      intro sent member
      obtain ⟨message, inside, rfl⟩ := mem_map.mp member
      obtain ⟨effect, effects, found⟩ := mem_filterMap.mp inside
      cases effect with
      | send other =>
        cases found
        cases message with
        | intent clientSeq payload => exact absurd effects (plain clientSeq payload)
        | _ => rfl
      | _ => cases found
    show (q.passed ++ _).filterMap Passed.intent = _
    rw [filterMap_append, none, append_nil, passed]
    exact known
  · intro still
    rw [all live]
    exact (kept still).2.symm

theorem silent_plain {effects : List Effect} (silent : Bridge.Silent effects) (clientSeq : Nat) (payload : Payload) :
    .send (.intent clientSeq payload) ∉ effects := by
  intro member
  cases (silent _ member).1

theorem moves_commands {b : Bridge} {replaces : Bool} (moves : b.Moves replaces o) :
    o.bridge.commands = b.commands := by
  obtain ⟨_, _, ⟨_, replaced⟩ | ⟨alike, _⟩⟩ := moves
  · exact replaced.commands
  · exact alike.commands

section
variable (counted : p.Counted)
include counted

theorem counted_passed {payload : Payload} {rest : List (ToAgent × Mark)} {described : Nat}
    (live : p.ending = none) (front : p.up = (.command payload, mark) :: rest) :
    Counted { after { p with up := rest, described }
      ({ p.bridge with commands := p.bridge.commands + 1 }.done [.send (.intent p.bridge.commands payload)]) mark with
        away, ending } := by
  obtain ⟨waiting, up, commands⟩ := counted.sent live
  obtain ⟨count, known, all⟩ := counted.passed
  have whole : p.commandsUp = mark.number :: commandsUp { p with up := rest, described } := by
    simp [commandsUp, front, commandOf]
  rw [whole] at up
  cases waiting with
  | zero => cases up
  | succ waiting =>
    obtain ⟨number, others⟩ := List.cons.inj up
    refine ⟨fun _ => ⟨waiting, others, ?_⟩, count + 1, ?_, fun _ => congrArg (· + 1) (all live)⟩
    · show p.session.commands = p.bridge.commands + 1 + waiting
      omega
    · show (p.passed ++ _).filterMap Passed.intent = _
      rw [filterMap_append, known, range_succ, map_append]
      simp [Bridge.done, Effect.sent, Passed.intent, number, all live]

theorem Counted.reads {message : ToAgent} {rest : List (ToAgent × Mark)} {described : Nat}
    (live : p.ending = none) (front : p.up = (message, mark) :: rest) (meant : intentsArrive p (.read message))
    (read : p.bridge.Read p.lost message o) (goes : Goes o.result away ending) :
    Counted { after { p with up := rest, described } o mark with away, ending } := by
  have other : commandOf message = none → commandsUp { p with up := rest, described } = p.commandsUp := by
    intro plain
    simp [commandsUp, front, plain]
  cases read with
  | stray unexpected final =>
    refine counted_after counted live rfl rfl (by simp [Bridge.fault]) (fun still => ?_)
    cases goes with
    | lost => exact absurd rfl final
    | fails => cases still
  | unanswered expected down =>
    exact counted_after counted live rfl rfl (by simp [Bridge.fault]) (fun _ => ⟨other rfl, rfl⟩)
  | answered expected online =>
    exact counted_after counted live rfl rfl (by simp [Bridge.done]) (fun _ => ⟨other rfl, rfl⟩)
  | passed online => exact counted_passed counted live front
  | dropped down =>
    have online : p.lost = false := meant
    cases down.symm.trans online
  | ran current => exact counted_after counted live rfl rfl (by simp [Bridge.done]) (fun _ => ⟨other rfl, rfl⟩)
  | reported current reports plain =>
    exact counted_after counted live rfl rfl reports.plain (fun _ => ⟨other plain.uncommanded, reports.alike.commands⟩)
  | ingests current => exact counted_after counted live rfl rfl (by simp [Bridge.done]) (fun _ => ⟨other rfl, rfl⟩)
  | quiet moves plain =>
    exact counted_after counted live rfl rfl (silent_plain moves.1)
      (fun _ => ⟨other plain.uncommanded, moves_commands moves⟩)
  | early unready =>
    refine counted_after counted live rfl rfl (by simp [Bridge.fault]) (fun still => ?_)
    cases goes
    cases still

theorem Counted.call (live : p.ending = none)
    (call : Call intentsArrive p o mark q) (goes : Goes o.result away ending) :
    Counted { q.after o mark with away, ending } := by
  cases call with
  | @reads message mark rest front meant =>
    exact counted.reads live front meant (p.bridge.readHook_read p.lost message) goes
  | reports now =>
    have reports := (p.bridge.reportProgress_reports p.lost now).1
    exact counted_after counted live rfl rfl reports.plain (fun _ => ⟨rfl, reports.alike.commands⟩)
  | hears event now space meant =>
    have moves := p.bridge.onEvent_moves now event
    exact counted_after counted live rfl rfl (silent_plain moves.1) (fun _ => ⟨rfl, moves_commands moves⟩)
  | @finishes before rest job era done waiting answers =>
    by_cases ingest : ∃ event lanes result, done = .ingested event lanes result
    · obtain ⟨event, lanes, result, rfl⟩ := ingest
      have reports := p.bridge.ingested_reports p.lost event lanes result
      exact counted_after counted live rfl rfl reports.plain (fun _ => ⟨rfl, reports.alike.commands⟩)
    · obtain ⟨replaces, moves, _⟩ := p.bridge.onDone_moves p.lost
        (fun event lanes result same => ingest ⟨event, lanes, result, same⟩)
      exact counted_after counted live rfl rfl (silent_plain moves.1) (fun _ => ⟨rfl, moves_commands moves⟩)
  | checks beat now =>
    have moves := p.bridge.checkHook_moves beat now
    exact counted_after counted live rfl rfl (silent_plain moves.1) (fun _ => ⟨rfl, moves_commands moves⟩)

theorem Counted.replied (replies : List ToAgent) (mark : Mark) (plain : ∀ reply ∈ replies, commandOf reply = none)
    (up : q.up = p.up ++ replies.map fun reply => (reply, mark)) (session : q.session.commands = p.session.commands)
    (bridge : q.bridge.commands = p.bridge.commands) (ending : q.ending = p.ending) (passed : q.passed = p.passed) :
    q.Counted := by
  have none : (replies.map fun reply => (reply, mark)).filterMap
      (fun sent => (commandOf sent.1).map fun _ => sent.2.number) = [] := by
    apply filterMap_eq_nil_iff.mpr
    intro sent member
    obtain ⟨reply, inside, rfl⟩ := mem_map.mp member
    simp [plain reply inside]
  have same : q.commandsUp = p.commandsUp := by
    rw [commandsUp, up, filterMap_append, none, append_nil]
    rfl
  exact ⟨by rw [same, bridge, session, ending]; exact counted.sent,
    by rw [passed, bridge, ending]; exact counted.passed⟩

theorem Counted.step (moved : Step game intentsArrive p q) : q.Counted := by
  have still : ∀ {q : Play γ}, q.up = p.up → q.session.commands = p.session.commands →
      q.bridge.commands = p.bridge.commands → q.ending = p.ending → q.passed = p.passed → q.Counted := by
    intro q up session bridge ending passed
    exact counted.replied [] ⟨0, 0⟩ (by simp) (up.trans (append_nil _).symm) session bridge ending passed
  cases moved with
  | calls here live call goes => exact counted.call live call goes
  | pumps here live ran => exact still rfl rfl (Bridge.pumped_alike ran).commands rfl rfl
  | flushes here live front => exact still rfl rfl (Bridge.flush_loads front).2.2.2 rfl rfl
  | loses => exact still rfl rfl rfl rfl rfl
  | rejoins gone => exact still rfl rfl rfl rfl rfl
  | attaches build fresh => exact counted.replied [_] _ (by simp [commandOf]) rfl rfl rfl rfl rfl
  | greets stage front greeted => exact still rfl rfl rfl rfl rfl
  | begins stage front waited => exact still rfl (Session.waitForBegin_ok waited).2.2 rfl rfl rfl
  | handles stage waits front handled =>
    obtain ⟨commands, plain, _⟩ := Session.handle_ok handled
    exact counted.replied _ _ (fun reply inside => (plain reply inside).uncommanded) rfl commands rfl rfl rfl
  | loads world stage due loaded =>
    obtain ⟨_, _, commands, rfl⟩ := Session.loaded_ok loaded
    exact counted.replied [_] _ (by simp [commandOf]) rfl commands rfl rfl rfl
  | runs world stage may stepped =>
    obtain ⟨_, commands, plain⟩ := Session.afterStep_ok stepped
    exact counted.replied _ _ (fun reply inside => (plain reply inside).uncommanded) rfl commands rfl rfl rfl
  | commands stage handed =>
    -- The new command takes the next number.
    cases handed
    refine ⟨fun live => ?_, counted.passed⟩
    obtain ⟨waiting, up, commands⟩ := counted.sent live
    refine ⟨waiting + 1, ?_, ?_⟩
    · show (p.up ++ [_]).filterMap _ = _
      rw [filterMap_append, range'_1_concat]
      exact congrArg₂ (· ++ ·) up (by simp [commandOf, commands, Play.replied])
    · show p.session.commands + 1 = p.bridge.commands + (waiting + 1)
      omega
  | chats stage => exact counted.replied [_] _ (by simp [commandOf]) rfl rfl rfl rfl rfl
  | logs stage => exact counted.replied [_] _ (by simp [commandOf]) rfl rfl rfl rfl rfl

end

/-- As long as every intent reaches the client, the room is passed each command under the number the
hook has for it, and a refusal names that command. -/
theorem commands_keep_numbers {p : Play γ} (reached : Reaches game intentsArrive p) :
    (∃ count, p.passed.filterMap Passed.intent = (range count).map (fun number => (number, number))) ∧
    ∀ passed ∈ p.passed, ∀ clientSeq payload, passed.message = .intent clientSeq payload →
      clientSeq = passed.mark.number ∧
      ∀ now reason, (p.bridge.onEvent now (.intentRejected clientSeq reason)).bridge.outbox.messages =
        p.bridge.outbox.messages ++ [.refused passed.mark.number reason] := by
  have counted : p.Counted := by
    induction reached with
    | start options beat now world => exact ⟨fun _ => ⟨0, rfl, rfl⟩, 0, rfl, fun _ => rfl⟩
    | step before moved ih => exact ih.step moved
  obtain ⟨count, known, _⟩ := counted.passed
  refine ⟨⟨count, known⟩, ?_⟩
  intro passed member clientSeq payload intent
  have listed : (clientSeq, passed.mark.number) ∈ p.passed.filterMap Passed.intent :=
    mem_filterMap.mpr ⟨passed, member, by simp [Passed.intent, intent]⟩
  rw [known] at listed
  obtain ⟨number, _, same⟩ := mem_map.mp listed
  obtain ⟨first, second⟩ := Prod.mk.inj same
  have equal : clientSeq = passed.mark.number := first.symm.trans second
  refine ⟨equal, fun now reason => ?_⟩
  rw [← equal]
  rfl

theorem commands_keep_numbers_first : ∃ p : Play Unit, Reaches plainGame intentsArrive p ∧
    ∃ passed ∈ p.passed, (∃ clientSeq payload, passed.message = .intent clientSeq payload) ∧
      passed.mark.number = 0 ∧ ∃ count, p.passed.filterMap Passed.intent =
        (range count).map (fun number => (number, number)) := by
  have ready : Reaches plainGame intentsArrive readyPlay := by
    refine reaches_ready ?_ (fun _ _ _ _ => trivial)
    intro p message plain
    cases message with
    | command payload => cases plain
    | _ => trivial
  have commanded := ready.step (.commands rfl (show Session.command _ ⟨[], by decide⟩ = _ from rfl))
  have passed := commanded.step (.calls rfl rfl (.reads rfl rfl) .on)
  exact ⟨_, passed, _, mem_cons_of_mem _ mem_cons_self, ⟨_, _, rfl⟩, rfl, (commands_keep_numbers passed).1⟩

/-- A command taken off the link whose send fails is never passed, and its number goes to the next
one; the refusal of that one names the lost command. -/
theorem lost_command_shifts_numbers : ∃ p : Play Unit, Reaches plainGame anything p ∧
    ∃ passed ∈ p.passed, passed.message = .intent 0 ⟨[1], by decide⟩ ∧ passed.mark.number = 1 ∧
      (p.bridge.onEvent 0 (.intentRejected 0 .rateLimited)).bridge.outbox.messages = [.refused 0 .rateLimited] := by
  have ready : Reaches plainGame anything readyPlay := reaches_ready (fun _ _ _ => trivial) (fun _ _ _ _ => trivial)
  have first := ready.step (.commands rfl (show Session.command _ ⟨[], by decide⟩ = _ from rfl))
  have lost := first.step .loses
  have dropped := lost.step (.calls rfl rfl (.reads rfl trivial) .lost)
  have back := dropped.step (.rejoins rfl)
  have second := back.step (.commands rfl (show Session.command _ ⟨[1], by decide⟩ = _ from rfl))
  have passed := second.step (.calls rfl rfl (.reads rfl trivial) .on)
  exact ⟨_, passed, _, mem_cons_of_mem _ mem_cons_self, rfl, rfl, rfl⟩

end Play

end Tpf3Mp.Agent
