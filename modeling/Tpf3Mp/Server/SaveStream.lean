import Tpf3Mp.Server.Following

/-!
Streams that start from a save. A client that loads a saved world and follows the stream after it
does exactly what a client that followed from the first turn does after the save.
-/

namespace Tpf3Mp.Server
open Codec Proto Agent List

variable {σ : Type}

/-- A game that orders events and seals turns, with the frames it seals. -/
inductive Game.Runs (ruleset : Ruleset σ) : Game × σ → List Bytes → Game × σ → Prop where
  | refl (at_ : Game × σ) : Game.Runs ruleset at_ [] at_
  | append {first : Game × σ} {frames : List Bytes} {g : Game} {state : σ} (body : EventBody) :
      Game.Runs ruleset first frames (g, state) → Game.Runs ruleset first frames (g.append body ruleset state)
  | sealed {first : Game × σ} {frames more : List Bytes} {g g' : Game} {state : σ} {frontier : Nat} :
      Game.Runs ruleset first frames (g, state) → g.sealedThrough ≤ frontier →
      g.sealPending frontier = (g', .ok more) → Game.Runs ruleset first (frames ++ more) (g', state)

namespace Game

variable {g : Game} {o : Origin} {frames : List Bytes} {turns : List Turn}

theorem sealPending_histories {g' : Game} {frontier : Nat}
    (sealed : g.sealPending frontier = (g', .ok frames)) (tracks : g.Tracks o turns)
    (forward : g.sealedThrough ≤ frontier) : g'.histories = g.histories := by
  obtain ⟨fresh, _, _, _, _, rfl, _⟩ := sealPending_ok sealed tracks forward
  obtain ⟨window, bytes, first, sealedBefore, unfolded⟩ := foldl_keep g (logged (o.after turns) fresh frames)
  rw [unfolded]

theorem Runs.tracks {ruleset : Ruleset σ} {first last : Game × σ}
    (runs : Runs ruleset first frames last) (begun : first.1.Tracks o turns) :
    last.1.histories = first.1.histories ∧ ∃ fresh, Forall₂ Encodes fresh frames ∧
      last.1.Tracks o (turns ++ fresh) := by
  induction runs with
  | refl => exact ⟨rfl, [], .nil, by rw [append_nil]; exact begun⟩
  | append body _ ih =>
    obtain ⟨same, fresh, encodes, tracks⟩ := ih
    exact ⟨same, fresh, encodes, append_tracks tracks body _ _⟩
  | sealed _ forward sealed ih =>
    obtain ⟨same, fresh, encodes, tracks⟩ := ih
    obtain ⟨more, encodes', _, _, _, _, tracks'⟩ := sealPending_ok sealed tracks forward
    refine ⟨(sealPending_histories sealed tracks forward).trans same, fresh ++ more, rel_append encodes encodes', ?_⟩
    rw [← append_assoc]
    exact tracks'

theorem save_ok {ruleset : Ruleset σ} {g' : Game} {state state' : σ} {point : SavePoint}
    (saved : g.save ruleset state = (g', state', .ok (point, frames)))
    (tracks : g.Tracks o turns) : ∃ fresh, Forall₂ Encodes fresh frames ∧ g'.Tracks o (turns ++ fresh) ∧
      g'.histories = g.histories ∧
      fresh.flatMap Turn.events =
        g.pending ++ [{ seq := g.nextEvent, step := (g.sealedThrough + 1) % 2 ^ 64, body := .save }] ∧
      point = { event := g.nextEvent, afterTurn := (o.after (turns ++ fresh)).turn - 1, history := g.history
                sealedThrough := (o.after (turns ++ fresh)).frontier } ∧
      (o.after (turns ++ fresh)).event = g.nextEvent + 1 ∧ (o.after (turns ++ fresh)).frontier = g.sealedThrough := by
  unfold save at saved
  dsimp only at saved
  split at saved
  · cases saved
  rename_i sealed
  have appended := append_tracks tracks .save ruleset state
  obtain ⟨fresh, encodes, events, _, _, same, tracks'⟩ := sealPending_ok sealed appended le_rfl
  have histories := sealPending_histories sealed appended le_rfl
  obtain ⟨window, bytes, first, sealedBefore, unfolded⟩ := foldl_keep (g.append .save ruleset state).1
    (logged (o.after turns) fresh frames)
  cases saved
  rw [unfolded] at same
  have frontier : g'.sealedThrough = g.sealedThrough := by rw [same]; rfl
  have nextEvent : g'.nextEvent = g.nextEvent + 1 := by rw [same]; rfl
  have counted := tracks'.keeps.nextEvent
  have pending : g'.pending = [] := by rw [same]
  rw [nextEvent, pending] at counted
  have reached := tracks'.frontier
  rw [frontier] at reached
  have history : g'.history = g.history := by
    unfold Game.history
    rw [histories]
    rfl
  refine ⟨fresh, encodes, tracks', histories, events, ?_, counted.symm, reached.symm⟩
  rw [← tracks'.keeps.nextTurn, ← reached, history]
  rfl

theorem resumeFrom_only {id : UInt64} (only : g.histories = [{ id, afterTurn := 0 }]) (afterTurn : Nat) :
    g.resumeFrom (some { afterTurn, history := id }) = .ok (satAdd afterTurn 1) := by
  unfold resumeFrom
  simp [only]

theorem streamFromSave_ok {before after : List Turn} {id : UInt64} {point : SavePoint}
    (tracks : g.Tracks o (before ++ after)) (only : g.histories = [{ id, afterTurn := 0 }])
    (event : (o.after before).event = point.event + 1) (turn : (o.after before).turn = point.afterTurn + 1)
    (frontier : (o.after before).frontier = point.sealedThrough) (history : point.history = id)
    (kept : g.logFirstTurn ≤ point.afterTurn + 1) (turns : point.afterTurn + 1 ≤ u64Max)
    (events : point.event + 1 ≤ u64Max) : ∃ stream, g.streamFromSave point = .ok stream ∧
      StreamAt stream o before after := by
  have total := tracks.keeps.nextTurn
  rw [o.after_append before after] at total
  have sealed : point.afterTurn + 1 ≤ g.nextTurn := by
    rw [total, ← turn]
    exact Nat.le_add_right _ _
  have first : g.resumeFrom (some { afterTurn := point.afterTurn, history := point.history }) =
      .ok (point.afterTurn + 1) := by
    rw [history, resumeFrom_only only, satAdd_eq turns]
  obtain ⟨stream, granted⟩ := streamAfter_granted first kept sealed
  obtain ⟨resumed, _, before', after', split, here⟩ := streamAfter_ok tracks granted
  have same : stream.nextTurn = point.afterTurn + 1 := by
    rw [first] at resumed
    exact (Except.ok.inj resumed).symm
  obtain ⟨rfl, rfl⟩ := prefix_unique rfl split (by rw [← here.nextTurn, same, turn])
  refine ⟨stream, Run.bind_ok.mpr ⟨stream, granted, if_neg ?_⟩, here⟩
  rw [here.nextEvent, here.sealedThrough, event, frontier, satAdd_eq events]
  simp

end Game

theorem plan_after_save {o : Origin} {before after : List Turn} {earlier : List Event} {save : Event}
    (chain : Chain o (before ++ after)) (room : (o.after (before ++ after)).frontier < u64Max)
    (last : before.flatMap Turn.events = earlier ++ [save]) (due : save.step = (o.after before).frontier + 1) :
    plan ((before ++ after).flatMap Turn.events) o.frontier (o.after (before ++ after)).frontier =
      plan earlier o.frontier (o.after before).frontier ++
        .apply save :: plan (after.flatMap Turn.events)
    (o.after before).frontier (o.after (before ++ after)).frontier := by
  obtain ⟨first, rest⟩ := chain_append.mp chain
  rw [o.after_append before after] at room ⊢
  have forward := rest.forward
  have old := first.steps (lt_of_le_of_lt forward room)
  have new := rest.steps room
  rw [flatMap_append, plan_split (fun event member => (old event member).2)
    (fun event member => (new event member).1) first.forward forward, last]
  rw [last] at old
  rw [plan_append (fun event member => (old event (mem_append_left _ member)).2)
    (by simpa using due) first.forward le_rfl]
  simp

/-- As long as no counter reaches the end of a `u64` and the window reaches back to the save, the
stream from it is granted, its follower can fail only for a full queue, and it does exactly what a
follower from the first turn does after applying the save. -/
theorem save_stream_continues {ruleset : Ruleset σ} {settings : RoomSettings} {id : UInt64} {now : Instant}
    {window : Nat} {fresh state saving saved final : σ} {g g' g'' last : Game} {earlier frames later rest : List Bytes}
    {point : SavePoint}
    (before : Game.Runs ruleset ({ Game.new settings id now with resumeWindow := window }, fresh) earlier (g, state))
    (made : g.save ruleset state = (g', saving, .ok (point, frames)))
    (after : Game.Runs ruleset (g', saving) later (g'', saved)) (kept : g''.logFirstTurn ≤ point.afterTurn + 1)
    (onward : Game.Runs ruleset (g'', saved) rest (last, final))
    (frontier : last.sealedThrough < u64Max) (turns : last.nextTurn ≤ u64Max) (events : last.nextEvent ≤ u64Max) :
    ∃ stream, g''.streamFromSave point = .ok stream ∧
      ∀ room settings rules world, let start := g''.turnStart room settings rules stream world
        (∀ calls, calls.filterMap TurnFollower.Call.turn = (stream.backlog ++ rest).filterMap decodeTurn →
          (∃ result, (TurnFollower.new start).drive calls = .ok result) ∨
            (TurnFollower.new start).drive calls = .error .backlog) ∧
        ∀ first calls actions f calls' actions' f',
          first.nextTurn = 1 → first.nextEvent = 1 → first.sealedThrough = 0 →
          calls.filterMap TurnFollower.Call.turn = (earlier ++ frames ++ later ++ rest).filterMap decodeTurn →
          (TurnFollower.new first).drive calls = .ok (actions, f) → f.nextAction.1 = none →
          calls'.filterMap TurnFollower.Call.turn = (stream.backlog ++ rest).filterMap decodeTurn →
          (TurnFollower.new start).drive calls' = .ok (actions', f') → f'.nextAction.1 = none →
          ∃ done, actions = done ++
              .apply { seq := point.event, step := point.sealedThrough + 1, body := .save } :: actions' ∧
            ∀ event, .apply event ∈ done → event.seq < point.event := by
  let o : Origin := ⟨1, 1, 0⟩
  have begun : ({ Game.new settings id now with resumeWindow := window } : Game).Tracks o [] := by
    obtain ⟨⟨chain, nextTurn, numbered, nextEvent, steps, held⟩, frontier⟩ := Game.new_tracks settings id now
    exact ⟨⟨chain, nextTurn, numbered, nextEvent, steps, held⟩, frontier⟩
  obtain ⟨histories, old, encodesOld, tracksOld⟩ := before.tracks begun
  obtain ⟨sealed, encodesSave, tracksSave, historiesSave, saves, place, counted, reached⟩ := Game.save_ok made tracksOld
  obtain ⟨historiesLater, new, encodesLater, tracksLater⟩ := after.tracks tracksSave
  obtain ⟨_, next, encodesNext, tracks⟩ := onward.tracks tracksLater
  rw [nil_append] at *
  have chain := tracks.keeps.chain
  have split : old ++ sealed ++ new ++ next = (old ++ sealed) ++ (new ++ next) := append_assoc _ _ _
  rw [split] at chain tracks
  obtain ⟨_, onwardChain⟩ := chain_append.mp chain
  have total := tracks.keeps.nextTurn
  have ordered := tracks.keeps.nextEvent
  have ends := tracks.frontier
  have after_all := o.after_append (old ++ sealed) (new ++ next)
  have turn : (o.after (old ++ sealed)).turn = point.afterTurn + 1 := by
    rw [place]
    simp only [Origin.after, o]
    omega
  have event : (o.after (old ++ sealed)).event = point.event + 1 := by
    rw [place]
    exact counted
  have through : (o.after (old ++ sealed)).frontier = point.sealedThrough := by rw [place]
  have history : point.history = id := by
    rw [place]
    unfold Game.history
    rw [histories]
    rfl
  have turnRoom : point.afterTurn + 1 ≤ last.nextTurn := by
    rw [total, after_all, ← turn]
    exact Nat.le_add_right _ _
  have eventRoom : point.event + 1 ≤ last.nextEvent := by
    rw [ordered, after_all, ← event]
    exact le_trans (Nat.le_add_right _ _) (Nat.le_add_right _ _)
  obtain ⟨stream, granted, here⟩ := Game.streamFromSave_ok tracksLater
    (historiesLater.trans (historiesSave.trans histories)) event turn through history kept
    (le_trans turnRoom turns) (le_trans eventRoom events)
  have read : (stream.backlog ++ rest).filterMap decodeTurn = new ++ next :=
    decoded_turns tracks (rel_append here.backlog encodesNext) (le_of_lt frontier) turns events
  have readAll : (earlier ++ frames ++ later ++ rest).filterMap decodeTurn = (old ++ sealed) ++ (new ++ next) := by
    have fromFirst : last.Tracks o ([] ++ (old ++ sealed ++ new ++ next)) := by
      rw [nil_append, split]
      exact tracks
    rw [← split]
    exact decoded_turns fromFirst
      (rel_append (rel_append (rel_append encodesOld encodesSave) encodesLater) encodesNext)
      (le_of_lt frontier) turns events
  have room : (o.after ((old ++ sealed) ++ (new ++ next))).frontier < u64Max := by
    rw [← ends]
    exact frontier
  refine ⟨stream, granted, ?_⟩
  intro room' settings' rules world start
  have position : (TurnFollower.new start).At (o.after (old ++ sealed)) :=
    ⟨here.nextTurn, here.nextEvent, here.sealedThrough⟩
  constructor
  · intro calls same
    rw [read] at same
    apply TurnFollower.drive_chain position
    · rw [same]
      exact onwardChain
    · rw [same, ← after_all, ← total]
      exact turns
    · rw [same, ← after_all]
      exact room
    · rw [same, ← after_all]
      exact le_trans (Nat.le_add_right _ _) (ordered ▸ events)
  · intro first calls actions f calls' actions' f' _ _ zero same ran finished same' ran' finished'
    rw [readAll] at same
    rw [read] at same'
    have rooms : ∀ turn ∈ (old ++ sealed) ++ (new ++ next), turn.sealedThrough < u64Max :=
      fun turn member => lt_of_le_of_lt (chain.bounded turn member) room
    have step : (g.sealedThrough + 1) % 2 ^ 64 = point.sealedThrough + 1 := by
      have limit : u64Max < 2 ^ 64 := by decide
      have forward := onwardChain.forward
      rw [← after_all] at forward
      rw [← through, reached, Nat.mod_eq_of_lt (by omega)]
    have save : (old ++ sealed).flatMap Turn.events = (old.flatMap Turn.events ++ g.pending) ++
        [{ seq := point.event, step := point.sealedThrough + 1, body := .save }] := by
      rw [flatMap_append, saves, step, ← append_assoc, place]
    obtain ⟨done, _⟩ := TurnFollower.drained_plan (by rw [zero]; decide) (by rw [same]; exact rooms) ran finished
    obtain ⟨done', _⟩ := TurnFollower.drained_plan (by
        show stream.sealedThrough < u64Max
        rw [here.sealedThrough]
        exact lt_of_le_of_lt (onwardChain.forward) (after_all ▸ room))
      (by rw [same']; exact fun turn member => rooms turn (mem_append_right _ member)) ran' finished'
    rw [same, zero] at done
    rw [same', show start.sealedThrough = (o.after (old ++ sealed)).frontier from here.sealedThrough] at done'
    refine ⟨plan (old.flatMap Turn.events ++ g.pending) 0 (o.after (old ++ sealed)).frontier, ?_, ?_⟩
    · rw [done, done']
      apply (plan_after_save chain room save (by rw [through])).trans
      rw [after_all]
      rfl
    · intro other member
      have inside := mem_map_of_mem (f := Event.seq) (mem_plan member)
      have numbered : Numbered 1 (old.flatMap Turn.events ++ g.pending) :=
        numbered_append.mpr ⟨tracksOld.keeps.chain.numbered, tracksOld.keeps.numbered⟩
      rw [numbered] at inside
      have bound := mem_range'_1.mp inside
      have size : g.nextEvent = 1 + (old.flatMap Turn.events ++ g.pending).length := by
        rw [tracksOld.keeps.nextEvent, length_append, ← Nat.add_assoc]
        rfl
      rw [place]
      dsimp only
      omega

theorem save_stream_continues_step :
    let point : SavePoint := { event := 1, afterTurn := 2, history := 0, sealedThrough := 1 }
    let frames : List Bytes :=
      [[5, 0, 0, 0, 1, 1, 1, 100, 0], [8, 0, 0, 0, 1, 2, 1, 100, 1, 1, 2, 3], [5, 0, 0, 0, 1, 3, 2, 100, 0]]
    ∃ last stream, last.streamFromSave point = .ok stream ∧
      ∀ calls actions f calls' actions' f', calls.filterMap TurnFollower.Call.turn = frames.filterMap decodeTurn →
        (TurnFollower.new (plainTable.start plainGame firstStream)).drive calls = .ok (actions, f) →
        f.nextAction.1 = none →
        calls'.filterMap TurnFollower.Call.turn = (stream.backlog ++ []).filterMap decodeTurn →
        (TurnFollower.new (plainTable.start last stream)).drive calls' = .ok (actions', f') → f'.nextAction.1 = none →
        ∃ done, actions = done ++ .apply { seq := 1, step := 2, body := .save } :: actions' := by
  intro point frames
  obtain ⟨g, one, room⟩ : ∃ g, plainGame.sealPending 1 = (g, .ok [[5, 0, 0, 0, 1, 1, 1, 100, 0]]) ∧
      ∃ g', g.save acceptAll () = (g', (), .ok (point, [[8, 0, 0, 0, 1, 2, 1, 100, 1, 1, 2, 3]])) ∧
      ∃ last, g'.sealPending 2 = (last, .ok [[5, 0, 0, 0, 1, 3, 2, 100, 0]]) ∧ g'.sealedThrough ≤ 2 ∧
        last.logFirstTurn ≤ 3 ∧ last.sealedThrough < u64Max ∧ last.nextTurn ≤ u64Max ∧ last.nextEvent ≤ u64Max :=
    ⟨_, Prod.ext rfl (by decide +kernel), _, Prod.ext rfl (Prod.ext (Subsingleton.elim _ _) (by decide +kernel)),
      _, Prod.ext rfl (by decide +kernel), by decide +kernel, by decide +kernel, by decide +kernel, by decide +kernel,
      by decide +kernel⟩
  obtain ⟨g', saved, last, two, forward, kept, frontier, turns, events⟩ := room
  have before : Game.Runs acceptAll (plainGame, ()) [[5, 0, 0, 0, 1, 1, 1, 100, 0]] (g, ()) :=
    .sealed (.refl _) (Nat.zero_le 1) one
  have after : Game.Runs acceptAll (g', ()) [[5, 0, 0, 0, 1, 3, 2, 100, 0]] (last, ()) :=
    .sealed (.refl _) forward two
  obtain ⟨stream, granted, follow⟩ := save_stream_continues before saved after kept (.refl _) frontier turns events
  refine ⟨last, stream, granted, ?_⟩
  intro calls actions f calls' actions' f' same ran finished same' ran' finished'
  obtain ⟨done, split, _⟩ := (follow plainTable.room plainTable.settings plainTable.rules none).2
    (plainTable.start plainGame firstStream) calls actions f calls' actions' f' rfl rfl rfl same ran finished
    same' ran' finished'
  exact ⟨done, split⟩

theorem save_stream_last_frontier : ∃ (g g' : Game) (earlier frames : List Bytes) (point : SavePoint) (stream : Stream),
    Game.Runs acceptAll (plainGame, ()) earlier (g, ()) ∧ g.save acceptAll () = (g', (), .ok (point, frames)) ∧
      g'.streamFromSave point = .ok stream ∧
      (TurnFollower.new (plainTable.start plainGame firstStream)).drive
        (((earlier ++ frames).filterMap decodeTurn).map .accept) = .error .overflow ∧
      (TurnFollower.new (plainTable.start g' stream)).nextAction.1 = some (.execute 0) := by
  let g := (plainGame.sealPending u64Max).1
  let made := g.save acceptAll ()
  let frame : Bytes := [14, 0, 0, 0, 1, 1, 255, 255, 255, 255, 255, 255, 255, 255, 255, 1, 100, 0]
  let save : Bytes := [17, 0, 0, 0, 1, 2, 255, 255, 255, 255, 255, 255, 255, 255, 255, 1, 100, 1, 1, 0, 3]
  let point : SavePoint := { event := 1, afterTurn := 2, history := 0, sealedThrough := u64Max }
  have sealed : plainGame.sealPending u64Max = (g, .ok [frame]) := Prod.ext rfl (by decide +kernel)
  have saved : made = (made.1, (), .ok (point, [save])) :=
    Prod.ext rfl (Prod.ext (Subsingleton.elim _ _) (by decide +kernel))
  refine ⟨g, made.1, [frame], [save], point, { nextTurn := 3, nextEvent := 2, sealedThrough := u64Max, backlog := [] },
    .sealed (.refl _) (Nat.zero_le _) sealed, saved, by decide +kernel, by decide +kernel, by decide +kernel⟩

end Tpf3Mp.Server
