import Mathlib.Data.List.Dedup
import Tpf3Mp.Server.LogCrash
import Tpf3Mp.Server.Recover
import Tpf3Mp.Server.TurnLog

/-!
What replaying a log does, record by record: which records it takes, what each leaves behind, and how
a whole log's replay comes down to that of its records.
-/

namespace Tpf3Mp.Server
open Codec Proto Data List

def Game.origin (g : Game) : Origin := ⟨g.nextTurn, g.nextEvent, g.sealedThrough⟩

namespace Replay
variable {σ : Type} {ruleset : Ruleset σ} {base : Option Base} {r r' : Replay σ}

theorem next_eq (ruleset : Ruleset σ) (event : Event) : ∃ seated state owner banned,
    r.next ruleset event = { r with
      game := { r.game with nextEvent := r.game.nextEvent + 1, seated }, state, owner, banned } := by
  unfold next
  dsimp only
  split
  · unfold play
    split
    · exact ⟨_, _, _, _, rfl⟩
    · exact ⟨_, _, _, _, rfl⟩
  · exact ⟨_, _, _, _, rfl⟩

theorem foldl_next_eq (ruleset : Ruleset σ) (events : List Event) : ∃ seated state owner banned,
    events.foldl (next ruleset) r = { r with
      game := { r.game with nextEvent := r.game.nextEvent + events.length, seated }, state, owner, banned } := by
  induction events generalizing r with
  | nil => exact ⟨_, _, _, _, rfl⟩
  | cons event events ih =>
    obtain ⟨seated, state, owner, banned, one⟩ := r.next_eq ruleset event
    obtain ⟨seated', state', owner', banned', rest⟩ := @ih (r.next ruleset event)
    refine ⟨seated', state', owner', banned', ?_⟩
    rw [foldl_cons, rest, one, length_cons, Nat.add_comm events.length 1, ← Nat.add_assoc]

theorem foldlM_takeEvent {events : List Event} : events.foldlM (takeEvent ruleset) r = .ok r' ↔
      Numbered r.game.nextEvent events ∧ r' = events.foldl (next ruleset) r := by
  induction events generalizing r with
  | nil => exact ⟨fun done => ⟨rfl, (Except.ok.inj done).symm⟩, fun ⟨_, same⟩ => same ▸ rfl⟩
  | cons event events ih =>
    rw [foldlM_cons, numbered_cons, foldl_cons, Run.bind_ok]
    have counted : (r.next ruleset event).game.nextEvent = r.game.nextEvent + 1 := by
      obtain ⟨_, _, _, _, one⟩ := r.next_eq ruleset event
      rw [one]
    constructor
    · rintro ⟨middle, taken, rest⟩
      unfold takeEvent at taken
      split at taken
      · cases taken
      rename_i same
      cases taken
      obtain ⟨numbered, folded⟩ := ih.mp rest
      exact ⟨⟨Decidable.not_not.mp same, counted ▸ numbered⟩, folded⟩
    · rintro ⟨⟨same, numbered⟩, folded⟩
      exact ⟨_, if_neg (not_not.mpr same), ih.mpr ⟨counted ▸ numbered, folded⟩⟩

/-- A record the replay takes, and what it leaves: a turn that goes on from the ones before it, or
the mark of an earlier recovery. -/
inductive Takes (ruleset : Ruleset σ) (r : Replay σ) (frame : Bytes) : Replay σ → Prop where
  | turn {turn : Turn} (decoded : decodeFrame Proto.Wire.turnMessage (frame.drop frameHeaderLen) = .ok (.turn turn))
      (continues : r.game.origin.Continues turn) (bounded : turn.sealedThrough ≤ maxFrontier) :
      Takes ruleset r frame ((turn.events.foldl (next ruleset) r).file frame turn r.game.nextEvent)
  | marker {marker : TurnStart}
      (decoded : decodeFrame Proto.Wire.turnMessage (frame.drop frameHeaderLen) = .ok (.start marker))
      (based : r.based = true) (nextTurn : marker.nextTurn = r.game.nextTurn)
      (nextEvent : marker.nextEvent = r.game.nextEvent) :
      Takes ruleset r frame { r with game := r.game.beginHistory marker.history, index := r.index + 1 }

theorem takeTurn_ok {frame : Bytes} {turn : Turn} : r.takeTurn ruleset frame turn = .ok r' ↔
      r.game.origin.Continues turn ∧ turn.sealedThrough ≤ maxFrontier ∧
        r' = (turn.events.foldl (next ruleset) r).file frame turn r.game.nextEvent := by
  have first (numbered : Numbered r.game.nextEvent turn.events) :
      (turn.events.head?.map Event.seq).getD r.game.nextEvent = r.game.nextEvent := by
    cases events : turn.events with
    | nil => rfl
    | cons event rest =>
      rw [events] at numbered
      exact (numbered_cons.mp numbered).1
  unfold takeTurn
  constructor
  · intro done
    split at done
    · cases done
    rename_i here
    simp only [Bool.or_eq_true, decide_eq_true_eq, not_or, Decidable.not_not, not_lt] at here
    split at done
    · cases done
    rename_i bounded
    obtain ⟨middle, taken, filed⟩ := Run.bind_ok.mp done
    obtain ⟨numbered, rfl⟩ := foldlM_takeEvent.mp taken
    rw [first numbered] at filed
    exact ⟨⟨here.1, here.2, numbered⟩, not_lt.mp bounded, (Except.ok.inj filed).symm⟩
  · rintro ⟨continues, bounded, rfl⟩
    have here : ¬ (decide (turn.number ≠ r.game.nextTurn) || decide (turn.sealedThrough < r.game.sealedThrough)) =
      true := by
      simp only [Bool.or_eq_true, decide_eq_true_eq, not_or, Decidable.not_not, not_lt]
      exact ⟨continues.number, continues.forward⟩
    rw [if_neg here, if_neg (not_lt.mpr bounded), first continues.numbered]
    exact Run.bind_ok.mpr ⟨_, foldlM_takeEvent.mpr ⟨continues.numbered, rfl⟩, rfl⟩

theorem takeMarker_ok {marker : TurnStart} : r.takeMarker marker = .ok r' ↔
      r.based = true ∧ marker.nextTurn = r.game.nextTurn ∧ marker.nextEvent = r.game.nextEvent ∧
        r' = { r with game := r.game.beginHistory marker.history, index := r.index + 1 } := by
  unfold takeMarker
  split
  · next refused =>
    constructor
    · intro done
      cases done
    · rintro ⟨based, nextTurn, nextEvent, _⟩
      rw [based] at refused
      simp [nextTurn, nextEvent] at refused
  · next here =>
    simp only [Bool.or_eq_true, Bool.not_eq_true', decide_eq_true_eq, not_or, Bool.not_eq_false,
      Decidable.not_not] at here
    constructor
    · intro done
      exact ⟨here.1.1, here.1.2, here.2, (Except.ok.inj done).symm⟩
    · rintro ⟨_, _, _, rfl⟩
      rfl

theorem read_ok {frame : Bytes} :
    r.read ruleset frame = .ok r' ↔ frameHeaderLen ≤ frame.length ∧ r.Takes ruleset frame r' := by
  unfold read
  constructor
  · intro done
    split at done
    · cases done
    rename_i long
    refine ⟨not_lt.mp long, ?_⟩
    split at done
    · next turn decoded =>
      obtain ⟨continues, bounded, rfl⟩ := takeTurn_ok.mp done
      exact .turn decoded continues bounded
    · next marker decoded =>
      obtain ⟨based, nextTurn, nextEvent, rfl⟩ := takeMarker_ok.mp done
      exact .marker decoded based nextTurn nextEvent
    · cases done
  · rintro ⟨long, takes⟩
    rw [if_neg (not_lt.mpr long)]
    cases takes with
    | turn decoded continues bounded =>
      rw [decoded]
      exact takeTurn_ok.mpr ⟨continues, bounded, rfl⟩
    | marker decoded based nextTurn nextEvent =>
      rw [decoded]
      exact takeMarker_ok.mpr ⟨based, nextTurn, nextEvent, rfl⟩

theorem settle_ok (done : r.settle base = .ok r') :
    r' = { r with based := r'.based } ∧ (r.based = true → r'.based = true) := by
  unfold settle at done
  split at done
  · split at done
    · cases done
      exact ⟨rfl, fun _ => rfl⟩
    · cases done
  · cases done
    exact ⟨rfl, fun based => based⟩

theorem settle_based (based : r.based = true) : r.settle base = .ok r := by
  unfold settle
  rw [based]
  rfl

end Replay

def StartRecord.replayed {σ : Type} (start : StartRecord) (choice : RulesChoice σ) (now : Instant)
    (records : List Bytes) : Except RecoverError (Replay σ) := do
  let replay ← start.replay choice now
  let replay ← replay.settle start.base
  records.foldlM (Replay.takeRecord choice.ruleset start.base) replay

namespace Replay
variable {σ τ : Type} {choice : RulesChoice σ} {view : σ → τ} {seen : RulesChoice τ} {base : Option Base}
    {r r' : Replay σ}

def through (view : σ → τ) (r : Replay σ) : Replay τ :=
  { game := r.game, state := view r.state, owner := r.owner, banned := r.banned, based := r.based, index := r.index }

theorem next_through (views : choice.Views view seen) (event : Event) :
    (r.next choice.ruleset event).through view = (r.through view).next seen.ruleset event := by
  unfold next play through
  dsimp only
  split
  · rw [← views.apply]
    split <;> rfl
  · rfl

theorem foldl_next_through (views : choice.Views view seen) (events : List Event) :
    (events.foldl (next choice.ruleset) r).through view = events.foldl (next seen.ruleset) (r.through view) := by
  induction events generalizing r with
  | nil => rfl
  | cons event events ih => rw [foldl_cons, foldl_cons, ih, next_through views]

theorem settle_through (settled : r.settle base = .ok r') : (r.through view).settle base = .ok (r'.through view) := by
  unfold settle at settled ⊢
  split at settled
  · next late =>
    apply (if_pos late).trans
    split at settled
    · next meets =>
      cases settled
      exact if_pos meets
    · cases settled
  · next early =>
    cases settled
    exact if_neg early

theorem takeRecord_through {frame : Bytes} (views : choice.Views view seen)
    (taken : r.takeRecord choice.ruleset base frame = .ok r') :
    (r.through view).takeRecord seen.ruleset base frame = .ok (r'.through view) := by
  obtain ⟨middle, read, settled⟩ := Run.bind_ok.mp taken
  obtain ⟨long, takes⟩ := read_ok.mp read
  have seen' : (r.through view).Takes seen.ruleset frame (middle.through view) := by
    cases takes with
    | @turn turn decoded continues bounded =>
      have played := foldl_next_through (r := r) views turn.events
      have same : ((turn.events.foldl (next choice.ruleset) r).file frame turn r.game.nextEvent).through view =
          (turn.events.foldl (next seen.ruleset) (r.through view)).file frame turn r.game.nextEvent := by
        rw [← played]
        rfl
      rw [same]
      exact .turn decoded continues bounded
    | marker decoded based nextTurn nextEvent => exact .marker decoded based nextTurn nextEvent
  exact Run.bind_ok.mpr ⟨_, read_ok.mpr ⟨long, seen'⟩, settle_through settled⟩

end Replay

variable {records : List Bytes}

section Through
variable {σ τ : Type} {choice : RulesChoice σ} {view : σ → τ} {seen : RulesChoice τ} {start : StartRecord}
  {now : Instant} {replay : Replay σ}

theorem StartRecord.replay_plain (unbased : start.base = none) (begins : start.replay choice now = .ok replay) :
    replay = { game := .new start.settings start.history now, state := choice.fresh, owner := start.owner
               banned := [], based := true, index := 0 } := by
  unfold StartRecord.replay at begins
  simp only [unbased] at begins
  cases begins
  rfl

theorem StartRecord.replay_based {base : Base} (found : start.base = some base)
    (begins : start.replay choice now = .ok replay) :
    ∃ game state, (Game.new start.settings start.history now).rebase base = some game ∧
      choice.ruleset.restore choice.fresh base.rules = .ok state ∧ (base.seated.map Prod.fst).Nodup ∧
      replay = { game, state, owner := start.owner, banned := base.banned.foldr List.insert [], based := false
                 index := 0 } := by
  unfold StartRecord.replay at begins
  simp only [found] at begins
  split at begins
  · cases begins
  rename_i game rebased
  split at begins
  · cases begins
  rename_i sound
  obtain ⟨state, restored, begins⟩ := Run.bind_ok.mp begins
  cases begins
  refine ⟨game, state, rebased, Run.mapError_ok.mp restored, ?_, rfl⟩
  simp only [Bool.or_eq_true, decide_eq_true_eq, not_or, Decidable.not_not] at sound
  refine dedup_eq_self.mp ((dedup_sublist _).eq_of_length ?_)
  rw [sound.1.2, length_map]

/-- What holds of a new game, and of one a base was put on, holds of the game a replay begins with. -/
theorem StartRecord.replay_game {P : Game → Prop} (begins : start.replay choice now = .ok replay)
    (fresh : P (.new start.settings start.history now))
    (based : ∀ base game, (Game.new start.settings start.history now).rebase base = some game → P game) :
    P replay.game := by
  cases found : start.base with
  | none =>
    rw [StartRecord.replay_plain found begins]
    exact fresh
  | some base =>
    obtain ⟨game, state, rebased, _, _, rfl⟩ := StartRecord.replay_based found begins
    exact based base game rebased

theorem StartRecord.replay_through (views : choice.Views view seen) (begins : start.replay choice now = .ok replay) :
    start.replay seen now = .ok (replay.through view) := by
  unfold StartRecord.replay at begins ⊢
  dsimp only at begins ⊢
  split at begins
  · cases begins
    unfold Replay.through
    rw [views.fresh]
    rfl
  · split at begins
    · cases begins
    split at begins
    · cases begins
    rename_i few
    obtain ⟨state, restored, begins⟩ := Run.bind_ok.mp begins
    cases begins
    rw [if_neg few, views.restored (Run.mapError_ok.mp restored)]
    rfl

theorem StartRecord.replayed_through (views : choice.Views view seen)
    (replays : start.replayed choice now records = .ok replay) :
    start.replayed seen now records = .ok (replay.through view) := by
  obtain ⟨begun, begins, replays⟩ := Run.bind_ok.mp replays
  obtain ⟨settled, settles, replays⟩ := Run.bind_ok.mp replays
  refine Run.bind_ok.mpr
    ⟨_, StartRecord.replay_through views begins, Run.bind_ok.mpr ⟨_, Replay.settle_through settles, ?_⟩⟩
  exact Run.foldlM_simulates (Replay.takeRecord_through views) replays

end Through

theorem StartRecord.replayed_preserves {σ : Type} {start : StartRecord} {choice : RulesChoice σ} {now : Instant}
    {replay : Replay σ} {P : Replay σ → Prop} (whole : start.replayed choice now records = .ok replay)
    (begins : ∀ begun, start.replay choice now = .ok begun → P begun)
    (settles : ∀ (r : Replay σ) (based : Bool), P r → P { r with based })
    (takes : ∀ (r r' : Replay σ) (frame : Bytes), P r → r.Takes choice.ruleset frame r' → P r') : P replay := by
  obtain ⟨begun, start, rest⟩ := Run.bind_ok.mp whole
  obtain ⟨settled, settle, replays⟩ := Run.bind_ok.mp rest
  have holds : P settled := by
    rw [(Replay.settle_ok settle).1]
    exact settles begun _ (begins begun start)
  clear whole rest settle
  induction records generalizing settled with
  | nil =>
    cases replays
    exact holds
  | cons frame records ih =>
    obtain ⟨next, taken, rest⟩ := Run.bind_ok.mp replays
    obtain ⟨middle, read, settle⟩ := Run.bind_ok.mp taken
    apply ih next rest
    rw [(Replay.settle_ok settle).1]
    exact settles middle _ (takes settled middle frame holds (Replay.read_ok.mp read).2)

section Logs
variable {σ : Type} {menu : RulesMenu σ} {file : RoomId} {now : Instant} {disk : Disk} {start : StartRecord}
  {choice : RulesChoice σ} {replay : Replay σ} {reader : LogReader}

theorem readRecords_next {first : Bytes} {opened onward : LogReader}
    (read : RoomLog.read .log disk = .ok opened) (next : opened.nextRecord = .ok (some first, onward)) :
    readRecords .log disk = LogReader.forEach (id : LogError → LogError)
      (fun records payload => .ok (records ++ [payload])) onward.rounds onward [first] := by
  obtain ⟨same, forward, inside⟩ := LogReader.nextRecord_forward next
  have enough : onward.file.length - onward.offset < opened.file.length := by
    rw [same]
    omega
  unfold readRecords LogReader.rounds
  rw [read, same, LogReader.forEach_more enough]
  show opened.readAll = _
  unfold LogReader.readAll LogReader.rounds
  rw [LogReader.forEach, next]
  rfl

theorem readRecords_first {first : Bytes} {opened : LogReader}
    (read : RoomLog.read .log disk = .ok opened) (all : readRecords .log disk = .ok (first :: records, reader)) :
    ∃ onward, opened.nextRecord = .ok (some first, onward) := by
  have whole : opened.readAll = .ok (first :: records, reader) := by
    unfold readRecords at all
    rw [read] at all
    exact all
  cases next : opened.nextRecord with
  | error error =>
    unfold LogReader.readAll LogReader.rounds at whole
    rw [LogReader.forEach, next] at whole
    cases whole
  | ok result =>
    obtain ⟨payload, onward⟩ := result
    cases payload with
    | none =>
      unfold LogReader.readAll LogReader.rounds at whole
      rw [LogReader.forEach, next] at whole
      cases whole
    | some payload =>
      rw [readRecords_next read next] at all
      obtain ⟨later, _, collected⟩ := LogReader.forEach_records [payload] all
      rw [collected] at all
      obtain rfl := (List.cons.inj (Prod.mk.inj (Except.ok.inj all)).1).1
      exact ⟨onward, rfl⟩

theorem replayLog_eq {first : Bytes} (read : readRecords .log disk = .ok (first :: records, reader)) :
    replayLog menu file now disk = (do
      let (start, choice) ← readStart menu file first
      let replay ← start.replayed choice now records
      if replay.based then .ok (start, choice, replay, reader) else .error (.continuity replay.index)) := by
  obtain ⟨opened, opens, _⟩ := Run.bind_ok.mp read
  obtain ⟨onward, next⟩ := readRecords_first opens read
  rw [readRecords_next opens next] at read
  unfold replayLog
  simp only [opens, next, Except.mapError, Run.ok_bind, Option.elim_some]
  refine Run.bind_congr_ok fun ⟨start, choice⟩ _ => ?_
  unfold StartRecord.replayed
  rw [bind_assoc]
  refine Run.bind_congr_ok fun begun _ => ?_
  rw [bind_assoc]
  refine Run.bind_congr_ok fun settled _ => ?_
  have folded := @LogReader.forEach_eq _ _ _ _ RecoverError.log (Replay.takeRecord choice.ruleset start.base) settled _
    [first] records read
  rw [folded]
  cases records.foldlM (Replay.takeRecord choice.ruleset start.base) settled with
  | error error => rfl
  | ok last => rfl

theorem replayLog_ok (done : replayLog menu file now disk = .ok (start, choice, replay, reader)) :
    ∃ first records, readRecords .log disk = .ok (first :: records, reader) ∧
      readStart menu file first = .ok (start, choice) ∧ start.replayed choice now records = .ok replay ∧
      replay.based = true := by
  have reads : ∃ first records reader', readRecords .log disk = .ok (first :: records, reader') := by
    obtain ⟨opened, opens, done⟩ := Run.bind_ok.mp done
    obtain ⟨⟨found, onward⟩, next, done⟩ := Run.bind_ok.mp done
    obtain ⟨first, chosen, done⟩ := Run.bind_ok.mp done
    obtain ⟨⟨start', choice'⟩, _, done⟩ := Run.bind_ok.mp done
    obtain ⟨begun, _, done⟩ := Run.bind_ok.mp done
    obtain ⟨settled, _, done⟩ := Run.bind_ok.mp done
    obtain ⟨⟨last, reader'⟩, replays, _⟩ := Run.bind_ok.mp done
    cases found with
    | none => cases chosen
    | some first =>
      cases chosen
      obtain ⟨records, _, collected⟩ := LogReader.forEach_records [first] replays
      exact ⟨first, records, reader',
        by rw [readRecords_next (Run.mapError_ok.mp opens) (Run.mapError_ok.mp next), collected]; rfl⟩
  obtain ⟨first, records, reader', read⟩ := reads
  rw [replayLog_eq read] at done
  obtain ⟨⟨start', choice'⟩, started, done⟩ := Run.bind_ok.mp done
  obtain ⟨last, replays, done⟩ := Run.bind_ok.mp done
  split at done
  · next based =>
    cases done
    exact ⟨first, records, read, started, replays, based⟩
  · cases done

theorem Room.recover_ok {o : Oracle} {env : RoomEnv} {verify : Bytes → Bytes → Bool} {pointer : Option Agreed}
    {disk' : Disk} {room : Room σ} (done : recover o menu env verify file pointer now disk = (disk', .ok (some room))) :
    ∃ start choice replay reader cut log frame log',
      replayLog menu file now disk = .ok (start, choice, replay, reader) ∧
      replay.game.seated ≠ [] ∧ reader.intoLog disk = (cut, .ok log) ∧
      encodeFrame Proto.Wire.turnMessage (marker start (replay.game.beginHistory (o.history 0))) turnMaxFrame =
        .ok frame ∧
      log.append frame (o.write 0) cut = (disk', .ok log') ∧
      room = restored o env verify pointer now start choice replay log' disk' := by
  unfold recover at done
  split at done
  · cases done
  rename_i start choice replay reader replayed
  split at done
  · cases done
  rename_i seated
  split at done
  · cases done
  rename_i cut log kept
  split at done
  · cases done
  rename_i frame encoded
  split at done
  · cases done
  rename_i written log' appended
  cases done
  exact ⟨start, choice, replay, reader, cut, log, frame, log', replayed,
    fun empty => seated (by rw [empty]; rfl), kept, encoded, appended, rfl⟩

end Logs

end Tpf3Mp.Server
