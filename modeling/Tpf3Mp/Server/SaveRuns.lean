import Tpf3Mp.Server.SaveFlow

/-!
Saves along the runs of a room. Between a save's round and the snapshot kept for it many things may
happen, in any order; what is kept goes back to a report in that round all the same.
-/

namespace Tpf3Mp.Server
open Codec Proto Data Relation List

/-- A connection that reports an upload fetched the snapshot it was asked for. -/
def RoomCommand.Fetched : RoomCommand → Prop
  | .uploaded _ snapshot (.ok manifest) => manifest.id = snapshot
  | _ => True

namespace Room
variable {σ : Type} {r r' : Room σ} {o : Oracle} {mode : Mode}

inductive ServedStep : Room σ → Room σ → Prop where
  | handled {r : Room σ} (o : Oracle) (now : Instant) (command : RoomCommand) (live : r.closed = false)
      (fetched : command.Fetched) : ServedStep r (r.handle o now command).1
  | saved {r : Room σ} (o : Oracle) (now : Instant) (live : r.closed = false) : ServedStep r (r.tickSaves o now)
  | sealed {r : Room σ} (o : Oracle) (now : Instant) (live : r.closed = false) : ServedStep r (r.tickSeal o now)
  | compacted {r : Room σ} (done : Rewrite) (writes : Nat → Write) (renamed : Bool) (live : r.closed = false) :
      ServedStep r (r.finishCompaction done writes renamed)

abbrev ServedRuns : Room σ → Room σ → Prop := ReflTransGen ServedStep

/-- In a step of the room the round of a save is decided, by the reports it then has: a tick goes by
those the round had, a member's report by its own as well. -/
inductive Decides (point : SavePoint) : Room σ → Room σ → List SaveReport → Prop where
  | ticked {r : Room σ} {round : SaveRound} (o : Oracle) (now : Instant) (live : r.closed = false)
      (found : r.saves.rounds.find point.event = some round) (same : round.point = point)
      (gone : (r.tickSaves o now).saves.rounds.find point.event = none) :
      Decides point r (r.tickSaves o now) round.reports
  | reported {r : Room σ} {round : SaveRound} {player : PlayerId} {link : UInt64} {lanes : List LaneDigest}
      {world : Option SavedWorld} {index : Nat} {member : Member} (o : Oracle) (now : Instant) (live : r.closed = false)
      (linked : r.linked player link = some index) (seat : r.members[index]? = some member)
      (found : r.saves.rounds.find point.event = some round) (same : round.point = point)
      (gone : (r.handle o now (.saved player link point.event lanes world)).1.saves.rounds.find point.event = none) :
      Decides point r (r.handle o now (.saved player link point.event lanes world)).1
        (round.reports ++ [saveReport player index member lanes world])

/-- What a step does to the save on its way and to the snapshots the room holds. -/
inductive Passes (r r' : Room σ) : Prop where
  | quiet (same : r'.saves.current = r.saves.current ∧ r'.saves.previous = r.saves.previous)
      (upload : ∀ upload', r'.saves.upload = some upload' → ∃ upload receiving, r.saves.upload = some upload ∧
        upload' = { upload with receiving })
  | decided {point : SavePoint} {reports : List SaveReport} (decides : Decides point r r' reports)
      (sent : Saves.Sent point (decideSaves reports).1 r.saves.current r.saves.previous r'.saves)
  | sent {upload : Upload} (found : r.saves.upload = some upload)
      (sent : Saves.Sent upload.point ((upload.sender, upload.world) :: upload.rest) r.saves.current
        r.saves.previous r'.saves)

theorem Passes.of_same (upload : r'.saves.upload = r.saves.upload)
    (same : r'.saves.current = r.saves.current ∧ r'.saves.previous = r.saves.previous) : Passes r r' :=
  .quiet same fun upload' found => ⟨upload', upload'.receiving, upload ▸ found, rfl⟩

theorem Deeds.passes (deeds : Deeds .unsaving o r r') (orderly : r.saves.Orderly r.nextEvent) :
    r'.saves.Orderly r'.nextEvent ∧ Passes r r' := by
  obtain ⟨like, later⟩ := deeds.like
  refine ⟨orderly.like like later, ?_⟩
  obtain ⟨wanted, failed, same⟩ := like
  exact .of_same (by rw [same]) (by rw [same]; exact ⟨rfl, rfl⟩)

theorem saved_passes (now : Instant) (player : PlayerId) (link : UInt64) (event : Nat) (lanes : List LaneDigest)
    (world : Option SavedWorld) (live : r.closed = false) (orderly : r.saves.Orderly r.nextEvent) :
    (r.saved o now player link event lanes world).saves.Orderly
      (r.saved o now player link event lanes world).nextEvent ∧
      Passes r (r.saved o now player link event lanes world) := by
  have next := Acts.nextEvent (saved_acts rfl now player link event lanes world :
    Acts .all r (r.saved o now player link event lanes world))
  rcases r.saved_saves now player link event lanes world with same | ⟨index, member, round, linked, seat, found, told⟩
  · rw [same, next]
    exact ⟨orderly, .of_same (by rw [same]) (by rw [same]; exact ⟨rfl, rfl⟩)⟩
  dsimp only at told
  -- A round is open, so it is the only one and nothing is being uploaded.
  cases orderly with
  | idle rounds => rw [rounds] at found; cases found
  | upload _ fresh =>
    have rounds : r.saves.rounds = [] := fresh.rounds
    rw [rounds] at found
    cases found
  | @round other only fresh =>
    obtain ⟨rfl, rfl⟩ : event = round.point.event ∧ round = other := by
      rw [only] at found
      simp only [SortedMap.find, find?_cons, find?_nil] at found
      split at found
      · next here =>
        cases found
        exact ⟨(of_decide_eq_true here).symm, rfl⟩
      · cases found
    generalize appended : round.reports ++ [saveReport player index member lanes world] = reports at told
    have only' : r.saves.rounds.insert round.point.event { round with reports } =
        [(round.point.event, { round with reports })] := by
      rw [only]
      simp [SortedMap.insert]
    rw [only'] at told
    rcases told with same | sends
    · rw [same, next]
      exact ⟨@Saves.Orderly.round _ _ { round with reports } rfl fresh,
        .of_same (by rw [same]) (by rw [same]; exact ⟨rfl, rfl⟩)⟩
    have erased : SortedMap.erase round.point.event [(round.point.event, { round with reports })] = [] := by
      simp [SortedMap.erase]
    rw [erased] at sends
    obtain ⟨orderly, rounds⟩ := sends.orderly fresh
    rw [next]
    refine ⟨orderly, @Passes.decided _ _ _ _ reports ?_ (sends.sent fresh)⟩
    rw [← appended]
    refine .reported o now live linked seat found rfl ?_
    show (r.saved o now player link round.point.event lanes world).saves.rounds.find _ = none
    rw [rounds]
    rfl

theorem uploadStarts_passes (player : PlayerId) (link : UInt64) (snapshot : SnapshotId)
    (orderly : r.saves.Orderly r.nextEvent) :
    (r.uploadStarts player link snapshot).1.saves.Orderly (r.uploadStarts player link snapshot).1.nextEvent ∧
      Passes r (r.uploadStarts player link snapshot).1 := by
  have next := Acts.nextEvent (uploadStarts_acts rfl player link snapshot : Acts .all r _)
  rcases r.uploadStarts_saves player link snapshot with same | ⟨upload, found, same⟩
  · rw [same, next]
    exact ⟨orderly, .of_same (by rw [same]) (by rw [same]; exact ⟨rfl, rfl⟩)⟩
  rw [same, next]
  refine ⟨?_, .quiet (by rw [same]; exact ⟨rfl, rfl⟩) fun upload' found' => ?_⟩
  · have fresh := orderly.uploading found
    exact .upload rfl fresh
  · rw [same] at found'
    cases found'
    exact ⟨upload, true, found, rfl⟩

theorem uploaded_passes (now : Instant) (player : PlayerId) (snapshot : SnapshotId) (result : Except String Manifest)
    (fetched : ∀ manifest, result = .ok manifest → manifest.id = snapshot) (orderly : r.saves.Orderly r.nextEvent) :
    (r.uploaded o now player snapshot result).saves.Orderly (r.uploaded o now player snapshot result).nextEvent ∧
      Passes r (r.uploaded o now player snapshot result) := by
  have next := Acts.nextEvent (uploaded_acts rfl now player snapshot result :
    Acts .all r (r.uploaded o now player snapshot result))
  rcases r.uploaded_sends now player snapshot result fetched with same | ⟨upload, found, sends⟩
  · rw [same, next]
    exact ⟨orderly, .of_same (by rw [same]) (by rw [same]; exact ⟨rfl, rfl⟩)⟩
  rw [next]
  have fresh := orderly.uploading found
  exact ⟨(sends.orderly fresh).1, .sent found (sends.sent fresh)⟩

theorem tickSaves_passes (now : Instant) (live : r.closed = false) (orderly : r.saves.Orderly r.nextEvent) :
    (r.tickSaves o now).saves.Orderly (r.tickSaves o now).nextEvent ∧ Passes r (r.tickSaves o now) := by
  obtain ⟨before, deeds, same | ⟨_, same⟩⟩ : ∃ before, Deeds .unsaving o r before ∧ _ := tickSaves_comes rfl now live
  · rw [same]
    exact deeds.passes orderly
  obtain ⟨like, later⟩ := deeds.like
  obtain ⟨orderly', flow⟩ := runSaves_flow now (orderly.like like later)
  rw [← same] at orderly' flow
  refine ⟨orderly', ?_⟩
  obtain ⟨wanted, failed, alike⟩ := like
  rw [alike] at flow
  rcases flow with ⟨upload, slots⟩ | ⟨round, found, gone, sent⟩ | ⟨upload, found, sent⟩
  · exact .of_same upload slots
  · exact .decided (.ticked o now live found rfl gone) sent
  · exact .sent found (sent.more (subset_cons_self _ _))

theorem ServedStep.passes (step : ServedStep r r') (orderly : r.saves.Orderly r.nextEvent) :
    r'.saves.Orderly r'.nextEvent ∧ Passes r r' := by
  cases step with
  | handled o now command live fetched =>
    cases command with
    | saved player link event lanes world => exact saved_passes now player link event lanes world live orderly
    | upload player link snapshot => exact uploadStarts_passes player link snapshot orderly
    | uploaded player snapshot result =>
      refine uploaded_passes now player snapshot result (fun manifest arrived => ?_) orderly
      subst arrived
      exact fetched
    | _ => exact Deeds.passes (handle_deeds now _ live (.inr trivial) (.inl rfl) (.inl rfl) (.inl rfl)) orderly
  | saved o now live => exact tickSaves_passes now live orderly
  | sealed o now live => exact Deeds.passes (tickSeal_deeds now) orderly
  | compacted done writes renamed live =>
    obtain ⟨disk, log, compaction, compactAt, same⟩ := r.finishCompaction_eq done writes renamed
    rw [same]
    exact ⟨orderly, .of_same rfl ⟨rfl, rfl⟩⟩

/-- Somewhere on the way from `r₀` to `r` the round of the save at `point` was decided by `reports`. -/
def Decided (r₀ r : Room σ) (point : SavePoint) (reports : List SaveReport) : Prop :=
  ∃ s s', ServedRuns r₀ s ∧ Decides point s s' reports ∧ ServedRuns s' r

/-- Whoever is asked for a save, now or next, was a candidate when its round was decided. -/
def Vouched (r₀ r : Room σ) : Prop :=
  ∀ upload, r.saves.upload = some upload → ∃ reports, Decided r₀ r upload.point reports ∧
    (upload.sender, upload.world) :: upload.rest ⊆ (decideSaves reports).1

theorem candidate_reported {reports : List SaveReport} {candidate : PlayerId × SavedWorld}
    (among : candidate ∈ (decideSaves reports).1) :
    ∃ save ∈ reports, save.report.player = candidate.1 ∧ save.world = some candidate.2 ∧
      ∀ diverged ∈ (decideSaves reports).2, diverged.1 ≠ candidate.1 := by
  obtain ⟨save, ranked, sent⟩ := mem_filterMap.mp among
  obtain ⟨world, saved, rfl⟩ := Option.map_eq_some_iff.mp sent
  obtain ⟨reported, agrees⟩ := mem_filter.mp ((mem_insertionSort _).mp ranked)
  refine ⟨save, reported, rfl, saved, fun diverged found same => ?_⟩
  rw [Bool.not_eq_true', any_eq_false] at agrees
  exact agrees diverged found (by simpa using same)

variable {r₀ : Room σ}

theorem Decided.step {point : SavePoint} {reports : List SaveReport} (decided : Decided r₀ r point reports)
    (step : ServedStep r r') : Decided r₀ r' point reports := by
  obtain ⟨s, s', before, decides, after⟩ := decided
  exact ⟨s, s', before, decides, after.tail step⟩

theorem Vouched.step (vouched : Vouched r₀ r) (runs : ServedRuns r₀ r) (step : ServedStep r r') (passes : Passes r r') :
    Vouched r₀ r' := by
  intro upload' found'
  cases passes with
  | quiet _ kept =>
    obtain ⟨upload, receiving, found, rfl⟩ := kept upload' found'
    obtain ⟨reports, decided, among⟩ := vouched upload found
    exact ⟨reports, decided.step step, among⟩
  | @decided point reports decides sent =>
    cases sent with
    | nobody none | kept none =>
      cases found'.symm.trans none
    | asked found same among =>
      cases found'.symm.trans found
      subst same
      exact ⟨reports, ⟨r, r', runs, decides, .refl⟩, among⟩
  | @sent upload found sent =>
    cases sent with
    | nobody none | kept none =>
      cases found'.symm.trans none
    | asked found'' same among =>
      cases found'.symm.trans found''
      obtain ⟨reports, decided, before⟩ := vouched upload found
      rw [same]
      exact ⟨reports, decided.step step, fun candidate member => before (among member)⟩

theorem Passes.kept (passes : Passes r r') (vouched : Vouched r₀ r) (runs : ServedRuns r₀ r) (step : ServedStep r r') :
    (r'.saves.current = r.saves.current ∧ r'.saves.previous = r.saves.previous) ∨
    ∃ agreed, r'.saves.current = some agreed ∧ r'.saves.previous = r.saves.current ∧
      (∀ old, r.saves.current = some old → old.point.event < agreed.point.event) ∧
      ∃ reports, Decided r₀ r' agreed.point reports ∧ ∃ save ∈ reports, ∃ world, save.world = some world ∧
        world.snapshot = agreed.id ∧ ∀ diverged ∈ (decideSaves reports).2, diverged.1 ≠ save.report.player := by
  have named {agreed : Agreed} {reports : List SaveReport} {candidate : PlayerId × SavedWorld}
      (among : candidate ∈ (decideSaves reports).1) (named : candidate.2.snapshot = agreed.id) :
      ∃ save ∈ reports, ∃ world, save.world = some world ∧ world.snapshot = agreed.id ∧
        ∀ diverged ∈ (decideSaves reports).2, diverged.1 ≠ save.report.player := by
    obtain ⟨save, reported, player, saved, agrees⟩ := candidate_reported among
    exact ⟨save, reported, candidate.2, saved, named, player ▸ agrees⟩
  cases passes with
  | quiet same => exact .inl same
  | @decided point reports decides sent =>
    cases sent with
    | nobody _ same | asked _ _ _ same => exact .inl same
    | @kept agreed candidate _ here among names newer turned =>
      subst here
      exact .inr ⟨agreed, turned.1, turned.2, newer, reports, ⟨r, r', runs, decides, .refl⟩, named among names⟩
  | @sent upload found sent =>
    cases sent with
    | nobody _ same | asked _ _ _ same => exact .inl same
    | @kept agreed candidate _ here among names newer turned =>
      obtain ⟨reports, decided, before⟩ := vouched upload found
      rw [← here] at decided
      exact .inr ⟨agreed, turned.1, turned.2, newer, reports, decided.step step, named (before among) names⟩

end Room

/-- A replayed game knows of no saves, and its turns begin at events that were ordered. -/
structure Game.Dated (g : Game) : Prop where
  saves : g.saves = {}
  pending : g.pending = []
  log : ∀ turn ∈ g.log, turn.firstEvent ≤ g.nextEvent

theorem Replay.Takes.dated {σ : Type} {ruleset : Ruleset σ} {r r' : Replay σ} {frame : Bytes}
    (takes : r.Takes ruleset frame r') (dated : r.game.Dated) : r'.game.Dated := by
  cases takes with
  | @turn turn decoded continues bounded =>
    obtain ⟨seated, state, owner, banned, folded⟩ := r.foldl_next_eq ruleset turn.events
    rw [folded]
    refine ⟨dated.saves, dated.pending, fun logged kept => ?_⟩
    show logged.firstEvent ≤ r.game.nextEvent + turn.events.length
    let filed : LoggedTurn := { firstEvent := r.game.nextEvent, sealedThrough := turn.sealedThrough, frame }
    obtain ⟨count, _, rest, _⟩ := trimTurns_drop r.game.resumeWindow (r.game.log ++ [filed])
      (r.game.logBytes + frame.length) r.game.logFirstTurn r.game.sealedBeforeLog
    have among : logged ∈ (r.game.log ++ [filed]).drop count := rest ▸ kept
    rcases mem_append.mp (mem_of_mem_drop among) with old | new
    · have := dated.log logged old
      omega
    · rw [mem_singleton.mp new]
      exact Nat.le_add_right _ _
  | marker => exact ⟨dated.saves, dated.pending, dated.log⟩

theorem Game.Dated.streamAfter {game : Game} {resume : Option Resume} {stream : Stream} (dated : game.Dated)
    (granted : game.streamAfter resume = .ok stream) : stream.nextEvent ≤ game.nextEvent := by
  obtain ⟨first, _, granted⟩ := Run.bind_ok.mp granted
  split at granted
  · cases granted
  cases granted
  split
  · next turn found => exact dated.log turn (mem_of_mem_drop (mem_of_mem_head? found))
  · rw [dated.pending]
    exact le_rfl

namespace Room
variable {σ : Type} {r r' : Room σ} {o : Oracle} {first : Nat} {before : List Bytes}

theorem recoverSnapshot_dated {env : RoomEnv} {pointer : Option Agreed} {game : Game} {agreed : Agreed}
    (dated : game.Dated) (small : game.nextEvent < u64Max) (found : recoverSnapshot env pointer game = some agreed) :
    agreed.point.event < game.nextEvent := by
  unfold recoverSnapshot at found
  split at found
  · have follows := (Option.filter_eq_some_iff.mp found).2
    cases granted : game.streamFromSave agreed.point with
    | error _ =>
      rw [granted] at follows
      cases follows
    | ok stream =>
      obtain ⟨stream', after, checked⟩ := Run.bind_ok.mp granted
      have bound := dated.streamAfter after
      split at checked
      · cases checked
      rename_i here
      have same : stream'.nextEvent = satAdd agreed.point.event 1 := by
        by_contra other
        exact here (.inl other)
      unfold satAdd at same
      omega
  · cases found

theorem replayLog_dated {menu : RulesMenu σ} {file : RoomId} {now : Instant} {disk : Disk} {start : StartRecord}
    {choice : RulesChoice σ} {replay : Replay σ} {reader : LogReader}
    (replayed : replayLog menu file now disk = .ok (start, choice, replay, reader)) : replay.game.Dated := by
  obtain ⟨_, _, _, _, replays, _⟩ := replayLog_ok replayed
  refine StartRecord.replayed_preserves (P := fun r => r.game.Dated) replays (fun _ begins => ?_)
    (fun _ _ dated => dated) fun _ _ _ dated takes => takes.dated dated
  refine StartRecord.replay_game begins ⟨rfl, rfl, nofun⟩ fun base game rebased => ?_
  obtain ⟨_, ⟨⟩⟩ := Option.ite_none_right_eq_some.mp rebased
  exact ⟨rfl, rfl, nofun⟩

theorem Begins.saveRounds (begins : Begins r first before) : r.saves.rounds = [] := by
  cases begins with
  | new spec owner now disk => rfl
  | recovered recovered =>
    obtain ⟨start, choice, replay, reader, cut, log, frame, log', replayed, _, _, _, _, rfl⟩ := recover_ok recovered
    show replay.game.saves.rounds = []
    rw [(replayLog_dated replayed).saves]

theorem Begins.orderly (begins : Begins r first before) (small : r.nextEvent < u64Max) :
    r.saves.Orderly r.nextEvent ∧ r.saves.upload = none := by
  cases begins with
  | new spec owner now disk => exact ⟨.idle rfl rfl nofun fun _ none => (nomatch none), rfl⟩
  | @recovered o menu env verify file pointer now disk disk' _ recovered =>
    obtain ⟨start, choice, replay, reader, cut, log, frame, log', replayed, _, _, _, _, rfl⟩ := recover_ok recovered
    have dated := replayLog_dated replayed
    let game : Game := { replay.game with pacer := replay.game.pacer.resumeAt replay.game.sealedThrough }
    have known (agreed : Agreed) (found : recoverSnapshot env pointer game = some agreed) :
        agreed.point.event < replay.game.nextEvent := recoverSnapshot_dated dated small found
    show Saves.Orderly replay.game.nextEvent { replay.game.saves with
      current := recoverSnapshot env pointer game
      lastPoint := (recoverSnapshot env pointer game).map Agreed.point } ∧ replay.game.saves.upload = none
    rw [dated.saves]
    refine ⟨.idle rfl rfl (fun agreed found => ⟨agreed.point, ?_, le_rfl⟩) fun last found => ?_, rfl⟩
    · have here : recoverSnapshot env pointer game = some agreed := found
      rw [here]
      rfl
    · obtain ⟨agreed, here, rfl⟩ := Option.map_eq_some_iff.mp found
      exact known agreed here

theorem ServedRuns.orderly {r₀ : Room σ} (begins : Begins r₀ first before) (small : r₀.nextEvent < u64Max)
    (runs : ServedRuns r₀ r) : r.saves.Orderly r.nextEvent ∧ Vouched r₀ r := by
  induction runs with
  | refl =>
    obtain ⟨orderly, none⟩ := begins.orderly small
    refine ⟨orderly, fun upload found => ?_⟩
    cases none.symm.trans found
  | tail runs step ih =>
    obtain ⟨orderly, passes⟩ := step.passes ih.1
    exact ⟨orderly, ih.2.step runs step passes⟩

/-- A room has at most one save on its way, in a round or being uploaded; and each snapshot it keeps is
newer than the one before, and was named, when the round of its save was decided, in the report of a
player who was not found to diverge. -/
theorem kept_saves_were_reported {r₀ : Room σ} (begins : Begins r₀ first before) (small : r₀.nextEvent < u64Max)
    (runs : ServedRuns r₀ r) :
    (r.saves.rounds.length ≤ 1 ∧ (r.saves.rounds ≠ [] → r.saves.upload = none)) ∧
    ∀ r', ServedStep r r' → (r'.saves.current = r.saves.current ∧ r'.saves.previous = r.saves.previous) ∨
      ∃ agreed, r'.saves.current = some agreed ∧ r'.saves.previous = r.saves.current ∧
        (∀ old, r.saves.current = some old → old.point.event < agreed.point.event) ∧
        ∃ reports, Decided r₀ r' agreed.point reports ∧ ∃ save ∈ reports, ∃ world, save.world = some world ∧
          world.snapshot = agreed.id ∧ ∀ diverged ∈ (decideSaves reports).2, diverged.1 ≠ save.report.player := by
  obtain ⟨orderly, vouched⟩ := ServedRuns.orderly begins small runs
  refine ⟨?_, fun r' step => (step.passes orderly).2.kept vouched runs step⟩
  cases orderly with
  | idle rounds => simp [rounds]
  | round only fresh =>
    rw [only]
    exact ⟨le_rfl, fun _ => fresh.upload⟩
  | upload _ fresh =>
    have rounds : r.saves.rounds = [] := fresh.rounds
    simp [rounds]

/-! A room with a snapshot store whose owner plays alone. -/

def savingRoom : Room Unit :=
  .new { plainSpec with env := { plainSpec.env with
    snapshots := some { every := Duration.ofSecs 60, minGap := Duration.ofSecs 10 } } } (plainPlayer 1) 0
    { log := none, compacting := none }

def plainWorld : SavedWorld := { snapshot := .fill 32 9, size := 1000 }

theorem after_served {r : Room Unit} {now : Instant} {commands : List RoomCommand}
    (live : ∀ count < commands.length, (r.after now (commands.take count)).closed = false)
    (fetched : ∀ command ∈ commands, command.Fetched) : ServedRuns r (r.after now commands) := by
  induction commands generalizing r with
  | nil => exact .refl
  | cons command commands ih =>
    refine .head (.handled steady now command (live 0 (Nat.succ_pos _)) (fetched command mem_cons_self)) ?_
    refine ih (fun count short => live (count + 1) (Nat.succ_lt_succ short)) fun other member => ?_
    exact fetched other (mem_cons_of_mem _ member)

def savedAlone : Room Unit :=
  ((savingRoom.after 0 (startAlone ++ [.progress (plainPlayer 1).player 1 0])).tickSaves steady
    (Duration.ofSecs 60)).after
    (Duration.ofSecs 61) [.saved (plainPlayer 1).player 1 2 [] (some plainWorld)]

theorem kept_saves_were_reported_alone : ∃ (r r' : Room Unit) (agreed : Agreed) (reports : List SaveReport),
    ServedRuns savingRoom r ∧ ServedStep r r' ∧ r.saves.current = none ∧ r'.saves.current = some agreed ∧
    Decided savingRoom r' agreed.point reports ∧
    ∃ save ∈ reports, ∃ world, save.world = some world ∧ world.snapshot = agreed.id := by
  let upload : RoomCommand :=
    .uploaded (plainPlayer 1).player plainWorld.snapshot (.ok { id := plainWorld.snapshot, totalSize := 1000 })
  let loaded := savingRoom.after 0 (startAlone ++ [.progress (plainPlayer 1).player 1 0])
  let asked := loaded.tickSaves steady (Duration.ofSecs 60)
  have loads : ServedRuns savingRoom loaded :=
    after_served (by decide +kernel) (by simp [startAlone, RoomCommand.Fetched])
  have saves : ServedRuns loaded asked := .single (.saved steady _ (by decide +kernel))
  have reports : ServedRuns asked savedAlone := after_served (by decide +kernel) (by simp [RoomCommand.Fetched])
  have step : ServedStep savedAlone (savedAlone.handle steady (Duration.ofSecs 62) upload).1 :=
    .handled steady _ upload (by decide +kernel) rfl
  have before : savedAlone.saves.current = none := by decide +kernel
  have after : (savedAlone.handle steady (Duration.ofSecs 62) upload).1.saves.current ≠ none := by decide +kernel
  have runs : ServedRuns savingRoom savedAlone := (loads.trans saves).trans reports
  obtain ⟨_, kept⟩ := kept_saves_were_reported (.new _ (plainPlayer 1) 0 _) (by decide) runs
  rcases kept _ step with ⟨same, _⟩ | ⟨agreed, current, _, _, reports, decided, save, reported, world, saved, named, _⟩
  · exact absurd (same.trans before) after
  · exact ⟨_, _, agreed, reports, runs, step, before, current, decided, save, reported, world, saved, named⟩

end Room
end Tpf3Mp.Server
