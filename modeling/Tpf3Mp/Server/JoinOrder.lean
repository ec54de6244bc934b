import Tpf3Mp.Server.Rounds
import Tpf3Mp.Server.Lives

/-!
Whose word counts when reports disagree. A report remembers where its member sat, so that the one who
came first can be told; that holds as long as nobody leaves who came no later than a reporter.
-/

namespace Tpf3Mp.Server
open Codec Proto Data Relation List

namespace Docket
variable {d d' : Docket} {more : Minutes} {report : Report}

def openReports (d : Docket) : List Report :=
  (d.rounds.filter fun entry => entry.2.verdict.isNone).flatMap fun entry => entry.2.reports

theorem mem_openReports : report ∈ d.openReports ↔
    ∃ entry ∈ d.rounds, entry.2.verdict = none ∧ report ∈ entry.2.reports := by
  simp [openReports, and_assoc]

theorem Turn.openReports (turn : Turn d more d') (open_ : report ∈ d'.openReports) :
    report ∈ d.openReports ∨ report ∈ more.filed.map Prod.snd := by
  obtain ⟨entry, held, undecided, reported⟩ := mem_openReports.mp open_
  cases turn with
  | @filed step round new here fresh =>
    rcases SortedMap.mem_of_insert held with rfl | before
    · rcases mem_append.mp reported with early | now
      · rcases here with found | ⟨_, _, empty, _⟩
        · exact .inl (mem_openReports.mpr ⟨_, SortedMap.find_mem found, undecided, early⟩)
        · rw [empty] at early
          cases early
      · exact .inr (by simpa using now)
    · exact .inl (mem_openReports.mpr ⟨entry, before, undecided, reported⟩)
  | decided due _ =>
    obtain ⟨old, before, rfl⟩ := mem_map.mp held
    split at undecided
    · cases undecided
    · next waits =>
      rw [if_neg waits] at reported
      exact .inl (mem_openReports.mpr ⟨old, before, undecided, reported⟩)
  | closed step =>
    exact .inl (mem_openReports.mpr ⟨entry, (mem_filter.mp held).1, undecided, reported⟩)

theorem Turns.openReports (turns : Turns d more d') (open_ : report ∈ d'.openReports) :
    report ∈ d.openReports ∨ report ∈ more.filed.map Prod.snd := by
  induction turns with
  | refl => exact .inl open_
  | tail _ turn ih =>
    rw [Minutes.append_filed, map_append, mem_append]
    rcases turn.openReports open_ with before | now
    · exact (ih before).imp_right .inl
    · exact .inr (.inr now)

end Docket

theorem Saves.Sends.rounds {point : SavePoint} {candidates : Candidates} {s s' : Saves}
    (sends : Sends point candidates s s') : s'.rounds = s.rounds := by
  cases sends with
  | nobody like | asked _ _ like | kept _ _ _ like =>
    obtain ⟨_, _, rfl⟩ := like
    rfl

namespace Room
variable {σ : Type}

def saveReports (r : Room σ) : List Report :=
  r.saves.rounds.flatMap fun entry => entry.2.reports.map SaveReport.report

/-- Nobody leaves who came no later than someone whose report waits for its round to be decided. -/
def Staying (r r' : Room σ) : Prop :=
  ∀ report ∈ r.docket.openReports ++ r.saveReports,
    (r.members.map Member.player).take (report.order + 1) <+: r'.members.map Member.player

def Placed (r : Room σ) (report : Report) : Prop :=
  (r.members.map Member.player)[report.order]? = some report.player

/-- In a step of the room a checkpoint round is decided, by the reports it then has: a tick goes by
those the round had, a member's report by its own as well. -/
inductive Judges (step : Nat) : Room σ → Room σ → List Report → Prop where
  | ticked {r : Room σ} {game : Game} {round : Round} (o : Oracle) (now : Instant) (live : r.closed = false)
      (running : r.phase = .running game) (found : game.rounds.find step = some round)
      (due : awaited r.members now (step, round) = true) : Judges step r (r.tickSaves o now) round.reports
  | reported {r : Room σ} {game : Game} {round : Round} {report : Report} {player : PlayerId} {link : UInt64}
      {lanes : List LaneDigest} (o : Oracle) (now : Instant) (live : r.closed = false)
      (taken : r.reporting now player link step lanes = some (game, round, report)) (undecided : round.verdict = none)
      (decides : (reportRound r.members round report).1.verdict.isSome = true) :
      Judges step r (r.handle o now (.checkpoint player link step lanes)).1 (round.reports ++ [report])

section Lemmas
variable {r r' : Room σ} {o : Oracle} {report : Report}

theorem mem_saveReports : report ∈ r.saveReports ↔
    ∃ entry ∈ r.saves.rounds, ∃ save ∈ entry.2.reports, save.report = report := by
  simp [saveReports]

theorem saveReports_mono (fewer : r'.saves.rounds ⊆ r.saves.rounds) (among : report ∈ r'.saveReports) :
    report ∈ r.saveReports := by
  obtain ⟨entry, held, rest⟩ := mem_saveReports.mp among
  exact mem_saveReports.mpr ⟨entry, fewer held, rest⟩

theorem linked_placed {player : PlayerId} {link : UInt64} {index : Nat} {member : Member}
    (linked : r.linked player link = some index) (seat : r.members[index]? = some member) :
    (r.members.map Member.player)[index]? = some player := by
  rw [getElem?_map, seat, ← (linked_found linked seat).1]
  rfl

theorem placed_same (players : r'.members.map Member.player = r.members.map Member.player) (placed : r.Placed report) :
    r'.Placed report := by
  unfold Placed
  rw [players]
  exact placed

variable (now : Instant)

theorem decideSave_rounds (event : Nat) : (r.decideSave o now event).saves.rounds ⊆ r.saves.rounds := by
  cases found : r.saves.rounds.find event with
  | none =>
    rw [decideSave_none now found]
    exact List.Subset.refl _
  | some round =>
    rw [(decideSave_sends now found).rounds]
    exact filter_subset_self _

theorem promote_rounds (agreed : Agreed) : (r.promote o now agreed).saves.rounds = r.saves.rounds := by
  cases running : r.phase with
  | lobby =>
    unfold promote
    rw [running]
  | running game =>
    obtain ⟨_, _, same⟩ := promote_saves now agreed running
    rw [same]

theorem uploaded_rounds (player : PlayerId) (snapshot : SnapshotId) (result : Except String Manifest) :
    (r.uploaded o now player snapshot result).saves.rounds = r.saves.rounds := by
  unfold uploaded
  split
  · rfl
  rename_i game running
  split
  · rfl
  split
  · rw [saves_running running]
    split
    · exact promote_rounds now _
    · exact (askForUpload_sends now _ _).rounds
  · rfl

theorem runSaves_rounds : ∀ entry ∈ (r.runSaves o now).saves.rounds, entry ∈ r.saves.rounds ∨ entry.2.reports = [] := by
  unfold runSaves
  split
  · next snapshots game has running =>
    generalize (game.saves.rounds.filter _).map Prod.fst = ready
    generalize stalls : game.saves.upload.filter (uploadStalled now) = stalled
    have decides {left : Room σ} (same : left.saves.rounds = r.saves.rounds) :
        (ready.foldl (fun r event => r.decideSave o now event) left).saves.rounds ⊆ r.saves.rounds :=
      @Run.foldl_preserves _ _ _ (fun left : Room σ => left.saves.rounds ⊆ r.saves.rounds)
        (fun left event before => List.Subset.trans (decideSave_rounds now event) before) _
          (same ▸ List.Subset.refl _) ready
    have ends {left : Room σ} (fewer : left.saves.rounds ⊆ r.saves.rounds) :
        ∀ entry ∈ (left.saveIfDue o snapshots now).saves.rounds, entry ∈ r.saves.rounds ∨ entry.2.reports = [] := by
      intro entry held
      obtain ⟨_, same | ⟨point, _, _, _, _, same⟩⟩ := left.saveIfDue_saves snapshots now
      · rw [same] at held
        exact .inl (fewer held)
      · rw [same] at held
        rw [mem_singleton.mp held]
        exact .inr rfl
    cases stalled with
    | none => exact ends (decides (by rw [saves_running running]; rfl))
    | some upload =>
      dsimp only
      generalize dropped : r.withGame _ = left
      have same : left.saves.rounds = r.saves.rounds := by
        rw [← dropped, saves_running running]
        rfl
      apply ends
      rw [(askForUpload_sends now upload.point upload.rest).rounds]
      obtain ⟨_, _, ended⟩ := Acts.like (endUpload_acts upload)
      rw [ended]
      exact decides same
  · exact fun entry held => .inl held

theorem saved_reports (player : PlayerId) (link : UInt64) (event : Nat) (lanes : List LaneDigest)
    (world : Option SavedWorld) (among : report ∈ (r.saved o now player link event lanes world).saveReports) :
    report ∈ r.saveReports ∨ r.Placed report := by
  obtain ⟨entry, held, save, reported, rfl⟩ := mem_saveReports.mp among
  rcases r.saved_saves now player link event lanes world with same | ⟨index, member, round, linked, seat, found, rest⟩
  · rw [same] at held
    exact .inl (mem_saveReports.mpr ⟨entry, held, save, reported, rfl⟩)
  have rounds : entry ∈ r.saves.rounds.insert event
      { round with reports := round.reports ++ [saveReport player index member lanes world] } := by
    rcases rest with same | sends
    · rw [same] at held
      exact held
    · rw [sends.rounds] at held
      exact (mem_filter.mp held).1
  rcases SortedMap.mem_of_insert rounds with rfl | before
  · rcases mem_append.mp reported with early | now
    · exact .inl (mem_saveReports.mpr ⟨_, SortedMap.find_mem found, save, early, rfl⟩)
    · rw [mem_singleton.mp now]
      exact .inr (linked_placed linked seat)
  · exact .inl (mem_saveReports.mpr ⟨entry, before, save, reported, rfl⟩)

theorem Step.saveReports (step : Step r r') (among : report ∈ r'.saveReports) :
    report ∈ r.saveReports ∨ r'.Placed report := by
  have like {r' : Room σ} (like : r.saves.Like r'.saves) (among : report ∈ r'.saveReports) :
    report ∈ r.saveReports := by
    obtain ⟨_, _, same⟩ := like
    refine saveReports_mono ?_ among
    rw [same]
    exact List.Subset.refl _
  cases step with
  | handled o now command live =>
    cases command with
    | saved player link event lanes world =>
      have acts : Acts .all r (r.saved o now player link event lanes world) :=
        saved_acts rfl now player link event lanes world
      exact (saved_reports now player link event lanes world among).imp_right (placed_same acts.players)
    | upload player link snapshot =>
      refine .inl (saveReports_mono ?_ among)
      rcases r.uploadStarts_saves player link snapshot with same | ⟨upload, _, same⟩
      · exact same ▸ List.Subset.refl _
      · exact same ▸ List.Subset.refl _
    | uploaded player snapshot result =>
      refine .inl (saveReports_mono ?_ among)
      rw [show (r.handle o now (.uploaded player snapshot result)).1 = r.uploaded o now player snapshot result from rfl,
        uploaded_rounds]
      exact List.Subset.refl _
    | _ =>
      refine .inl (like (Deeds.like (o := o) ?_).1 among)
      exact handle_deeds now _ live (.inr trivial) (.inl rfl) (.inl rfl) (.inl rfl)
  | saved o now live =>
    obtain ⟨before, deeds, same | ⟨_, same⟩⟩ : ∃ before, Deeds .unsaving o r before ∧ _ := tickSaves_comes rfl now live
    · rw [same] at among
      exact .inl (like deeds.like.1 among)
    rw [same] at among
    obtain ⟨entry, held, save, reported, rfl⟩ := mem_saveReports.mp among
    rcases runSaves_rounds now entry held with old | empty
    · exact .inl (like deeds.like.1 (mem_saveReports.mpr ⟨entry, old, save, reported, rfl⟩))
    · rw [empty] at reported
      cases reported
  | sealed o now live => exact .inl (like (Deeds.like (tickSeal_deeds now)).1 among)
  | compacted done writes renamed live =>
    obtain ⟨disk, log, compaction, compactAt, same⟩ := r.finishCompaction_eq done writes renamed
    rw [same] at among
    exact .inl among

theorem Hears.filed {more : Minutes} (hears : Hears r more r') (filed : report ∈ more.filed.map Prod.snd) :
    r'.Placed report := by
  cases hears with
  | handled o now command live =>
    cases command with
    | checkpoint player link step lanes =>
      have acts : Acts .all r (r.checkpoint o now player link step lanes) :=
        checkpoint_acts rfl now player link step lanes
      apply placed_same acts.players
      unfold minutes reportMinutes at filed
      dsimp only at filed
      cases taken : r.reporting now player link step lanes with
      | none =>
        rw [taken] at filed
        cases filed
      | some entry =>
        obtain ⟨game, round, new⟩ := entry
        obtain ⟨_, ⟨order, member, linked, seat, rfl⟩, _⟩ := reporting_some taken
        rw [taken] at filed
        rw [mem_singleton.mp filed]
        exact linked_placed linked seat
    | _ => cases filed
  | saved o now live =>
    unfold tickMinutes waitMinutes at filed
    dsimp only at filed
    split at filed
    · cases filed
    · split at filed <;> cases filed
  | sealed | compacted => cases filed

/-- Every reporter whose round is not decided sits where its report says. -/
def Steadfast (r : Room σ) : Prop := ∀ report ∈ r.docket.openReports ++ r.saveReports, r.Placed report

theorem Steadfast.step {minutes : Minutes} (steadfast : r.Steadfast) (recorded : r.docket.Recorded minutes)
    (few : r.docket.Few) (step : Step r r') (staying : Staying r r') : r'.Steadfast := by
  have stays {report : Report} (among : report ∈ r.docket.openReports ++ r.saveReports) : r'.Placed report := by
    have placed := steadfast report among
    have inside := (List.getElem?_eq_some_iff.mp placed).1
    obtain ⟨rest, same⟩ := staying report among
    unfold Placed at placed ⊢
    rw [← same, getElem?_append_left (by rw [length_take]; omega), getElem?_take_of_lt (Nat.lt_succ_self _)]
    exact placed
  intro report among
  rcases mem_append.mp among with open_ | saved
  · obtain ⟨more, hears⟩ := step.hears
    rcases (hears.conducts recorded.ordered few).turns.openReports open_ with before | filed
    · exact stays (mem_append_left _ before)
    · exact hears.filed filed
  · rcases step.saveReports saved with before | placed
    · exact stays (mem_append_right _ before)
    · exact placed

theorem Begins.steadfast {first : Nat} {before : List Bytes} (begins : Begins r first before) : r.Steadfast := by
  have rounds : r.saves.rounds = [] := begins.saveRounds
  intro report among
  unfold saveReports at among
  rw [begins.docket, rounds] at among
  cases among

theorem Lives.steadfast {menu : RulesMenu σ} {before : List Bytes} (lives : Lives menu Staying r before) :
    r.closed = true ∨ r.Steadfast := by
  induction lives with
  | new spec owner now disk => exact .inr (Begins.new spec owner now disk).steadfast
  | @stepped r r' before lives step staying ih =>
    have live : r.closed = false := by cases step <;> assumption
    have steadfast := ih.resolve_left (by simp [live])
    obtain ⟨_, _, _, begins, runs⟩ := lives.begun.resolve_left (by simp [live])
    obtain ⟨minutes, sits⟩ := Runs.sits runs
    have start : Docket.Recorded _ {} := begins.docket ▸ Docket.recorded_empty 0
    obtain ⟨turns, few⟩ := sits.turns start begins.few
    exact .inr (steadfast.step (start.turns turns) few step staying)
  | restarted _ _ recovered => exact .inr (Begins.recovered recovered).steadfast
  | refused => exact .inl rfl

end Lemmas

/-- Of the reporters on the platforms that most of them are on, nobody came before this one. -/
structure Foremost (seated : List PlayerId) (reports : List Report) (report : Report) : Prop where
  reported : report ∈ reports
  common : ∀ other ∈ reports, Verdict.share reports other.platform ≤ Verdict.share reports report.platform
  first : ∀ other ∈ reports, Verdict.share reports other.platform = Verdict.share reports report.platform →
    seated.idxOf report.player ≤ seated.idxOf other.player

/-- Reports by players at a table, each as far down it as the report says. -/
def Ranked (seated : List PlayerId) (reports : List Report) : Prop :=
  ∀ report ∈ reports, report.player ∈ seated ∧ seated.idxOf report.player = report.order

variable {seated : List PlayerId}

theorem anchor_foremost {reports : List Report} {index : Nat} (ranked : Ranked seated reports)
    (found : Verdict.anchor reports = some index) :
    ∃ report, reports[index]? = some report ∧ Foremost seated reports report := by
  obtain ⟨report, here, reported, common, first⟩ := Verdict.anchor_some found
  refine ⟨report, here, reported, common, fun other among same => ?_⟩
  rw [(ranked report reported).2, (ranked other among).2]
  exact first other among same

theorem candidates_in_order {reports : List SaveReport} (ranked : Ranked seated (reports.map SaveReport.report)) :
    (decideSaves reports).1.Pairwise fun a b => seated.idxOf a.1 ≤ seated.idxOf b.1 := by
  unfold decideSaves
  dsimp only
  generalize (if (reports.map SaveReport.report).length ≥ 2 then _ else _ : List Divergence) = diverged
  rw [pairwise_filterMap]
  have sorted := pairwise_insertionSort (fun a b : SaveReport => a.report.order ≤ b.report.order)
    (reports.filter fun save => !diverged.any fun other => other.1 = save.report.player)
  refine List.Pairwise.imp_of_mem (fun {a b} first second order => ?_) sorted
  have rank {save : SaveReport} (among : save ∈ (reports.filter fun save =>
      !diverged.any fun other => other.1 = save.report.player).insertionSort fun a b =>
        a.report.order ≤ b.report.order) :
      seated.idxOf save.report.player = save.report.order := by
    have reported := (mem_filter.mp ((mem_insertionSort _).mp among)).1
    exact (ranked save.report (mem_map_of_mem reported)).2
  intro left sent right sent'
  obtain ⟨_, _, rfl⟩ := Option.map_eq_some_iff.mp sent
  obtain ⟨_, _, rfl⟩ := Option.map_eq_some_iff.mp sent'
  rw [rank first, rank second]
  exact order

theorem failedLast_pairwise {failed : List PlayerId} {candidates : Candidates}
    {R : PlayerId × SavedWorld → PlayerId × SavedWorld → Prop} (ordered : candidates.Pairwise R) :
    (failedLast failed candidates).Pairwise fun a b =>
      (a.1 ∈ failed → b.1 ∈ failed) ∧ ((a.1 ∈ failed ↔ b.1 ∈ failed) → R a b) := by
  have sound {a : PlayerId × SavedWorld} (among : a ∈ candidates.filter fun c => !failed.contains c.1) :
    a.1 ∉ failed := by
    simpa using (mem_filter.mp among).2
  have bad {a : PlayerId × SavedWorld} (among : a ∈ candidates.filter fun c => failed.contains c.1) : a.1 ∈ failed := by
    simpa using (mem_filter.mp among).2
  refine pairwise_append.mpr ⟨?_, ?_, fun a first b last => ?_⟩
  · exact (ordered.filter _).imp_of_mem fun first _ here => ⟨fun gone => absurd gone (sound first), fun _ => here⟩
  · exact (ordered.filter _).imp_of_mem fun _ last here => ⟨fun _ => bad last, fun _ => here⟩
  · exact ⟨fun _ => bad last, fun same => absurd (same.mpr (bad last)) (sound first)⟩

section Lives
variable {menu : RulesMenu σ} {r r' : Room σ} {before : List Bytes} {game : Game}

theorem Lives.players {allowed : Room σ → Room σ → Prop} (lives : Lives menu allowed r before) (live : r.closed = false)
    (running : r.phase = .running game) :
    r.members.map Member.player = game.seated.map Prod.fst ∧ (game.seated.map Prod.fst).Nodup := by
  obtain ⟨choice, ruled, sound⟩ := lives.sound (fun choice _ => choice.blind_views) fun (none : False) => none.elim
  obtain ⟨_, _, _, plays, _, _⟩ := sound.running live running
  exact ⟨plays.players, (plays.orders.tabled (opening_tabled _ _ _)).distinct⟩

theorem placed_rank {report : Report} (players : r.members.map Member.player = seated)
    (distinct : seated.Nodup) (placed : r.Placed report) :
    report.player ∈ seated ∧ seated.idxOf report.player = report.order := by
  unfold Placed at placed
  rw [players] at placed
  obtain ⟨inside, same⟩ := List.getElem?_eq_some_iff.mp placed
  rw [← same]
  exact ⟨getElem_mem inside, distinct.idxOf_getElem _ inside⟩

theorem Judges.placed {step : Nat} {reports : List Report} (judges : Judges step r r' reports)
    (steadfast : r.Steadfast) : ∀ report ∈ reports, r.Placed report := by
  have waiting {game : Game} {round : Round} (running : r.phase = .running game)
    (found : game.rounds.find step = some round)
      (undecided : round.verdict = none) : ∀ report ∈ round.reports, r.Placed report := by
    intro report reported
    refine steadfast report (mem_append_left _ ?_)
    rw [docket_running running]
    exact Docket.mem_openReports.mpr ⟨_, SortedMap.find_mem found, undecided, reported⟩
  cases judges with
  | ticked o now live running found due => exact waiting running found (awaited_open due)
  | reported o now live taken undecided decides =>
    obtain ⟨running, ⟨order, member, linked, seat, rfl⟩, here, _⟩ := reporting_some taken
    intro report among
    rcases mem_append.mp among with early | now
    · rcases here with found | ⟨_, _, empty, _⟩
      · exact waiting running found undecided report early
      · rw [empty] at early
        cases early
    · rw [mem_singleton.mp now]
      exact linked_placed linked seat

theorem Decides.placed {point : SavePoint} {reports : List SaveReport} (decides : Decides point r r' reports)
    (steadfast : r.Steadfast) : ∀ report ∈ reports.map SaveReport.report, r.Placed report := by
  have waiting {round : SaveRound} (found : r.saves.rounds.find point.event = some round) :
      ∀ save ∈ round.reports, r.Placed save.report := by
    intro save reported
    refine steadfast save.report (mem_append_right _ ?_)
    exact mem_saveReports.mpr ⟨_, SortedMap.find_mem found, save, reported, rfl⟩
  intro report among
  obtain ⟨save, reported, rfl⟩ := mem_map.mp among
  cases decides with
  | ticked o now live found same gone => exact waiting found save reported
  | reported o now live linked seat found same gone =>
    rcases mem_append.mp reported with early | now
    · exact waiting found save early
    · rw [mem_singleton.mp now]
      exact linked_placed linked seat

/-- As long as nobody leaves who came no later than someone whose report waits to be decided, all who
reported are at the table when a round is decided, and who came first among them counts: as the anchor
of a checkpoint round or of a save round, and in the order of those who may upload a save, where those
whose uploads failed come after the others. -/
theorem decisions_in_join_order (lives : Lives menu Staying r before) (running : r.phase = .running game) :
    let seated := game.seated.map Prod.fst
    (∀ step r' reports, Judges step r r' reports → (∀ report ∈ reports, report.player ∈ seated) ∧
      ∀ index, Verdict.anchor reports = some index → ∃ report, reports[index]? = some report ∧
        Foremost seated reports report) ∧
    ∀ point r' reports, Decides point r r' reports →
      (∀ save ∈ reports, save.report.player ∈ seated) ∧
      (∀ index, Verdict.anchor (reports.map SaveReport.report) = some index → ∃ save, reports[index]? = some save ∧
        Foremost seated (reports.map SaveReport.report) save.report) ∧
      (decideSaves reports).1.Pairwise (fun a b => seated.idxOf a.1 ≤ seated.idxOf b.1) ∧
      ∀ failed, (failedLast failed (decideSaves reports).1).Pairwise fun a b =>
        (a.1 ∈ failed → b.1 ∈ failed) ∧ ((a.1 ∈ failed ↔ b.1 ∈ failed) → seated.idxOf a.1 ≤ seated.idxOf b.1) := by
  intro seated
  have ranks {reports : List Report} (live : r.closed = false) (placed : ∀ report ∈ reports, r.Placed report) :
      Ranked seated reports := by
    obtain ⟨players, distinct⟩ := lives.players live running
    exact fun report reported => placed_rank players distinct (placed report reported)
  refine ⟨fun step r' reports judges => ?_, fun point r' reports decides => ?_⟩
  · have live : r.closed = false := by cases judges <;> assumption
    have ranked := ranks live (judges.placed (lives.steadfast.resolve_left (by simp [live])))
    exact ⟨fun report reported => (ranked report reported).1, fun index found => anchor_foremost ranked found⟩
  have live : r.closed = false := by cases decides <;> assumption
  have ranked := ranks live (decides.placed (lives.steadfast.resolve_left (by simp [live])))
  refine ⟨fun save reported => (ranked _ (mem_map_of_mem reported)).1, fun index found => ?_,
    candidates_in_order ranked, fun _ => failedLast_pairwise (candidates_in_order ranked)⟩
  obtain ⟨report, here, foremost⟩ := anchor_foremost ranked found
  rw [getElem?_map] at here
  obtain ⟨save, there, rfl⟩ := Option.map_eq_some_iff.mp here
  exact ⟨save, there, foremost⟩

theorem Lives.after {menu : RulesMenu Unit} {r : Room Unit} {now : Instant} {commands : List RoomCommand}
    (lives : Lives menu Staying r before)
    (idle : ∀ count < commands.length, (r.after now (commands.take count)).closed = false ∧
      (r.after now (commands.take count)).docket.openReports ++ (r.after now (commands.take count)).saveReports = []) :
    Lives menu Staying (r.after now commands) before := by
  induction commands generalizing r with
  | nil => exact lives
  | cons command commands ih =>
    obtain ⟨live, none⟩ := idle 0 (Nat.succ_pos _)
    have staying : Staying r (r.handle steady now command).1 := by
      intro report among
      have silent : r.docket.openReports ++ r.saveReports = [] := none
      rw [silent] at among
      cases among
    refine ih (.stepped lives (.handled steady now command live) staying) fun count short => ?_
    exact idle (count + 1) (Nat.succ_lt_succ short)

def plainChoice : RulesChoice Unit := { name := plainSpec.rules, ruleset := acceptAll, fresh := () }

def reportedFirst : Room Unit :=
  playedTogether.after (Duration.ofSecs 2) [.checkpoint (plainPlayer 1).player 1 5 (laneDigests 1)]

theorem reportedFirst_lives : Lives [plainChoice] Staying reportedFirst [] := by
  have found : RulesMenu.find [plainChoice] (some plainSpec.rules) = some plainChoice := by
    unfold RulesMenu.find
    exact find?_cons_of_pos (by decide)
  have created : Lives [plainChoice] Staying checkedRoom [] :=
    .new _ (plainPlayer 1) 0 _ rfl found rfl rfl (by decide) (by decide)
  have started : Lives [plainChoice] Staying (checkedRoom.after 0 (startTogether [2])) [] :=
    created.after (by decide +kernel)
  have played : Lives [plainChoice] Staying playedTogether [] := by
    refine .stepped started (.sealed steady (Duration.ofSecs 1) (by decide +kernel)) fun report among => ?_
    have silent : (checkedRoom.after 0 (startTogether [2])).docket.openReports ++
        (checkedRoom.after 0 (startTogether [2])).saveReports = [] := by decide +kernel
    rw [silent] at among
    cases among
  exact played.after (by decide +kernel)

theorem decisions_in_join_order_pair : ∃ (r' : Room Unit) (game : Game) (reports : List Report) (report : Report),
    Lives [plainChoice] Staying reportedFirst [] ∧ reportedFirst.phase = .running game ∧
    Judges 5 reportedFirst r' reports ∧ reports.length = 2 ∧ Foremost (game.seated.map Prod.fst) reports report := by
  have facts : (reportedFirst.reporting (Duration.ofSecs 2) (plainPlayer 2).player 1 5 (laneDigests 2)).any
    (fun taken =>
      taken.2.1.verdict = none && (reportRound reportedFirst.members taken.2.1 taken.2.2).1.verdict.isSome &&
        (taken.2.1.reports ++ [taken.2.2]).length = 2 && Verdict.anchor (taken.2.1.reports ++ [taken.2.2]) = some 0) =
          true := by
    decide +kernel
  have live : reportedFirst.closed = false := by decide +kernel
  obtain ⟨⟨game, round, report⟩, taken, facts⟩ := (Option.any_eq_true _ _).mp facts
  simp only [Bool.and_eq_true, decide_eq_true_eq] at facts
  obtain ⟨⟨⟨undecided, decides⟩, two⟩, anchored⟩ := facts
  have running := (reporting_some taken).1
  have judges := Judges.reported steady (Duration.ofSecs 2) live taken undecided decides
  obtain ⟨_, anchors⟩ := (decisions_in_join_order reportedFirst_lives running).1 _ _ _ judges
  obtain ⟨first, _, foremost⟩ := anchors 0 anchored
  exact ⟨_, game, _, first, reportedFirst_lives, running, judges, two, foremost⟩

def leftBehind : Room Unit :=
  ((checkedRoom.after 0 (startTogether [2, 3, 4])).tickSeal steady (Duration.ofSecs 1)).after (Duration.ofSecs 2)
    [.checkpoint (plainPlayer 3).player 1 5 (laneDigests 3), .leave (plainPlayer 1).player,
      .leave (plainPlayer 2).player]

/-- The fourth player now sits further up than the third did, so the fourth player's report decides, and
the third is told to have diverged. -/
theorem later_joiner_anchors : ∃ (r' : Room Unit) (game : Game) (early late : Report),
    Runs checkedRoom leftBehind ∧ leftBehind.phase = .running game ∧ Judges 5 leftBehind r' [early, late] ∧
    early.platform = late.platform ∧
    (game.seated.map Prod.fst).idxOf early.player < (game.seated.map Prod.fst).idxOf late.player ∧
    Verdict.anchor [early, late] = some 1 ∧ (Verdict.decide [early, late]).2 = [(early.player, [0])] := by
  let now := Duration.ofSecs 2
  have started : Runs checkedRoom (checkedRoom.after 0 (startTogether [2, 3, 4])) := after_runs (by decide +kernel)
  have played := started.tail (.sealed steady (Duration.ofSecs 1) (by decide +kernel))
  have runs : Runs checkedRoom leftBehind := played.trans (after_runs (by decide +kernel))
  have facts : (leftBehind.reporting now (plainPlayer 4).player 1 5 (laneDigests 4)).any (fun taken =>
      taken.2.1.verdict = none && (reportRound leftBehind.members taken.2.1 taken.2.2).1.verdict.isSome &&
        taken.2.1.reports.length = 1 && taken.2.1.reports.all fun early => early.platform = taken.2.2.platform &&
          (taken.1.seated.map Prod.fst).idxOf early.player < (taken.1.seated.map Prod.fst).idxOf taken.2.2.player &&
          Verdict.anchor [early, taken.2.2] = some 1 &&
          (Verdict.decide [early, taken.2.2]).2 = [(early.player, [0])]) = true := by decide +kernel
  have live : leftBehind.closed = false := by decide +kernel
  obtain ⟨⟨game, round, report⟩, taken, facts⟩ := (Option.any_eq_true _ _).mp facts
  simp only [Bool.and_eq_true, decide_eq_true_eq] at facts
  obtain ⟨⟨⟨undecided, decides⟩, one⟩, rest⟩ := facts
  obtain ⟨early, only⟩ := length_eq_one_iff.mp one
  rw [only] at rest
  simp only [all_cons, all_nil, Bool.and_true, Bool.and_eq_true, decide_eq_true_eq] at rest
  obtain ⟨⟨⟨platform, before⟩, anchored⟩, told⟩ := rest
  have judges := Judges.reported steady now live taken undecided decides
  rw [only] at judges
  exact ⟨_, game, early, report, runs, (reporting_some taken).1, judges, platform, before, anchored, told⟩

end Lives

end Room

end Tpf3Mp.Server
