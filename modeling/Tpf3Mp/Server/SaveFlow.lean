import Tpf3Mp.Server.RoomRun

/-!
The way of a save through a running room: a round in which members report it, a verdict, candidates who
are asked for it one after another, and at last a snapshot the room keeps.
-/

namespace Tpf3Mp.Server
open Codec Proto Data Relation List

namespace Saves

/-- Only whether a save is wanted, and who failed to send one, may differ. -/
def Like (s s' : Saves) : Prop := ∃ wanted failed, s' = { s with wanted, failed }

/-- What becomes of a save that candidates may send: nobody can be asked, one is, or the room holds
its snapshot. -/
inductive Sends (point : SavePoint) (candidates : Candidates) (s s' : Saves) : Prop where
  | nobody (like : s.Like s')
  | asked {upload : Upload} (same : upload.point = point)
      (among : (upload.sender, upload.world) :: upload.rest ⊆ candidates)
        (like : Like { s with upload := some upload } s')
  | kept {agreed : Agreed} {candidate : PlayerId × SavedWorld} (same : agreed.point = point)
      (among : candidate ∈ candidates) (named : candidate.2.snapshot = agreed.id)
      (like : Like { s with previous := s.current, current := some agreed } s')

/-- Nothing is on its way, and the last save made, at `point`, was not kept. -/
structure Fresh (next : Nat) (point : SavePoint) (s : Saves) : Prop where
  rounds : s.rounds = []
  upload : s.upload = none
  last : s.lastPoint = some point
  newer : ∀ agreed, s.current = some agreed → agreed.point.event < point.event
  made : point.event < next

/-- Nothing, a round or an upload is on its way; `next` is the number of the next event. -/
inductive Orderly (next : Nat) (s : Saves) : Prop where
  | idle (rounds : s.rounds = []) (upload : s.upload = none)
      (kept : ∀ agreed, s.current = some agreed → ∃ last, s.lastPoint = some last ∧ agreed.point.event ≤ last.event)
      (made : ∀ last, s.lastPoint = some last → last.event < next)
  | round {round : SaveRound} (only : s.rounds = [(round.point.event, round)])
      (fresh : Fresh next round.point { s with rounds := [] })
  | upload {upload : Upload} (found : s.upload = some upload)
    (fresh : Fresh next upload.point { s with upload := none })

/-- The same, seen after the step in which it happened: `current` and `previous` are the snapshots the
room held before it. -/
inductive Sent (point : SavePoint) (candidates : Candidates) (current previous : Option Agreed) (s : Saves) : Prop where
  | nobody (none : s.upload = none) (same : s.current = current ∧ s.previous = previous)
  | asked {upload : Upload} (found : s.upload = some upload) (point : upload.point = point)
      (among : (upload.sender, upload.world) :: upload.rest ⊆ candidates)
      (same : s.current = current ∧ s.previous = previous)
  | kept {agreed : Agreed} {candidate : PlayerId × SavedWorld} (none : s.upload = none) (point : agreed.point = point)
      (among : candidate ∈ candidates) (named : candidate.2.snapshot = agreed.id)
      (newer : ∀ old, current = some old → old.point.event < agreed.point.event)
      (turned : s.current = some agreed ∧ s.previous = current)

section Lemmas
variable {s s' : Saves} {next next' : Nat} {point : SavePoint} {candidates : Candidates}

theorem Like.refl (s : Saves) : s.Like s := ⟨_, _, rfl⟩

theorem Like.trans {s'' : Saves} (first : s.Like s') (second : s'.Like s'') : s.Like s'' := by
  obtain ⟨_, _, rfl⟩ := first
  obtain ⟨_, _, rfl⟩ := second
  exact ⟨_, _, rfl⟩

theorem Like.sends {s'' : Saves} (like : s.Like s') (sends : Sends point candidates s' s'') :
    Sends point candidates s s'' := by
  obtain ⟨wanted, failed, rfl⟩ := like
  cases sends with
  | nobody like => exact .nobody (.trans ⟨wanted, failed, rfl⟩ like)
  | asked same among like => exact .asked same among (.trans ⟨wanted, failed, rfl⟩ like)
  | kept same among named like => exact .kept same among named (.trans ⟨wanted, failed, rfl⟩ like)

theorem Sends.fewer {more : Candidates} (sends : Sends point candidates s s') (fewer : candidates ⊆ more) :
    Sends point more s s' := by
  cases sends with
  | nobody like => exact .nobody like
  | asked same among like => exact .asked same (fun _ member => fewer (among member)) like
  | kept same among named like => exact .kept same (fewer among) named like

theorem Fresh.like (fresh : s.Fresh next point) (like : s.Like s') : s'.Fresh next point := by
  obtain ⟨_, _, rfl⟩ := like
  exact ⟨fresh.rounds, fresh.upload, fresh.last, fresh.newer, fresh.made⟩

theorem Fresh.orderly (fresh : s.Fresh next point) : s.Orderly next := by
  refine .idle fresh.rounds fresh.upload (fun agreed kept => ?_) fun last made => ?_
  · exact ⟨point, fresh.last, le_of_lt (fresh.newer agreed kept)⟩
  · cases fresh.last.symm.trans made
    exact fresh.made

theorem Fresh.mono (fresh : s.Fresh next point) (later : next ≤ next') : s.Fresh next' point :=
  { fresh with made := lt_of_lt_of_le fresh.made later }

theorem Orderly.like (orderly : s.Orderly next) (like : s.Like s') (later : next ≤ next') : s'.Orderly next' := by
  obtain ⟨wanted, failed, rfl⟩ := like
  cases orderly with
  | idle rounds upload kept made =>
    exact .idle rounds upload kept fun last found => lt_of_lt_of_le (made last found) later
  | round only fresh => exact .round only ((fresh.like ⟨wanted, failed, rfl⟩).mono later)
  | upload found fresh => exact .upload found ((fresh.like ⟨wanted, failed, rfl⟩).mono later)

theorem Orderly.uploading {upload : Upload} (orderly : s.Orderly next) (found : s.upload = some upload) :
    Fresh next upload.point { s with upload := none } := by
  cases orderly with
  | idle _ none => cases found.symm.trans none
  | round _ fresh => cases found.symm.trans fresh.upload
  | upload found' fresh =>
    cases found.symm.trans found'
    exact fresh

theorem Sends.orderly (sends : Sends point candidates s s') (fresh : s.Fresh next point) :
    s'.Orderly next ∧ s'.rounds = [] := by
  cases sends with
  | nobody like =>
    have fresh' := fresh.like like
    exact ⟨fresh'.orderly, fresh'.rounds⟩
  | @asked upload same among like =>
    obtain ⟨wanted, failed, rfl⟩ := like
    subst same
    have fresh' : Fresh next upload.point { s with upload := none, wanted, failed } :=
      ⟨fresh.rounds, rfl, fresh.last, fresh.newer, fresh.made⟩
    exact ⟨.upload rfl fresh', fresh.rounds⟩
  | @kept agreed candidate same among named like =>
    obtain ⟨wanted, failed, rfl⟩ := like
    subst same
    refine ⟨.idle fresh.rounds fresh.upload ?_ fun last made => ?_, fresh.rounds⟩
    · rintro _ ⟨⟩
      exact ⟨agreed.point, fresh.last, le_rfl⟩
    have same : s.lastPoint = some last := made
    cases fresh.last.symm.trans same
    exact fresh.made

theorem Sends.sent (sends : Sends point candidates s s') (fresh : s.Fresh next point) :
    Sent point candidates s.current s.previous s' := by
  cases sends with
  | nobody like =>
    obtain ⟨wanted, failed, rfl⟩ := like
    exact .nobody fresh.upload ⟨rfl, rfl⟩
  | asked same among like =>
    obtain ⟨wanted, failed, rfl⟩ := like
    exact .asked rfl same among ⟨rfl, rfl⟩
  | @kept agreed candidate same among named like =>
    obtain ⟨wanted, failed, rfl⟩ := like
    refine .kept fresh.upload same among named (fun old held => ?_) ⟨rfl, rfl⟩
    rw [same]
    exact fresh.newer old held

theorem Sent.same {current previous : Option Agreed} (sent : Sent point candidates current previous s)
    (upload : s'.upload = s.upload) (slots : s'.current = s.current ∧ s'.previous = s.previous) :
    Sent point candidates current previous s' := by
  obtain ⟨now, before⟩ := slots
  cases sent with
  | nobody none same => exact .nobody (upload.trans none) ⟨now.trans same.1, before.trans same.2⟩
  | asked found point among same =>
    exact .asked (upload.trans found) point among ⟨now.trans same.1, before.trans same.2⟩
  | kept none point among named newer turned =>
    exact .kept (upload.trans none) point among named newer ⟨now.trans turned.1, before.trans turned.2⟩

theorem Sent.more {more : Candidates} {current previous : Option Agreed}
    (sent : Sent point candidates current previous s)
    (fewer : candidates ⊆ more) : Sent point more current previous s := by
  cases sent with
  | nobody none same => exact .nobody none same
  | asked found point among same => exact .asked found point (fun _ member => fewer (among member)) same
  | kept none point among named newer turned => exact .kept none point (fewer among) named newer turned

theorem find_id {snapshot : SnapshotId} {held : Agreed} (found : s.find snapshot = some held) : held.id = snapshot := by
  have named := find?_some found
  exact of_decide_eq_true named

end Lemmas

end Saves

namespace Room
variable {σ : Type} {r r' : Room σ} {o : Oracle} {mode : Mode}

def saves (r : Room σ) : Saves :=
  match r.phase with
  | .lobby => {}
  | .running game => game.saves

def nextEvent (r : Room σ) : Nat :=
  match r.phase with
  | .lobby => 0
  | .running game => game.nextEvent

theorem saves_running {game : Game} (running : r.phase = .running game) : r.saves = game.saves := by
  unfold saves
  rw [running]

theorem nextEvent_running {game : Game} (running : r.phase = .running game) : r.nextEvent = game.nextEvent := by
  unfold nextEvent
  rw [running]

theorem same_phase (phase : r'.phase = r.phase) : r'.saves = r.saves ∧ r'.nextEvent = r.nextEvent := by
  unfold saves nextEvent
  rw [phase]
  exact ⟨rfl, rfl⟩

theorem Acts.nextEvent (acts : Acts mode r r') : r'.nextEvent = r.nextEvent := by
  cases phase : r.phase with
  | lobby => exact (same_phase ((acts.lobby phase).trans phase.symm)).2
  | running game =>
    obtain ⟨game', running, _, _, _, _, _, _, rfl⟩ := acts.running phase
    rw [nextEvent_running phase, nextEvent_running running]

theorem Act.like (act : Act .unsaving r r') : r.saves.Like r'.saves := by
  cases act with
  | timed running | judged _ _ running | ticked _ running =>
    rw [saves_running running]
    exact .refl _
  | kept running act =>
    rw [saves_running running]
    cases act with
    | wanted => exact ⟨_, _, rfl⟩
    | failed _ busy | reported _ _ busy | decided _ busy | asked _ busy | received _ busy | dropped _ busy
    | promoted _ busy => cases busy
  | _ => exact .refl _

theorem Acts.like (acts : Acts .unsaving r r') : r.saves.Like r'.saves := by
  induction acts with
  | refl => exact .refl _
  | tail _ act ih => exact ih.trans act.like

theorem Deed.like (deed : Deed .unsaving o r r') : r.saves.Like r'.saves ∧ r.nextEvent ≤ r'.nextEvent := by
  have appended {game : Game} {body : EventBody} (running : r.phase = .running game) :
      r.saves.Like (r.append game body).saves ∧ r.nextEvent ≤ (r.append game body).nextEvent := by
    rw [saves_running running, nextEvent_running running]
    exact ⟨.refl _, Nat.le_succ _⟩
  cases deed with
  | act _ act => exact ⟨act.like, le_of_eq (Acts.nextEvent (.single act)).symm⟩
  | ordered _ running _ => exact appended running
  | sat | expired => exact ⟨.refl _, le_rfl⟩
  | entered _ _ _ running => exact appended running
  | @departed index member kicked calls out _ seat farewell =>
    obtain ⟨_, phase⟩ := handOn_table member.player
    obtain ⟨saves, next⟩ :
        saves { (r.depart index member.player kicked).handOn member.player with calls, out } = _ ∧ _ :=
      same_phase phase
    rw [saves, next]
    cases before : r.phase with
    | lobby =>
      rw [depart_lobby _ _ _ before]
      exact ⟨.refl _, le_rfl⟩
    | running game =>
      rw [depart_running _ _ _ before]
      exact appended before
  | @started history now calls content _ lobby seated same =>
    obtain ⟨nextEvent, seats, pending, began, _⟩ := r.seatMembers_game (.new r.settings history now)
    unfold Room.saves Room.nextEvent
    rw [lobby]
    rw [began]
    exact ⟨.refl _, Nat.zero_le _⟩
  | @logOpened game _ running =>
    obtain ⟨disk, calls, log, same⟩ := r.openLog_eq game.history
    rw [same]
    exact ⟨.refl _, le_rfl⟩
  | saved _ busy => cases busy
  | @unsaved game game' state error code reason _ running save =>
    obtain ⟨_, sealed, _⟩ := Game.save_eq save
    obtain ⟨_, _, _, _, _, _, rfl⟩ := Game.sealPending_eq sealed
    obtain ⟨_, _, same, _⟩ := closeAll_silent code reason
    rw [same, saves_running running, nextEvent_running running]
    exact ⟨.refl _, Nat.le_succ _⟩
  | @sealed game game' frontier pacer frames now _ running advanced sealed =>
    obtain ⟨_, _, _, _, _, _, rfl⟩ := Game.sealPending_eq sealed
    obtain ⟨_, _, _, _, _, _, _, same, _⟩ := publish_eq frames
    rw [same, saves_running running, nextEvent_running running]
    exact ⟨.refl _, le_rfl⟩
  | @unsealed game game' frontier pacer error code reason now _ running sealed =>
    obtain ⟨_, _, _, _, _, _, rfl⟩ := Game.sealPending_eq sealed
    obtain ⟨_, _, same, _⟩ := closeAll_silent code reason
    rw [same, saves_running running, nextEvent_running running]
    exact ⟨.refl _, le_rfl⟩

theorem Deeds.like (deeds : Deeds .unsaving o r r') : r.saves.Like r'.saves ∧ r.nextEvent ≤ r'.nextEvent := by
  induction deeds with
  | refl => exact ⟨.refl _, le_rfl⟩
  | tail _ deed ih => exact ⟨ih.1.trans deed.like.1, le_trans ih.2 deed.like.2⟩

theorem promote_saves {game : Game} (now : Instant) (agreed : Agreed) (running : r.phase = .running game) :
    Saves.Like { r.saves with previous := r.saves.current, current := some agreed } (r.promote o now agreed).saves := by
  unfold promote
  rw [running, saves_running running]
  exact Acts.like (offerWorlds_acts now : Acts .unsaving _ _)

theorem push_saves (index : Nat) (message : ServerMessage) : r.saves.Like (r.push o index message).saves :=
  Acts.like (push_acts index message)

variable (now : Instant)

theorem askForUpload_sends (point : SavePoint) (candidates : Candidates) :
    r.saves.Sends point candidates (r.askForUpload o now point candidates).saves := by
  induction candidates with
  | nil => exact .nobody (.refl _)
  | cons candidate rest ih =>
    obtain ⟨player, world⟩ := candidate
    unfold askForUpload
    split
    · exact .nobody (.refl _)
    rename_i game running
    split
    · next held found =>
      exact @Saves.Sends.kept _ _ _ _ { manifest := held.manifest, point } _ rfl mem_cons_self
        (Saves.find_id found).symm
        (promote_saves now _ running)
    split
    · exact ih.fewer (subset_cons_self _ _)
    rename_i index _
    rw [saves_running running]
    let upload : Upload := { point, sender := player, world, rest, asked := now, receiving := false }
    exact @Saves.Sends.asked _ _ _ _ upload rfl (List.Subset.refl _) (push_saves index _)

theorem decideSave_sends {event : Nat} {round : SaveRound} (now : Instant)
    (found : r.saves.rounds.find event = some round) :
    Saves.Sends round.point (decideSaves round.reports).1 { r.saves with rounds := r.saves.rounds.erase event }
      (r.decideSave o now event).saves := by
  cases running : r.phase with
  | lobby =>
    unfold saves at found
    rw [running] at found
    cases found
  | running game =>
    rw [saves_running running] at found ⊢
    unfold decideSave
    rw [running]
    dsimp only
    rw [found]
    let closed := r.withGame { game with saves := { game.saves with rounds := game.saves.rounds.erase event } }
    have announced : closed.saves.Like
        (closed.announceDivergence o now round.point.sealedThrough (decideSaves round.reports).2).saves :=
      Acts.like (announceDivergence_acts now _ _)
    refine announced.sends ((askForUpload_sends now round.point _).fewer ?_)
    exact append_subset.mpr ⟨filter_subset_self _, filter_subset_self _⟩

theorem decideSave_none {event : Nat} (missing : r.saves.rounds.find event = none) : r.decideSave o now event = r := by
  unfold decideSave
  split
  · rfl
  · next game running =>
    rw [saves_running running] at missing
    rw [missing]

def saveReport (player : PlayerId) (index : Nat) (member : Member) (lanes : List LaneDigest)
    (world : Option SavedWorld) : SaveReport :=
  { report := { player, platform := member.platform, order := index, lanes := sortLanes lanes }, world }

theorem saved_saves (player : PlayerId) (link : UInt64) (event : Nat) (lanes : List LaneDigest)
    (world : Option SavedWorld) : (r.saved o now player link event lanes world).saves = r.saves ∨
    ∃ index member round, r.linked player link = some index ∧ r.members[index]? = some member ∧
      r.saves.rounds.find event = some round ∧
      let reports := round.reports ++ [saveReport player index member lanes world]
      let rounds := r.saves.rounds.insert event { round with reports }
      (r.saved o now player link event lanes world).saves = { r.saves with rounds } ∨
      Saves.Sends round.point (decideSaves reports).1 { r.saves with rounds := rounds.erase event }
        (r.saved o now player link event lanes world).saves := by
  unfold saved
  split
  · exact .inl rfl
  rename_i index member seated
  split
  · exact .inl rfl
  split
  · exact .inl rfl
  rename_i game running
  split
  · exact .inl rfl
  rename_i round found
  split
  · exact .inl rfl
  obtain ⟨linked, seat⟩ := seat_found seated
  rw [saves_running running]
  refine .inr ⟨index, member, round, linked, seat, found, ?_⟩
  dsimp only
  split
  · let told : SaveRound := { round with reports := round.reports ++ [saveReport player index member lanes world] }
    let left := r.withGame { game with saves := { game.saves with rounds := game.saves.rounds.insert event told } }
    have found' : left.saves.rounds.find event = some told := SortedMap.find_insert ..
    exact .inr (decideSave_sends now found')
  · exact .inl rfl

theorem uploadStarts_saves (player : PlayerId) (link : UInt64) (snapshot : SnapshotId) :
    (r.uploadStarts player link snapshot).1.saves = r.saves ∨ ∃ upload, r.saves.upload = some upload ∧
      (r.uploadStarts player link snapshot).1.saves =
      { r.saves with upload := some { upload with receiving := true } } := by
  unfold uploadStarts
  split
  · exact .inl rfl
  rename_i game running
  rw [saves_running running]
  split
  · exact .inl (saves_running running)
  rename_i upload found
  split
  · exact .inr ⟨upload, found, rfl⟩
  · exact .inl (saves_running running)

theorem uploaded_sends (player : PlayerId) (snapshot : SnapshotId) (result : Except String Manifest)
    (fetched : ∀ manifest, result = .ok manifest → manifest.id = snapshot) :
    (r.uploaded o now player snapshot result).saves = r.saves ∨ ∃ upload, r.saves.upload = some upload ∧
      Saves.Sends upload.point ((upload.sender, upload.world) :: upload.rest) { r.saves with upload := none }
        (r.uploaded o now player snapshot result).saves := by
  unfold uploaded
  split
  · exact .inl rfl
  rename_i game running
  rw [saves_running running]
  split
  · exact .inl (saves_running running)
  rename_i upload found
  split
  · next matched =>
    refine .inr ⟨upload, found, ?_⟩
    simp only [Bool.and_eq_true, decide_eq_true_eq] at matched
    split
    · next manifest =>
      have named : upload.world.snapshot = manifest.id := matched.2.trans (fetched manifest rfl).symm
      exact @Saves.Sends.kept _ _ _ _ { manifest, point := upload.point } _ rfl mem_cons_self named
        (promote_saves now _ rfl)
    · let dropped := r.withGame { game with saves := { game.saves with upload := none }.failedUploader player }
      have like : Saves.Like { game.saves with upload := none } dropped.saves := ⟨_, _, rfl⟩
      exact like.sends ((askForUpload_sends now upload.point upload.rest).fewer (subset_cons_self _ _))
  · exact .inl (saves_running running)

theorem saveIfDue_saves (snapshots : Snapshots) (now : Instant) :
    r.nextEvent ≤ (r.saveIfDue o snapshots now).nextEvent ∧ ((r.saveIfDue o snapshots now).saves = r.saves ∨
      ∃ point : SavePoint, point.event = r.nextEvent ∧ point.event < (r.saveIfDue o snapshots now).nextEvent ∧
        r.saves.rounds = [] ∧ r.saves.upload = none ∧ (r.saveIfDue o snapshots now).saves = { r.saves with
          rounds := [(point.event, { point, opened := now, reports := [] })]
          lastSave := some now
          lastPoint := some point }) := by
  unfold saveIfDue
  dsimp only
  split
  · exact ⟨le_rfl, .inl rfl⟩
  rename_i game running
  split
  · exact ⟨le_rfl, .inl rfl⟩
  rename_i due
  simp only [Bool.or_eq_true, Bool.not_eq_true', not_or, Bool.not_eq_false] at due
  obtain ⟨rounds, upload⟩ := due_free due.2
  rw [saves_running running, nextEvent_running running]
  split
  · next saving =>
    obtain ⟨_, sealed, _⟩ := Game.save_eq saving
    obtain ⟨_, _, _, _, _, _, rfl⟩ := Game.sealPending_eq sealed
    obtain ⟨_, _, same, _⟩ := closeAll_silent .shuttingDown "internal error"
    rw [same]
    exact ⟨Nat.le_succ _, .inl rfl⟩
  · next point frames saving =>
    obtain ⟨_, sealed, placed⟩ := Game.save_eq saving
    obtain ⟨_, _, _, _, _, _, rfl⟩ := Game.sealPending_eq sealed
    obtain ⟨_, _, _, _, _, _, _, same, _⟩ := publish_eq frames
    have event : point.event = game.nextEvent := by rw [placed point frames rfl]
    rw [same]
    refine ⟨Nat.le_succ _, .inr ⟨point, event, ?_, rounds, upload, ?_⟩⟩
    · rw [event]
      exact Nat.lt_succ_self _
    show ({ game.saves with
        rounds := game.saves.rounds.insert point.event { point, opened := now, reports := [] }
        lastSave := some now
        lastPoint := some point } : Saves) = _
    rw [rounds]
    rfl

theorem saveIfDue_orderly (snapshots : Snapshots) (now : Instant) (orderly : r.saves.Orderly r.nextEvent) :
    (r.saveIfDue o snapshots now).saves.Orderly (r.saveIfDue o snapshots now).nextEvent ∧
    (r.saveIfDue o snapshots now).saves.upload = r.saves.upload ∧
    ((r.saveIfDue o snapshots now).saves.current = r.saves.current ∧
      (r.saveIfDue o snapshots now).saves.previous = r.saves.previous) ∧
    ∀ event < r.nextEvent, r.saves.rounds = [] → (r.saveIfDue o snapshots now).saves.rounds.find event = none := by
  obtain ⟨later, same | ⟨point, event, made, rounds, upload, same⟩⟩ := r.saveIfDue_saves snapshots now
  · rw [same]
    refine ⟨orderly.like (.refl _) later, rfl, ⟨rfl, rfl⟩, fun event _ none => ?_⟩
    rw [none]
    rfl
  · have newer : ∀ agreed, r.saves.current = some agreed → agreed.point.event < point.event := by
      intro agreed kept
      cases orderly with
      | idle _ _ held last =>
        obtain ⟨point', found, below⟩ := held agreed kept
        have := last point' found
        omega
      | round only => rw [rounds] at only; cases only
      | upload found => rw [upload] at found; cases found
    rw [same]
    refine ⟨@Saves.Orderly.round _ _ { point, opened := now, reports := [] } rfl ⟨rfl, upload, rfl, newer, made⟩, rfl,
      ⟨rfl, rfl⟩, ?_⟩
    intro other before _
    have different : point.event ≠ other := by omega
    simp [SortedMap.find, different]

theorem saveIfDue_sent {s : Saves} {point : SavePoint} {candidates : Candidates} (snapshots : Snapshots) (now : Instant)
    (fresh : s.Fresh r.nextEvent point) (sends : s.Sends point candidates r.saves) :
    (r.saveIfDue o snapshots now).saves.Orderly (r.saveIfDue o snapshots now).nextEvent ∧
    (r.saveIfDue o snapshots now).saves.rounds.find point.event = none ∧
    Saves.Sent point candidates s.current s.previous (r.saveIfDue o snapshots now).saves := by
  obtain ⟨orderly, rounds⟩ := sends.orderly fresh
  obtain ⟨orderly', upload, slots, gone⟩ := saveIfDue_orderly snapshots now orderly
  exact ⟨orderly', gone point.event fresh.made rounds, (sends.sent fresh).same upload slots⟩

theorem runSaves_flow (orderly : r.saves.Orderly r.nextEvent) :
    (r.runSaves o now).saves.Orderly (r.runSaves o now).nextEvent ∧
    ((r.runSaves o now).saves.upload = r.saves.upload ∧
        ((r.runSaves o now).saves.current = r.saves.current ∧ (r.runSaves o now).saves.previous = r.saves.previous) ∨
      (∃ round : SaveRound, r.saves.rounds.find round.point.event = some round ∧
        (r.runSaves o now).saves.rounds.find round.point.event = none ∧
        Saves.Sent round.point (decideSaves round.reports).1 r.saves.current r.saves.previous
        (r.runSaves o now).saves) ∨
      ∃ upload, r.saves.upload = some upload ∧
        Saves.Sent upload.point upload.rest r.saves.current r.saves.previous (r.runSaves o now).saves) := by
  unfold runSaves
  split
  · next snapshots game has running =>
    have still : r.withGame { game with saves := game.saves } = r := by rw [withGame, ← running]
    have mine := saves_running running
    -- With nothing to decide and nobody to give up on there is only the next save to make.
    have idle : (r.saveIfDue o snapshots now).saves.Orderly (r.saveIfDue o snapshots now).nextEvent ∧
        (r.saveIfDue o snapshots now).saves.upload = r.saves.upload ∧
        ((r.saveIfDue o snapshots now).saves.current = r.saves.current ∧
          (r.saveIfDue o snapshots now).saves.previous = r.saves.previous) := by
      obtain ⟨orderly', upload, slots, _⟩ := saveIfDue_orderly snapshots now orderly
      exact ⟨orderly', upload, slots⟩
    cases orderly with
    | idle rounds upload kept made =>
      rw [mine] at rounds upload
      rw [rounds, upload]
      simp only [filter_nil, map_nil, foldl_nil, Option.filter_none]
      rw [still]
      exact ⟨idle.1, .inl idle.2⟩
    | @round round only fresh =>
      have none : game.saves.upload = none := mine ▸ fresh.upload
      have only' := mine ▸ only
      rw [none, only', Option.filter_none]
      dsimp only
      rw [still]
      generalize (fun entry : Nat × SaveRound => decide (now - entry.2.opened ≥ saveDeadline) ||
        saveComplete r.members entry.2) = due
      by_cases ready : due (round.point.event, round) = true
      · rw [filter_cons_of_pos ready]
        have found : r.saves.rounds.find round.point.event = some round := by
          rw [only]
          simp [SortedMap.find]
        have erased : r.saves.rounds.erase round.point.event = [] := by
          rw [only]
          simp [SortedMap.erase]
        have sends := decideSave_sends (o := o) now found
        rw [erased] at sends
        have fresh' : Saves.Fresh (r.decideSave o now round.point.event).nextEvent round.point
          { r.saves with rounds := [] } := by
          rw [Acts.nextEvent (decideSave_acts rfl now round.point.event : Acts .all _ _)]
          exact fresh
        obtain ⟨orderly, gone, sent⟩ := saveIfDue_sent snapshots now fresh' sends
        exact ⟨orderly, .inr (.inl ⟨round, found, gone, sent⟩)⟩
      · rw [filter_cons_of_neg ready]
        exact ⟨idle.1, .inl idle.2⟩
    | @upload upload found fresh =>
      have rounds : game.saves.rounds = [] := mine ▸ fresh.rounds
      have found' : game.saves.upload = some upload := mine ▸ found
      generalize listed : (game.saves.rounds.filter _).map Prod.fst = ready
      generalize stalls : game.saves.upload.filter (uploadStalled now) = stalled
      rw [rounds, filter_nil, map_nil] at listed
      rw [found', Option.filter_some] at stalls
      subst listed
      by_cases late : uploadStalled now upload = true
      · rw [if_pos late] at stalls
        subst stalls
        dsimp only
        let dropped := r.withGame { game with saves := { game.saves with upload := none }.failedUploader upload.sender }
        have like : Saves.Like { r.saves with upload := none } dropped.saves := by
          rw [mine]
          exact ⟨_, _, rfl⟩
        have ended : dropped.saves.Like (dropped.endUpload upload).saves := Acts.like (endUpload_acts upload)
        have sends : Saves.Sends upload.point upload.rest { r.saves with upload := none }
            ((dropped.endUpload upload).askForUpload o now upload.point upload.rest).saves :=
          (like.trans ended).sends (askForUpload_sends now upload.point upload.rest)
        have fresh' : Saves.Fresh ((dropped.endUpload upload).askForUpload o now upload.point upload.rest).nextEvent
            upload.point { r.saves with upload := none } := by
          rw [Acts.nextEvent (askForUpload_acts rfl now upload.point upload.rest : Acts .all _ _),
            Acts.nextEvent (endUpload_acts upload : Acts .all _ _)]
          rw [nextEvent_running running] at fresh
          exact fresh
        obtain ⟨orderly, _, sent⟩ := saveIfDue_sent snapshots now fresh' sends
        exact ⟨orderly, .inr (.inr ⟨upload, found, sent⟩)⟩
      · rw [if_neg late] at stalls
        subst stalls
        dsimp only
        rw [still, foldl_nil]
        exact ⟨idle.1, .inl idle.2⟩
  · exact ⟨orderly, .inl ⟨rfl, rfl, rfl⟩⟩

end Room
end Tpf3Mp.Server
