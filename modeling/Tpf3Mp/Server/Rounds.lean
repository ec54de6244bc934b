import Tpf3Mp.Server.Docket
import Tpf3Mp.Server.SaveRuns

/-!
Checkpoint rounds along the runs of a room: what each command and each tick does to them is a change
that their minutes tell, and nothing else a room does touches them.
-/

namespace Tpf3Mp.Server
open Codec Proto Data Relation List

def Mode.unjudging : Mode := { saves := true, reports := true, judges := false }

namespace Room
variable {σ : Type}

/-- The report that passes the room's checks, with its game and the round it goes to. -/
def reporting (r : Room σ) (now : Instant) (player : PlayerId) (link : UInt64) (step : Nat) (lanes : List LaneDigest) :
    Option (Game × Round × Report) :=
  match r.phase with
  | .lobby => none
  | .running game =>
    match (r.linked player link).bind fun order => r.members[order]?.map fun member => (order, member) with
    | none => none
    | some (order, member) =>
      let known := game.rounds.find step
      let openRounds := (game.rounds.filter fun entry => entry.2.verdict.isNone).length
      if step = 0 || step % r.settings.checkpointInterval.toNat ≠ 0 || step > game.sealedThrough then none
      else if step ≤ game.roundsClosedThrough && known.isNone then none
      else if known.isNone && openRounds ≥ maxOpenRounds then none
      else
        let round := known.getD { opened := now, reports := [], verdict := none }
        if round.reports.any fun report => report.player = player then none
        else some (game, round, { player, platform := member.platform, order, lanes := sortLanes lanes })

/-- The minutes of a report: it is filed, and the round is decided or has been, or waits on. -/
def reportMinutes (r : Room σ) (now : Instant) (player : PlayerId) (link : UInt64) (step : Nat)
    (lanes : List LaneDigest) : Minutes :=
  match r.reporting now player link step lanes with
  | none => {}
  | some (_, round, report) =>
    let (after, notices) := reportRound r.members round report
    { filed := [(step, report)]
      verdicts := if round.verdict.isNone then after.verdict.toList.map fun verdict => (step, verdict) else []
      notices := notices.map fun notice => (step, notice) }

def waitMinutes (r : Room σ) (now : Instant) : Minutes :=
  match r.phase with
  | .lobby => {}
  | .running game =>
    let decided := game.rounds.filterMap fun (step, round) =>
      match waitRound r.members now round with
      | .decided round notices => some (step, round, notices)
      | .expired | .open _ => none
    { verdicts := decided.flatMap fun (step, round, _) => round.verdict.toList.map fun verdict => (step, verdict)
      notices := decided.flatMap fun (step, _, notices) => notices.map fun notice => (step, notice) }

def minutes (r : Room σ) (now : Instant) : RoomCommand → Minutes
  | .checkpoint player link step lanes => r.reportMinutes now player link step lanes
  | _ => {}

def tickMinutes (r : Room σ) (o : Oracle) (now : Instant) : Minutes :=
  let kept := (r.sweepLobby o).expireIfAbandoned now
  if kept.closed then {} else kept.waitMinutes now

/-- A step of a room with the minutes of its checkpoint rounds. -/
inductive Hears : Room σ → Minutes → Room σ → Prop where
  | handled {r : Room σ} (o : Oracle) (now : Instant) (command : RoomCommand) (live : r.closed = false) :
      Hears r (r.minutes now command) (r.handle o now command).1
  | saved {r : Room σ} (o : Oracle) (now : Instant) (live : r.closed = false) :
      Hears r (r.tickMinutes o now) (r.tickSaves o now)
  | sealed {r : Room σ} (o : Oracle) (now : Instant) (live : r.closed = false) : Hears r {} (r.tickSeal o now)
  | compacted {r : Room σ} (done : Rewrite) (writes : Nat → Write) (renamed : Bool) (live : r.closed = false) :
      Hears r {} (r.finishCompaction done writes renamed)

inductive Sits : Room σ → Minutes → Room σ → Prop where
  | refl (r : Room σ) : Sits r {} r
  | tail {r r' r'' : Room σ} {minutes more : Minutes} (sits : Sits r minutes r') (hears : Hears r' more r'') :
      Sits r (minutes ++ more) r''

def docket (r : Room σ) : Docket :=
  match r.phase with
  | .lobby => { rounds := [], closedThrough := 0 }
  | .running game => game.docket

section Lemmas
variable {r r' : Room σ} {o : Oracle} {more : Minutes}

theorem Step.hears (step : Step r r') : ∃ more, Hears r more r' := by
  cases step with
  | handled o now command live => exact ⟨_, .handled o now command live⟩
  | saved o now live => exact ⟨_, .saved o now live⟩
  | sealed o now live => exact ⟨_, .sealed o now live⟩
  | compacted done writes renamed live => exact ⟨_, .compacted done writes renamed live⟩

theorem Runs.sits (runs : Runs r r') : ∃ minutes, Sits r minutes r' := by
  induction runs with
  | refl => exact ⟨_, .refl r⟩
  | tail _ step ih =>
    obtain ⟨minutes, sits⟩ := ih
    obtain ⟨more, hears⟩ := step.hears
    exact ⟨_, sits.tail hears⟩

variable {game : Game}

theorem docket_running (running : r.phase = .running game) : r.docket = game.docket := by
  unfold docket
  rw [running]

theorem docket_phase (phase : r'.phase = r.phase) : r'.docket = r.docket := by
  unfold docket
  rw [phase]

theorem Act.docket (act : Act .unjudging r r') : r'.docket = r.docket := by
  cases act with
  | timed running | kept running | ticked _ running =>
    rw [docket_running running]
    rfl
  | judged _ _ _ judges => cases judges
  | _ => rfl

theorem Acts.docket (acts : Acts .unjudging r r') : r'.docket = r.docket := by
  induction acts with
  | refl => rfl
  | tail _ act ih => exact act.docket.trans ih

theorem Deed.docket (deed : Deed .unjudging o r r') : r'.docket = r.docket := by
  have appended {game : Game} {body : EventBody} (running : r.phase = .running game) :
      (r.append game body).docket = r.docket := by
    rw [docket_running running]
    rfl
  cases deed with
  | act _ act => exact act.docket
  | ordered _ running _ => exact appended running
  | sat | expired => rfl
  | entered _ _ _ running => exact appended running
  | @departed index member kicked calls out _ seat farewell =>
    obtain ⟨_, phase⟩ := handOn_table member.player
    have same : docket { (r.depart index member.player kicked).handOn member.player with calls, out } = _ :=
      docket_phase phase
    rw [same]
    cases before : r.phase with
    | lobby =>
      rw [depart_lobby _ _ _ before]
      rfl
    | running game =>
      rw [depart_running _ _ _ before]
      exact appended before
  | @started history now calls content _ lobby seated same =>
    obtain ⟨nextEvent, seats, pending, began, _⟩ := r.seatMembers_game (.new r.settings history now)
    unfold Room.docket
    rw [lobby]
    rw [began]
    rfl
  | @logOpened game _ running =>
    obtain ⟨disk, calls, log, same⟩ := r.openLog_eq game.history
    rw [same]
    rfl
  | @saved game game' state point frames now _ _ running _ save =>
    obtain ⟨_, sealed, _⟩ := Game.save_eq save
    obtain ⟨_, _, _, _, _, _, rfl⟩ := Game.sealPending_eq sealed
    obtain ⟨_, _, _, _, _, _, _, same, _⟩ := publish_eq frames
    rw [same, docket_running running]
    rfl
  | @unsaved game game' state error code reason _ running save =>
    obtain ⟨_, sealed, _⟩ := Game.save_eq save
    obtain ⟨_, _, _, _, _, _, rfl⟩ := Game.sealPending_eq sealed
    obtain ⟨_, _, same, _⟩ := closeAll_silent code reason
    rw [same, docket_running running]
    rfl
  | @sealed game game' frontier pacer frames now _ running advanced sealed =>
    obtain ⟨_, _, _, _, _, _, rfl⟩ := Game.sealPending_eq sealed
    obtain ⟨_, _, _, _, _, _, _, same, _⟩ := publish_eq frames
    rw [same, docket_running running]
    rfl
  | @unsealed game game' frontier pacer error code reason now _ running sealed =>
    obtain ⟨_, _, _, _, _, _, rfl⟩ := Game.sealPending_eq sealed
    obtain ⟨_, _, same, _⟩ := closeAll_silent code reason
    rw [same, docket_running running]
    rfl

theorem Deeds.docket (deeds : Deeds .unjudging o r r') : r'.docket = r.docket := by
  induction deeds with
  | refl => rfl
  | tail _ deed ih => exact deed.docket.trans ih

theorem reporting_some {now : Instant} {player : PlayerId} {link : UInt64} {step : Nat} {lanes : List LaneDigest}
    {round : Round} {report : Report}
    (found : r.reporting now player link step lanes = some (game, round, report)) : r.phase = .running game ∧
    (∃ order member, r.linked player link = some order ∧ r.members[order]? = some member ∧
      report = { player, platform := member.platform, order, lanes := sortLanes lanes }) ∧
    (game.rounds.find step = some round ∨ game.rounds.find step = none ∧ game.roundsClosedThrough < step ∧
      round.reports = [] ∧ round.verdict = none) ∧
    (game.rounds.find step = none →
      (game.rounds.filter fun entry => entry.2.verdict.isNone).length < maxOpenRounds) ∧
    ∀ other ∈ round.reports, other.player ≠ report.player := by
  unfold reporting at found
  split at found
  · cases found
  rename_i game' running
  split at found
  · cases found
  rename_i order member seated
  dsimp only at found
  split at found
  · cases found
  split at found
  · cases found
  rename_i unclosed
  split at found
  · cases found
  rename_i space
  split at found
  · cases found
  rename_i fresh
  cases found
  obtain ⟨linked, seat⟩ := seat_found seated
  refine ⟨running, ⟨order, member, linked, seat, rfl⟩, ?_, fun missing => ?_, by simpa using fresh⟩
  · cases known : game.rounds.find step with
    | some round => exact .inl rfl
    | none =>
      refine .inr ⟨rfl, ?_, rfl, rfl⟩
      simpa [known] using unclosed
  · simpa [missing] using space

theorem checkpoint_eq (now : Instant) (player : PlayerId) (link : UInt64) (step : Nat) (lanes : List LaneDigest) :
    r.checkpoint o now player link step lanes =
      match r.reporting now player link step lanes with
      | none => r
      | some (game, round, report) =>
        (r.withGame { game with rounds := game.rounds.insert step (reportRound r.members round report).1 }.pruneRounds)
          |>.announceDivergence o now step (reportRound r.members round report).2 := by
  unfold checkpoint reporting
  cases r.phase with
  | lobby => rfl
  | running game =>
    cases (r.linked player link).bind fun order => r.members[order]?.map fun member => (order, member) with
    | none => rfl
    | some entry =>
      dsimp only
      split
      · rfl
      split
      · rfl
      · split
        · rfl
        · split <;> rfl

theorem reportRound_cases (members : List Member) (round : Round) (report : Report) :
    let reported := { round with reports := round.reports ++ [report] }
    reportRound members round report = (reported, lateNotices report round.verdict) ∨
      round.verdict = none ∧ reportRound members round report = decideRound reported := by
  unfold reportRound
  cases round.verdict with
  | some verdict => exact .inl rfl
  | none =>
    dsimp only
    split
    · exact .inr ⟨rfl, rfl⟩
    · exact .inl rfl

theorem reportRound_turns {d : Docket} (members : List Member) {step : Nat} {round : Round} {report : Report}
    (ordered : (d.rounds.map Prod.fst).Pairwise (· < ·)) (here : d.rounds.find step = some round ∨
      d.rounds.find step = none ∧ d.closedThrough < step ∧ round.reports = [] ∧ round.verdict = none)
    (fresh : ∀ other ∈ round.reports, other.player ≠ report.player) : d.Turns
      { filed := [(step, report)]
        verdicts := if round.verdict.isNone then
          (reportRound members round report).1.verdict.toList.map fun verdict => (step, verdict) else []
        notices := (reportRound members round report).2.map fun notice => (step, notice) }
      { d with rounds := d.rounds.insert step (reportRound members round report).1 } := by
  have filed := Docket.Turns.single (Docket.Turn.filed here fresh)
  rcases reportRound_cases members round report with waits | ⟨undecided, decides⟩
  · rw [waits]
    have none :
        (if round.verdict.isNone then round.verdict.toList.map fun verdict => (step, verdict) else []) = [] := by
      cases round.verdict <;> rfl
    rw [none]
    exact filed
  · let reported : Round := { round with reports := round.reports ++ [report] }
    let after : Docket := { d with rounds := d.rounds.insert step reported }
    have ordered' : (after.rounds.map Prod.fst).Pairwise (· < ·) := SortedMap.insert_ordered _ _ ordered
    have mine : (after.rounds.filter fun entry => entry.1 = step) = [(step, reported)] :=
      SortedMap.filter_key (ordered_nodup ordered') (SortedMap.find_insert ..)
    have open_ : ∀ entry ∈ after.rounds, decide (entry.1 = step) = true → entry.2.verdict = none := by
      intro entry among same
      have only : entry ∈ after.rounds.filter fun entry => entry.1 = step := mem_filter.mpr ⟨among, same⟩
      rw [mine, mem_singleton] at only
      rw [only]
      exact undecided
    have decided := Docket.Turn.decided (fun entry => decide (entry.1 = step)) open_
    have put : (after.rounds.map fun entry =>
        (entry.1, if decide (entry.1 = step) = true then (decideRound entry.2).1 else entry.2)) =
          d.rounds.insert step (decideRound reported).1 := by
      simp only [decide_eq_true_eq]
      exact SortedMap.insert_map step reported (fun round => (decideRound round).1) ordered
    rw [mine, put] at decided
    rw [decides, undecided]
    have both := filed.tail decided
    rw [undecided, flatMap_singleton] at both
    exact both

/-- What an operation does to the rounds: changes that its minutes tell, after which they are few. -/
structure Conducts (r : Room σ) (more : Minutes) (r' : Room σ) : Prop where
  turns : r.docket.Turns more r'.docket
  few : r'.docket.Few

theorem Conducts.same (few : r.docket.Few) (same : r'.docket = r.docket) : r.Conducts {} r' := by
  refine ⟨?_, same ▸ few⟩
  rw [same]
  exact .refl _

theorem checkpoint_conducts (now : Instant) (player : PlayerId) (link : UInt64) (step : Nat) (lanes : List LaneDigest)
    (ordered : (r.docket.rounds.map Prod.fst).Pairwise (· < ·)) (few : r.docket.Few) :
    r.Conducts (r.reportMinutes now player link step lanes) (r.checkpoint o now player link step lanes) := by
  rw [checkpoint_eq]
  unfold reportMinutes
  cases found : r.reporting now player link step lanes with
  | none => exact .same few rfl
  | some filed =>
    obtain ⟨game, round, report⟩ := filed
    obtain ⟨running, _, here, space, fresh⟩ := reporting_some found
    dsimp only
    generalize reported :
      ({ game with rounds := game.rounds.insert step (reportRound r.members round report).1 } : Game) = told
    have rounds : told.rounds = game.rounds.insert step (reportRound r.members round report).1 := by rw [← reported]
    have announced : (announceDivergence o (r.withGame told.pruneRounds) now step
        (reportRound r.members round report).2).docket = told.pruneRounds.docket :=
      Acts.docket (announceDivergence_acts now step _)
    rw [docket_running running] at ordered few
    have ordered' : (told.rounds.map Prod.fst).Pairwise (· < ·) := by
      rw [rounds]
      exact SortedMap.insert_ordered _ _ ordered
    have filing := reportRound_turns r.members ordered here fresh
    have placed : ({ game.docket with
        rounds := game.rounds.insert step (reportRound r.members round report).1 } : Docket) = told.docket := by
      rw [← reported]
      rfl
    rw [show game.docket.rounds = game.rounds from rfl, placed] at filing
    have prunes : told.docket.Turns {} told.pruneRounds.docket := Game.closeRounds_turns _ told
    refine ⟨?_, ?_⟩
    · rw [announced, docket_running running]
      have both := filing.trans prunes
      rw [Minutes.append_none] at both
      exact both
    · rw [announced]
      refine ⟨?_, Game.pruneRounds_decided ordered'⟩
      have pruned : (told.pruneRounds.rounds.filter fun entry => entry.2.verdict.isNone).length ≤
          (told.rounds.filter fun entry => entry.2.verdict.isNone).length := by
        refine List.Sublist.length_le (List.Sublist.filter _ ?_)
        unfold Game.pruneRounds
        rw [Game.closeRounds_rounds]
        exact filter_sublist
      apply le_trans pruned
      -- A report opens a round only where there is room for one, and reopens none that was decided.
      rcases here with known | ⟨missing, _⟩
      · have still := Docket.filter_length_le (p := fun round => round.verdict.isNone) game.rounds [] ordered'
          fun other round' found' open_ => by
          rw [rounds] at found'
          by_cases same : step = other
          · subst same
            rw [SortedMap.find_insert] at found'
            cases found'
            refine .inr ⟨round, known, ?_⟩
            rcases reportRound_cases r.members round report with waits | ⟨undecided, _⟩
            · rwa [waits] at open_
            · rw [undecided]
              rfl
          · rw [SortedMap.find_insert_other same] at found'
            exact .inr ⟨round', found', open_⟩
        rw [length_nil, Nat.zero_add] at still
        exact le_trans still few.undecided
      · have more := Docket.filter_length_le (p := fun round => round.verdict.isNone) game.rounds [step] ordered'
          fun other round' found' open_ => by
          rw [rounds] at found'
          by_cases same : step = other
          · exact .inl (same ▸ mem_singleton_self _)
          · rw [SortedMap.find_insert_other same] at found'
            exact .inr ⟨round', found', open_⟩
        rw [length_singleton] at more
        have space := space missing
        omega

def awaited (members : List Member) (now : Instant) (entry : Nat × Round) : Bool :=
  match waitRound members now entry.2 with
  | .decided .. => true
  | .expired | .open _ => false

variable (members : List Member)

theorem waitRound_cases (now : Instant) (round : Round) :
    waitRound members now round = .open round ∨ round.verdict = none ∧
      (waitRound members now round = .expired ∨
        waitRound members now round = .decided (decideRound round).1 (decideRound round).2) := by
  generalize same : waitRound members now round = waiting
  unfold waitRound at same
  dsimp only at same
  split at same
  · exact .inl same.symm
  rename_i undecided
  have none : round.verdict = none := by simpa using undecided
  split at same
  · exact .inr ⟨none, .inr same.symm⟩
  · split at same
    · exact .inr ⟨none, .inl same.symm⟩
    · exact .inl same.symm

theorem awaited_open {members : List Member} {now : Instant} {entry : Nat × Round}
    (due : awaited members now entry = true) : entry.2.verdict = none := by
  rcases waitRound_cases members now entry.2 with waits | ⟨undecided, _⟩
  · unfold awaited at due
    rw [waits] at due
    cases due
  · exact undecided

section
variable (now : Instant)
include now

theorem waited_rounds (rounds : SortedMap Nat Round) :
    (rounds.map fun entry => (entry.1, entry.2, waitRound members now entry.2)).map (fun entry =>
      match entry.2.2 with
      | .decided round _ => (entry.1, round)
      | .expired | .open _ => (entry.1, entry.2.1)) =
    rounds.map fun entry => (entry.1, if awaited members now entry then (decideRound entry.2).1 else entry.2) := by
  rw [List.map_map]
  refine map_congr_left fun entry _ => ?_
  unfold awaited
  dsimp only [Function.comp]
  rcases waitRound_cases members now entry.2 with waits | ⟨_, expires | decides⟩
  · rw [waits]
    rfl
  · rw [expires]
    rfl
  · rw [decides]
    rfl

theorem awaited_decided (step : Nat) (round : Round) : (match waitRound members now round with
      | .decided round notices => some (round, notices)
      | .expired | .open _ => none) = if awaited members now (step, round) then some (decideRound round) else none := by
  unfold awaited
  rcases waitRound_cases members now round with waits | ⟨_, expires | decides⟩
  · simp [waits]
  · simp [expires]
  · simp [decides]

theorem waited_decided (rounds : SortedMap Nat Round) : (rounds.filterMap fun (step, round) =>
      match waitRound members now round with
      | .decided round notices => some (step, round, notices)
      | .expired | .open _ => none) =
    (rounds.filter (awaited members now)).map fun entry => (entry.1, decideRound entry.2) := by
  rw [← filterMap_eq_map, filterMap_filter]
  refine filterMap_congr fun entry _ => ?_
  have decided := awaited_decided members now entry.1 entry.2
  dsimp only
  split
  · next same =>
    split
    · next due => simp_all
    · next waits => simp_all
  · next same => simp_all
  · next same => simp_all

theorem waited_notices (rounds : SortedMap Nat Round) :
    ((rounds.map fun entry => (entry.1, entry.2, waitRound members now entry.2)).filterMap fun entry =>
      match entry.2.2 with
      | .decided _ notices => some (entry.1, notices)
      | .expired | .open _ => none) =
    (rounds.filter (awaited members now)).map fun entry => (entry.1, (decideRound entry.2).2) := by
  have both := congrArg (List.map fun decided : Nat × Round × List Divergence => (decided.1, decided.2.2))
    (waited_decided members now rounds)
  rw [map_filterMap, List.map_map] at both
  rw [filterMap_map]
  refine Eq.trans (filterMap_congr fun entry _ => ?_) both
  dsimp only [Function.comp]
  split <;> rfl

theorem waitMinutes_eq (running : r.phase = .running game) : r.waitMinutes now =
    { verdicts := (game.rounds.filter (awaited r.members now)).map fun entry =>
        (entry.1, (Verdict.decide entry.2.reports).1)
      notices := (game.rounds.filter (awaited r.members now)).flatMap fun entry =>
        (Verdict.decide entry.2.reports).2.map fun notice => (entry.1, notice) } := by
  unfold waitMinutes
  rw [running]
  dsimp only
  rw [waited_decided, flatMap_map, flatMap_map]
  congr 1
  exact flatMap_pure_eq_map (fun entry : Nat × Round => (entry.1, (Verdict.decide entry.2.reports).1)) _

theorem decideWaitingRounds_docket (running : r.phase = .running game) : ∃ expired : List Nat,
    let waited : Game := { game with rounds := game.rounds.map fun entry =>
      (entry.1, if awaited r.members now entry then (decideRound entry.2).1 else entry.2) }
    let left := expired.foldl Game.closeRound waited
    (game.rounds.filter (awaited r.members now) = [] ∧ (r.decideWaitingRounds o now).docket = left.docket) ∨
      (r.decideWaitingRounds o now).docket = left.pruneRounds.docket := by
  unfold decideWaitingRounds
  rw [running]
  dsimp only
  erw [waited_rounds, waited_notices]
  generalize (List.filter _ (game.rounds.map _)).map Prod.fst = expired
  refine ⟨expired, ?_⟩
  split
  · next none => exact .inl ⟨by simpa using none, rfl⟩
  · exact .inr (Acts.docket (Acts.foldl (P := fun _ => True)
      (fun _ entry _ _ => ⟨announceDivergence_acts now entry.1 entry.2, trivial⟩) trivial).1)

theorem decideWaitingRounds_conducts (ordered : (r.docket.rounds.map Prod.fst).Pairwise (· < ·))
    (few : r.docket.Few) : r.Conducts (r.waitMinutes now) (r.decideWaitingRounds o now) := by
  cases running : r.phase with
  | lobby =>
    unfold waitMinutes decideWaitingRounds
    rw [running]
    exact .same few rfl
  | running game =>
    rw [docket_running running] at ordered few
    rw [waitMinutes_eq now running]
    obtain ⟨expired, after⟩ := decideWaitingRounds_docket now running
    dsimp only at after
    generalize decides : ({ game with rounds := game.rounds.map fun entry =>
      (entry.1, if awaited r.members now entry then (decideRound entry.2).1 else entry.2) } : Game) = waited at after
    have rounds : waited.rounds = game.rounds.map fun entry =>
      (entry.1, if awaited r.members now entry then (decideRound entry.2).1 else entry.2) := by rw [← decides]
    have deciding := Docket.Turns.single
      (Docket.Turn.decided (d := game.docket) (awaited r.members now) fun _ _ => awaited_open)
    have placed : ({ game.docket with rounds := game.rounds.map fun entry =>
        (entry.1, if awaited r.members now entry then (decideRound entry.2).1 else entry.2) } : Docket) =
          waited.docket := by
      rw [← decides]
      rfl
    rw [show game.docket.rounds = game.rounds from rfl, placed] at deciding
    generalize closes : expired.foldl Game.closeRound waited = left at after
    have closing : waited.docket.Turns {} left.docket := closes ▸ Game.closeRounds_turns expired waited
    have turns := deciding.trans closing
    rw [Minutes.append_none] at turns
    have ordered' : (left.rounds.map Prod.fst).Pairwise (· < ·) := by
      have kept : left.rounds.Sublist waited.rounds := by
        rw [← closes, Game.closeRounds_rounds]
        exact filter_sublist
      apply List.Pairwise.sublist (kept.map _)
      rw [rounds, List.map_map]
      exact ordered
    -- What is left of a round was there before, decided or not.
    have left_found {step : Nat} {round' : Round} (found : left.rounds.find step = some round') :
        ∃ round, game.rounds.find step = some round ∧
          round' = if awaited r.members now (step, round) then (decideRound round).1 else round := by
      have distinct : (waited.rounds.map Prod.fst).Nodup := by
        rw [rounds, List.map_map]
        exact ordered_nodup ordered
      have held : (step, round') ∈ waited.rounds := by
        have among := SortedMap.find_mem found
        rw [← closes, Game.closeRounds_rounds] at among
        exact (mem_filter.mp among).1
      have found' := SortedMap.find_of_mem distinct held
      rw [rounds, SortedMap.find_map] at found'
      obtain ⟨round, before, rfl⟩ := Option.map_eq_some_iff.mp found'
      exact ⟨round, before, rfl⟩
    have undecided : (left.rounds.filter fun entry => entry.2.verdict.isNone).length ≤ maxOpenRounds := by
      have still := Docket.filter_length_le (p := fun round => round.verdict.isNone) game.rounds [] ordered'
        fun step round' found open_ => by
        obtain ⟨round, before, rfl⟩ := left_found found
        refine .inr ⟨round, before, ?_⟩
        split at open_
        · cases open_
        · exact open_
      rw [length_nil, Nat.zero_add] at still
      exact le_trans still few.undecided
    rcases after with ⟨none, same⟩ | same
    · refine ⟨by rw [same, docket_running running]; exact turns, ?_⟩
      rw [same]
      refine ⟨undecided, ?_⟩
      have still := Docket.filter_length_le (p := fun round => round.verdict.isSome) game.rounds [] ordered'
        fun step round' found decided => by
        obtain ⟨round, before, rfl⟩ := left_found found
        refine .inr ⟨round, before, ?_⟩
        have waits : ¬awaited r.members now (step, round) = true := fun due => by
          have among := mem_filter.mpr ⟨SortedMap.find_mem before, due⟩
          rw [none] at among
          cases among
        rwa [if_neg waits] at decided
      rw [length_nil, Nat.zero_add] at still
      exact le_trans still few.decided
    · have pruning : left.docket.Turns {} left.pruneRounds.docket := Game.closeRounds_turns _ left
      have all := turns.trans pruning
      rw [Minutes.append_none] at all
      refine ⟨by rw [same, docket_running running]; exact all, ?_⟩
      rw [same]
      refine ⟨le_trans (List.Sublist.length_le (List.Sublist.filter _ ?_)) undecided, Game.pruneRounds_decided ordered'⟩
      show left.pruneRounds.rounds.Sublist left.rounds
      unfold Game.pruneRounds
      rw [Game.closeRounds_rounds]
      exact filter_sublist

theorem tickSaves_conducts (live : r.closed = false)
    (ordered : (r.docket.rounds.map Prod.fst).Pairwise (· < ·)) (few : r.docket.Few) :
    r.Conducts (r.tickMinutes o now) (r.tickSaves o now) := by
  have begins : Deeds .unjudging o r ((r.sweepLobby o).expireIfAbandoned now) := tickSaves_begins now live
  unfold tickMinutes tickSaves
  dsimp only
  generalize (r.sweepLobby o).expireIfAbandoned now = kept at begins
  have same := begins.docket
  split
  · exact .same few same
  rename_i open_
  have live' := Bool.eq_false_iff.mpr open_
  have waits : kept.Conducts (kept.waitMinutes now) (kept.decideWaitingRounds o now) :=
    decideWaitingRounds_conducts now (same ▸ ordered) (same ▸ few)
  have demoted : Acts .unjudging (kept.decideWaitingRounds o now)
    ((kept.decideWaitingRounds o now).demoteStalled now) :=
    demoteStalled_acts now
  have live'' : ((kept.decideWaitingRounds o now).demoteStalled now).closed = false := by
    rw [demoted.closed, Acts.closed (decideWaitingRounds_acts rfl now : Acts .all _ _)]
    exact live'
  have rest := (runSaves_deeds rfl now live'' : Deeds .unjudging o _ _).docket
  rw [demoted.docket] at rest
  obtain ⟨turns, few'⟩ := waits
  exact ⟨by rw [rest, ← same]; exact turns, by rw [rest]; exact few'⟩

end

theorem Hears.conducts (hears : Hears r more r') (ordered : (r.docket.rounds.map Prod.fst).Pairwise (· < ·))
    (few : r.docket.Few) : r.Conducts more r' := by
  cases hears with
  | handled o now command live =>
    cases command with
    | checkpoint player link step lanes => exact checkpoint_conducts now player link step lanes ordered few
    | _ =>
      refine .same few (Deeds.docket (o := o) ?_)
      exact handle_deeds now _ live (.inl rfl) (.inl rfl) (.inr trivial) (.inl rfl)
  | saved o now live => exact tickSaves_conducts now live ordered few
  | sealed o now live => exact .same few (Deeds.docket (tickSeal_deeds now))
  | compacted done writes renamed live =>
    obtain ⟨disk, log, compaction, compactAt, same⟩ := r.finishCompaction_eq done writes renamed
    rw [same]
    exact .same few rfl

theorem Sits.turns {minutes : Minutes} (sits : Sits r more r') (recorded : r.docket.Recorded minutes)
    (few : r.docket.Few) : r.docket.Turns more r'.docket ∧ r'.docket.Few := by
  induction sits with
  | refl => exact ⟨.refl _, few⟩
  | tail _ hears ih =>
    obtain ⟨turns, few'⟩ := ih
    obtain ⟨next, few''⟩ := hears.conducts (recorded.turns turns).ordered few'
    exact ⟨turns.trans next, few''⟩

end Lemmas

theorem replay_docket {start : StartRecord} {choice : RulesChoice σ} {now : Instant} {replay : Replay σ}
    (begins : start.replay choice now = .ok replay) : replay.game.docket = { rounds := [], closedThrough := 0 } := by
  refine StartRecord.replay_game (P := fun g => g.docket = _) begins rfl fun base game rebased => ?_
  obtain ⟨_, ⟨⟩⟩ := Option.ite_none_right_eq_some.mp rebased
  rfl

theorem takes_docket {ruleset : Ruleset σ} {replay replay' : Replay σ} {frame : Bytes}
    (takes : replay.Takes ruleset frame replay') : replay'.game.docket = replay.game.docket := by
  cases takes with
  | @turn turn decoded continues bounded =>
    obtain ⟨seated, state, owner, banned, folded⟩ := replay.foldl_next_eq ruleset turn.events
    rw [folded]
    rfl
  | marker => rfl

theorem Begins.docket {r : Room σ} {first : Nat} {before : List Bytes} (begins : Begins r first before) :
    r.docket = { rounds := [], closedThrough := 0 } := by
  cases begins with
  | new spec owner now disk => rfl
  | recovered recovered =>
    obtain ⟨start, choice, replay, reader, cut, log, frame, log', replayed, _, _, _, _, rfl⟩ := recover_ok recovered
    obtain ⟨_, _, _, _, replays, _⟩ := replayLog_ok replayed
    have empty : replay.game.docket = { rounds := [], closedThrough := 0 } :=
      StartRecord.replayed_preserves replays (fun _ begins => replay_docket begins) (fun _ _ empty => empty)
        fun _ _ _ empty takes => (takes_docket takes).trans empty
    exact empty

theorem Begins.few {r : Room σ} {first : Nat} {before : List Bytes} (begins : Begins r first before) :
    r.docket.Few := by
  rw [begins.docket]
  exact ⟨Nat.zero_le _, Nat.zero_le _⟩

/-- However reports, ticks, joins and leaves come, few rounds are kept; a step gets at most one
verdict, which its round keeps; a player files at most one report for a step, and is told at most
once of having diverged there, exactly in the lanes where the report and the verdict differ; and a
round goes on until it is closed, after which nothing is heard of its step again. -/
theorem rounds_judge_once {r₀ r : Room σ} {first : Nat} {before : List Bytes} {minutes : Minutes}
    (begins : Begins r₀ first before) (sits : Sits r₀ minutes r) :
    r.docket.Few ∧
    ((minutes.verdicts.map Prod.fst).Nodup ∧
      ∀ step round verdict, r.docket.rounds.find step = some round →
        (round.verdict = some verdict ↔ (step, verdict) ∈ minutes.verdicts)) ∧
    ((minutes.filed.map fun entry => (entry.1, entry.2.player)).Nodup ∧
      (minutes.notices.map fun notice => (notice.1, notice.2.1)).Nodup ∧
      ∀ step player lanes, (step, player, lanes) ∈ minutes.notices ↔ lanes ≠ [] ∧
        ∃ report verdict, (step, report) ∈ minutes.filed ∧ report.player = player ∧
          (step, verdict) ∈ minutes.verdicts ∧ Verdict.divergingLanes report.lanes verdict = lanes) ∧
    ∀ more r', Sits r more r' →
      (∀ step round, r.docket.rounds.find step = some round → r'.docket.Goes step round) ∧
      ∀ step, r.docket.Closed step → r'.docket.Closed step ∧ ¬more.Mentions step := by
  have start : r₀.docket.Recorded {} := by
    rw [begins.docket]
    exact Docket.recorded_empty 0
  obtain ⟨turns, few⟩ := sits.turns start begins.few
  have recorded := start.turns turns
  refine ⟨few, ⟨recorded.once, fun _ _ verdict found => recorded.decided found verdict⟩,
    ⟨recorded.single, recorded.told, fun _ _ _ => recorded.notices⟩, fun more r' later => ?_⟩
  have persists := (later.turns recorded few).1.persists recorded
  exact ⟨fun _ _ found => persists.rounds found, fun _ closed => persists.closed closed⟩

/-! A room that compares every fifth step, and players who start there together. -/

def checkedRoom : Room Unit :=
  .new { plainSpec with settings := { plainSpec.settings with checkpointInterval := 5 } } (plainPlayer 1) 0
    { log := none, compacting := none }

def playedTogether : Room Unit := (checkedRoom.after 0 (startTogether [2])).tickSeal steady (Duration.ofSecs 1)

def laneDigests (number : UInt8) : List LaneDigest := [{ lane := 0, digest := .fill 32 number }]

theorem rounds_judge_once_pair : ∃ (r : Room Unit) (minutes : Minutes), Sits checkedRoom minutes r ∧
    minutes.notices ≠ [] ∧ (minutes.notices.map fun notice => (notice.1, notice.2.1)).Nodup := by
  have started : Runs checkedRoom (checkedRoom.after 0 (startTogether [2])) := after_runs (by decide +kernel)
  obtain ⟨early, sits⟩ := Runs.sits (started.tail (.sealed steady (Duration.ofSecs 1) (by decide +kernel)))
  let first : RoomCommand := .checkpoint (plainPlayer 1).player 1 5 (laneDigests 1)
  let second : RoomCommand := .checkpoint (plainPlayer 2).player 1 5 (laneDigests 2)
  let now := Duration.ofSecs 2
  have filed := (sits.tail (.handled steady now first (by decide +kernel))).tail
    (.handled steady now second (by decide +kernel))
  have told : ((playedTogether.after now [first]).minutes now second).notices ≠ [] := by decide +kernel
  refine ⟨_, _, filed, fun none => told ?_, ((rounds_judge_once (.new _ _ _ _) filed).2.2.1).2.1⟩
  exact (append_eq_nil_iff.mp none).2

end Room

end Tpf3Mp.Server
