import Tpf3Mp.Server.RoomTick

/-!
Checkpoint rounds on their own: reports are filed, rounds are decided, and rounds are closed, in any
order. Whatever is filed, decided and told along the way goes into the minutes, by which it is known
that nobody is judged twice.
-/

namespace Tpf3Mp.Server
open Codec Proto Data List

/-- The reports that were filed, the verdicts that were reached, and the members who were found to have
diverged, each with its step. -/
structure Minutes where
  filed : List (Nat × Report) := []
  verdicts : List (Nat × Verdict) := []
  notices : List (Nat × Divergence) := []

namespace Minutes

instance : Append Minutes where
  append a b :=
    { filed := a.filed ++ b.filed, verdicts := a.verdicts ++ b.verdicts, notices := a.notices ++ b.notices }

@[simp] theorem append_filed (a b : Minutes) : (a ++ b).filed = a.filed ++ b.filed := rfl
@[simp] theorem append_verdicts (a b : Minutes) : (a ++ b).verdicts = a.verdicts ++ b.verdicts := rfl
@[simp] theorem append_notices (a b : Minutes) : (a ++ b).notices = a.notices ++ b.notices := rfl

theorem append_none (minutes : Minutes) : minutes ++ ({} : Minutes) = minutes := by
  obtain ⟨filed, verdicts, notices⟩ := minutes
  show Minutes.mk (filed ++ []) (verdicts ++ []) (notices ++ []) = _
  rw [append_nil, append_nil, append_nil]

theorem append_assoc (a b c : Minutes) : a ++ b ++ c = a ++ (b ++ c) := by
  show Minutes.mk (_ ++ _ ++ _) (_ ++ _ ++ _) (_ ++ _ ++ _) = _
  rw [List.append_assoc, List.append_assoc, List.append_assoc]
  rfl

def Mentions (minutes : Minutes) (step : Nat) : Prop :=
  step ∈ minutes.filed.map Prod.fst ∨ step ∈ minutes.verdicts.map Prod.fst ∨ step ∈ minutes.notices.map Prod.fst

theorem mentions_append {a b : Minutes} {step : Nat} : (a ++ b).Mentions step ↔ a.Mentions step ∨ b.Mentions step := by
  simp only [Mentions, append_filed, append_verdicts, append_notices, map_append, mem_append]
  tauto

end Minutes

def lateNotices (report : Report) : Option Verdict → List Divergence
  | none => []
  | some verdict =>
    let diverged := Verdict.divergingLanes report.lanes verdict
    if diverged.isEmpty then [] else [(report.player, diverged)]

structure Docket where
  rounds : SortedMap Nat Round
  closedThrough : Nat

namespace Docket

def Closed (d : Docket) (step : Nat) : Prop := step ≤ d.closedThrough ∧ d.rounds.find step = none

inductive Turn : Docket → Minutes → Docket → Prop where
  | filed {d : Docket} {step : Nat} {round : Round} {report : Report}
      (here : d.rounds.find step = some round ∨
        d.rounds.find step = none ∧ d.closedThrough < step ∧ round.reports = [] ∧ round.verdict = none)
      (fresh : ∀ other ∈ round.reports, other.player ≠ report.player) :
      Turn d { filed := [(step, report)], notices := (lateNotices report round.verdict).map fun notice =>
        (step, notice) }
        { d with rounds := d.rounds.insert step { round with reports := round.reports ++ [report] } }
  | decided {d : Docket} (due : Nat × Round → Bool)
      (undecided : ∀ entry ∈ d.rounds, due entry = true → entry.2.verdict = none) :
      Turn d
        { verdicts := (d.rounds.filter due).map fun entry => (entry.1, (Verdict.decide entry.2.reports).1)
          notices := (d.rounds.filter due).flatMap fun entry =>
            (Verdict.decide entry.2.reports).2.map fun notice => (entry.1, notice) }
        { d with rounds := d.rounds.map fun entry => (entry.1, if due entry then (decideRound entry.2).1 else entry.2) }
  | closed (d : Docket) (step : Nat) :
      Turn d {} { rounds := d.rounds.erase step, closedThrough := max d.closedThrough step }

inductive Turns : Docket → Minutes → Docket → Prop where
  | refl (d : Docket) : Turns d {} d
  | tail {d d' d'' : Docket} {minutes more : Minutes} (turns : Turns d minutes d') (turn : Turn d' more d'') :
      Turns d (minutes ++ more) d''

/-- What is known of the rounds from the minutes, and of the minutes themselves. -/
structure Recorded (d : Docket) (minutes : Minutes) : Prop where
  ordered : (d.rounds.map Prod.fst).Pairwise (· < ·)
  reports : ∀ {step round}, d.rounds.find step = some round →
    round.reports = (minutes.filed.filter fun entry => entry.1 = step).map Prod.snd
  decided : ∀ {step round}, d.rounds.find step = some round →
    ∀ verdict, round.verdict = some verdict ↔ (step, verdict) ∈ minutes.verdicts
  known : ∀ {step}, step ∈ minutes.filed.map Prod.fst ∨ step ∈ minutes.verdicts.map Prod.fst →
    (d.rounds.find step).isSome = true ∨ step ≤ d.closedThrough
  once : (minutes.verdicts.map Prod.fst).Nodup
  single : (minutes.filed.map fun entry => (entry.1, entry.2.player)).Nodup
  told : (minutes.notices.map fun notice => (notice.1, notice.2.1)).Nodup
  notices : ∀ {step player lanes}, (step, player, lanes) ∈ minutes.notices ↔ lanes ≠ [] ∧
    ∃ report verdict, (step, report) ∈ minutes.filed ∧ report.player = player ∧ (step, verdict) ∈ minutes.verdicts ∧
      Verdict.divergingLanes report.lanes verdict = lanes

section Lemmas
variable {d d' d'' : Docket} {minutes more : Minutes} {step : Nat} {round : Round}

theorem Turns.single (turn : Turn d minutes d') : Turns d minutes d' := .tail (.refl d) turn

theorem Turns.trans (first : Turns d minutes d') (second : Turns d' more d'') : Turns d (minutes ++ more) d'' := by
  induction second with
  | refl =>
    rw [Minutes.append_none]
    exact first
  | tail _ turn ih =>
    rw [← Minutes.append_assoc]
    exact ih.tail turn

theorem lateNotices_mem {report : Report} {verdict : Option Verdict} {player : PlayerId} {lanes : List UInt16} :
    (player, lanes) ∈ lateNotices report verdict ↔ lanes ≠ [] ∧ report.player = player ∧
      ∃ reached, verdict = some reached ∧ Verdict.divergingLanes report.lanes reached = lanes := by
  unfold lateNotices
  cases verdict with
  | none => simp
  | some reached =>
    generalize Verdict.divergingLanes report.lanes reached = found
    cases found with
    | nil => grind
    | cons first rest => grind

theorem mem_reports {filed : List (Nat × Report)} {report : Report} :
    report ∈ (filed.filter fun entry => entry.1 = step).map Prod.snd ↔ (step, report) ∈ filed := by
  simp

namespace Recorded

section
variable (recorded : d.Recorded minutes)
include recorded

theorem standing (here : d.rounds.find step = some round ∨
      d.rounds.find step = none ∧ d.closedThrough < step ∧ round.reports = [] ∧ round.verdict = none) :
    round.reports = (minutes.filed.filter fun entry => entry.1 = step).map Prod.snd ∧
      ∀ verdict, round.verdict = some verdict ↔ (step, verdict) ∈ minutes.verdicts := by
  rcases here with found | ⟨missing, later, empty, undecided⟩
  · exact ⟨recorded.reports found, recorded.decided found⟩
  have unknown : ¬(step ∈ minutes.filed.map Prod.fst ∨ step ∈ minutes.verdicts.map Prod.fst) := by
    intro known
    have := recorded.known known
    rw [missing] at this
    simp at this
    omega
  rw [not_or] at unknown
  refine ⟨?_, fun verdict => ?_⟩
  · rw [empty]
    symm
    rw [map_eq_nil_iff, filter_eq_nil_iff]
    intro entry filed here
    exact unknown.1 (mem_map.mpr ⟨entry, filed, of_decide_eq_true here⟩)
  · rw [undecided]
    refine iff_of_false nofun fun reached => ?_
    exact unknown.2 (mem_map.mpr ⟨_, reached, rfl⟩)

theorem filed {report : Report} (here : d.rounds.find step = some round ∨
      d.rounds.find step = none ∧ d.closedThrough < step ∧ round.reports = [] ∧ round.verdict = none)
    (fresh : ∀ other ∈ round.reports, other.player ≠ report.player) :
    Recorded { d with rounds := d.rounds.insert step { round with reports := round.reports ++ [report] } } (minutes ++
      { filed := [(step, report)], notices := (lateNotices report round.verdict).map fun notice =>
        (step, notice) }) := by
  obtain ⟨reports, verdict⟩ := recorded.standing here
  have unfiled {other : Report} (filed : (step, other) ∈ minutes.filed) : other.player ≠ report.player := by
    apply fresh other
    rw [reports]
    exact mem_reports.mpr filed
  have untold {lanes : List UInt16} : (step, report.player, lanes) ∉ minutes.notices := by
    intro told
    obtain ⟨_, other, _, filed, same, _⟩ := recorded.notices.mp told
    exact unfiled filed same
  refine ⟨SortedMap.insert_ordered _ _ recorded.ordered, ?_, ?_, ?_, ?_, ?_, ?_, ?_⟩
  · intro other round' found
    by_cases same : step = other
    · subst same
      rw [SortedMap.find_insert] at found
      cases found
      simp [reports]
    · rw [SortedMap.find_insert_other same] at found
      rw [recorded.reports found]
      simp [same]
  · intro other round' found
    rw [Minutes.append_verdicts, append_nil]
    by_cases same : step = other
    · subst same
      rw [SortedMap.find_insert] at found
      cases found
      exact verdict
    · rw [SortedMap.find_insert_other same] at found
      exact recorded.decided found
  · intro other known
    by_cases same : step = other
    · subst same
      rw [SortedMap.find_insert]
      exact .inl rfl
    rw [SortedMap.find_insert_other same]
    refine recorded.known (known.imp ?_ ?_)
    · simp only [Minutes.append_filed, map_append, mem_append, map_cons, map_nil, mem_singleton]
      exact fun filed => filed.resolve_right (Ne.symm same)
    · simp
  · simpa using recorded.once
  · rw [Minutes.append_filed, map_append, nodup_append']
    refine ⟨recorded.single, nodup_singleton _, ?_⟩
    rw [map_cons, map_nil, disjoint_singleton]
    intro twice
    obtain ⟨⟨_, other⟩, filed, same⟩ := mem_map.mp twice
    cases congrArg Prod.fst same
    exact unfiled filed (congrArg Prod.snd same)
  · rw [Minutes.append_notices, map_append, nodup_append']
    refine ⟨recorded.told, ?_, ?_⟩
    · unfold lateNotices
      split
      · exact nodup_nil
      dsimp only
      split
      · exact nodup_nil
      · exact nodup_singleton _
    · rw [disjoint_left]
      intro key before after
      obtain ⟨⟨_, player, lanes⟩, told, rfl⟩ := mem_map.mp before
      simp only [mem_map] at after
      obtain ⟨_, ⟨⟨player', lanes'⟩, late, rfl⟩, same⟩ := after
      obtain ⟨_, reporter, _⟩ := lateNotices_mem.mp late
      cases same
      rw [← reporter] at told
      exact untold told
  · intro other player lanes
    rw [Minutes.append_notices, Minutes.append_filed, Minutes.append_verdicts, append_nil, mem_append,
      recorded.notices]
    constructor
    · rintro (⟨some_, old, reached, filed, rest⟩ | late)
      · exact ⟨some_, old, reached, mem_append_left _ filed, rest⟩
      obtain ⟨⟨player', lanes'⟩, late, same⟩ := mem_map.mp late
      cases same
      obtain ⟨some_, reporter, reached, found, diverging⟩ := lateNotices_mem.mp late
      exact ⟨some_, report, reached, mem_append_right _ (mem_singleton_self _), reporter,
        (verdict reached).mp found, diverging⟩
    · rintro ⟨some_, old, reached, filed, reporter, found, diverging⟩
      rcases mem_append.mp filed with before | now
      · exact .inl ⟨some_, old, reached, before, reporter, found, diverging⟩
      · cases mem_singleton.mp now
        refine .inr (mem_map.mpr ⟨(player, lanes), lateNotices_mem.mpr ⟨some_, reporter, reached, ?_, diverging⟩, rfl⟩)
        exact (verdict reached).mpr found

theorem undecided {due : Nat × Round → Bool} (open_ : ∀ entry ∈ d.rounds, due entry = true → entry.2.verdict = none)
    {entry : Nat × Round}
    (among : entry ∈ d.rounds.filter due) (verdict : Verdict) : (entry.1, verdict) ∉ minutes.verdicts := by
  obtain ⟨held, ready⟩ := mem_filter.mp among
  have found := SortedMap.find_of_mem (ordered_nodup recorded.ordered) held
  rw [← recorded.decided found verdict, open_ entry held ready]
  exact nofun

theorem diverged_distinct {entry : Nat × Round} (held : entry ∈ d.rounds) :
    ((Verdict.decide entry.2.reports).2.map Prod.fst).Nodup := by
  have reporters : (entry.2.reports.map Report.player).Nodup := by
    rw [recorded.reports (SortedMap.find_of_mem (ordered_nodup recorded.ordered) held), map_map]
    have mine := (filter_sublist (p := fun filed => filed.1 = entry.1) (l := minutes.filed)).map
      fun filed => (filed.1, filed.2.player)
    have pairs := recorded.single.sublist mine
    refine List.Nodup.of_map (fun player => (entry.1, player)) ?_
    rw [map_map]
    refine Eq.subst (motive := List.Nodup) (map_congr_left fun filed among => ?_) pairs
    rw [← of_decide_eq_true (mem_filter.mp among).2]
    rfl
  exact reporters.sublist (Verdict.diverged_sublist _)

theorem decides {due : Nat × Round → Bool} (open_ : ∀ entry ∈ d.rounds, due entry = true → entry.2.verdict = none) :
    Recorded { d with rounds := d.rounds.map fun entry =>
      (entry.1, if due entry then (decideRound entry.2).1 else entry.2) }
      (minutes ++
        { verdicts := (d.rounds.filter due).map fun entry => (entry.1, (Verdict.decide entry.2.reports).1)
          notices := (d.rounds.filter due).flatMap fun entry =>
            (Verdict.decide entry.2.reports).2.map fun notice => (entry.1, notice) }) := by
  have distinct := ordered_nodup recorded.ordered
  have steps : ((d.rounds.filter due).map Prod.fst).Nodup := distinct.sublist (filter_sublist.map _)
  have found' {step : Nat} {round' : Round}
      (found : SortedMap.find step
        (d.rounds.map fun entry => (entry.1, if due entry then (decideRound entry.2).1 else entry.2)) =
        some round') : ∃ round, d.rounds.find step = some round ∧ round'.reports = round.reports ∧
          (if due (step, round) then round'.verdict = some (Verdict.decide round.reports).1 else round' = round) := by
    rw [SortedMap.find_map] at found
    obtain ⟨round, before, rfl⟩ := Option.map_eq_some_iff.mp found
    refine ⟨round, before, ?_⟩
    split
    · exact ⟨rfl, rfl⟩
    · exact ⟨rfl, rfl⟩
  -- What is decided now is told of the reports the round has.
  have reached {step : Nat} {verdict : Verdict} : (step, verdict) ∈ (d.rounds.filter due).map (fun entry =>
      (entry.1, (Verdict.decide entry.2.reports).1)) ↔ ∃ round, d.rounds.find step = some round ∧
        due (step, round) = true ∧ (Verdict.decide round.reports).1 = verdict := by
    rw [mem_map]
    constructor
    · rintro ⟨⟨step', round⟩, among, same⟩
      cases same
      obtain ⟨held, ready⟩ := mem_filter.mp among
      exact ⟨round, SortedMap.find_of_mem distinct held, ready, rfl⟩
    · rintro ⟨round, found, ready, rfl⟩
      exact ⟨(step, round), mem_filter.mpr ⟨SortedMap.find_mem found, ready⟩, rfl⟩
  refine ⟨?_, ?_, ?_, ?_, ?_, ?_, ?_, ?_⟩
  · rw [map_map]
    exact recorded.ordered
  · intro step round' found
    obtain ⟨round, before, same, _⟩ := found' found
    rw [same, recorded.reports before, Minutes.append_filed, append_nil]
  · intro step round' found verdict
    obtain ⟨round, before, _, after⟩ := found' found
    rw [Minutes.append_verdicts, mem_append, reached]
    by_cases ready : due (step, round) = true
    · rw [if_pos ready] at after
      have none := recorded.undecided open_ (mem_filter.mpr ⟨SortedMap.find_mem before, ready⟩) verdict
      rw [after]
      constructor
      · rintro ⟨⟩
        exact .inr ⟨round, before, ready, rfl⟩
      rintro (early | ⟨round', again, _, rfl⟩)
      · exact absurd early none
      · cases before.symm.trans again
        rfl
    · rw [if_neg ready] at after
      subst after
      rw [recorded.decided before]
      refine ⟨.inl, fun either => either.resolve_right ?_⟩
      rintro ⟨other, again, ready', _⟩
      cases before.symm.trans again
      exact ready ready'
  · intro step known
    rw [SortedMap.find_map, Option.isSome_map]
    rcases known with filed | verdict
    · rw [Minutes.append_filed, append_nil] at filed
      exact recorded.known (.inl filed)
    rw [Minutes.append_verdicts, map_append, mem_append] at verdict
    rcases verdict with early | now
    · exact recorded.known (.inr early)
    · obtain ⟨⟨_, verdict⟩, among, rfl⟩ := mem_map.mp now
      obtain ⟨round, found, _⟩ := reached.mp among
      exact .inl (found ▸ rfl)
  · rw [Minutes.append_verdicts, map_append, nodup_append']
    refine ⟨recorded.once, ?_, ?_⟩
    · rw [map_map]
      exact steps
    intro step early now
    obtain ⟨⟨_, verdict⟩, before, rfl⟩ := mem_map.mp early
    obtain ⟨_, among, same⟩ := mem_map.mp now
    obtain ⟨entry, ready, rfl⟩ := mem_map.mp among
    dsimp only at same
    rw [← same] at before
    exact recorded.undecided open_ ready verdict before
  · rw [Minutes.append_filed, append_nil]
    exact recorded.single
  · rw [Minutes.append_notices, map_append, nodup_append']
    refine ⟨recorded.told, ?_, ?_⟩
    · rw [map_flatMap, nodup_flatMap]
      constructor
      · intro entry among
        rw [map_map]
        have once := recorded.diverged_distinct (mem_filter.mp among).1
        have paired := once.map (f := fun player => (entry.1, player)) fun _ _ same => congrArg Prod.snd same
        rwa [map_map] at paired
      · refine (pairwise_map.mp steps).imp fun apart => ?_
        intro key first second
        simp only [mem_map] at first second
        obtain ⟨_, ⟨_, _, rfl⟩, rfl⟩ := first
        obtain ⟨_, ⟨_, _, rfl⟩, same⟩ := second
        exact apart (congrArg Prod.fst same).symm
    · rw [disjoint_left]
      intro key early now
      obtain ⟨⟨step, player, lanes⟩, told, rfl⟩ := mem_map.mp early
      obtain ⟨_, _, verdict, _, _, before, _⟩ := recorded.notices.mp told
      obtain ⟨⟨_, _, _⟩, among, same⟩ := mem_map.mp now
      obtain ⟨entry, ready, notice⟩ := mem_flatMap.mp among
      obtain ⟨_, _, again⟩ := mem_map.mp notice
      cases again
      cases same
      exact recorded.undecided open_ ready verdict before
  · intro step player lanes
    rw [Minutes.append_notices, Minutes.append_verdicts, Minutes.append_filed, append_nil, mem_append,
      recorded.notices]
    constructor
    · rintro (⟨some_, report, verdict, filed, reporter, before, diverging⟩ | now)
      · exact ⟨some_, report, verdict, filed, reporter, mem_append_left _ before, diverging⟩
      obtain ⟨⟨step', round⟩, ready, notice⟩ := mem_flatMap.mp now
      obtain ⟨⟨_, _⟩, diverged, same⟩ := mem_map.mp notice
      cases same
      obtain ⟨report, among, reporter, diverging, some_⟩ := Verdict.mem_diverged.mp diverged
      have found := SortedMap.find_of_mem distinct (mem_filter.mp ready).1
      rw [recorded.reports found] at among
      refine ⟨some_, report, _, mem_reports.mp among, reporter, mem_append_right _ ?_, diverging⟩
      exact mem_map.mpr ⟨_, ready, rfl⟩
    · rintro ⟨some_, report, verdict, filed, reporter, before, diverging⟩
      rcases mem_append.mp before with early | now
      · exact .inl ⟨some_, report, verdict, filed, reporter, early, diverging⟩
      obtain ⟨round, found, ready, rfl⟩ := reached.mp now
      refine .inr (mem_flatMap.mpr ⟨(step, round), mem_filter.mpr ⟨SortedMap.find_mem found, ready⟩, ?_⟩)
      refine mem_map.mpr ⟨(player, lanes), Verdict.mem_diverged.mpr ⟨report, ?_, reporter, diverging, some_⟩, rfl⟩
      rw [recorded.reports found]
      exact mem_reports.mpr filed

theorem closes (step : Nat) :
    Recorded { rounds := d.rounds.erase step, closedThrough := max d.closedThrough step } minutes := by
  have kept {other : Nat} {round : Round} (found : (d.rounds.erase step).find other = some round) :
      d.rounds.find other = some round := by
    rw [SortedMap.find_erase] at found
    split at found
    · cases found
    · exact found
  refine ⟨recorded.ordered.sublist (filter_sublist.map _), fun found => recorded.reports (kept found),
    fun found => recorded.decided (kept found), fun {other} known => ?_, recorded.once, recorded.single, recorded.told,
    recorded.notices⟩
  rw [SortedMap.find_erase]
  split
  · next same =>
    subst same
    exact .inr (Nat.le_max_right _ _)
  · exact (recorded.known known).imp_right fun through => le_trans through (Nat.le_max_left _ _)

theorem turn (turn : Turn d more d') : d'.Recorded (minutes ++ more) := by
  cases turn with
  | filed here fresh => exact recorded.filed here fresh
  | decided due open_ => exact recorded.decides open_
  | closed step =>
    rw [Minutes.append_none]
    exact recorded.closes step

theorem turns (turns : Turns d more d') : d'.Recorded (minutes ++ more) := by
  induction turns with
  | refl =>
    rw [Minutes.append_none]
    exact recorded
  | tail _ last ih =>
    rw [← Minutes.append_assoc]
    exact ih.turn last

end

end Recorded

theorem recorded_empty (closedThrough : Nat) : Recorded { rounds := [], closedThrough } {} := by
  refine ⟨.nil, ?_, ?_, fun known => ?_, .nil, .nil, .nil, ?_⟩
  · exact nofun
  · exact nofun
  · simp at known
  · simp

/-- A round keeps its reports and its verdict, or is closed. -/
def Goes (d : Docket) (step : Nat) (round : Round) : Prop :=
  d.Closed step ∨ ∃ round', d.rounds.find step = some round' ∧ round.reports <+: round'.reports ∧
    ∀ verdict, round.verdict = some verdict → round'.verdict = some verdict

/-- The rounds go on, and those that are closed stay closed and are not mentioned again. -/
structure Persists (d : Docket) (more : Minutes) (d' : Docket) : Prop where
  rounds : ∀ {step round}, d.rounds.find step = some round → d'.Goes step round
  closed : ∀ {step}, d.Closed step → d'.Closed step ∧ ¬more.Mentions step

theorem Turn.persists (turn : Turn d more d') (ordered : (d.rounds.map Prod.fst).Pairwise (· < ·)) :
    d.Persists more d' := by
  cases turn with
  | @filed step round report here fresh =>
    have goes {other : Nat} {old : Round} (found : d.rounds.find other = some old) :
        Goes { d with rounds := d.rounds.insert step { round with reports := round.reports ++ [report] } }
          other old := by
      refine .inr ?_
      by_cases same : step = other
      · subst same
        rw [SortedMap.find_insert]
        refine ⟨_, rfl, ?_⟩
        rcases here with held | ⟨missing, _⟩
        · cases found.symm.trans held
          exact ⟨prefix_append _ _, fun _ verdict => verdict⟩
        · cases found.symm.trans missing
      · rw [SortedMap.find_insert_other same]
        exact ⟨old, found, prefix_rfl, fun _ verdict => verdict⟩
    refine ⟨goes, fun {other} closed => ?_⟩
    have apart : step ≠ other := by
      rintro rfl
      obtain ⟨through, missing⟩ := closed
      rcases here with held | ⟨_, later, _⟩
      · cases held.symm.trans missing
      · omega
    refine ⟨⟨closed.1, (SortedMap.find_insert_other apart _ _).trans closed.2⟩, ?_⟩
    simp [Minutes.Mentions, Ne.symm apart]
  | decided due open_ =>
    refine ⟨fun {step round} found => .inr ?_, fun {step} closed => ⟨⟨closed.1, ?_⟩, ?_⟩⟩
    · rw [SortedMap.find_map, found]
      refine ⟨_, rfl, ?_⟩
      dsimp only
      split
      · next ready =>
        refine ⟨prefix_rfl, fun verdict early => ?_⟩
        rw [open_ (step, round) (SortedMap.find_mem found) ready] at early
        cases early
      · exact ⟨prefix_rfl, fun _ verdict => verdict⟩
    · rw [SortedMap.find_map, closed.2]
      rfl
    · have unheld (round : Round) : (step, round) ∉ d.rounds := by
        intro held
        have found := SortedMap.find_of_mem (ordered_nodup ordered) held
        cases closed.2.symm.trans found
      rintro (filed | verdict | told)
      · cases filed
      · simp only [map_map, mem_map] at verdict
        obtain ⟨⟨_, round⟩, among, rfl⟩ := verdict
        exact unheld round (mem_filter.mp among).1
      obtain ⟨⟨_, _, _⟩, among, rfl⟩ := mem_map.mp told
      obtain ⟨⟨_, round⟩, ready, notice⟩ := mem_flatMap.mp among
      obtain ⟨_, _, same⟩ := mem_map.mp notice
      cases same
      exact unheld round (mem_filter.mp ready).1
  | closed step =>
    refine ⟨fun {other round} found => ?_, fun {other} closed => ⟨⟨?_, ?_⟩, ?_⟩⟩
    · unfold Goes Closed
      rw [SortedMap.find_erase]
      split
      · next same => exact .inl ⟨same ▸ Nat.le_max_right _ _, rfl⟩
      · exact .inr ⟨round, found, prefix_rfl, fun _ verdict => verdict⟩
    · exact le_trans closed.1 (Nat.le_max_left _ _)
    · rw [SortedMap.find_erase, closed.2, ite_self]
    · simp [Minutes.Mentions]

theorem Persists.refl (d : Docket) : d.Persists {} d :=
  ⟨fun found => .inr ⟨_, found, prefix_rfl, fun _ verdict => verdict⟩,
    fun closed => ⟨closed, by simp [Minutes.Mentions]⟩⟩

theorem Persists.trans (first : d.Persists minutes d') (second : d'.Persists more d'') :
    d.Persists (minutes ++ more) d'' := by
  refine ⟨fun {step round} found => ?_, fun {step} closed => ?_⟩
  · rcases first.rounds found with closed | ⟨middle, found', reports, verdict⟩
    · exact .inl (second.closed closed).1
    · rcases second.rounds found' with closed | ⟨last, found'', reports', verdict'⟩
      · exact .inl closed
      · exact .inr ⟨last, found'', reports.trans reports',
          fun reached early => verdict' reached (verdict reached early)⟩
  · obtain ⟨closed', silent⟩ := first.closed closed
    obtain ⟨closed'', silent'⟩ := second.closed closed'
    refine ⟨closed'', ?_⟩
    rw [Minutes.mentions_append, not_or]
    exact ⟨silent, silent'⟩

theorem Turns.persists (turns : Turns d more d') (recorded : d.Recorded minutes) : d.Persists more d' := by
  induction turns with
  | refl => exact .refl d
  | tail turns last ih => exact ih.trans (last.persists (recorded.turns turns).ordered)

end Lemmas

theorem filter_length_le {rounds' : SortedMap Nat Round} {p : Round → Bool} (rounds : SortedMap Nat Round)
    (extra : List Nat) (ordered' : (rounds'.map Prod.fst).Pairwise (· < ·))
    (among : ∀ step round', rounds'.find step = some round' → p round' = true →
      step ∈ extra ∨ ∃ round, rounds.find step = some round ∧ p round = true) :
    (rounds'.filter fun entry => p entry.2).length ≤ extra.length + (rounds.filter fun entry => p entry.2).length := by
  have distinct' := ordered_nodup ordered'
  have keys : ((rounds'.filter fun entry => p entry.2).map Prod.fst).Nodup :=
    distinct'.sublist (filter_sublist.map _)
  have within : (rounds'.filter fun entry => p entry.2).map Prod.fst ⊆
      extra ++ (rounds.filter fun entry => p entry.2).map Prod.fst := by
    intro step key
    obtain ⟨⟨_, round'⟩, held, rfl⟩ := mem_map.mp key
    obtain ⟨held, holds⟩ := mem_filter.mp held
    rcases among _ _ (SortedMap.find_of_mem distinct' held) holds with new | ⟨round, found, holds⟩
    · exact mem_append_left _ new
    · exact mem_append_right _ (mem_map.mpr ⟨_, mem_filter.mpr ⟨SortedMap.find_mem found, holds⟩, rfl⟩)
  simpa using (subperm_of_subset keys within).length_le

structure Few (d : Docket) : Prop where
  undecided : (d.rounds.filter fun entry => entry.2.verdict.isNone).length ≤ maxOpenRounds
  decided : (d.rounds.filter fun entry => entry.2.verdict.isSome).length ≤ decidedRoundsKept

end Docket

namespace Game
variable {g : Game}

def docket (g : Game) : Docket := { rounds := g.rounds, closedThrough := g.roundsClosedThrough }

theorem closeRounds_turns (steps : List Nat) (g : Game) : g.docket.Turns {} (steps.foldl closeRound g).docket := by
  induction steps generalizing g with
  | nil => exact .refl _
  | cons step steps ih => exact (Docket.Turns.single (.closed g.docket step)).trans (ih (g.closeRound step))

theorem closeRounds_rounds (steps : List Nat) (g : Game) :
    (steps.foldl closeRound g).rounds = g.rounds.filter fun entry => entry.1 ∉ steps := by
  induction steps generalizing g with
  | nil => simp
  | cons step steps ih =>
    rw [foldl_cons, ih]
    show (g.rounds.filter _).filter _ = _
    rw [filter_filter]
    refine filter_congr fun entry _ => ?_
    simp [Bool.and_comm]

theorem pruneRounds_decided (ordered : (g.rounds.map Prod.fst).Pairwise (· < ·)) :
    (g.pruneRounds.rounds.filter fun entry => entry.2.verdict.isSome).length ≤ decidedRoundsKept := by
  unfold pruneRounds
  rw [closeRounds_rounds, filter_filter]
  generalize kept : (g.rounds.filter fun entry => entry.2.verdict.isSome).map Prod.fst = steps
  have distinct : steps.Nodup := by
    rw [← kept]
    exact (ordered_nodup ordered).sublist (filter_sublist.map _)
  generalize excess : steps.length - decidedRoundsKept = count
  have rest : (g.rounds.filter fun entry =>
      entry.2.verdict.isSome && decide (entry.1 ∉ steps.take count)).map Prod.fst = steps.drop count := by
    have split : steps.filter (fun step => decide (step ∉ steps.take count)) = steps.drop count := by
      have apart := disjoint_take_drop distinct (Nat.le_refl count)
      conv => lhs; arg 2; rw [← take_append_drop count steps]
      rw [filter_append]
      have gone : (steps.take count).filter (fun step => decide (step ∉ steps.take count)) = [] := by simp
      have stays : (steps.drop count).filter (fun step => decide (step ∉ steps.take count)) = steps.drop count := by
        refine filter_eq_self.mpr fun step late => decide_eq_true fun early => apart early late
      rw [gone, stays, nil_append]
    rw [← split, ← kept, filter_map, filter_filter]
    refine congrArg _ (filter_congr fun entry _ => ?_)
    exact Bool.and_comm _ _
  have count' := congrArg List.length rest
  rw [length_map, length_drop] at count'
  omega

end Game

end Tpf3Mp.Server
