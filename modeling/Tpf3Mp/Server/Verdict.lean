import Tpf3Mp.Data.SortedMap
import Tpf3Mp.Proto.Control

/-!
Checkpoint verdicts (`tpf3mp-server`, `verdict.rs`): which lane digests are right when members
disagree.
-/

namespace Tpf3Mp.Server
open Proto Data List

structure Report where
  player : PlayerId
  platform : Platform
  order : Nat
  lanes : List LaneDigest
  deriving DecidableEq

abbrev Verdict := SortedMap UInt16 (FixedBytes 32)

namespace Verdict

def digestOf (lanes : List LaneDigest) (lane : UInt16) : Option (FixedBytes 32) :=
  (lanes.find? fun entry => entry.lane = lane).map LaneDigest.digest

def divergingLanes (lanes : List LaneDigest) (verdict : Verdict) : List UInt16 :=
  let ids := sortedSet (verdict.map Prod.fst ++ lanes.map LaneDigest.lane)
  ids.filter fun id => digestOf lanes id ≠ verdict.find id

def strictMajority {α : Type} [DecidableEq α] (values : List α) : Option α :=
  values.find? fun candidate => values.count candidate * 2 > values.length

/-- The reporter on the most common platform, earliest in join order. -/
def anchor (reports : List Report) : Option Nat :=
  let share (platform : Platform) : Nat := reports.countP fun report => report.platform = platform
  (minByKey (fun (_, a) (_, b) => share a.platform > share b.platform ||
      (share a.platform == share b.platform && a.order < b.order)) (reports.zipIdx.map Prod.swap)).map Prod.fst

def decide (reports : List Report) : Verdict × List (PlayerId × List UInt16) :=
  match anchor reports with
  | none => ([], [])
  | some anchor =>
    let lanes := sortedSet (reports.flatMap fun report => report.lanes.map LaneDigest.lane)
    let verdict : Verdict := lanes.foldl (fun verdict lane =>
      let values := reports.map fun report => digestOf report.lanes lane
      match (strictMajority values).getD (values.getD anchor none) with
      | some digest => SortedMap.insert lane digest verdict
      | none => verdict) []
    let diverged := reports.filterMap fun report =>
      let lanes := divergingLanes report.lanes verdict
      if lanes.isEmpty then none else some (report.player, lanes)
    (verdict, diverged)

theorem strictMajority_some {α : Type} [DecidableEq α] {values : List α} {value : α} :
    strictMajority values = some value ↔ values.length < (values.countP fun other => other = value) * 2 := by
  have count (value : α) : values.count value = values.countP fun other => other = value := rfl
  have unique {a b : α} (most : values.length < (values.countP fun other => other = a) * 2)
      (also : values.length < (values.countP fun other => other = b) * 2) : a = b := by
    by_contra apart
    have rest : (values.countP fun other => other = b) ≤
        values.countP fun other => ¬Decidable.decide (other = a) = true := by
      refine countP_mono_left fun other _ is => ?_
      rw [of_decide_eq_true is]
      simpa using Ne.symm apart
    have whole := length_eq_countP_add_countP (fun other => Decidable.decide (other = a)) (l := values)
    omega
  unfold strictMajority
  constructor
  · intro found
    simpa [count] using find?_some found
  intro most
  cases found : values.find? fun candidate => values.count candidate * 2 > values.length with
  | none =>
    have held : value ∈ values := count_pos_iff.mp (by rw [count]; omega)
    have few := find?_eq_none.mp found value held
    rw [count, decide_eq_true_eq] at few
    omega
  | some other =>
    have also := find?_some found
    rw [count, decide_eq_true_eq] at also
    rw [unique also most]

def share (reports : List Report) (platform : Platform) : Nat := reports.countP fun report => report.platform = platform

/-- The earliest in join order among the reporters on the platforms that most of them are on. -/
structure Anchors (reports : List Report) (report : Report) : Prop where
  reported : report ∈ reports
  common : ∀ other ∈ reports, share reports other.platform ≤ share reports report.platform
  first : ∀ other ∈ reports, share reports other.platform = share reports report.platform → report.order ≤ other.order

variable {reports : List Report} {lane : UInt16} {index : Nat}

theorem anchor_some (found : anchor reports = some index) :
    ∃ report, reports[index]? = some report ∧ Anchors reports report := by
  unfold anchor at found
  obtain ⟨⟨index, report⟩, least, rfl⟩ := Option.map_eq_some_iff.mp found
  have seat : (index, report) ∈ reports.zipIdx.map Prod.swap := minByKey_mem least
  have here : reports[index]? = some report := by
    obtain ⟨⟨_, _⟩, among, same⟩ := mem_map.mp seat
    cases same
    exact mem_zipIdx_iff_getElem?.mp among
  have smallest := minByKey_least ?_ ?_ least
  · have none (other : Report) (among : other ∈ reports) :
      ¬(share reports report.platform < share reports other.platform ∨
        share reports other.platform = share reports report.platform ∧ other.order < report.order) := by
      obtain ⟨place, there⟩ := mem_iff_getElem?.mp among
      have listed : (place, other) ∈ reports.zipIdx.map Prod.swap :=
        mem_map.mpr ⟨(other, place), mem_zipIdx_iff_getElem?.mpr there, rfl⟩
      have not := smallest _ listed
      simpa [share, not_or] using not
    refine ⟨report, here, mem_of_getElem? here, fun other among => ?_, fun other among same => ?_⟩
    · exact Nat.le_of_not_lt fun more => none other among (.inl more)
    · exact Nat.le_of_not_lt fun earlier => none other among (.inr ⟨same, earlier⟩)
  · rintro ⟨_, a⟩ ⟨_, b⟩ less
    simp only [gt_iff_lt, Bool.or_eq_true, Bool.and_eq_true, decide_eq_true_eq, beq_iff_eq, Bool.or_eq_false_iff,
      Bool.and_eq_false_iff, decide_eq_false_iff_not, beq_eq_false_iff_ne] at less ⊢
    omega
  · rintro ⟨_, a⟩ ⟨_, b⟩ ⟨_, c⟩ less
    simp only [gt_iff_lt, Bool.or_eq_true, Bool.and_eq_true, decide_eq_true_eq, beq_iff_eq] at less ⊢
    omega

theorem anchor_none : anchor reports = none ↔ reports = [] := by
  unfold anchor
  cases reports with
  | nil => simp [minByKey]
  | cons => simp [minByKey]

theorem Anchors.unique {a b : Report} (orders : (reports.map Report.order).Nodup)
    (left : Anchors reports a) (right : Anchors reports b) : a = b := by
  have same := Nat.le_antisymm (right.common a left.reported) (left.common b right.reported)
  have order := Nat.le_antisymm (left.first b right.reported same.symm) (right.first a left.reported same)
  exact inj_on_of_nodup_map orders left.reported right.reported order

theorem Anchors.perm {reports' : List Report} {report : Report} (perm : reports.Perm reports')
    (anchors : Anchors reports report) : Anchors reports' report := by
  have same (platform : Platform) : share reports' platform = share reports platform := perm.symm.countP_eq _
  refine ⟨perm.mem_iff.mp anchors.reported, ?_, ?_⟩
  · intro other among
    rw [same, same]
    exact anchors.common other (perm.mem_iff.mpr among)
  · intro other among
    rw [same, same]
    exact anchors.first other (perm.mem_iff.mpr among)

def holders (reports : List Report) (lane : UInt16) (value : Option (FixedBytes 32)) : Nat :=
  reports.countP fun report => digestOf report.lanes lane = value

def winner (reports : List Report) (anchor : Nat) (lane : UInt16) : Option (FixedBytes 32) :=
  let values := reports.map fun report => digestOf report.lanes lane
  (strictMajority values).getD (values.getD anchor none)

theorem digestOf_find (lanes : List LaneDigest) (lane : UInt16) :
    digestOf lanes lane = SortedMap.find lane (lanes.map fun entry => (entry.lane, entry.digest)) := by
  unfold digestOf SortedMap.find
  rw [find?_map, Option.map_map]
  rfl

theorem digestOf_none {lanes : List LaneDigest} (absent : lane ∉ lanes.map LaneDigest.lane) :
    digestOf lanes lane = none := by
  unfold digestOf
  rw [Option.map_eq_none_iff, find?_eq_none]
  intro entry among here
  exact absent (mem_map.mpr ⟨entry, among, by simpa using here⟩)

theorem digestOf_ext {a b : List LaneDigest} (left : (a.map LaneDigest.lane).Pairwise (· < ·))
    (right : (b.map LaneDigest.lane).Pairwise (· < ·)) (same : ∀ lane, digestOf a lane = digestOf b lane) : a = b := by
  have injective : Function.Injective fun entry : LaneDigest => (entry.lane, entry.digest) := by
    rintro ⟨⟩ ⟨⟩ ⟨⟩
    rfl
  refine map_injective_iff.mpr injective (SortedMap.ext_find ?_ ?_ fun lane => ?_)
  · rw [map_map]
    exact left
  · rw [map_map]
    exact right
  · rw [← digestOf_find, ← digestOf_find, same]

theorem mem_divergingLanes {lanes : List LaneDigest} {verdict : Verdict} :
    lane ∈ divergingLanes lanes verdict ↔ digestOf lanes lane ≠ verdict.find lane := by
  unfold divergingLanes
  rw [mem_filter, mem_sortedSet, decide_eq_true_iff, and_iff_right_iff_imp]
  intro differ
  by_contra absent
  rw [mem_append, not_or] at absent
  have unknown : verdict.find lane = none := by
    rw [← Option.not_isSome_iff_eq_none, ← SortedMap.mem_keys]
    exact absent.1
  exact differ ((digestOf_none absent.2).trans unknown.symm)

theorem divergingLanes_ordered (lanes : List LaneDigest) (verdict : Verdict) :
    (divergingLanes lanes verdict).Pairwise (· < ·) :=
  (sortedSet_ordered _).filter _

theorem decide_verdict (found : anchor reports = some index) :
    (decide reports).1 = SortedMap.collect (sortedSet (reports.flatMap fun report => report.lanes.map LaneDigest.lane))
      (winner reports index) := by
  unfold decide SortedMap.collect winner
  rw [found]
  dsimp only
  congr 1
  funext verdict lane
  generalize Option.getD _ _ = value
  cases value <;> rfl

theorem decide_diverged (reports : List Report) : (decide reports).2 = reports.filterMap fun report =>
    if (divergingLanes report.lanes (decide reports).1).isEmpty = true then none
    else some (report.player, divergingLanes report.lanes (decide reports).1) := by
  cases found : anchor reports with
  | none =>
    obtain rfl := anchor_none.mp found
    rfl
  | some index =>
    unfold decide
    rw [found]

theorem mem_diverged {player : PlayerId} {lanes : List UInt16} :
    (player, lanes) ∈ (decide reports).2 ↔ ∃ report ∈ reports, report.player = player ∧
      divergingLanes report.lanes (decide reports).1 = lanes ∧ lanes ≠ [] := by
  rw [decide_diverged, mem_filterMap]
  refine exists_congr fun report => and_congr_right fun _ => ?_
  generalize divergingLanes report.lanes (decide reports).1 = found
  cases found with
  | nil => simp [eq_comm]
  | cons first rest => grind

theorem diverged_sublist (reports : List Report) :
    ((decide reports).2.map Prod.fst).Sublist (reports.map Report.player) := by
  rw [decide_diverged]
  generalize (decide reports).1 = verdict
  induction reports with
  | nil => exact .slnil
  | cons report reports ih =>
    rw [filterMap_cons, map_cons]
    split
    · exact ih.cons _
    rename_i agrees
    split at agrees
    · cases agrees
    · cases agrees
      exact ih.cons_cons _

theorem majority_some {value : Option (FixedBytes 32)} :
    strictMajority (reports.map fun report => digestOf report.lanes lane) = some value ↔
      reports.length < holders reports lane value * 2 := by
  rw [strictMajority_some, length_map, countP_map]
  rfl

theorem winner_majority {value : Option (FixedBytes 32)} (index : Nat)
    (most : reports.length < holders reports lane value * 2) : winner reports index lane = value := by
  unfold winner
  dsimp only
  rw [majority_some.mpr most]
  rfl

theorem winner_anchor {report : Report}
    (here : reports[index]? = some report) (few : ∀ value, holders reports lane value * 2 ≤ reports.length) :
    winner reports index lane = digestOf report.lanes lane := by
  have undecided : strictMajority (reports.map fun report => digestOf report.lanes lane) = none := by
    cases found : strictMajority (reports.map fun report => digestOf report.lanes lane) with
    | none => rfl
    | some value => exact absurd (majority_some.mp found) (not_lt.mpr (few value))
  unfold winner
  dsimp only
  rw [undecided]
  simp [getD_eq_getElem?_getD, here]

theorem decide_find (found : anchor reports = some index) (lane : UInt16) :
    (decide reports).1.find lane = winner reports index lane := by
  rw [decide_verdict found]
  rw [SortedMap.find_collect]
  split
  · rfl
  rename_i absent
  have all : holders reports lane none = reports.length := by
    refine countP_eq_length.mpr fun report reported => decide_eq_true (digestOf_none fun there => absent ?_)
    exact mem_sortedSet.mpr (mem_flatMap.mpr ⟨report, reported, there⟩)
  have someone : 0 < reports.length := by
    refine length_pos_iff.mpr fun empty => ?_
    rw [anchor_none.mpr empty] at found
    cases found
  exact (winner_majority index (by omega)).symm

theorem decide_congr {reports' : List Report} (orders : (reports.map Report.order).Nodup)
    (perm : reports'.Perm reports) : (decide reports').1 = (decide reports).1 := by
  cases found : anchor reports with
  | none =>
    rw [anchor_none] at found
    subst found
    rw [perm.eq_nil]
  | some index =>
    cases found' : anchor reports' with
    | none =>
      rw [anchor_none] at found'
      subst found'
      rw [perm.symm.eq_nil]
    | some index' =>
      obtain ⟨report, here, anchors⟩ := anchor_some found
      obtain ⟨report', here', anchors'⟩ := anchor_some found'
      obtain rfl := Anchors.unique orders (anchors'.perm perm) anchors
      have ordered {reports : List Report} {index : Nat} (found : anchor reports = some index) :
          ((decide reports).1.map Prod.fst).Pairwise (· < ·) := by
        rw [decide_verdict found]
        exact SortedMap.collect_ordered _ _
      refine SortedMap.ext_find (ordered found') (ordered found) fun lane => ?_
      rw [decide_find found', decide_find found]
      have same (value : Option (FixedBytes 32)) : holders reports' lane value = holders reports lane value :=
        perm.countP_eq _
      by_cases most : ∃ value, reports.length < holders reports lane value * 2
      · obtain ⟨value, most⟩ := most
        rw [winner_majority index most, winner_majority index' (by rw [same, perm.length_eq]; exact most)]
      · have few (value : Option (FixedBytes 32)) : holders reports lane value * 2 ≤ reports.length :=
          Nat.le_of_not_lt fun more => most ⟨value, more⟩
        rw [winner_anchor here few, winner_anchor here' fun value => by rw [same, perm.length_eq]; exact few value]

theorem diverging_majority {shared : List LaneDigest}
    (most : reports.length < (reports.countP fun report => report.lanes = shared) * 2) (lane : UInt16) :
    (decide reports).1.find lane = digestOf shared lane := by
  have someone : reports ≠ [] := by
    rintro rfl
    simp at most
  obtain ⟨index, found⟩ := Option.ne_none_iff_exists'.mp (mt anchor_none.mp someone)
  have more : (reports.countP fun report => report.lanes = shared) ≤ holders reports lane (digestOf shared lane) := by
    refine countP_mono_left fun report _ alike => ?_
    rw [of_decide_eq_true alike]
    exact decide_eq_true rfl
  have majority : reports.length < holders reports lane (digestOf shared lane) * 2 := by omega
  rw [decide_find found, winner_majority index majority]

/-- What a round decides does not depend on the order its reports are listed in. Every lane has what
more than half of them say, or what the anchor says. Where more than half of them are the same,
nobody among those diverges, and everyone else does, in the lanes where they differ. -/
theorem decide_fair {reports : List Report} (players : (reports.map Report.player).Nodup)
    (orders : (reports.map Report.order).Nodup)
    (lanes : ∀ report ∈ reports, (report.lanes.map LaneDigest.lane).Pairwise (· < ·)) :
    (∀ reports' : List Report, reports'.Perm reports →
      (decide reports').1 = (decide reports).1 ∧ (decide reports').2.Perm (decide reports).2) ∧
    (∀ lane value, reports.length < holders reports lane value * 2 → (decide reports).1.find lane = value) ∧
    (reports ≠ [] → ∃ report, Anchors reports report ∧ ∀ lane,
      (∀ value, holders reports lane value * 2 ≤ reports.length) →
        (decide reports).1.find lane = digestOf report.lanes lane) ∧
    ∀ shared, reports.length < (reports.countP fun report => report.lanes = shared) * 2 → ∀ report ∈ reports,
      (report.lanes = shared → ∀ diverging, (report.player, diverging) ∉ (decide reports).2) ∧
      (report.lanes ≠ shared → ∃ diverging : List UInt16, diverging.Pairwise (· < ·) ∧
        (∀ lane, lane ∈ diverging ↔ digestOf report.lanes lane ≠ digestOf shared lane) ∧
        ∀ listed, (report.player, listed) ∈ (decide reports).2 ↔ listed = diverging) := by
  refine ⟨fun reports' perm => ⟨decide_congr orders perm, ?_⟩, fun lane value most => ?_, fun someone => ?_,
    fun shared most report reported => ?_⟩
  · rw [decide_diverged, decide_diverged reports, decide_congr orders perm]
    exact perm.filterMap _
  · have someone : reports ≠ [] := by
      rintro rfl
      simp [holders] at most
    obtain ⟨index, found⟩ := Option.ne_none_iff_exists'.mp (mt anchor_none.mp someone)
    rw [decide_find found, winner_majority index most]
  · obtain ⟨index, found⟩ := Option.ne_none_iff_exists'.mp (mt anchor_none.mp someone)
    obtain ⟨report, here, anchors⟩ := anchor_some found
    refine ⟨report, anchors, fun lane few => ?_⟩
    rw [decide_find found, winner_anchor here few]
  · have verdict := diverging_majority most
    have own {listed : List UInt16} : (report.player, listed) ∈ (decide reports).2 ↔
        divergingLanes report.lanes (decide reports).1 = listed ∧ listed ≠ [] := by
      rw [mem_diverged]
      constructor
      · rintro ⟨other, among, same, rest⟩
        rw [inj_on_of_nodup_map players among reported same] at rest
        exact rest
      · exact fun rest => ⟨report, reported, rfl, rest⟩
    have measure (lane : UInt16) : lane ∈ divergingLanes report.lanes (decide reports).1 ↔
        digestOf report.lanes lane ≠ digestOf shared lane := by rw [mem_divergingLanes, verdict]
    constructor
    · intro alike diverging listed
      obtain ⟨rfl, some_⟩ := own.mp listed
      obtain ⟨lane, among⟩ := exists_mem_of_ne_nil _ some_
      rw [measure, alike] at among
      exact among rfl
    · intro unlike
      refine ⟨_, divergingLanes_ordered _ _, measure, fun listed => own.trans ?_⟩
      constructor
      · exact fun both => both.1.symm
      rintro rfl
      refine ⟨rfl, fun empty => unlike ?_⟩
      have agreed : ∃ other ∈ reports, other.lanes = shared := by
        have some_ : 0 < reports.countP fun report => report.lanes = shared := by omega
        simpa using countP_pos_iff.mp some_
      obtain ⟨other, among, rfl⟩ := agreed
      refine digestOf_ext (lanes report reported) (lanes other among) fun lane => ?_
      by_contra differ
      have there := (measure lane).mpr differ
      rw [empty] at there
      cases there

def disputed : List Report :=
  let player (number : UInt8) : PlayerId := .fill 32 number
  let digest (number : UInt8) : FixedBytes 32 := .fill 32 number
  let lanes : List LaneDigest := [{ lane := 0, digest := digest 7 }]
  let platform : Platform := { os := .linux, arch := .x86_64 }
  [{ player := player 1, platform, order := 0, lanes := lanes ++ [{ lane := 1, digest := digest 8 }] },
    { player := player 2, platform, order := 1, lanes }, { player := player 3, platform, order := 2, lanes }]

theorem decide_fair_disputed : disputed.length < (disputed.countP fun report => report.lanes.length = 1) * 2 ∧
    ∀ reports : List Report, reports.Perm disputed → (decide reports).2.Perm (decide disputed).2 := by
  obtain ⟨perm, _⟩ := @decide_fair disputed (by decide) (by decide) (by decide)
  exact ⟨by decide, fun reports same => (perm reports same).2⟩

end Verdict

end Tpf3Mp.Server
