import Tpf3Mp.Server.Pacing
import Tpf3Mp.Server.Verdict
import Mathlib.Data.List.Sort

/-!
A running game's saves (`tpf3mp-server`, `snapshots.rs`): the rounds in which members report them,
which save a room agrees on, and where that save stands in the turn log. Of a stored snapshot only
its name and its size matter to a room.
-/

namespace Tpf3Mp.Server
open Proto Data

def saveDeadline : Duration := Duration.ofSecs 120

def uploadStart : Duration := Duration.ofSecs 30

def uploadRate : Nat := 128 * 1024

def uploadLimit : Duration := Duration.ofSecs (90 * 60)

def failedKept : Nat := 16

structure Snapshots where
  every : Duration
  minGap : Duration
  deriving DecidableEq

structure Manifest where
  id : SnapshotId
  totalSize : UInt64
  deriving DecidableEq

structure SavePoint where
  event : Nat
  afterTurn : Nat
  history : UInt64
  sealedThrough : Nat
  deriving DecidableEq

structure Agreed where
  manifest : Manifest
  point : SavePoint
  deriving DecidableEq

def Agreed.id (a : Agreed) : SnapshotId := a.manifest.id

def Agreed.offer (a : Agreed) : WorldOffer := { snapshot := a.id, size := a.manifest.totalSize }

structure SaveReport where
  report : Report
  world : Option SavedWorld
  deriving DecidableEq

structure SaveRound where
  point : SavePoint
  opened : Instant
  reports : List SaveReport
  deriving DecidableEq

abbrev Candidates := List (PlayerId × SavedWorld)
abbrev Divergence := PlayerId × List UInt16

structure Upload where
  point : SavePoint
  sender : PlayerId
  world : SavedWorld
  rest : Candidates
  asked : Instant
  receiving : Bool
  deriving DecidableEq

structure Saves where
  rounds : SortedMap Nat SaveRound := []
  upload : Option Upload := none
  current : Option Agreed := none
  previous : Option Agreed := none
  lastSave : Option Instant := none
  lastPoint : Option SavePoint := none
  wanted : Bool := false
  failed : List PlayerId := []
  deriving DecidableEq

namespace Saves

def due (s : Saves) (now : Instant) (every minGap : Duration) (started : Instant) (log : Nat × Nat) : Bool :=
  if !s.rounds.isEmpty || s.upload.isSome then false
  else
    let (sealedThrough, nextEvent) := log
    let changed := s.current.isNone || s.lastPoint.all fun point =>
      sealedThrough > point.sealedThrough || nextEvent > point.event + 1
    if !changed then false
    else
      let periodic := now - s.lastSave.getD started ≥ every
      let needed := s.wanted && s.lastSave.all fun last => now - last ≥ minGap
      periodic || needed

def failedUploader (s : Saves) (player : PlayerId) : Saves :=
  let failed := s.failed.filter (· ≠ player)
  let failed := if failed.length = failedKept then failed.tail else failed
  { s with failed := failed ++ [player] }

def find (s : Saves) (snapshot : SnapshotId) : Option Agreed :=
  (s.current.toList ++ s.previous.toList).find? fun agreed => agreed.id = snapshot

end Saves

def uploadDeadline (size : UInt64) : Duration :=
  min (uploadStart + Duration.ofSecs (size.toNat / uploadRate)) uploadLimit

/-- Decides a save round: which saves may be uploaded, best first, and who diverged. -/
def decideSaves (reports : List SaveReport) : Candidates × List Divergence :=
  let judged := reports.map SaveReport.report
  let diverged := if judged.length ≥ 2 then (Verdict.decide judged).2 else []
  let agreeing := reports.filter fun save => !diverged.any fun (player, _) => player = save.report.player
  let ranked := agreeing.insertionSort fun a b => a.report.order ≤ b.report.order
  (ranked.filterMap fun save => save.world.map fun world => (save.report.player, world), diverged)

/-- The candidates with those last whose uploads failed. -/
def failedLast (failed : List PlayerId) (candidates : Candidates) : Candidates :=
  candidates.filter (fun candidate => !failed.contains candidate.1) ++
    candidates.filter fun candidate => failed.contains candidate.1

end Tpf3Mp.Server
