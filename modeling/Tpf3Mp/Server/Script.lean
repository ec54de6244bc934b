import Tpf3Mp.Server.Standing

/-!
What a room's whole log says, whether it begins with the game or with the base of a compaction, and
that replaying it, or any beginning of it, comes to where its turns lead.
-/

namespace Tpf3Mp.Server
open Codec Proto Data List

/-- Where every game begins: nobody sits at the table yet. -/
def RulesChoice.opening {σ : Type} (choice : RulesChoice σ) (owner : PlayerId) : Standing σ where
  origin := ⟨1, 1, 0⟩
  speed := .normal
  state := choice.fresh
  seated := []
  owner

def StartRecord.content (start : StartRecord) : Option ContentFingerprint :=
  match start.base with
  | some base => base.content
  | none => (start.members.head?.map StartMember.content).join

/-- Histories that branched off one after another, the first of them at the game's start. -/
structure Ordered (histories : List History) (last : Nat) : Prop where
  first : ∃ history ∈ histories.head?, history.afterTurn = 0
  sorted : histories.Pairwise fun earlier later => earlier.afterTurn ≤ later.afterTurn
  bounded : ∀ history ∈ histories, history.afterTurn ≤ last

section Scripts
variable {σ : Type} (choice : RulesChoice σ) (opened : Standing σ) (barred : List PlayerId)

/-- A base sums up turns: those that are gone from the log, and those it keeps for members who
resume. `barred` are the players barred before the first of them. -/
structure Base.Sums (base : Base) (owner : PlayerId) (gone kept : List Turn) (past : List History) : Prop where
  chain : Chain opened.origin (gone ++ kept)
  first : opened.origin.after gone = ⟨base.firstTurn, base.firstEvent, base.sealedBefore⟩
  stands : opened.origin.after (gone ++ kept) = ⟨base.afterTurn + 1, base.nextEvent, base.sealedThrough⟩
  speed : base.speed = (opened.after choice.ruleset (gone ++ kept)).speed
  rules : choice.ruleset.restore choice.fresh base.rules = .ok (opened.after choice.ruleset (gone ++ kept)).state
  seated : base.seated = (opened.after choice.ruleset (gone ++ kept)).seated
  owner : owner = (opened.after choice.ruleset (gone ++ kept)).owner
  histories : base.histories = past.map fun history => (history.id, history.afterTurn)
  ordered : Ordered past base.afterTurn
  banned : base.banned = ((gone ++ kept).flatMap Turn.events).foldl bars barred

/-- A log's records after its start, the turns they stand for, and the histories they name. -/
inductive Script (start : StartRecord) : List Bytes → List Turn → List History → Prop where
  | plain {records : List Bytes} {turns : List Turn} {marks : List History} (unbased : start.base = none)
      (opens : opened = choice.opening start.owner) (scroll : Scroll opened.origin records turns marks) :
      Script start records turns ({ id := start.history, afterTurn := 0 } :: marks)
  | based {base : Base} {gone kept more : List Turn} {window records : List Bytes} {past marks : List History}
      (found : start.base = some base) (sums : base.Sums choice opened barred start.owner gone kept past)
      (encodes : Forall₂ Encodes kept window)
      (scroll : Scroll (opened.origin.after (gone ++ kept)) records more marks) :
      Script start (window ++ records) (gone ++ kept ++ more) (past ++ marks)

end Scripts

theorem lastSpeed_again (speed : Speed) (gone kept : List Turn) :
    lastSpeed (lastSpeed speed (gone ++ kept)) kept = lastSpeed speed (gone ++ kept) := by
  cases kept with
  | nil => rfl
  | cons turn kept =>
    unfold lastSpeed
    rw [foldl_append, foldl_cons, foldl_cons]

variable {banned : List PlayerId}

theorem foldr_insert (distinct : banned.Nodup) : banned.foldr List.insert [] = banned := by
  induction banned with
  | nil => rfl
  | cons player banned ih =>
    obtain ⟨absent, rest⟩ := nodup_cons.mp distinct
    rw [foldr_cons, ih rest, insert_of_not_mem absent]

theorem bars_distinct (event : Event) (distinct : banned.Nodup) : (bars banned event).Nodup := by
  unfold bars
  split
  · split
    · exact distinct.insert
    · exact distinct
  · exact distinct

theorem foldl_bars_distinct (events : List Event) (distinct : banned.Nodup) : (events.foldl bars banned).Nodup :=
  Run.foldl_preserves (fun _ event => bars_distinct event) distinct events

/-- What a replay came to: where the turns lead, with nothing pending. -/
structure Replay.Reached {σ : Type} (choice : RulesChoice σ) (opened : Standing σ) (barred : List PlayerId)
    (turns : List Turn) (histories : List History) (replay : Replay σ) : Prop where
  tracks : replay.game.Tracks opened.origin turns
  idle : replay.game.pending = []
  standing : replay.standing = opened.after choice.ruleset turns
  histories : replay.game.histories = histories
  banned : replay.banned = (turns.flatMap Turn.events).foldl bars barred

section Reading
variable {σ : Type} {choice : RulesChoice σ} {opened : Standing σ} {barred : List PlayerId} {start : StartRecord}
  {records left : List Bytes} {turns : List Turn} {histories : List History} {now : Instant} {replay : Replay σ}

theorem StartRecord.replayed_eq (records : List Bytes) :
    start.replayed choice now records = (start.replay choice now >>= fun begun =>
      begun.onward choice.ruleset start.base records) := rfl

variable {begun : Replay σ} {base : Base} {past : List History}

/-- Where a replay of a compacted log begins, as its base puts it there. -/
structure Replay.Begins (choice : RulesChoice σ) (opened : Standing σ) (base : Base) (gone kept : List Turn)
    (past : List History) (begun : Replay σ) : Prop where
  waits : begun.Waits opened.origin gone
  standing : { begun.standing with origin := opened.origin.after (gone ++ kept) } =
    opened.after choice.ruleset (gone ++ kept)
  banned : begun.banned = base.banned.foldr List.insert []
  histories : begun.game.histories = past

theorem Base.Sums.begins {gone kept : List Turn}
    (sums : base.Sums choice opened barred start.owner gone kept past) (found : start.base = some base)
    (begins : start.replay choice now = .ok begun) : begun.Begins choice opened base gone kept past := by
  obtain ⟨game, state, rebased, restored, _, rfl⟩ := StartRecord.replay_based found begins
  cases sums.rules.symm.trans restored
  unfold Game.rebase at rebased
  split at rebased
  · cases rebased
    have first := sums.first
    refine ⟨⟨⟨⟨(chain_append.mp sums.chain).1, ?_, rfl, ?_, by simp [Game.new], ?_⟩, ?_⟩, rfl, rfl⟩, ?_, rfl, ?_⟩
    · rw [first]
    · rw [first]
      rfl
    · exact ⟨gone, [], [], (append_nil _).symm, .nil, rfl, by rw [first], by rw [first]⟩
    · rw [first]
    · rw [← @Standing.after_origin _ choice.ruleset]
      simp only [Replay.standing, sums.speed, sums.seated, sums.owner]
    · show base.histories.map _ = past
      rw [sums.histories, map_map]
      exact map_id _
  · cases rebased

theorem Replay.Begins.met {gone kept : List Turn} {middle : Replay σ}
    (begins : begun.Begins choice opened base gone kept past)
    (met : begun.Met opened.origin (gone ++ kept) (lastSpeed begun.game.speed kept) middle) :
    middle.standing = opened.after choice.ruleset (gone ++ kept) := by
  have speed : begun.game.speed = (opened.after choice.ruleset (gone ++ kept)).speed :=
    congrArg Standing.speed begins.standing
  rw [met.standing, ← begins.standing]
  refine congrArg (fun speed => ({ begun.standing with origin := _, speed } : Standing σ)) ?_
  show lastSpeed begun.game.speed kept = begun.game.speed
  rw [speed, Standing.after_speed]
  exact lastSpeed_again opened.speed gone kept

theorem Replay.Goes.reached {r : Replay σ} {before more : List Turn} {marks : List History}
    (goes : Goes choice.ruleset opened.origin before more marks r replay)
    (standing : r.standing = opened.after choice.ruleset before) (histories : r.game.histories = past)
    (banned : r.banned = (before.flatMap Turn.events).foldl bars barred) :
    replay.Reached choice opened barred (before ++ more) (past ++ marks) := by
  refine ⟨goes.tracks, goes.idle, ?_, ?_, ?_⟩
  · rw [goes.standing, standing, Standing.after_append]
  · rw [goes.histories, histories]
  · rw [goes.banned, banned, flatMap_append, foldl_append]

/-- Replaying the beginning of a log comes to where the turns in it lead. Who was barred before the
game is only known to a log with a base. -/
theorem Script.replayed (script : Script choice opened barred start records turns histories) (distinct : barred.Nodup)
    (short : left <+: records) (read : start.replayed choice now left = .ok replay) (based : replay.based = true) :
    ∃ turns' histories' known, turns' <+: turns ∧ histories' <+: histories ∧ (known = [] ∨ known = barred) ∧
      Script choice opened known start left turns' histories' ∧
      replay.Reached choice opened known turns' histories' := by
  rw [StartRecord.replayed_eq] at read
  obtain ⟨begun, begins, read⟩ := Run.bind_ok.mp read
  cases script with
  | plain unbased opens scroll =>
    obtain ⟨turns', marks', fewer, earlier, scroll⟩ := scroll.cut short
    have first := StartRecord.replay_plain unbased begins
    subst first opens
    have goes : Replay.Goes choice.ruleset (choice.opening start.owner).origin [] turns' marks' _ replay :=
      Scroll.read scroll (Game.new_tracks start.settings start.history now) rfl rfl read
    exact ⟨turns', _, [], fewer, cons_prefix_cons.mpr ⟨rfl, earlier⟩, .inl rfl, .plain unbased rfl scroll,
      goes.reached rfl rfl rfl⟩
  | @based base gone kept more window records past marks found sums encodes scroll =>
    have begins := sums.begins found begins
    rw [found] at read
    obtain ⟨rest, middle, rfl, met, read⟩ :=
      begins.waits.read encodes (chain_append.mp sums.chain).2 sums.stands short read based
    obtain ⟨more', marks', fewer, earlier, scroll⟩ := scroll.cut ((prefix_append_right_inj _).mp short)
    have goes := scroll.read met.tracks met.idle met.based read
    have banned : middle.banned = ((gone ++ kept).flatMap Turn.events).foldl bars barred := by
      rw [met.banned, begins.banned, sums.banned, foldr_insert (foldl_bars_distinct _ distinct)]
    refine ⟨gone ++ kept ++ more', past ++ marks', barred, (prefix_append_right_inj _).mpr fewer,
      (prefix_append_right_inj _).mpr earlier, .inr rfl, .based found sums encodes scroll, ?_⟩
    exact goes.reached (begins.met met) (met.histories.trans begins.histories) banned

end Reading

section Writing
variable {σ : Type} {choice : RulesChoice σ} {opened : Standing σ} {barred : List PlayerId} {start : StartRecord}
  {records others : List Bytes} {turns more : List Turn} {histories marks : List History}

theorem Script.write (script : Script choice opened barred start records turns histories)
    (rest : Scroll (opened.origin.after turns) others more marks) :
    Script choice opened barred start (records ++ others) (turns ++ more) (histories ++ marks) := by
  cases script with
  | plain unbased opens scroll => exact .plain unbased opens (scroll.append rest)
  | based found sums encodes scroll =>
    rw [opened.origin.after_append] at rest
    have whole := Script.based found sums encodes (scroll.append rest)
    simp only [← append_assoc] at whole
    exact whole

theorem Ordered.append {o : Origin} (ordered : Ordered histories (o.turn - 1)) (scroll : Scroll o records turns marks) :
    Ordered (histories ++ marks) ((o.after turns).turn - 1) := by
  obtain ⟨between, sorted⟩ := scroll.marks_between
  obtain ⟨history, found, zero⟩ := ordered.first
  refine ⟨⟨history, ?_, zero⟩, ?_, ?_⟩
  · rw [head?_append, Option.mem_def.mp found]
    rfl
  · exact pairwise_append.mpr ⟨ordered.sorted, sorted, fun earlier before later after =>
      le_trans (ordered.bounded earlier before) (between later after).1⟩
  intro history member
  rcases mem_append.mp member with before | after
  · have bounded := ordered.bounded history before
    simp only [Origin.after]
    omega
  · exact (between history after).2

theorem Script.ordered (script : Script choice opened barred start records turns histories) :
    Ordered histories ((opened.origin.after turns).turn - 1) := by
  cases script with
  | plain unbased opens scroll =>
    have begun : Ordered [{ id := start.history, afterTurn := 0 }] (opened.origin.turn - 1) :=
      ⟨⟨_, rfl, rfl⟩, pairwise_singleton _ _, by simp⟩
    exact begun.append scroll
  | @based base gone kept more window records past marks found sums encodes scroll =>
    have ordered := sums.ordered
    rw [opened.origin.after_append]
    refine Ordered.append ?_ scroll
    rw [sums.stands]
    exact ordered

theorem Game.Tracks.sums {g : Game} {rules : Bytes} {state : σ} {owner : PlayerId}
    (tracks : g.Tracks opened.origin turns)
    (idle : g.pending = []) (counted : 0 < g.nextTurn) (ordered : Ordered g.histories (g.nextTurn - 1))
    (restored : choice.ruleset.restore choice.fresh rules = .ok state) (stands : opened.after choice.ruleset turns =
      { origin := opened.origin.after turns, speed := g.speed, state, seated := g.seated, owner })
    (content : Option ContentFingerprint) (barred : List PlayerId) :
    ∃ gone kept, turns = gone ++ kept ∧ Forall₂ Encodes kept (g.log.map LoggedTurn.frame) ∧
      (g.base rules content ((turns.flatMap Turn.events).foldl bars barred)).Sums choice opened barred owner gone kept
        g.histories := by
  have origin := tracks.origin idle
  obtain ⟨⟨chain, nextTurn, _, nextEvent, _, gone, kept, frames, rfl, encodes, log, first, sealedBefore⟩, frontier⟩ :=
    tracks
  have same := Game.logged_frames (o := opened.origin.after gone) encodes.length_eq
  refine ⟨gone, kept, rfl, by rw [log, same]; exact encodes, chain, ?_, ?_, ?_, ?_, ?_, ?_, rfl, ordered, rfl⟩
  · have event : (g.log.head?.map LoggedTurn.firstEvent).getD g.nextEvent = (opened.origin.after gone).event := by
      rw [log]
      cases encodes with
      | nil =>
        rw [append_nil] at origin
        exact congrArg Origin.event origin
      | cons => rfl
    unfold Game.base
    rw [event, first, sealedBefore]
  · rw [← origin]
    unfold Game.base Game.origin
    rw [Nat.sub_add_cancel counted]
  · rw [stands]
    rfl
  · rw [stands]
    exact restored
  · rw [stands]
    rfl
  · rw [stands]

end Writing

theorem readRecords_cut {disk : Disk} {start first : Bytes} {records found : List Bytes} {reader : LogReader}
    (part : Part .log disk (start :: records)) (read : readRecords .log disk = .ok (first :: found, reader)) :
    first = start ∧ found <+: records ∧ ∃ disk' log, reader.intoLog disk = (disk', .ok log) ∧ log.name = .log ∧
      log.replaces = false ∧ Stored log disk' (start :: found) := by
  obtain ⟨⟨count, held⟩, limited, small⟩ := part
  have held : disk.log = some ((Journal.encode crc32 (start :: records)).take count) := held
  have short : start.length ≤ maxStartRecord := limited.1
  by_cases begun : (Journal.record crc32 start).length ≤ count
  · let whole : Disk := { disk with log := some (Journal.encode crc32 (start :: records)) }
    let log : RoomLog :=
      { name := .log, written := (Journal.encode crc32 (start :: records)).length, replaces := false }
    have stored : Stored log whole (start :: records) := ⟨rfl, rfl, limited, small⟩
    obtain ⟨disk', reopened, kept⟩ := stored.cut begun
    have torn : whole.put ((whole.file log.name).map (·.take count)) log.name = disk := by
      show ({ disk with log := some _ } : Disk) = disk
      rw [← held]
    rw [torn] at reopened
    unfold reopen at reopened
    rw [read] at reopened
    dsimp only at reopened
    split at reopened
    · next disk'' log' into =>
      cases reopened
      exact ⟨rfl, Journal.whole_prefix _ _, _, _, into, rfl, rfl, kept⟩
    · cases reopened
  · have cut : (Journal.encode crc32 (start :: records)).take count = (Journal.record crc32 start).take count := by
      rw [Journal.encode_cons, take_append_of_le_length (by omega)]
    rw [cut] at held
    obtain ⟨opened, opens, _⟩ := Run.bind_ok.mp read
    obtain ⟨onward, next⟩ := readRecords_first opens read
    unfold RoomLog.read at opens
    rw [show disk.file .log = disk.log from rfl, held] at opens
    dsimp only at opens
    split at opens
    · cases opens
    · cases opens
      exact absurd next (LogReader.nextRecord_unbegun ⟨rfl, rfl, rfl⟩ (by omega) short _ _)

theorem readStart_ok {σ : Type} {menu : RulesMenu σ} {choice : RulesChoice σ} {file : RoomId}
    {start found : StartRecord} (read : readStart menu file (Wire.startRecord.encode start) = .ok (found, choice)) :
    found = start ∧ menu.find (some start.rules) = some choice ∧ start.id = file := by
  obtain ⟨decoded, decodes, checked⟩ := Run.bind_ok.mp read
  have same : decoded = start := by
    by_cases fits : Wire.startRecord.Fits start
    · have whole := Wire.startRecord.decode_encode fits []
      rw [append_nil] at whole
      rw [whole] at decodes
      cases decodes
      rfl
    · have refused := Wire.startRecord.decode_overflow fits []
      rw [append_nil] at refused
      rw [refused] at decodes
      cases decodes
  subst same
  split at checked
  · cases checked
  split at checked
  · cases checked
  split at checked
  · cases checked
  rename_i chosen
  split at checked
  · cases checked
  · next named =>
    cases checked
    exact ⟨rfl, chosen, Decidable.not_not.mp named⟩

end Tpf3Mp.Server
