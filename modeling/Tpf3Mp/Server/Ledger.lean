import Tpf3Mp.Server.RoomRun
import Tpf3Mp.Server.Script
import Mathlib.Data.List.InsertIdx

/-!
What a running room knows of its game, and what is on its disk: its books stand where the game's
turns and the events after them lead, and its log, a rewrite of it, and whatever a log that stopped
left behind say nothing else.
-/

namespace Tpf3Mp.Server
open Codec Proto Data Relation Journal List

theorem lastSpeed_all {speed before : Speed} {turns : List Turn} (more : turns ≠ [])
    (all : ∀ turn ∈ turns, turn.speed = speed) : lastSpeed before turns = speed := by
  induction turns generalizing before with
  | nil => exact absurd rfl more
  | cons turn turns ih =>
    by_cases last : turns = []
    · rw [last]
      exact all turn mem_cons_self
    · exact ih last fun other member => all other (mem_cons_of_mem _ member)

def Game.stands {σ : Type} (g : Game) (origin : Origin) (state : σ) (owner : PlayerId) : Standing σ :=
  { origin, speed := g.announcedSpeed, state, seated := g.seated, owner }

variable {body : EventBody}

section Orders
variable {σ : Type}

/-- The game's turns and the events after them lead to where the books say it stands. -/
structure Orders (choice : RulesChoice σ) (opened : Standing σ) (seats : Nat) (game : Game) (state : σ)
    (owner : PlayerId) (turns : List Turn) : Prop where
  tracks : game.Tracks opened.origin turns
  stands : game.pending.foldl (Standing.play choice.ruleset) (opened.after choice.ruleset turns) =
    game.stands (opened.origin.after turns) state owner
  lawful : opened.Lawful choice.ruleset seats (turns.flatMap Turn.events ++ game.pending)
  ordered : Ordered game.histories (game.nextTurn - 1)

variable {choice : RulesChoice σ} {opened : Standing σ} {seats : Nat} {game game' : Game} {state : σ} {owner : PlayerId}
  {turns : List Turn}

theorem Orders.soft (orders : Orders choice opened seats game state owner turns) (soft : game.Soft game') :
    Orders choice opened seats game' state owner turns := by
  obtain ⟨_, _, _, _, _, _, rfl⟩ := soft
  obtain ⟨⟨⟨chain, nextTurn, numbered, nextEvent, steps, window⟩, frontier⟩, stands, lawful, ordered⟩ := orders
  exact ⟨⟨⟨chain, nextTurn, numbered, nextEvent, steps, window⟩, frontier⟩, stands, lawful, ordered⟩

theorem Orders.played (orders : Orders choice opened seats game state owner turns) :
    (turns.flatMap Turn.events ++ game.pending).foldl (Standing.play choice.ruleset) opened =
      { game.stands (opened.origin.after turns) state owner with origin := opened.origin, speed := opened.speed } := by
  have stands := orders.stands
  rw [Standing.after_eq, Standing.foldl_play_at] at stands
  rw [foldl_append, ← stands]
  have same := @Standing.foldl_play_at _ choice.ruleset opened opened.origin opened.speed
    (turns.flatMap Turn.events ++ game.pending)
  rw [foldl_append] at same
  exact same

theorem Orders.append {ρ : Type} {rules : RulesChoice ρ} {view : ρ → σ} {inner : ρ}
    (views : rules.Views view choice) (orders : Orders choice opened seats game (view inner) owner turns)
    (permits : ∀ event : Event, event.body = body →
      (game.stands opened.origin (view inner) owner).Permits choice.ruleset seats event) :
    Orders choice opened seats (game.append body rules.ruleset inner).1 (view (game.append body rules.ruleset inner).2)
      ((game.stands opened.origin (view inner) owner).play choice.ruleset
        { seq := game.nextEvent, step := (game.sealedThrough + 1) % 2 ^ 64, body }).owner turns := by
  refine ⟨Game.append_tracks orders.tracks body rules.ruleset inner, ?_, ?_, orders.ordered⟩
  · show (game.pending ++ [_]).foldl _ _ = Game.stands _ _ (view (rules.ruleset.apply inner _)) _
    rw [foldl_append, orders.stands, views.apply]
    rfl
  show opened.Lawful choice.ruleset seats (_ ++ (game.pending ++ [_]))
  rw [← append_assoc, Standing.lawful_append, orders.played]
  refine ⟨orders.lawful, ?_, trivial⟩
  exact permits _ rfl

theorem Orders.tabled (orders : Orders choice opened seats game state owner turns) (tabled : opened.Tabled seats) :
    (game.stands (opened.origin.after turns) state owner).Tabled seats := by
  have after := tabled.foldl orders.lawful
  rw [orders.played] at after
  exact ⟨after.distinct, after.few, after.owner⟩

theorem Orders.sealed {frontier : Nat} {frames : List Bytes}
    (orders : Orders choice opened seats game state owner turns)
    (sealed : game.sealPending frontier = (game', .ok frames)) (forward : game.sealedThrough ≤ frontier) :
    ∃ fresh, Forall₂ Encodes fresh frames ∧ game'.pending = [] ∧ game'.histories = game.histories ∧
      game'.speed = game'.announcedSpeed ∧ game'.seated = game.seated ∧
      turns.flatMap Turn.events ++ game.pending = (turns ++ fresh).flatMap Turn.events ∧
      Orders choice opened seats game' state owner (turns ++ fresh) := by
  obtain ⟨fresh, encodes, events, more, speeds, rfl, tracks⟩ := Game.sealPending_ok sealed orders.tracks forward
  obtain ⟨window, bytes, first, sealedBefore, folded⟩ :=
    Game.foldl_keep game (logged (opened.origin.after turns) fresh frames)
  have all : turns.flatMap Turn.events ++ game.pending = (turns ++ fresh).flatMap Turn.events := by
    rw [flatMap_append, events]
  rw [folded] at tracks ⊢
  refine ⟨fresh, encodes, rfl, rfl, rfl, rfl, all, tracks, ?_, ?_, ?_⟩
  · have speed : lastSpeed (opened.after choice.ruleset turns).speed fresh = game.speed := lastSpeed_all more speeds
    rw [Standing.after_append, Standing.after_eq fresh, events, orders.stands, Standing.after_origin,
      ← opened.origin.after_append, speed]
    rfl
  · rw [append_nil, ← all]
    exact orders.lawful
  · obtain ⟨found, sorted, bounded⟩ := orders.ordered
    refine ⟨found, sorted, fun history member => le_trans (bounded history member) ?_⟩
    dsimp only
    omega

end Orders

/-- What a log's start repeats of its room. -/
structure Card where
  id : RoomId
  rules : RulesName
  maxPlayers : UInt8
  settings : RoomSettings
  content : Option ContentFingerprint

def StartRecord.card (start : StartRecord) : Card :=
  ⟨start.id, start.rules, start.maxPlayers, start.settings, start.content⟩

def Room.card {σ : Type} (r : Room σ) : Card := ⟨r.id, r.rules, r.maxPlayers, r.settings, r.content⟩

variable {writes : Nat → Write}

section Books
variable {σ : Type} (choice : RulesChoice σ) (opened : Standing σ) (barred : List PlayerId) (card : Card)

structure Logs (start : StartRecord) (records : List Bytes) (turns : List Turn) (histories : List History) : Prop where
  script : Script choice opened barred start records turns histories
  version : start.version = formatVersion
  same : start.card = card

/-- What is on the disk holds the first of the game's turns, however a log stopped. -/
def Trails (disk : Disk) (turns : List Turn) : Prop :=
  disk.log.getD [] = [] ∨ ∃ start records turns' histories, Part .log disk (Wire.startRecord.encode start :: records) ∧
    turns' <+: turns ∧ Logs choice opened barred card start records turns' histories

/-- The room's log, if it is being written, and a rewrite of it hold all the game's turns. -/
structure Books (log : Option RoomLog) (compaction : Option Compaction) (disk : Disk) (histories : List History)
    (turns : List Turn) : Prop where
  log : ∀ written, log = some written → written.name = .log ∧ written.replaces = false ∧ ∃ start records,
    Stored written disk (Wire.startRecord.encode start :: records) ∧
      Logs choice opened barred card start records turns histories
  rewrite : ∀ rewrite, compaction = some rewrite →
    Logs choice opened barred card rewrite.start (rewrite.frames ++ rewrite.tail) turns histories
  trails : Trails choice opened barred card disk turns

variable {choice opened barred card} {log : Option RoomLog} {compaction : Option Compaction} {disk disk' : Disk}
  {histories : List History} {turns fresh : List Turn} {start : StartRecord} {records frames : List Bytes}

theorem Logs.write {marks : List History} (logs : Logs choice opened barred card start records turns histories)
    (scroll : Scroll (opened.origin.after turns) frames fresh marks) :
    Logs choice opened barred card start (records ++ frames) (turns ++ fresh) (histories ++ marks) :=
  ⟨logs.script.write scroll, logs.version, logs.same⟩

theorem Logs.append (logs : Logs choice opened barred card start records turns histories)
    (chain : Chain (opened.origin.after turns) fresh) (encodes : Forall₂ Encodes fresh frames) :
    Logs choice opened barred card start (records ++ frames) (turns ++ fresh) histories := by
  have written := logs.write (Scroll.of_chain chain encodes)
  rw [append_nil] at written
  exact written

theorem rewrites_append (books : Books choice opened barred card log compaction disk histories turns)
    (chain : Chain (opened.origin.after turns) fresh) (encodes : Forall₂ Encodes fresh frames) :
    ∀ rewrite, compaction.map (fun compaction => { compaction with tail := compaction.tail ++ frames }) = some rewrite →
      Logs choice opened barred card rewrite.start (rewrite.frames ++ rewrite.tail) (turns ++ fresh) histories := by
  intro rewrite more
  obtain ⟨before, was, rfl⟩ := Option.map_eq_some_iff.mp more
  have written := (books.rewrite before was).append chain encodes
  rw [append_assoc] at written
  exact written

theorem Books.unlogged (books : Books choice opened barred card none compaction disk histories turns)
    (chain : Chain (opened.origin.after turns) fresh) (encodes : Forall₂ Encodes fresh frames) :
    Books choice opened barred card none
      (compaction.map fun compaction => { compaction with tail := compaction.tail ++ frames }) disk histories
      (turns ++ fresh) := by
  refine ⟨nofun, rewrites_append books chain encodes, ?_⟩
  exact books.trails.imp_right fun ⟨start, records, turns', histories', part, fewer, logs⟩ =>
    ⟨start, records, turns', histories', part, fewer.trans (prefix_append _ _), logs⟩

theorem Stored.trails {written : RoomLog} (stored : Stored written disk (Wire.startRecord.encode start :: records))
    (named : written.name = .log) (logs : Logs choice opened barred card start records turns histories) :
    Trails choice opened barred card disk turns :=
  .inr ⟨start, records, turns, histories, named ▸ stored.part, prefix_refl _, logs⟩

theorem Books.logged {written : RoomLog} {result : Except IoError RoomLog}
    (books : Books choice opened barred card (some written) compaction disk histories turns)
    (chain : Chain (opened.origin.after turns) fresh) (encodes : Forall₂ Encodes fresh frames)
    (appended : written.appendAll frames writes disk = (disk', result)) :
    Books choice opened barred card result.toOption
      (compaction.map fun compaction => { compaction with tail := compaction.tail ++ frames }) disk' histories
      (turns ++ fresh) := by
  obtain ⟨named, kind, start, records, stored, logs⟩ := books.log written rfl
  have rewrites := rewrites_append books chain encodes
  cases result with
  | ok written' =>
    obtain ⟨stored', named', kind'⟩ := RoomLog.appendAll_stored stored appended
    have logs' := logs.append chain encodes
    refine ⟨?_, rewrites, stored'.trails (named'.trans named) logs'⟩
    rintro _ ⟨⟩
    exact ⟨named'.trans named, kind'.trans kind, start, records ++ frames, stored', logs'⟩
  | error error =>
    obtain ⟨got, ⟨lost, rfl⟩, part⟩ := RoomLog.appendAll_part stored appended
    have first := forall₂_take_append fresh got lost encodes
    have split : fresh = fresh.take got.length ++ fresh.drop got.length := (take_append_drop _ _).symm
    rw [split] at chain
    have logs' := logs.append (chain_append.mp chain).1 first
    refine ⟨nofun, rewrites, .inr ⟨start, records ++ got, _, histories, ?_, ?_, logs'⟩⟩
    · rw [named] at part
      exact part
    · exact (prefix_append_right_inj _).mpr (List.take_prefix _ _)

theorem Trails.cut {count : Nat} (trails : Trails choice opened barred card disk turns)
    (cut : disk'.log = disk.log.map (·.take count)) : Trails choice opened barred card disk' turns := by
  rcases trails with blank | ⟨start, records, turns', histories', ⟨⟨before, held⟩, limited, small⟩, fewer, logs⟩
  · refine .inl ?_
    rw [cut]
    cases file : disk.log with
    | none => rfl
    | some bytes =>
      rw [file] at blank
      rw [show bytes = [] from blank]
      exact take_nil
  · refine .inr ⟨start, records, turns', histories', ⟨⟨min count before, ?_⟩, limited, small⟩, fewer, logs⟩
    rw [show disk'.file .log = disk'.log from rfl, cut, show disk.log = _ from held, Option.map_some, take_take]

theorem Books.same_log (books : Books choice opened barred card log compaction disk histories turns)
    (same : disk'.log = disk.log) : Books choice opened barred card log none disk' histories turns := by
  refine ⟨fun written found => ?_, nofun, ?_⟩
  · obtain ⟨named, kind, start, records, stored, logs⟩ := books.log written found
    refine ⟨named, kind, start, records, ⟨?_, stored.written, stored.limited, stored.small⟩, logs⟩
    rw [← stored.file, named]
    exact same
  · have whole : disk'.log = disk.log.map (·.take ((disk.log.map List.length).getD 0)) := by
      rw [same]
      cases disk.log with
      | none => rfl
      | some file => exact congrArg some (take_length).symm
    exact books.trails.cut whole

end Books

theorem RoomLog.discard_log {log : RoomLog} (disk : Disk) (named : log.name = .compacting) :
    (log.discard disk).log = disk.log := by
  unfold discard
  split
  · rw [named]
    rfl
  · rfl

variable {disk disk' : Disk} {result : Except IoError RoomLog}

theorem RoomLog.compacted_log {start : StartRecord} {frames : List Bytes} {synced : Bool}
    (done : compacted start frames writes synced disk = (disk', result)) :
    disk'.log = disk.log ∧ ∀ log, result = .ok log → log.name = .compacting ∧ log.replaces = true ∧
      Stored log disk' (Wire.startRecord.encode start :: frames) := by
  unfold compacted at done
  dsimp only at done
  generalize rewriting : ({ name := .compacting, written := 0, replaces := true } : RoomLog) = log at done
  generalize cleared : ({ disk with compacting := some [] } : Disk) = blank at done
  have empty : Stored log blank [] := by
    subst rewriting cleared
    exact ⟨rfl, rfl, trivial, Nat.zero_le _⟩
  have named : log.name = .compacting := by rw [← rewriting]
  have kind : log.replaces = true := by rw [← rewriting]
  have untouched : blank.log = disk.log := by rw [← cleared]
  have other : LogName.log ≠ log.name := by
    rw [named]
    exact nofun
  split at done
  · next middle log' appended =>
    obtain ⟨stored, named', kind'⟩ := appendAll_stored empty appended
    have same : middle.log = blank.log := appendAll_other other appended
    split at done
    · cases done
      refine ⟨same.trans untouched, ?_⟩
      rintro _ ⟨⟩
      exact ⟨named'.trans named, kind'.trans kind, stored⟩
    · cases done
      exact ⟨(discard_log middle (named'.trans named)).trans (same.trans untouched), nofun⟩
  · next middle error appended =>
    have same : middle.log = blank.log := appendAll_other other appended
    cases done
    exact ⟨(discard_log middle named).trans (same.trans untouched), nofun⟩

/-- A rewrite that fails leaves the room's log alone; one that is put in place holds what it wrote. -/
theorem Room.installed_log {rewrite : Compaction} {done : Rewrite} {renamed : Bool}
    (ended : installed rewrite done writes renamed disk = (disk', result)) : match result with
    | .error _ => disk'.log = disk.log
    | .ok log => log.name = .log ∧ log.replaces = false ∧
      Stored log disk' (Wire.startRecord.encode rewrite.start :: (rewrite.frames ++ rewrite.tail)) := by
  unfold installed at ended
  cases done with
  | lost =>
    cases ended
    rfl
  | ran rewrites synced =>
    dsimp only at ended
    split at ended
    · next middle error compacted =>
      cases ended
      exact (RoomLog.compacted_log compacted).1
    rename_i middle log compacted
    obtain ⟨untouched, ready⟩ := RoomLog.compacted_log compacted
    obtain ⟨named, kind, stored⟩ := ready log rfl
    have other : LogName.log ≠ log.name := by
      rw [named]
      exact nofun
    split at ended
    · next middle' error appended =>
      have same : middle'.log = middle.log := RoomLog.appendAll_other other appended
      cases ended
      exact (RoomLog.discard_log middle' named).trans (same.trans untouched)
    · next middle' log' appended =>
      have same : middle'.log = middle.log := RoomLog.appendAll_other other appended
      obtain ⟨stored', named', kind'⟩ := RoomLog.appendAll_stored stored appended
      split at ended
      · next disk'' error renames =>
        unfold RoomLog.install at renames
        rw [kind'.trans kind, if_pos rfl] at renames
        split at renames
        · cases renames
        · cases renames
          cases ended
          exact (RoomLog.discard_log middle' (named'.trans named)).trans (same.trans untouched)
      · next disk'' log'' renames =>
        unfold RoomLog.install at renames
        rw [kind'.trans kind, if_pos rfl] at renames
        split at renames
        · cases renames
          cases ended
          exact ⟨rfl, rfl, stored'.file, stored'.written, stored'.limited, stored'.small⟩
        · cases renames

theorem RoomLog.create_log {start : StartRecord} {write : Write} {synced : Bool}
    (created : create start write synced disk = (disk', result)) :
    ((∃ file, disk.log = some file) ∧ disk' = disk ∧ ∃ error, result = .error error) ∨ disk.log = none ∧
      (disk'.log.getD [] = [] ∨ Part .log disk' [Wire.startRecord.encode start]) ∧
      ∀ log, result = .ok log → log.name = .log ∧ log.replaces = false ∧
      Stored log disk' [Wire.startRecord.encode start] := by
  unfold create at created
  split at created
  · next file exists_ =>
    cases created
    exact .inl ⟨⟨file, exists_⟩, rfl, _, rfl⟩
  rename_i none
  refine .inr ⟨none, ?_⟩
  dsimp only at created
  have empty : Stored emptyLog { disk with log := some [] } [] := emptyLog_stored rfl
  split at created
  · next middle log appended =>
    obtain ⟨stored, named, kind⟩ := append_stored empty appended
    have named : log.name = .log := named
    cases created
    refine ⟨.inr (named ▸ stored.part), fun log' made => ?_⟩
    split at made
    · cases made
      exact ⟨named, kind, stored⟩
    · cases made
  · next middle error appended =>
    cases created
    refine ⟨?_, nofun⟩
    rcases append_part empty appended with part | part
    · obtain ⟨count, held⟩ := part.file
      refine .inl ?_
      rw [show disk'.log = _ from held]
      exact take_nil
    · exact .inr part

namespace Room
variable {σ τ : Type}

/-- A running room: its books are right, and its members are those at the game's table. Its rules'
state is seen through a view of it. -/
structure Plays (seen : RulesChoice τ) (view : σ → τ) (opened : Standing τ) (barred : List PlayerId) (r : Room σ)
    (game : Game) (turns : List Turn) : Prop where
  orders : Orders seen opened r.maxPlayers.toNat game (view r.state) r.owner turns
  banned : r.banned = (turns.flatMap Turn.events ++ game.pending).foldl bars barred
  players : r.members.map Member.player = game.seated.map Prod.fst
  contents : ∀ member ∈ r.members, member.content = r.content
  seated : r.members ≠ []
  books : Books seen opened barred r.card r.log r.compaction r.disk game.histories turns

section Plays
variable {choice : RulesChoice σ} {seen : RulesChoice τ} {view : σ → τ} {opened : Standing τ} {barred : List PlayerId}
  {r r' : Room σ} {game game' : Game} {turns : List Turn} {o : Oracle}

variable {members : List Member} {owner player : PlayerId}

theorem touched_contents {members' : List Member} {content : Option ContentFingerprint}
    (touch : Forall₂ (Touch (.running game)) members members')
    (contents : ∀ member ∈ members, member.content = content) :
    ∀ member ∈ members', member.content = content := by
  induction touch with
  | nil => exact contents
  | @cons member member' members members' first _ ih =>
    intro other seated
    rcases mem_cons.mp seated with rfl | later
    · rcases first.content with lobby | same
      · cases lobby
      · exact same.trans (contents member mem_cons_self)
    · exact ih (fun member among => contents member (mem_cons_of_mem _ among)) other later

section
variable (plays : r.Plays seen view opened barred game turns)
include plays

theorem Plays.touched (touch : Forall₂ (Touch (.running game)) r.members members) :
    ({ r with members } : Room σ).Plays seen view opened barred game turns := by
  have same := map_player_touch touch
  refine ⟨plays.orders, plays.banned, same.trans plays.players, touched_contents touch plays.contents, ?_, plays.books⟩
  intro empty
  have none : members = [] := empty
  rw [none, map_nil] at same
  exact plays.seated (map_eq_nil_iff.mp same.symm)

theorem Plays.calm (running : r.phase = .running game) (calm : Calm r r') :
    ∃ game', r'.phase = .running game' ∧ r'.Plays seen view opened barred game' turns := by
  cases calm with
  | soft passwordGuard unattendedSince calls =>
    obtain ⟨orders, banned, players, contents, seated, books⟩ := plays
    exact ⟨game, running, orders, banned, players, contents, seated, books⟩
  | told aside =>
    obtain ⟨orders, banned, players, contents, seated, books⟩ := plays
    exact ⟨game, running, orders, banned, players, contents, seated, books⟩
  | touched touch =>
    rw [running] at touch
    exact ⟨game, running, plays.touched touch⟩
  | @opened game'' index member member' link start backlog _ _ seat player content _ =>
    have set : ∀ other ∈ r.members.set index member', other.content = r.content := by
      intro other among
      rcases mem_or_eq_of_mem_set among with old | rfl
      · exact plays.contents other old
      · exact content.trans (plays.contents member (mem_of_getElem? seat))
    obtain ⟨orders, banned, players, contents, seated, books⟩ := plays
    refine ⟨game, running, orders, banned, (map_player_set seat player).trans players, set, ?_, books⟩
    intro empty
    exact seated (by simpa [setMember, emit] using empty)
  | played running' soft =>
    cases running.symm.trans running'
    obtain ⟨orders, banned, players, contents, seated, books⟩ := plays
    refine ⟨_, rfl, orders.soft soft, ?_, ?_, contents, seated, ?_⟩
    all_goals
      obtain ⟨_, _, _, _, _, _, rfl⟩ := soft
      assumption

theorem Plays.append {banned : List PlayerId}
    (ruleset : r.ruleset = choice.ruleset) (views : choice.Views view seen)
    (permits : ∀ event : Event, event.body = body →
      (game.stands opened.origin (view r.state) r.owner).Permits seen.ruleset r.maxPlayers.toNat event)
    (owns : ∀ event : Event, event.body = body →
      owner = ((game.stands opened.origin (view r.state) r.owner).play seen.ruleset event).owner)
    (bans : ∀ event : Event, event.body = body → banned = bars r.banned event)
    (players : ∀ event : Event, event.body = body → members.map Member.player = (seat game.seated event).map Prod.fst)
    (contents : ∀ member ∈ members, member.content = r.content) (seated : members ≠ []) :
    ({ r.append game body with members, owner, banned } : Room σ).Plays seen view opened barred
      (game.append body r.ruleset r.state).1 turns := by
  let event : Event := { seq := game.nextEvent, step := (game.sealedThrough + 1) % 2 ^ 64, body }
  have orders := plays.orders.append views permits
  refine ⟨?_, ?_, players event rfl, contents, seated, plays.books⟩
  · rw [← owns event rfl, ← ruleset] at orders
    exact orders
  · show banned = (_ ++ (game.pending ++ [event])).foldl bars barred
    rw [bans event rfl, plays.banned, ← append_assoc, foldl_concat]

end

def leavesTable : EventBody → Bool
  | .command .. | .save => true
  | .playerJoined .. | .playerLeft .. => false

theorem Plays.ordered (plays : r.Plays seen view opened barred game turns)
    (ruleset : r.ruleset = choice.ruleset) (views : choice.Views view seen) (plain : leavesTable body = true)
    (permits : ∀ event : Event, event.body = body →
      (game.stands opened.origin (view r.state) r.owner).Permits seen.ruleset r.maxPlayers.toNat event) :
    (r.append game body).Plays seen view opened barred (game.append body r.ruleset r.state).1 turns := by
  have same (event : Event) (is : event.body = body) : seat game.seated event = game.seated ∧
      bars r.banned event = r.banned ∧
        ((game.stands opened.origin (view r.state) r.owner).play seen.ruleset event).owner = r.owner := by
    unfold seat bars Standing.play
    rw [is]
    cases body with
    | command | save => exact ⟨rfl, rfl, rfl⟩
    | playerJoined | playerLeft => cases plain
  exact plays.append ruleset views permits (fun event is => (same event is).2.2.symm)
    (fun event is => (same event is).2.1.symm)
    (fun event is => by rw [(same event is).1]; exact plays.players) plays.contents plays.seated

theorem seat_joined {seated : List Seat} {event : Event} {name : Text 32} {platform : Platform}
    (body : event.body = .playerJoined player name platform) (fresh : ∀ seat ∈ seated, seat.1 ≠ player) :
    seat seated event = seated ++ [(player, name, platform)] := by
  unfold seat
  rw [body]
  dsimp only
  rw [filter_eq_self.mpr fun seat member => decide_eq_true (fresh seat member)]

theorem Plays.entered {new : NewMember} {member : Member} (plays : r.Plays seen view opened barred game turns)
    (ruleset : r.ruleset = choice.ruleset) (views : choice.Views view seen)
    (fresh : ∀ other ∈ r.members, other.player ≠ new.player)
    (space : r.members.length < r.maxPlayers.toNat) (player : member.player = new.player)
    (content : member.content = r.content) :
    ({ r.append game (.playerJoined new.player new.name new.platform) with
      members := r.members ++ [member] } : Room σ).Plays seen view opened barred
        (game.append (.playerJoined new.player new.name new.platform) r.ruleset r.state).1 turns := by
  have size : game.seated.length = r.members.length := by
    rw [← length_map Prod.fst, ← plays.players, length_map]
  have absent : ∀ seat ∈ game.seated, seat.1 ≠ new.player := by
    intro seat among same
    have there : new.player ∈ r.members.map Member.player := by
      rw [plays.players, ← same]
      exact mem_map_of_mem among
    obtain ⟨other, member, same⟩ := mem_map.mp there
    exact fresh other member same
  refine plays.append ruleset views ?_ ?_ ?_ ?_ ?_ (by simp)
  · intro event body
    unfold Standing.Permits
    rw [body]
    refine ⟨absent, size ▸ space, fun empty => ?_⟩
    rw [show game.seated = [] from empty] at size
    exact absurd (eq_nil_of_length_eq_zero size.symm) plays.seated
  · intro event body
    unfold Standing.play
    rw [body]
    rfl
  · intro event body
    unfold bars
    rw [body]
    rfl
  · intro event body
    rw [seat_joined body absent, map_append, map_append, plays.players]
    exact congrArg (fun player => _ ++ [player]) player
  · intro other among
    rcases mem_append.mp among with old | last
    · exact plays.contents other old
    · rw [mem_singleton.mp last]
      exact content

theorem eraseIdx_eq_filter {players : List PlayerId} {index : Nat} (distinct : players.Nodup)
    (found : players[index]? = some player) : players.eraseIdx index = players.filter fun other => other ≠ player := by
  obtain ⟨inside, rfl⟩ := List.getElem?_eq_some_iff.mp found
  rw [← distinct.erase_getElem index inside, distinct.erase_eq_filter]
  exact filter_congr fun other _ => by rw [Bool.eq_iff_iff, bne_iff_ne, decide_eq_true_iff]

theorem handOn_left {first : Member} {rest : List Member} (left : r.members = first :: rest) :
    r.handOn player = { r with owner := if r.owner = player then first.player else r.owner } := by
  unfold handOn
  split
  · next empty =>
    cases empty.symm.trans left
  rename_i same
  cases same.symm.trans left
  split <;> rfl

theorem Plays.departed {index : Nat} {member : Member} (plays : r.Plays seen view opened barred game turns)
    (ruleset : r.ruleset = choice.ruleset) (views : choice.Views view seen) (running : r.phase = .running game)
    (tabled : opened.Tabled r.maxPlayers.toNat)
    (found : r.members[index]? = some member) (others : r.members.eraseIdx index ≠ []) (kicked : Bool) :
    ((r.depart index member.player kicked).handOn member.player).phase =
        .running (game.append (.playerLeft member.player kicked) r.ruleset r.state).1 ∧
      ((r.depart index member.player kicked).handOn member.player).Plays seen view opened barred
        (game.append (.playerLeft member.player kicked) r.ruleset r.state).1 turns := by
  have distinct : (r.members.map Member.player).Nodup := by
    rw [plays.players]
    exact (plays.orders.tabled tabled).distinct
  obtain ⟨first, rest, left⟩ := exists_cons_of_ne_nil others
  have players : (r.members.eraseIdx index).map Member.player =
      (game.seated.filter fun seat => seat.1 ≠ member.player).map Prod.fst := by
    rw [← eraseIdx_map, eraseIdx_eq_filter distinct (by rw [getElem?_map, found]; rfl), plays.players,
      filter_map]
    rfl
  have leaves : (r.depart index member.player kicked).handOn member.player =
      { r.append game (.playerLeft member.player kicked) with
        members := r.members.eraseIdx index
        owner := if r.owner = member.player then first.player else r.owner
        banned := if kicked && r.banned.length < maxBanned then r.banned.insert member.player else r.banned } := by
    rw [depart_running _ _ _ running, handOn_left left]
    rfl
  rw [leaves]
  refine ⟨rfl, plays.append ruleset views ?_ ?_ ?_ ?_ ?_ others⟩
  · intro event body
    unfold Standing.Permits
    rw [body]
    trivial
  · intro event body
    unfold Standing.play seat
    rw [body]
    dsimp only [Game.stands]
    have head : ((game.seated.filter fun seat => seat.1 ≠ member.player).map Prod.fst).head? = some first.player := by
      rw [← players, left]
      rfl
    rw [head?_map] at head
    rw [head]
    by_cases owns : r.owner = member.player
    · rw [if_pos owns]
      exact (if_pos owns.symm).symm
    · rw [if_neg owns]
      exact (if_neg (Ne.symm owns)).symm
  · intro event body
    unfold bars
    rw [body]
  · intro event body
    unfold seat
    rw [body]
    exact players
  · exact fun other among => plays.contents other (mem_of_mem_eraseIdx among)

theorem Plays.startCompaction (plays : r.Plays seen view opened barred game turns)
    (ruleset : r.ruleset = choice.ruleset) (views : choice.Views view seen) (running : r.phase = .running game)
    (steady : game.speed = game.announcedSpeed)
    (positive : 0 < opened.origin.turn) : r.startCompaction.Plays seen view opened barred game turns := by
  unfold Room.startCompaction
  split
  · next log game' idle written running' =>
    cases running.symm.trans running'
    split
    · exact plays
    rename_i due
    obtain ⟨orders, banned, players, contents, seated, books⟩ := plays
    split
    · exact ⟨orders, banned, players, contents, seated, books⟩
    rename_i rules saved
    rw [ruleset] at saved
    simp only [Bool.or_eq_true, decide_eq_true_eq, not_or, Decidable.not_not] at due
    have nothing : game.pending = [] := due.2
    have stands := orders.stands
    rw [nothing] at stands banned
    rw [append_nil] at banned
    have counted : 0 < game.nextTurn := by
      rw [orders.tracks.keeps.nextTurn]
      exact lt_of_lt_of_le positive (Nat.le_add_right _ _)
    obtain ⟨gone, kept, rfl, encodes, sums⟩ := orders.tracks.sums nothing counted orders.ordered (views.saved saved)
      (stands.trans (by rw [Game.stands, steady])) r.content barred
    rw [← banned] at sums
    have script (history : UInt64) : Script seen opened barred
        (r.startRecord history (some (game.base rules r.content r.banned))) (game.log.map LoggedTurn.frame ++ [])
        (gone ++ kept ++ []) (game.histories ++ []) := .based rfl sums encodes .nil
    refine ⟨orders, ?_, players, contents, seated, books.log, ?_, books.trails⟩
    · rw [nothing, append_nil]
      exact banned
    · rintro _ ⟨⟩
      simp only [append_nil] at script ⊢
      exact ⟨script _, rfl, rfl⟩
  · exact plays

theorem logFrames_books {fresh : List Turn} {frames : List Bytes}
    (books : Books seen opened barred r.card r.log r.compaction r.disk
      game.histories turns) (chain : Chain (opened.origin.after turns) fresh) (encodes : Forall₂ Encodes fresh frames) :
    Books seen opened barred r.card (r.logFrames o frames).log
      ((r.logFrames o frames).compaction.map fun compaction => { compaction with tail := compaction.tail ++ frames })
      (r.logFrames o frames).disk game.histories (turns ++ fresh) := by
  unfold logFrames
  split
  · next unlogged =>
    rw [unlogged] at books ⊢
    exact books.unlogged chain encodes
  · next log written =>
    rw [written] at books
    exact books.logged chain encodes rfl

theorem Plays.published {frontier : Nat} {frames : List Bytes} (plays : r.Plays seen view opened barred game turns)
    (ruleset : r.ruleset = choice.ruleset) (views : choice.Views view seen) (positive : 0 < opened.origin.turn)
    (sealed : game.sealPending frontier = (game', .ok frames)) (forward : game.sealedThrough ≤ frontier)
    (saves : Saves) :
    ∃ fresh, Forall₂ Encodes fresh frames ∧
      ((r.withGame { game' with saves }).publish o frames).phase = .running { game' with saves } ∧
      ((r.withGame { game' with saves }).publish o frames).Plays seen view opened barred { game' with saves }
    (turns ++ fresh) ∧
      sealedFrames ((r.withGame { game' with saves }).publish o frames).out = sealedFrames r.out ++ frames := by
  obtain ⟨fresh, encodes, idle, histories, steady, table, events, orders⟩ := plays.orders.sealed sealed forward
  have chain := (chain_append.mp orders.tracks.keeps.chain).2
  have soft : game'.Soft { game' with saves } := ⟨_, _, _, _, _, _, rfl⟩
  have orders := orders.soft soft
  refine ⟨fresh, encodes, ?_⟩
  have books : Books seen opened barred (r.withGame { game' with saves }).card (r.withGame { game' with saves }).log
      (r.withGame { game' with saves }).compaction (r.withGame { game' with saves }).disk
      ({ game' with saves } : Game).histories turns := by
    show Books _ _ _ _ _ _ _ game'.histories _
    rw [histories]
    exact plays.books
  have books := logFrames_books (o := o) books chain encodes
  unfold publish
  dsimp only
  obtain ⟨disk, calls, log, logged⟩ := logFrames_eq frames
  rw [logged] at books ⊢
  generalize rewriting : Option.map _ _ = compaction at books ⊢
  generalize booked : ({ r.withGame { game' with saves } with disk, calls, log, compaction } : Room σ) = room
  have plays' : room.Plays seen view opened barred { game' with saves } (turns ++ fresh) := by
    subst booked
    refine ⟨orders, ?_, ?_, plays.contents, plays.seated, books⟩
    · show r.banned = (_ ++ game'.pending).foldl bars barred
      rw [plays.banned, events, idle, append_nil]
    · show r.members.map _ = game'.seated.map _
      rw [table]
      exact plays.players
  have sent := publishFrames_sealed (o := o) (r := room) frames
  have wired := publishFrames_wired (o := o) (r := room) frames
  have phase : room.phase = .running { game' with saves } := by rw [← booked]; rfl
  have out : room.out = r.out := by rw [← booked]; rfl
  have same : room.ruleset = choice.ruleset := by rw [← booked]; exact ruleset
  generalize frames.foldl (publishFrame o) room = told at sent wired ⊢
  obtain ⟨members, out', calls', rfl, touch⟩ := wired
  rw [phase] at touch
  obtain ⟨orders, banned, players, contents, seated, books⟩ := plays'.touched touch
  have plays'' : ({ room with members, out := out', calls := calls' } : Room σ).Plays seen view opened barred
    { game' with saves }
      (turns ++ fresh) := ⟨orders, banned, players, contents, seated, books⟩
  have begun := plays''.startCompaction same views phase steady positive
  obtain ⟨compaction', compactAt, compacted⟩ := startCompaction_eq
  refine ⟨?_, begun, ?_⟩
  · rw [compacted]
    exact phase
  · rw [compacted, ← out]
    exact sent

theorem Plays.finished (plays : r.Plays seen view opened barred game turns) (done : Rewrite) (writes : Nat → Write)
    (renamed : Bool) : (r.finishCompaction done writes renamed).Plays seen view opened barred game turns := by
  obtain ⟨orders, banned, players, contents, seated, books⟩ := plays
  unfold finishCompaction
  split
  · exact ⟨orders, banned, players, contents, seated, books⟩
  rename_i rewrite rewriting
  generalize ended : installed rewrite done writes renamed r.disk = result
  obtain ⟨disk, result⟩ := result
  have log := installed_log ended
  cases result with
  | ok log' =>
    obtain ⟨named, kind, stored⟩ := log
    have logs := books.rewrite rewrite rewriting
    refine ⟨orders, banned, players, contents, seated, ?_, nofun, stored.trails named logs⟩
    rintro _ ⟨⟩
    exact ⟨named, kind, _, _, stored, logs⟩
  | error error => exact ⟨orders, banned, players, contents, seated, books.same_log log⟩

theorem foldl_play_joined {events : List Event} {s : Standing τ}
    (joined : ∀ event ∈ events, ∃ player name platform, event.body = .playerJoined player name platform) :
    (events.foldl (Standing.play seen.ruleset) s).owner = s.owner := by
  induction events generalizing s with
  | nil => rfl
  | cons event events ih =>
    obtain ⟨_, _, _, body⟩ := joined event mem_cons_self
    rw [foldl_cons, ih fun other member => joined other (mem_cons_of_mem _ member)]
    unfold Standing.play
    rw [body]

theorem Plays.logOpened (plays : r.Plays seen view (seen.opening owner) barred game turns)
    (first : game.nextTurn = 1) (only : game.histories.length = 1)
    (joined : ∀ event ∈ game.pending, ∃ player name platform, event.body = .playerJoined player name platform) :
    (r.openLog o game.history).Plays seen view (seen.opening owner) barred game turns := by
  obtain ⟨orders, banned, players, contents, seated, books⟩ := plays
  have none : turns = [] := by
    have counted := orders.tracks.keeps.nextTurn
    rw [first] at counted
    exact eq_nil_of_length_eq_zero (Nat.add_left_cancel counted).symm
  subst none
  have owns : r.owner = owner := by
    have stands := congrArg Standing.owner orders.stands
    rw [foldl_play_joined joined] at stands
    exact stands.symm
  have history : game.histories = [{ id := game.history, afterTurn := 0 }] := by
    obtain ⟨history, alone⟩ := length_eq_one_iff.mp only
    obtain ⟨head, found, zero⟩ := orders.ordered.first
    unfold Game.history
    rw [alone] at found ⊢
    cases found
    rw [← zero]
    rfl
  unfold openLog
  split
  · generalize created : RoomLog.create _ _ _ _ = result
    obtain ⟨disk, result⟩ := result
    have logs : Logs seen (seen.opening owner) barred r.card
      (r.startRecord game.history Option.none) [] [] game.histories := by
      refine ⟨?_, rfl, ?_⟩
      · rw [history]
        exact .plain rfl (by rw [← owns]; rfl) .nil
      have content : (r.startRecord game.history Option.none).content = r.content := by
        obtain ⟨head, rest, members⟩ := exists_cons_of_ne_nil seated
        show ((r.members.map _).head?.map StartMember.content).join = _
        rw [members]
        exact contents head (by rw [members]; exact mem_cons_self)
      unfold StartRecord.card Room.card
      rw [content]
      rfl
    rcases RoomLog.create_log created with ⟨⟨file, exists_⟩, rfl, error, rfl⟩ | ⟨blank, part, made⟩
    · exact ⟨orders, banned, players, contents, seated, books⟩
    have unlogged : r.log = Option.none := by
      cases log : r.log with
      | none => rfl
      | some written =>
        obtain ⟨named, _, _, _, stored, _⟩ := books.log written log
        have file := stored.file
        rw [named] at file
        rw [show r.disk.log = _ from file] at blank
        cases blank
    have trails : Trails seen (seen.opening owner) barred r.card disk [] :=
      part.imp_right fun part => ⟨_, [], [], game.histories, part, prefix_refl _, logs⟩
    cases result with
    | ok log =>
      obtain ⟨named, kind, stored⟩ := made log rfl
      refine ⟨orders, banned, players, contents, seated, ?_, books.rewrite, trails⟩
      rintro _ ⟨⟩
      exact ⟨named, kind, _, [], stored, logs⟩
    | error error =>
      refine ⟨orders, banned, players, contents, seated, ?_, books.rewrite, trails⟩
      intro written found
      rw [show r.log = some written from found] at unlogged
      cases unlogged
  · exact ⟨orders, banned, players, contents, seated, books⟩

theorem foldl_bars_joined {events : List Event} {banned : List PlayerId}
    (joined : ∀ event ∈ events, ∃ player name platform, event.body = .playerJoined player name platform) :
    events.foldl bars banned = banned := by
  induction events with
  | nil => rfl
  | cons event events ih =>
    obtain ⟨_, _, _, body⟩ := joined event mem_cons_self
    have same : bars banned event = banned := by
      unfold bars
      rw [body]
    rw [foldl_cons, same]
    exact ih fun other member => joined other (mem_cons_of_mem _ member)

theorem new_orders (seen : RulesChoice τ) (owner : PlayerId) (seats : Nat) (settings : RoomSettings) (history : UInt64)
    (now : Instant) : Orders seen (seen.opening owner) seats (.new settings history now) seen.fresh owner [] :=
  ⟨Game.new_tracks settings history now, rfl, trivial,
    ⟨⟨_, rfl, rfl⟩, pairwise_singleton _ _, by simp [Game.new]⟩⟩

theorem seat_orders {state : σ} {seats : Nat} (views : choice.Views view seen)
    (orders : Orders seen opened seats game (view state) owner turns)
    (distinct : (game.seated.map Prod.fst ++ members.map Member.player).Nodup)
    (space : game.seated.length + members.length ≤ seats)
    (first : game.seated = [] → ∀ member ∈ members.head?, member.player = owner) :
    let seated := members.foldl (fun (placed : Game × σ) member =>
      placed.1.append (.playerJoined member.player member.name member.platform) choice.ruleset placed.2) (game, state)
    Orders seen opened seats seated.1 (view seated.2) owner turns ∧
      seated.1.seated.map Prod.fst = game.seated.map Prod.fst ++ members.map Member.player := by
  induction members generalizing game state with
  | nil => exact ⟨orders, (append_nil _).symm⟩
  | cons member members ih =>
    have absent : ∀ seat ∈ game.seated, seat.1 ≠ member.player := by
      intro seat among same
      exact (nodup_append.mp distinct).2.2 _ (mem_map_of_mem among) member.player mem_cons_self same
    rw [length_cons] at space
    have permits (event : Event) (body : event.body = .playerJoined member.player member.name member.platform) :
        (game.stands opened.origin (view state) owner).Permits seen.ruleset seats event := by
      unfold Standing.Permits
      rw [body]
      refine ⟨absent, ?_, fun empty => first empty member rfl⟩
      show game.seated.length < seats
      omega
    have next := orders.append views permits
    have taken : (game.append (.playerJoined member.player member.name member.platform) choice.ruleset state).1.seated =
        game.seated ++ [(member.player, member.name, member.platform)] := by
      unfold Game.append
      dsimp only
      exact seat_joined rfl absent
    obtain ⟨done, table⟩ := ih next
      (by rw [taken, map_append, append_assoc]; exact distinct)
      (by rw [taken, length_append, length_singleton]; omega)
      (by rw [taken]; exact fun empty => absurd empty (by simp))
    refine ⟨done, table.trans ?_⟩
    rw [taken, map_append, append_assoc]
    rfl

end Plays

end Room

end Tpf3Mp.Server
