import Tpf3Mp.Server.Ledger

/-!
The life of a room over any number of processes: a server is stopped or crashes at any point, what is
left of the room's log is recovered, and the room goes on. Whatever was ordered and not lost was lawful,
and the table stays in order.
-/

namespace Tpf3Mp.Server
open Codec Proto Data Relation Journal List

/-- A crash may lose the end of the log's file, and may leave anything of a rewrite. -/
def Disk.Crashes (disk disk' : Disk) : Prop := ∃ count, disk'.log = disk.log.map (·.take count)

namespace Room
variable {σ : Type}

def ledger (before : List Bytes) (r : Room σ) : List Bytes := before ++ sealedFrames r.out

/-- How a room comes about: it is created as the directory does, takes steps, and is recovered from
what a crash left of its log. A recovery keeps the turns it counts; where it fails, or finds nobody
at the table, there is no room until the next one. -/
inductive Lives (menu : RulesMenu σ) (allowed : Room σ → Room σ → Prop) : Room σ → List Bytes → Prop where
  | new {choice : RulesChoice σ} (spec : RoomSpec σ) (owner : NewMember) (now : Instant) (disk : Disk)
      (unlogged : disk.log = none) (chosen : menu.find (some spec.rules) = some choice)
      (ruleset : spec.ruleset = choice.ruleset) (state : spec.state = choice.fresh)
        (valid : spec.settings.isValid = true)
      (seats : 1 ≤ spec.maxPlayers.toNat) : Lives menu allowed (.new spec owner now disk) []
  | stepped {r r' : Room σ} {before : List Bytes} (lives : Lives menu allowed r before) (step : Step r r')
      (may : allowed r r') : Lives menu allowed r' before
  | restarted {r r' : Room σ} {before : List Bytes} {o : Oracle} {env : RoomEnv} {verify : Bytes → Bytes → Bool}
      {pointer : Option Agreed} {now : Instant} {disk disk' : Disk} {game : Game} (lives : Lives menu allowed r before)
      (crashes : r.disk.Crashes disk)
      (recovered : recover o menu env verify r.id pointer now disk = (disk', .ok (some r')))
      (running : r'.phase = .running game) : Lives menu allowed r' ((r.ledger before).take (game.nextTurn - 1))
  | refused {r : Room σ} {before : List Bytes} {o : Oracle} {env : RoomEnv} {verify : Bytes → Bytes → Bool}
      {pointer : Option Agreed} {now : Instant} {disk disk' : Disk} {result : Except RecoverError (Option (Room σ))}
      (lives : Lives menu allowed r before) (crashes : r.disk.Crashes disk)
      (recovered : recover o menu env verify r.id pointer now disk = (disk', result))
      (nobody : ∀ r', result ≠ .ok (some r')) : Lives menu allowed { r with disk := disk', closed := true } before

end Room

theorem LogReader.intoLog_name {reader : LogReader} {disk disk' : Disk} {log : RoomLog}
    (into : reader.intoLog disk = (disk', .ok log)) : log.name = reader.name := by
  unfold intoLog at into
  split at into
  · cases into
  split at into
  · cases into
  · cases into
    rfl

section Recoveries
variable {σ τ : Type} {menu : RulesMenu σ} {choice : RulesChoice σ} {seen : RulesChoice τ} {view : σ → τ}
  {opened : Standing τ} {barred : List PlayerId} {card : Card} {disk disk' : Disk} {turns : List Turn} {file : RoomId}
  {now : Instant} {start : StartRecord} {replay : Replay σ} {reader : LogReader}

variable {records : List Bytes}

theorem StartRecord.replayed_steady (replayed : start.replayed choice now records = .ok replay) :
    replay.game.speed = replay.game.announcedSpeed := by
  refine start.replayed_preserves (P := fun r => r.game.speed = r.game.announcedSpeed) replayed ?_ ?_ ?_
  · intro begun begins
    refine StartRecord.replay_game (P := fun g => g.speed = g.announcedSpeed) begins rfl fun base game rebased => ?_
    obtain ⟨_, ⟨⟩⟩ := Option.ite_none_right_eq_some.mp rebased
    rfl
  · exact fun r based same => same
  · intro r r' frame same takes
    cases takes with
    | turn => rfl
    | marker => exact same

theorem Trails.replayed {found : RulesChoice σ} (trails : Trails seen opened barred card disk turns)
    (views : choice.Views view seen) (distinct : barred.Nodup) (chosen : menu.find (some card.rules) = some choice)
    (replayed : replayLog menu file now disk = .ok (start, found, replay, reader)) :
    found = choice ∧ start.id = file ∧ reader.name = .log ∧ replay.game.speed = replay.game.announcedSpeed ∧
      ∃ known turns' histories records cut log, (known = [] ∨ known = barred) ∧ turns' <+: turns ∧
        Logs seen opened known card start records turns' histories ∧
        (replay.through view).Reached seen opened known turns' histories ∧
        reader.intoLog disk = (cut, .ok log) ∧ log.name = .log ∧ log.replaces = false ∧
        Stored log cut (Wire.startRecord.encode start :: records) := by
  obtain ⟨first, records, read, started, replays, based⟩ := replayLog_ok replayed
  rcases trails with blank | ⟨start', records', turns', histories', part, fewer, logs⟩
  · -- There is no record in an empty file.
    obtain ⟨opened, opens, _⟩ := Run.bind_ok.mp read
    obtain ⟨onward, next⟩ := readRecords_first opens read
    unfold RoomLog.read at opens
    rw [show disk.file .log = disk.log from rfl] at opens
    split at opens
    · cases opens
    rename_i bytes held
    rw [held] at blank
    split at opens
    · cases opens
    cases opens
    have empty : bytes = [] := blank
    subst empty
    cases next
  · obtain ⟨rfl, short, cut, log, into, named, kind, stored⟩ := readRecords_cut part read
    obtain ⟨rfl, chose, same⟩ := readStart_ok started
    have rules : start.rules = card.rules := congrArg Card.rules logs.same
    rw [rules, chosen] at chose
    cases chose
    obtain ⟨turns'', histories'', known, shorter, _, knows, script, reached⟩ :=
      logs.script.replayed distinct short (StartRecord.replayed_through views replays) based
    exact ⟨rfl, same, (LogReader.intoLog_name into).symm.trans named, StartRecord.replayed_steady replays,
      known, turns'', histories'', records, cut, log, knows, shorter.trans fewer,
      ⟨script, logs.version, logs.same⟩, reached, into, named, kind, stored⟩

theorem Trails.mono {turns' : List Turn} (trails : Trails seen opened barred card disk turns')
    (fewer : turns' <+: turns) : Trails seen opened barred card disk turns :=
  trails.imp_right fun ⟨start, records, turns'', histories, part, fewer', logs⟩ =>
    ⟨start, records, turns'', histories, part, fewer'.trans fewer, logs⟩

theorem Game.beginHistory_history (game : Game) (id : UInt64) : (game.beginHistory id).history = id := by
  unfold Game.history Game.beginHistory
  rw [getLast?_concat]
  rfl

theorem Replay.Reached.marked {known : List PlayerId} {histories : List History} {frame : Bytes}
    {history : UInt64} (reached : (replay.through view).Reached seen opened known turns histories)
    (logs : Logs seen opened known card start records turns histories)
    (encoded : encodeFrame Proto.Wire.turnMessage (Room.marker start (replay.game.beginHistory history)) turnMaxFrame =
      .ok frame) : Logs seen opened known card start (records ++ [frame]) turns
      (histories ++ [{ id := history, afterTurn := (opened.origin.after turns).turn - 1 }]) := by
  have origin := reached.tracks.origin reached.idle
  have scroll := Scroll.mark encoded (congrArg Origin.turn origin)
    (congrArg Origin.event origin) (congrArg Origin.frontier origin) .nil
  have written := logs.write scroll
  rw [append_nil] at written
  have written : Logs seen opened known card start (records ++ [frame]) turns (histories ++
      [{ id := (replay.game.beginHistory history).history, afterTurn := (opened.origin.after turns).turn - 1 }]) :=
        written
  rw [Game.beginHistory_history] at written
  exact written

theorem Replay.Reached.plays {known : List PlayerId} {histories : List History} {frame : Bytes}
    {o : Oracle} {log : RoomLog} (reached : (replay.through view).Reached seen opened known turns histories)
    (steady : replay.game.speed = replay.game.announcedSpeed)
    (logs : Logs seen opened known card start (records ++ [frame]) turns
      (histories ++ [{ id := o.history 0, afterTurn := (opened.origin.after turns).turn - 1 }]))
    (tabled : opened.Tabled card.maxPlayers.toNat)
    (lawful : opened.Lawful seen.ruleset card.maxPlayers.toNat (turns.flatMap Turn.events))
    (someone : replay.game.seated ≠ []) (named : log.name = .log) (kind : log.replaces = false)
    (stored : Stored log disk (Wire.startRecord.encode start :: (records ++ [frame]))) (env : RoomEnv)
    (verify : Bytes → Bytes → Bool) (pointer : Option Agreed) (now : Instant) :
    ∃ game, (Room.restored o env verify pointer now start choice replay log disk).phase = .running game ∧
      game.nextTurn = replay.game.nextTurn ∧ game.pending = [] ∧
      (Room.restored o env verify pointer now start choice replay log disk).Plays seen view opened known
        game turns := by
  have seats : start.maxPlayers = card.maxPlayers := congrArg Card.maxPlayers logs.same
  have same : (Room.restored o env verify pointer now start choice replay log disk).card = card := logs.same
  have state : view replay.state = (opened.after seen.ruleset turns).state := congrArg Standing.state reached.standing
  have table : replay.game.seated = (opened.after seen.ruleset turns).seated :=
    congrArg Standing.seated reached.standing
  have owner : replay.owner = (opened.after seen.ruleset turns).owner := congrArg Standing.owner reached.standing
  have speed : replay.game.speed = (opened.after seen.ruleset turns).speed := congrArg Standing.speed reached.standing
  have after : (opened.after seen.ruleset turns).Tabled card.maxPlayers.toNat := by
    have played := tabled.foldl lawful
    rw [Standing.after_eq]
    exact ⟨played.distinct, played.few, played.owner⟩
  have owns : (Room.restored o env verify pointer now start choice replay log disk).owner = replay.owner := by
    obtain ⟨first, rest, seated⟩ := exists_cons_of_ne_nil someone
    have heads := after.owner first rest (table.symm.trans seated)
    unfold Room.restored
    dsimp only
    rw [seated, if_pos]
    simp [Member.restored, Member.new, owner, heads]
  have counted : replay.game.nextTurn = (opened.origin.after turns).turn := reached.tracks.keeps.nextTurn
  have idle : replay.game.pending = [] := reached.idle
  have within : replay.game.histories = histories := reached.histories
  have banned : replay.banned = (turns.flatMap Turn.events).foldl bars known := reached.banned
  refine ⟨_, rfl, rfl, idle, ?_, ?_, ?_, ?_, ?_, ?_⟩
  · obtain ⟨⟨⟨chain, nextTurn, numbered, nextEvent, steps, window⟩, frontier⟩, _⟩ := reached
    refine ⟨⟨⟨chain, nextTurn, numbered, nextEvent, steps, window⟩, frontier⟩, ?_, ?_, ?_⟩
    · show replay.game.pending.foldl _ _ = _
      rw [idle, owns]
      show opened.after seen.ruleset turns =
        { origin := _, speed := replay.game.announcedSpeed, state := view replay.state, seated := replay.game.seated,
          owner := replay.owner }
      rw [← steady, state, table, owner, speed, ← @Standing.after_origin _ seen.ruleset]
    · show opened.Lawful seen.ruleset start.maxPlayers.toNat (_ ++ replay.game.pending)
      rw [idle, append_nil, seats]
      exact lawful
    · have ordered := logs.script.ordered
      show Ordered (replay.game.histories ++ [{ id := o.history 0, afterTurn := replay.game.nextTurn - 1 }])
        (replay.game.nextTurn - 1)
      rw [counted, within]
      exact ordered
  · show replay.banned = (_ ++ replay.game.pending).foldl bars known
    rw [idle, append_nil]
    exact banned
  · show (replay.game.seated.map _).map Member.player = replay.game.seated.map Prod.fst
    rw [List.map_map]
    rfl
  · intro member among
    obtain ⟨seat, _, rfl⟩ := mem_map.mp among
    rfl
  · intro empty
    exact someone (map_eq_nil_iff.mp empty)
  · show Books seen opened known _ (some log) none disk
      (replay.game.histories ++ [{ id := o.history 0, afterTurn := replay.game.nextTurn - 1 }]) turns
    rw [same, counted, within]
    refine ⟨?_, by rintro _ ⟨⟩, stored.trails named logs⟩
    rintro _ ⟨⟩
    exact ⟨named, kind, start, _, stored, logs⟩

theorem lawful_prefix {seats : Nat} {turns' : List Turn} (fewer : turns' <+: turns)
    (lawful : opened.Lawful seen.ruleset seats (turns.flatMap Turn.events)) :
    opened.Lawful seen.ruleset seats (turns'.flatMap Turn.events) := by
  obtain ⟨rest, rfl⟩ := fewer
  rw [flatMap_append] at lawful
  exact (Standing.lawful_append.mp lawful).1

/-- A room as a recovery made it, by the turns that were kept. -/
structure Room.Recovered (choice : RulesChoice σ) (seen : RulesChoice τ) (view : σ → τ) (opened : Standing τ)
    (known : List PlayerId) (card : Card) (disk : Disk) (turns : List Turn) (r : Room σ) (game : Game) : Prop where
  card : r.card = card
  ruleset : r.ruleset = choice.ruleset
  live : r.closed = false
  silent : r.out = []
  disk : r.disk = disk
  running : r.phase = .running game
  plays : r.Plays seen view opened known game turns
  idle : game.pending = []

theorem Room.recover_keeps {o : Oracle} {env : RoomEnv} {verify : Bytes → Bytes → Bool} {pointer : Option Agreed}
    {result : Except RecoverError (Option (Room σ))} (trails : Trails seen opened barred card disk turns)
    (views : choice.Views view seen) (distinct : barred.Nodup) (chosen : menu.find (some card.rules) = some choice)
    (tabled : opened.Tabled card.maxPlayers.toNat)
    (lawful : opened.Lawful seen.ruleset card.maxPlayers.toNat (turns.flatMap Turn.events))
    (recovered : recover o menu env verify file pointer now disk = (disk', result)) :
    ∃ known turns', (known = [] ∨ known = barred) ∧ turns' <+: turns ∧ Trails seen opened known card disk' turns' ∧
      ∀ r, result = .ok (some r) → ∃ game, r.Recovered choice seen view opened known card disk' turns' game := by
  unfold recover at recovered
  split at recovered
  · cases recovered
    exact ⟨barred, turns, .inr rfl, prefix_refl _, trails, fun r none => nomatch none⟩
  rename_i start found replay reader replayed
  obtain ⟨rfl, _, named, steady, known, turns', histories, records, cut, log, knows, fewer, logs, reached,
    into, kept, kind, stored⟩ := trails.replayed views distinct chosen replayed
  have lawful' := lawful_prefix fewer lawful
  split at recovered
  · cases recovered
    refine ⟨barred, turns, .inr rfl, prefix_refl _, .inl ?_, fun r none => nomatch none⟩
    unfold LogReader.delete
    rw [named]
    rfl
  · next someone =>
    have someone : replay.game.seated ≠ [] := fun empty => someone (by rw [empty]; rfl)
    rw [into] at recovered
    dsimp only at recovered
    split at recovered
    · cases recovered
      exact ⟨known, turns', knows, fewer, stored.trails kept logs, fun r none => nomatch none⟩
    rename_i frame encoded
    have marked := reached.marked logs encoded
    split at recovered
    · next appended =>
      cases recovered
      refine ⟨known, turns', knows, fewer, ?_, fun r none => nomatch none⟩
      rcases RoomLog.append_part stored appended with part | part
      · rw [kept] at part
        exact .inr ⟨start, records, turns', _, part, prefix_refl _, logs⟩
      · rw [kept] at part
        exact .inr ⟨start, records ++ [frame], turns', _, part, prefix_refl _, marked⟩
    · next log' appended =>
      cases recovered
      obtain ⟨stored', named', kind'⟩ := RoomLog.append_stored stored appended
      refine ⟨known, turns', knows, fewer, stored'.trails (named'.trans kept) marked, ?_⟩
      rintro _ ⟨⟩
      obtain ⟨game, running, _, idle, plays⟩ := reached.plays steady marked tabled lawful' someone (named'.trans kept)
        (kind'.trans kind) stored' env verify pointer now
      exact ⟨game, marked.same, rfl, rfl, rfl, rfl, running, plays, idle⟩

end Recoveries

namespace Room
variable {σ τ : Type}

structure Ruled (menu : RulesMenu σ) (choice : RulesChoice σ) (r : Room σ) : Prop where
  chosen : menu.find (some r.rules) = some choice
  ruleset : r.ruleset = choice.ruleset
  valid : r.settings.isValid = true
  seats : 1 ≤ r.maxPlayers.toNat

/-- The players barred before the game: none, where nobody was kicked in the lobby. -/
structure Barred (quiet : Prop) (barred : List PlayerId) : Prop where
  distinct : barred.Nodup
  few : barred.length ≤ maxBanned
  nobody : quiet → barred = []

structure Gathers (seen : RulesChoice τ) (view : σ → τ) (quiet : Prop) (r : Room σ) : Prop where
  state : view r.state = seen.fresh
  distinct : (r.members.map Member.player).Nodup
  few : r.members.length ≤ r.maxPlayers.toNat
  owner : ∃ first rest, r.members = first :: rest ∧ r.owner = first.player
  banned : Barred quiet r.banned
  unlogged : r.log = none ∧ r.compaction = none ∧ r.disk.log = none

/-- A room whose turns have these frames, before its game, in it, or at its end. -/
inductive Sound (seen : RulesChoice τ) (view : σ → τ) (quiet : Prop) (r : Room σ) : List Bytes → Prop where
  | lobby (live : r.closed = false) (lobby : r.phase = .lobby) (gathers : r.Gathers seen view quiet) :
    Sound seen view quiet r []
  | playing {game : Game} {owner : PlayerId} {barred : List PlayerId} {turns : List Turn} {frames : List Bytes}
      (live : r.closed = false) (running : r.phase = .running game)
      (plays : r.Plays seen view (seen.opening owner) barred game turns)
      (banned : Barred quiet barred) (encodes : Forall₂ Encodes turns frames) :
      Sound seen view quiet r frames
  | ending {frames : List Bytes} (closed : r.closed = true) (owner : PlayerId) (barred : List PlayerId)
    (turns : List Turn)
      (chain : Chain ⟨1, 1, 0⟩ turns)
      (lawful : (seen.opening owner).Lawful seen.ruleset r.maxPlayers.toNat (turns.flatMap Turn.events))
      (trails : Trails seen (seen.opening owner) barred r.card r.disk turns)
      (banned : Barred quiet barred) (encodes : Forall₂ Encodes turns frames) :
      Sound seen view quiet r frames

section Sound
variable {menu : RulesMenu σ} {choice : RulesChoice σ} {seen : RulesChoice τ} {view : σ → τ} {quiet : Prop}
    {r r' : Room σ} {o : Oracle}
  {before frames : List Bytes} {game : Game} {barred : List PlayerId} {turns : List Turn} {now : Instant}
    {owner : PlayerId}

theorem opening_tabled (seen : RulesChoice τ) (owner : PlayerId) (seats : Nat) : (seen.opening owner).Tabled seats :=
  ⟨nodup_nil, Nat.zero_le _, nofun⟩

theorem Calm.sealed (calm : Calm r r') : sealedFrames r'.out = sealedFrames r.out := by
  cases calm with
  | soft | touched | played => rfl
  | @told output aside =>
    show sealedFrames (r.out ++ [output]) = _
    rw [sealedFrames_push]
    cases output with
    | sealed => cases aside
    | control | turn | closed => exact append_nil _
  | opened =>
    show sealedFrames (r.out ++ [_]) = _
    rw [sealedFrames_push]
    exact append_nil _

theorem Gathers.touched {members : List Member} {phase : Phase} (gathers : r.Gathers seen view quiet)
    (touch : Forall₂ (Touch phase) r.members members) : ({ r with members } : Room σ).Gathers seen view quiet := by
  obtain ⟨state, distinct, few, ⟨_, _, seated, owner⟩, banned, unlogged⟩ := gathers
  have same := map_player_touch touch
  refine ⟨state, same ▸ distinct, touch.length_eq ▸ few, ?_, banned, unlogged⟩
  rw [seated] at touch
  cases touch with
  | cons head rest => exact ⟨_, _, rfl, owner.trans head.player.symm⟩

theorem Gathers.calm (gathers : r.Gathers seen view quiet) (lobby : r.phase = .lobby) (calm : Calm r r') :
    r'.phase = .lobby ∧ r'.Gathers seen view quiet := by
  cases calm with
  | soft passwordGuard unattendedSince calls =>
    obtain ⟨state, distinct, few, owner, banned, unlogged⟩ := gathers
    exact ⟨lobby, state, distinct, few, owner, banned, unlogged⟩
  | told aside =>
    obtain ⟨state, distinct, few, owner, banned, unlogged⟩ := gathers
    exact ⟨lobby, state, distinct, few, owner, banned, unlogged⟩
  | touched touch => exact ⟨lobby, gathers.touched touch⟩
  | opened running | played running =>
    cases lobby.symm.trans running

theorem Sound.running (sound : r.Sound seen view quiet frames) (live : r.closed = false)
    (running : r.phase = .running game) :
    ∃ owner barred turns, r.Plays seen view (seen.opening owner) barred game turns ∧
      Barred quiet barred ∧ Forall₂ Encodes turns frames := by
  cases sound with
  | lobby _ lobby =>
    cases running.symm.trans lobby
  | playing _ running' plays banned encodes =>
    cases running.symm.trans running'
    exact ⟨_, _, _, plays, banned, encodes⟩
  | ending closed =>
    cases live.symm.trans closed

theorem Sound.waiting (sound : r.Sound seen view quiet frames) (live : r.closed = false) (lobby : r.phase = .lobby) :
    r.Gathers seen view quiet ∧ frames = [] := by
  cases sound with
  | lobby _ _ gathers => exact ⟨gathers, rfl⟩
  | playing _ running =>
    cases lobby.symm.trans running
  | ending closed =>
    cases live.symm.trans closed

theorem Sound.calm (sound : r.Sound seen view quiet (r.ledger before)) (live : r.closed = false) (calm : Calm r r') :
    r'.Sound seen view quiet (r'.ledger before) := by
  have closed : r'.closed = false := (Calms.closed (.single calm)).trans live
  have same : r'.ledger before = r.ledger before := by
    unfold ledger
    rw [calm.sealed]
  rw [same]
  cases phase : r.phase with
  | lobby =>
    obtain ⟨gathers, none⟩ := sound.waiting live phase
    obtain ⟨lobby', gathers'⟩ := gathers.calm phase calm
    rw [none]
    exact .lobby closed lobby' gathers'
  | running game =>
    obtain ⟨owner, barred, turns, plays, banned, encodes⟩ := sound.running live phase
    obtain ⟨game', running', plays'⟩ := plays.calm phase calm
    exact .playing closed running' plays' banned encodes

theorem Sound.calms (sound : r.Sound seen view quiet (r.ledger before)) (live : r.closed = false) (calms : Calms r r') :
    r'.Sound seen view quiet (r'.ledger before) := by
  induction calms with
  | refl => exact sound
  | tail calms step ih => exact ih.calm ((Calms.closed calms).trans live) step

theorem Gathers.sat {new : NewMember} (gathers : r.Gathers seen view quiet)
    (fresh : ∀ other ∈ r.members, other.player ≠ new.player) (space : r.members.length < r.maxPlayers.toNat) :
    ({ r with members := r.members ++ [.new new now] } : Room σ).Gathers seen view quiet := by
  obtain ⟨state, distinct, few, ⟨first, rest, seated, owner⟩, banned, unlogged⟩ := gathers
  refine ⟨state, ?_, ?_, ⟨first, rest ++ [.new new now], ?_, owner⟩, banned, unlogged⟩
  · rw [map_append, nodup_append]
    refine ⟨distinct, nodup_singleton _, ?_⟩
    rintro player among other last rfl
    obtain ⟨member, seated, same⟩ := mem_map.mp among
    exact fresh member seated (same.trans (mem_singleton.mp last))
  · show (r.members ++ [_]).length ≤ r.maxPlayers.toNat
    rw [length_append]
    exact space
  · show r.members ++ [_] = _
    rw [seated]
    rfl

theorem bar_banned (player : PlayerId) (kicked : Bool) (banned : Barred quiet r.banned)
    (keeps : quiet → (r.bar player kicked).banned = []) : Barred quiet (r.bar player kicked).banned := by
  unfold bar at keeps ⊢
  split at keeps
  · next may =>
    rw [if_pos may]
    simp only [Bool.and_eq_true, decide_eq_true_eq] at may
    refine ⟨banned.distinct.insert, ?_, keeps⟩
    by_cases already : player ∈ r.banned
    · rw [insert_of_mem already]
      exact banned.few
    · rw [insert_of_not_mem already, length_cons]
      omega
  · next may =>
    rw [if_neg may]
    exact banned

section
variable (gathers : r.Gathers seen view quiet)
include gathers

theorem Gathers.departed {index : Nat} {member : Member} (lobby : r.phase = .lobby)
    (found : r.members[index]? = some member) (others : r.members.eraseIdx index ≠ []) (kicked : Bool)
    (keeps : quiet → ((r.depart index member.player kicked).handOn member.player).banned = []) :
    ((r.depart index member.player kicked).handOn member.player).phase = .lobby ∧
      ((r.depart index member.player kicked).handOn member.player).Gathers seen view quiet := by
  obtain ⟨state, distinct, few, ⟨first, rest, seated, owner⟩, bans, unlogged⟩ := gathers
  obtain ⟨first', rest', left⟩ := exists_cons_of_ne_nil others
  rw [depart_lobby _ _ _ lobby, handOn_left left] at keeps ⊢
  have banned := bar_banned member.player kicked bans keeps
  refine ⟨lobby, state, ?_, ?_, ⟨first', rest', left, ?_⟩, banned, unlogged⟩
  · show ((r.members.eraseIdx index).map Member.player).Nodup
    rw [← eraseIdx_map]
    exact distinct.sublist (eraseIdx_sublist _ _)
  · exact le_trans (length_eraseIdx_le _ _) few
  show (if r.owner = member.player then first'.player else r.owner) = first'.player
  split
  · rfl
  rename_i stays
  -- The owner is the first in the room, and someone after them left.
  rw [seated] at left found
  cases index with
  | zero =>
    cases found
    exact absurd owner stays
  | succ index =>
    rw [owner, (List.cons.inj left).1]

theorem Gathers.started {history : UInt64} {calls : Nat} {content : Option ContentFingerprint}
    (ruleset : r.ruleset = choice.ruleset) (views : choice.Views view seen)
    (same : ∀ member ∈ r.members, member.content = content) : ({ r with
        calls
        content
        state := (r.seatMembers (.new r.settings history now)).2
        phase := .running (r.seatMembers (.new r.settings history now)).1 } : Room σ).Plays seen view
          (seen.opening r.owner)
      r.banned (r.seatMembers (.new r.settings history now)).1 [] := by
  obtain ⟨state, distinct, few, ⟨_, _, seated, owner⟩, _, log, compaction, blank⟩ := gathers
  obtain ⟨_, _, pending, game, joined⟩ := r.seatMembers_game (.new r.settings history now)
  have begins := new_orders seen r.owner r.maxPlayers.toNat r.settings history now
  have apart : ((Game.new r.settings history now).seated.map Prod.fst ++ r.members.map Member.player).Nodup := distinct
  have first : (Game.new r.settings history now).seated = [] → ∀ member ∈ r.members.head?, member.player = r.owner := by
    intro _ member head
    rw [seated] at head
    cases head
    exact owner.symm
  rw [← state] at begins
  obtain ⟨orders, table⟩ := seat_orders views begins apart (by simpa [Game.new] using few) first
  rw [← ruleset] at orders table
  refine ⟨orders, ?_, table.symm, same, ?_, ?_, ?_, .inl ?_⟩
  · show r.banned = ([] ++ (r.seatMembers (.new r.settings history now)).1.pending).foldl bars r.banned
    rw [game]
    exact (foldl_bars_joined joined).symm
  · show r.members ≠ []
    rw [seated]
    exact cons_ne_nil _ _
  · intro written found
    rw [show r.log = some written from found] at log
    cases log
  · intro rewrite found
    rw [show r.compaction = some rewrite from found] at compaction
    cases compaction
  · show r.disk.log.getD [] = []
    rw [blank]
    rfl

theorem Gathers.ending (closed : r'.closed = true) (disk : r'.disk = r.disk) : r'.Sound seen view quiet [] := by
  refine .ending closed r.owner [] [] trivial trivial (.inl ?_) ⟨nodup_nil, Nat.zero_le _, fun _ => rfl⟩ .nil
  rw [disk, gathers.unlogged.2.2]
  rfl

end

theorem Plays.ending (plays : r.Plays seen view (seen.opening owner) barred game turns) (banned : Barred quiet barred)
    (encodes : Forall₂ Encodes turns frames) (closed : r'.closed = true) (card : r'.card = r.card)
    (disk : r'.disk = r.disk ∨ r'.disk.log = none) : r'.Sound seen view quiet frames := by
  have seats : r'.maxPlayers = r.maxPlayers := congrArg Card.maxPlayers card
  refine .ending closed owner barred turns plays.orders.tracks.keeps.chain ?_ ?_ banned encodes
  · rw [seats]
    exact (Standing.lawful_append.mp plays.orders.lawful).1
  rcases disk with same | none
  · rw [card, same]
    exact plays.books.trails
  · refine .inl ?_
    rw [none]
    rfl

theorem Plays.discarded {opened : Standing τ} (plays : r.Plays seen view opened barred game turns) :
    r.discardGame.disk = r.disk ∨ r.discardGame.disk.log = none := by
  unfold discardGame
  cases log : r.log with
  | none => exact .inl rfl
  | some written =>
    refine .inr ?_
    have named := (plays.books.log written log).1
    unfold RoomLog.delete
    rw [Option.elim_some, named]
    rfl

theorem farewell_sealed {out : List Output} {player : PlayerId}
    (farewell : out = r.out ∨ ∃ link, out = r.out ++ [.turn player link .close]) :
    sealedFrames out = sealedFrames r.out := by
  rcases farewell with rfl | ⟨link, rfl⟩
  · rfl
  · rw [sealedFrames_push]
    exact append_nil _

theorem handOn_empty {player : PlayerId} (empty : r.members = []) :
    r.handOn player = { r.discardGame with closed := true } := by
  unfold handOn
  split
  · rfl
  · next some_ =>
    cases empty.symm.trans some_

theorem Sound.departed {index : Nat} {member : Member} {kicked : Bool} {calls : Nat} {out : List Output}
    (sound : r.Sound seen view quiet frames) (ruled : r.Ruled menu choice) (views : choice.Views view seen)
    (live : r.closed = false) (found : r.members[index]? = some member)
    (keeps : quiet → r.phase = .lobby → ((r.depart index member.player kicked).handOn member.player).banned = []) :
    ({ (r.depart index member.player kicked).handOn member.player with calls, out } : Room σ).Sound seen view
      quiet frames := by
  have left : r.members.eraseIdx index = [] ∨ ∃ first rest, r.members.eraseIdx index = first :: rest := by
    cases r.members.eraseIdx index <;> simp
  cases phase : r.phase with
  | lobby =>
    obtain ⟨gathers, rfl⟩ := sound.waiting live phase
    rcases left with empty | ⟨first, rest, left⟩
    · rw [depart_lobby _ _ _ phase, handOn_empty empty]
      apply gathers.ending rfl
      show r.discardGame.disk = r.disk
      unfold discardGame
      rw [gathers.unlogged.1]
      rfl
    · have others : r.members.eraseIdx index ≠ [] := by simp [left]
      obtain ⟨lobby', gathers'⟩ := gathers.departed phase found others kicked fun still => keeps still phase
      obtain ⟨state, distinct, few, owner, banned, unlogged⟩ := gathers'
      refine .lobby ?_ lobby' ⟨state, distinct, few, owner, banned, unlogged⟩
      rw [depart_lobby _ _ _ phase, handOn_left left]
      exact live
  | running game =>
    obtain ⟨owner, barred, turns, plays, banned, encodes⟩ := sound.running live phase
    rcases left with empty | ⟨first, rest, left⟩
    · rw [depart_running _ _ _ phase, handOn_empty empty]
      exact plays.ending banned encodes rfl rfl plays.discarded
    have others : r.members.eraseIdx index ≠ [] := by simp [left]
    obtain ⟨running', plays'⟩ := plays.departed ruled.ruleset views phase (opening_tabled _ _ _) found others kicked
    obtain ⟨orders, bans, players, contents, seated, books⟩ := plays'
    refine .playing ?_ running' ⟨orders, bans, players, contents, seated, books⟩ banned encodes
    rw [depart_running _ _ _ phase, handOn_left left]
    exact live

theorem Sound.published {game' : Game} {frontier : Nat} {sent : List Bytes}
    (plays : r.Plays seen view (seen.opening owner) barred game turns) (ruled : r.Ruled menu choice)
    (views : choice.Views view seen) (live : r.closed = false) (banned : Barred quiet barred)
    (encodes : Forall₂ Encodes turns (r.ledger before)) (sealed : game.sealPending frontier = (game', .ok sent))
    (forward : game.sealedThrough ≤ frontier) (saves : Saves) :
    ((r.withGame { game' with saves }).publish o sent).Sound seen view quiet
      (((r.withGame { game' with saves }).publish o sent).ledger before) := by
  obtain ⟨fresh, encodes', phase, plays', frames⟩ :=
    plays.published ruled.ruleset views Nat.one_pos sealed forward saves
  have more : ((r.withGame { game' with saves }).publish o sent).ledger before = r.ledger before ++ sent := by
    unfold ledger
    rw [frames, append_assoc]
  obtain ⟨_, _, _, _, _, _, _, same, _⟩ := publish_eq sent
  rw [more]
  refine .playing ?_ phase plays' banned (rel_append encodes encodes')
  rw [same]
  exact live

theorem Sound.failed {game' : Game} {state : σ} {code : CloseCode} {reason : String}
    (plays : r.Plays seen view (seen.opening owner) barred game turns)
    (banned : Barred quiet barred) (encodes : Forall₂ Encodes turns (r.ledger before)) :
    (({ r with state, phase := .running game' } : Room σ).closeAll code reason).Sound seen view quiet
      ((({ r with state, phase := .running game' } : Room σ).closeAll code reason).ledger before) := by
  have sealed := closeAll_sealed (r := { r with state, phase := .running game' }) code reason
  have same : (({ r with state, phase := .running game' } : Room σ).closeAll code reason).ledger before =
    r.ledger before := by
    unfold ledger
    rw [sealed]
  obtain ⟨_, _, closed, _⟩ := closeAll_silent code reason
  rw [same, closed]
  exact plays.ending banned encodes rfl rfl (.inl rfl)

theorem Sound.deed (sound : r.Sound seen view quiet (r.ledger before)) (ruled : r.Ruled menu choice)
    (views : choice.Views view seen) (keeps : quiet → r.phase = .lobby → r'.banned = []) (deed : Deed .all o r r') :
    r'.Sound seen view quiet (r'.ledger before) := by
  cases deed with
  | act live act => exact sound.calms live act.calms
  | @ordered game player clientSeq payload live running valid =>
    obtain ⟨owner, barred, turns, plays, banned, encodes⟩ := sound.running live running
    have permits (event : Event) (body : event.body = .command player clientSeq payload) :
        (game.stands (seen.opening owner).origin (view r.state) r.owner).Permits seen.ruleset
          r.maxPlayers.toNat event := by
      unfold Standing.Permits
      rw [body]
      rw [ruled.ruleset] at valid
      exact views.valid valid
    exact .playing live rfl (plays.ordered ruled.ruleset views rfl permits) banned encodes
  | sat new now live lobby fresh space =>
    obtain ⟨gathers, none⟩ := sound.waiting live lobby
    change Sound seen view quiet _ (r.ledger before)
    rw [none]
    exact .lobby live lobby (gathers.sat fresh space)
  | entered new now live running fresh space =>
    obtain ⟨owner, barred, turns, plays, banned, encodes⟩ := sound.running live running
    exact .playing live rfl (plays.entered ruled.ruleset views fresh space rfl rfl) banned encodes
  | @departed index member kicked calls out live seat farewell =>
    have same : ledger before
      ({ (r.depart index member.player kicked).handOn member.player with calls, out } : Room σ) =
        r.ledger before := by
      unfold ledger
      rw [← farewell_sealed farewell]
    rw [same]
    exact sound.departed ruled views live seat keeps
  | expired live running _ =>
    obtain ⟨owner, barred, turns, plays, banned, encodes⟩ := sound.running live running
    exact plays.ending banned encodes rfl rfl plays.discarded
  | started live lobby seated same =>
    obtain ⟨gathers, none⟩ := sound.waiting live lobby
    change Sound seen view quiet _ (r.ledger before)
    rw [none]
    exact .playing live rfl (gathers.started ruled.ruleset views same) gathers.banned .nil
  | logOpened live running first only joined =>
    obtain ⟨owner, barred, turns, plays, banned, encodes⟩ := sound.running live running
    have opened := plays.logOpened (o := o) first only joined
    obtain ⟨disk, calls, log, logged⟩ := openLog_eq _
    rw [logged] at opened ⊢
    exact .playing live running opened banned encodes
  | @saved game game' state point frames now _ live running free save =>
    obtain ⟨rfl, sealed, _⟩ := Game.save_eq save
    obtain ⟨owner, barred, turns, plays, banned, encodes⟩ := sound.running live running
    have permits (event : Event) (body : event.body = .save) :
        (game.stands (seen.opening owner).origin (view r.state) r.owner).Permits seen.ruleset
          r.maxPlayers.toNat event := by
      unfold Standing.Permits
      rw [body]
      trivial
    have ordered := plays.ordered ruled.ruleset views rfl permits
    exact Sound.published ordered ⟨ruled.chosen, ruled.ruleset, ruled.valid, ruled.seats⟩ views live
      banned encodes sealed le_rfl _
  | unsaved live running save =>
    obtain ⟨owner, barred, turns, plays, banned, encodes⟩ := sound.running live running
    exact Sound.failed plays banned encodes
  | @sealed game game' frontier pacer frames now live running paced sealed =>
    obtain ⟨owner, barred, turns, plays, banned, encodes⟩ := sound.running live running
    have forward := game.pacer.advance_forward (now - game.lastTick) game.speed
      (slowestPacer r.members) game.sealedThrough
    rw [paced] at forward
    obtain ⟨_, same, ticked⟩ := plays.calm running (.played running ⟨pacer, _, now, _, _, _, rfl⟩)
    cases same
    exact Sound.published ticked ⟨ruled.chosen, ruled.ruleset, ruled.valid, ruled.seats⟩ views live banned
      encodes sealed forward game'.saves
  | unsealed now live running sealed =>
    obtain ⟨owner, barred, turns, plays, banned, encodes⟩ := sound.running live running
    exact Sound.failed plays banned encodes

/-- What no deed changes; a game is not left, and the players barred stay barred. -/
structure Keeps (r r' : Room σ) : Prop where
  rules : r'.rules = r.rules
  ruleset : r'.ruleset = r.ruleset
  settings : r'.settings = r.settings
  maxPlayers : r'.maxPlayers = r.maxPlayers
  lobby : r'.phase = .lobby → r.phase = .lobby
  banned : r.banned ⊆ r'.banned

theorem Keeps.refl (r : Room σ) : Keeps r r := ⟨rfl, rfl, rfl, rfl, fun lobby => lobby, Subset.refl _⟩

theorem Keeps.trans {middle : Room σ} (keeps : Keeps r middle) (onward : Keeps middle r') : Keeps r r' :=
  ⟨onward.rules.trans keeps.rules, onward.ruleset.trans keeps.ruleset,
    onward.settings.trans keeps.settings, onward.maxPlayers.trans keeps.maxPlayers, keeps.lobby ∘ onward.lobby,
    Subset.trans keeps.banned onward.banned⟩

theorem depart_keeps (index : Nat) (player : PlayerId) (kicked : Bool) :
    Keeps r ((r.depart index player kicked).handOn player) := by
  have barred : r.banned ⊆ (r.bar player kicked).banned := by
    unfold bar
    split
    · exact fun other among => mem_insert_of_mem among
    · exact Subset.refl _
  have left : Keeps r (r.depart index player kicked) := by
    cases phase : r.phase with
    | lobby =>
      rw [depart_lobby _ _ _ phase]
      exact ⟨rfl, rfl, rfl, rfl, fun _ => phase, barred⟩
    | running game =>
      rw [depart_running _ _ _ phase]
      exact ⟨rfl, rfl, rfl, rfl, fun none => (nomatch none), barred⟩
  apply left.trans
  unfold handOn
  split
  · exact ⟨rfl, rfl, rfl, rfl, fun lobby => lobby, Subset.refl _⟩
  · split
    · exact ⟨rfl, rfl, rfl, rfl, fun lobby => lobby, Subset.refl _⟩
    · exact .refl _

theorem Deed.keeps (deed : Deed .all o r r') : Keeps r r' := by
  cases deed with
  | act live act =>
    have lobby : r'.phase = .lobby → r.phase = .lobby := by
      intro lobby
      cases phase : r.phase with
      | lobby => rfl
      | running game =>
        obtain ⟨_, running, _⟩ := Acts.running (.single act) phase
        cases lobby.symm.trans running
    obtain ⟨_, _, _, _, _, _, rfl⟩ := Acts.eq (.single act)
    exact ⟨rfl, rfl, rfl, rfl, lobby, Subset.refl _⟩
  | ordered | entered => exact ⟨rfl, rfl, rfl, rfl, fun none => (nomatch none), Subset.refl _⟩
  | sat | expired => exact ⟨rfl, rfl, rfl, rfl, fun lobby => lobby, Subset.refl _⟩
  | started live lobby => exact ⟨rfl, rfl, rfl, rfl, fun _ => lobby, Subset.refl _⟩
  | departed =>
    obtain ⟨rules, ruleset, settings, maxPlayers, lobby, banned⟩ := r.depart_keeps _ _ _
    exact ⟨rules, ruleset, settings, maxPlayers, lobby, banned⟩
  | logOpened =>
    obtain ⟨_, _, _, logged⟩ := openLog_eq _
    rw [logged]
    exact ⟨rfl, rfl, rfl, rfl, fun lobby => lobby, Subset.refl _⟩
  | saved | sealed =>
    obtain ⟨_, _, _, _, _, _, _, published, _⟩ := publish_eq _
    rw [published]
    exact ⟨rfl, rfl, rfl, rfl, fun none => (nomatch none), Subset.refl _⟩
  | unsaved | unsealed =>
    obtain ⟨_, _, closed, _⟩ := closeAll_silent _ _
    rw [closed]
    exact ⟨rfl, rfl, rfl, rfl, fun none => (nomatch none), Subset.refl _⟩

theorem Ruled.same (ruled : r.Ruled menu choice) (rules : r'.rules = r.rules) (ruleset : r'.ruleset = choice.ruleset)
    (settings : r'.settings = r.settings) (maxPlayers : r'.maxPlayers = r.maxPlayers) : r'.Ruled menu choice :=
  ⟨by rw [rules, ruled.chosen], ruleset, by rw [settings, ruled.valid], by rw [maxPlayers]; exact ruled.seats⟩

theorem Ruled.keeps (ruled : r.Ruled menu choice) (keeps : Keeps r r') : r'.Ruled menu choice :=
  ruled.same keeps.rules (keeps.ruleset.trans ruled.ruleset) keeps.settings keeps.maxPlayers

section
variable (sound : r.Sound seen view quiet (r.ledger before))
include sound

theorem Sound.deeds (ruled : r.Ruled menu choice) (views : choice.Views view seen)
    (deeds : Deeds .all o r r') (keeps : quiet → r.phase = .lobby → r'.banned = []) :
    Keeps r r' ∧ r'.Sound seen view quiet (r'.ledger before) := by
  induction deeds with
  | refl => exact ⟨.refl r, sound⟩
  | @tail middle r' deeds deed ih =>
    have onward := deed.keeps
    -- Nobody is let back in: if nobody is barred at the end of a step, nobody is on its way.
    have clean (still : quiet) (lobby : r.phase = .lobby) : middle.banned = [] := by
      have none := onward.banned
      rw [keeps still lobby] at none
      exact eq_nil_of_subset_nil none
    obtain ⟨kept, sound'⟩ := ih clean
    exact ⟨kept.trans onward,
      sound'.deed (ruled.keeps kept) views (fun still lobby => keeps still (kept.lobby lobby)) deed⟩

theorem Sound.finished (live : r.closed = false) (done : Rewrite)
    (writes : Nat → Write) (renamed : Bool) : Keeps r (r.finishCompaction done writes renamed) ∧
      (r.finishCompaction done writes renamed).Sound seen view quiet
      ((r.finishCompaction done writes renamed).ledger before) := by
  obtain ⟨disk, log, compaction, compactAt, finished⟩ := finishCompaction_eq done writes renamed
  have kept : Keeps r (r.finishCompaction done writes renamed) := by
    rw [finished]
    exact ⟨rfl, rfl, rfl, rfl, fun lobby => lobby, Subset.refl _⟩
  refine ⟨kept, ?_⟩
  have same : (r.finishCompaction done writes renamed).ledger before = r.ledger before := by
    rw [finished]
    rfl
  have live' : (r.finishCompaction done writes renamed).closed = false := by
    rw [finished]
    exact live
  rw [same]
  cases phase : r.phase with
  | lobby =>
    obtain ⟨gathers, _⟩ := sound.waiting live phase
    have idle : r.finishCompaction done writes renamed = r := by
      unfold finishCompaction
      rw [gathers.unlogged.2.1]
    rw [idle]
    exact sound
  | running game =>
    obtain ⟨owner, barred, turns, plays, banned, encodes⟩ := sound.running live phase
    have running' : (r.finishCompaction done writes renamed).phase = .running game := by
      rw [finished]
      exact phase
    exact .playing live' running' (plays.finished done writes renamed) banned encodes

theorem Sound.step (ruled : r.Ruled menu choice) (views : choice.Views view seen)
    (step : Step r r') (keeps : quiet → r.phase = .lobby → r'.banned = []) :
    r'.Ruled menu choice ∧ r'.Sound seen view quiet (r'.ledger before) := by
  have both : Keeps r r' ∧ r'.Sound seen view quiet (r'.ledger before) := by
    cases step with
    | handled o now command live =>
      exact sound.deeds ruled views (handle_deeds now command live (.inl rfl) (.inl rfl) (.inl rfl) (.inl rfl)) keeps
    | saved o now live => exact sound.deeds ruled views (tickSaves_deeds rfl rfl now live) keeps
    | sealed o now live => exact sound.deeds ruled views (tickSeal_deeds now) keeps
    | compacted done writes renamed live => exact sound.finished live done writes renamed
  exact ⟨ruled.keeps both.1, both.2⟩

end

theorem Sound.trails (sound : r.Sound seen view quiet frames) : ∃ owner barred turns, Barred quiet barred ∧
    Chain ⟨1, 1, 0⟩ turns ∧ (seen.opening owner).Lawful seen.ruleset r.maxPlayers.toNat (turns.flatMap Turn.events) ∧
    Trails seen (seen.opening owner) barred r.card r.disk turns ∧ Forall₂ Encodes turns frames := by
  cases sound with
  | lobby _ _ gathers =>
    refine ⟨r.owner, r.banned, [], gathers.banned, trivial, trivial, .inl ?_, .nil⟩
    rw [gathers.unlogged.2.2]
    rfl
  | playing _ _ plays banned encodes =>
    exact ⟨_, _, _, banned, plays.orders.tracks.keeps.chain, (Standing.lawful_append.mp plays.orders.lawful).1,
      plays.books.trails, encodes⟩
  | ending _ owner barred turns chain lawful trails banned encodes =>
    exact ⟨owner, barred, turns, banned, chain, lawful, trails, encodes⟩

theorem Barred.known {known : List PlayerId} (banned : Barred quiet barred) (knows : known = [] ∨ known = barred) :
    Barred quiet known := by
  rcases knows with rfl | rfl
  · exact ⟨nodup_nil, Nat.zero_le _, fun _ => rfl⟩
  · exact banned

theorem Sound.restarted {env : RoomEnv} {verify : Bytes → Bytes → Bool} {pointer : Option Agreed}
    {disk disk' : Disk} {result : Except RecoverError (Option (Room σ))} (sound : r.Sound seen view quiet frames)
    (ruled : r.Ruled menu choice) (views : choice.Views view seen) (crashes : r.disk.Crashes disk)
    (recovered : recover o menu env verify r.id pointer now disk = (disk', result)) :
    ({ r with disk := disk', closed := true } : Room σ).Sound seen view quiet frames ∧
      ∀ r' game, result = .ok (some r') → r'.phase = .running game →
        r'.Ruled menu choice ∧ r'.Sound seen view quiet (r'.ledger (frames.take (game.nextTurn - 1))) := by
  obtain ⟨owner, barred, turns, banned, chain, lawful, trails, encodes⟩ := sound.trails
  obtain ⟨count, cut⟩ := crashes
  obtain ⟨known, turns', knows, fewer, kept, rooms⟩ := recover_keeps (trails.cut cut) views banned.distinct ruled.chosen
    (opening_tabled _ _ _) lawful recovered
  have known := banned.known knows
  refine ⟨.ending rfl owner _ turns chain lawful (kept.mono fewer) known encodes, ?_⟩
  intro r' game found running
  obtain ⟨_, card, ruleset, live, silent, _, running', plays, _⟩ := rooms r' found
  cases running.symm.trans running'
  refine ⟨ruled.same (congrArg Card.rules card) ruleset (congrArg Card.settings card) (congrArg Card.maxPlayers card),
    ?_⟩
  have counted : game.nextTurn = 1 + turns'.length := plays.orders.tracks.keeps.nextTurn
  have ledger : r'.ledger (frames.take (game.nextTurn - 1)) = frames.take turns'.length := by
    unfold Room.ledger
    rw [silent, counted, Nat.add_sub_cancel_left]
    exact append_nil _
  rw [ledger]
  refine .playing live running plays known ?_
  rw [prefix_iff_eq_take.mp fewer, length_take_of_le fewer.length_le]
  exact forall₂_take _ encodes

theorem mem_of_find {choice : RulesChoice σ} {name : RulesName} (chosen : menu.find (some name) = some choice) :
    choice ∈ menu :=
  mem_of_find?_eq_some chosen

theorem Lives.sound {allowed : Room σ → Room σ → Prop} (lives : Lives menu allowed r before)
    {seen : RulesChoice σ → RulesChoice τ} (views : ∀ choice ∈ menu, choice.Views view (seen choice))
    (keeps : quiet → ∀ r r' : Room σ, allowed r r' → r.phase = .lobby → r.banned = [] → r'.banned = []) :
    ∃ choice, r.Ruled menu choice ∧ r.Sound (seen choice) view quiet (r.ledger before) := by
  induction lives with
  | @new choice spec owner now disk unlogged chosen ruleset state valid seats =>
    have fresh : view spec.state = (seen choice).fresh := by
      rw [state]
      exact (views choice (mem_of_find chosen)).fresh
    refine ⟨choice, ⟨chosen, ruleset, valid, seats⟩,
      .lobby rfl rfl ⟨fresh, ?_, ?_, ⟨_, [], rfl, rfl⟩, ?_, rfl, rfl, unlogged⟩⟩
    · exact nodup_singleton _
    · exact seats
    · exact ⟨nodup_nil, Nat.zero_le _, fun _ => rfl⟩
  | @stepped r r' before lives step may ih =>
    obtain ⟨choice, ruled, sound⟩ := ih
    refine ⟨choice, sound.step ruled (views choice (mem_of_find ruled.chosen)) step ?_⟩
    intro still lobby
    have live : r.closed = false := by cases step <;> assumption
    exact keeps still r r' may lobby ((sound.waiting live lobby).1.banned.nobody still)
  | restarted lives crashes recovered running ih =>
    obtain ⟨choice, ruled, sound⟩ := ih
    exact ⟨choice, (sound.restarted ruled (views choice (mem_of_find ruled.chosen)) crashes recovered).2 _
      _ rfl running⟩
  | refused lives crashes recovered nobody ih =>
    obtain ⟨choice, ruled, sound⟩ := ih
    exact ⟨choice, ⟨ruled.chosen, ruled.ruleset, ruled.valid, ruled.seats⟩,
      (sound.restarted ruled (views choice (mem_of_find ruled.chosen)) crashes recovered).1⟩

theorem Lives.runs (lives : Lives menu (fun _ _ => True) r before) (runs : Runs r r') :
    Lives menu (fun _ _ => True) r' before := by
  induction runs with
  | refl => exact lives
  | tail _ step ih => exact .stepped ih step trivial

/-! Three players order things under rules that take two commands. One of them leaves, a crash loses the
turn that says so, and the two others come back to the table that the log still has. -/

def rationing : Ruleset Nat where
  validate taken _ _ := if taken < 2 then .ok () else .error 1
  apply taken event := match event.body with
    | .command .. => taken + 1
    | _ => taken
  save taken := some (replicate taken 0)
  restore _ saved := .ok saved.length

def rationed : RulesChoice Nat := { name := plainSpec.rules, ruleset := rationing, fresh := 0 }

theorem rationed_restores : ∀ choice ∈ [rationed], choice.Restores := by
  intro choice only
  obtain rfl := mem_singleton.mp only
  rintro taken _ ⟨⟩
  exact congrArg Except.ok length_replicate

def rationedRoom : Room Nat :=
  .new { plainSpec with ruleset := rationing, state := 0 } (plainPlayer 1) 0 { log := none, compacting := none }

def rationedOrders : List RoomCommand :=
  startTogether [2, 3] ++
    [1, 2, 3].map fun number => .intent (plainPlayer number).player 1 ⟨[number], Nat.le_of_ble_eq_true rfl⟩

def startedRoom : Room Nat := rationedRoom.after 0 ((startTogether [2, 3]).take 8)

def orderedRoom : Room Nat := (rationedRoom.after 0 rationedOrders).tickSeal steady (Duration.ofSecs 1)

def crashedRoom : Room Nat :=
  (orderedRoom.after (Duration.ofSecs 1) [.leave (plainPlayer 2).player]).tickSeal steady (Duration.ofSecs 2)

def startBytes : Bytes := Wire.startRecord.encode (startedRoom.startRecord 7 none)

def keptTurn : Bytes := (sealedFrames orderedRoom.out).flatten

def lostTurn : Bytes := ((sealedFrames crashedRoom.out).drop 1).flatten

def keptLog : RoomLog := { name := .log, written := (encode crc32 [startBytes, keptTurn]).length, replaces := false }

def keptDisk : Disk := { crashedRoom.disk with log := some (encode crc32 [startBytes, keptTurn]) }

/-- What a new process makes of a log's records, once it has read them. -/
def reopened (menu : RulesMenu σ) (file : RoomId) (now : Instant) (log : RoomLog) (disk : Disk) (first : Bytes)
    (records : List Bytes) : Option (Room σ) :=
  match readStart menu file first with
  | .error _ => none
  | .ok (start, choice) =>
    match start.replayed choice now records with
    | .error _ => none
    | .ok replay =>
      if replay.based = false ∨ replay.game.seated.isEmpty = true then none
      else match encodeFrame Proto.Wire.turnMessage (marker start (replay.game.beginHistory 7)) turnMaxFrame with
        | .error _ => none
        | .ok frame => match log.append frame .done disk with
          | (_, .error _) => none
          | (disk, .ok log) =>
            some (restored steady plainSpec.env (fun _ _ => true) none now start choice replay log disk)

theorem recover_reopened {file : RoomId} {now : Instant} {written : Nat} {disk : Disk} {first : Bytes}
    {records : List Bytes} (stored : Stored { name := .log, written, replaces := false } disk (first :: records))
    (found : reopened menu file now { name := .log, written, replaces := false } disk first records = some r) :
    ∃ disk', recover steady menu plainSpec.env (fun _ _ => true) file none now disk = (disk', .ok (some r)) := by
  have opens := stored.reopened
  unfold reopen at opens
  split at opens
  · cases opens
  rename_i reader read
  split at opens
  · next into =>
    cases opens
    unfold reopened at found
    split at found
    · cases found
    rename_i start choice started
    split at found
    · cases found
    rename_i replay replays
    split at found
    · cases found
    rename_i settled
    obtain ⟨based, seated⟩ := not_or.mp settled
    split at found
    · cases found
    rename_i frame framed
    split at found
    · cases found
    rename_i disk' log' appended
    cases found
    have replayed : replayLog menu file now disk = .ok (start, choice, replay, reader) := by
      rw [replayLog_eq read, started]
      simp only [Run.ok_bind, replays, Bool.eq_true_of_not_eq_false based, if_true]
    refine ⟨disk', ?_⟩
    unfold recover
    rw [replayed]
    dsimp only
    rw [if_neg seated, into]
    dsimp only
    rw [show steady.history 0 = 7 from rfl, framed]
    dsimp only
    rw [show steady.write 0 = .done from rfl, appended]
  · cases opens

/-- The next turn of a room's game, and who sits at its table. -/
def standing (r : Room σ) : Option (Nat × List PlayerId) :=
  match r.phase with
  | .lobby => none
  | .running game => some (game.nextTurn, game.seated.map Prod.fst)

theorem standing_running (running : r.phase = .running game) :
    r.standing = some (game.nextTurn, game.seated.map Prod.fst) := by
  unfold standing
  rw [running]

def reopenedRoom : Option (Room Nat) :=
  reopened [rationed] crashedRoom.id (Duration.ofSecs 60) keptLog keptDisk startBytes [keptTurn]

def restartedRoom : Room Nat := reopenedRoom.getD crashedRoom

def resumedRoom : Room Nat :=
  (restartedRoom.after (Duration.ofSecs 61)
    ([1, 3].map (fun number => .join { plainPlayer number with link := 2 } (.fill 32 0) none none none) ++
      [.leave (plainPlayer 2).player])).tickSeal steady (Duration.ofSecs 62)

theorem crashedRoom_lives : Lives [rationed] (fun _ _ => True) crashedRoom [] := by
  have found : RulesMenu.find [rationed] (some plainSpec.rules) = some rationed := by
    unfold RulesMenu.find
    exact find?_cons_of_pos (by decide)
  have created : Lives [rationed] (fun _ _ => True) rationedRoom [] :=
    .new _ (plainPlayer 1) 0 _ rfl found rfl rfl (by decide) (by decide)
  have ordered : Lives [rationed] (fun _ _ => True) orderedRoom [] :=
    .stepped (created.runs (after_runs (by decide +kernel))) (.sealed steady _ (by decide +kernel)) trivial
  exact .stepped (ordered.runs (after_runs (by decide +kernel))) (.sealed steady _ (by decide +kernel)) trivial

set_option maxRecDepth 100000 in
theorem crashedRoom_log : crashedRoom.disk.log = some (encode crc32 [startBytes, keptTurn, lostTurn]) := rfl

theorem keptDisk_crashed : crashedRoom.disk.Crashes keptDisk := by
  refine ⟨(encode crc32 [startBytes, keptTurn]).length, ?_⟩
  rw [crashedRoom_log, Option.map_some,
    show [startBytes, keptTurn, lostTurn] = [startBytes, keptTurn] ++ [lostTurn] from rfl, encode_append, take_left]
  rfl

theorem resumedRoom_lives : Lives [rationed] (fun _ _ => True) resumedRoom [keptTurn] := by
  have stored : Stored keptLog keptDisk [startBytes, keptTurn] :=
    ⟨rfl, rfl, ⟨by decide +kernel, by decide +kernel, trivial⟩, by decide +kernel⟩
  have found : reopenedRoom = some restartedRoom := by
    obtain ⟨r, found⟩ : ∃ r, reopenedRoom = some r := Option.isSome_iff_exists.mp (by decide +kernel)
    unfold restartedRoom
    rw [found]
    rfl
  obtain ⟨disk, recovered⟩ := recover_reopened stored found
  have restarted : Lives [rationed] (fun _ _ => True) restartedRoom [keptTurn] := by
    have next : restartedRoom.standing.map Prod.fst = some 2 := by decide +kernel
    cases running : restartedRoom.phase with
    | lobby => exact absurd running (by decide +kernel)
    | running game =>
      rw [standing_running running] at next
      have lives := Lives.restarted crashedRoom_lives keptDisk_crashed recovered running
      have first : (crashedRoom.ledger []).take 1 = [keptTurn] := by decide +kernel
      rwa [show game.nextTurn = 2 from Option.some.inj next, first] at lives
  exact .stepped (restarted.runs (after_runs (by decide +kernel))) (.sealed steady _ (by decide +kernel)) trivial

/-- Whatever became of a room, the events of its turns are numbered from one without gaps, and each
command among them was accepted by the rules in the state that the events before it lead to. -/
theorem log_is_lawful {allowed : Room σ → Room σ → Prop} (lives : Lives menu allowed r before)
    (restores : ∀ choice ∈ menu, choice.Restores) :
    ∃ choice turns, menu.find (some r.rules) = some choice ∧ r.ruleset = choice.ruleset ∧
      Forall₂ Encodes turns (r.ledger before) ∧ Numbered 1 (turns.flatMap Turn.events) ∧
      ∀ past event later player clientSeq payload, turns.flatMap Turn.events = past ++ event :: later →
        event.body = .command player clientSeq payload →
        choice.ruleset.validate (past.foldl choice.ruleset.apply choice.fresh) player payload = .ok () := by
  obtain ⟨choice, ruled, sound⟩ := lives.sound (fun choice among => RulesChoice.Restores.views (restores choice among))
    fun (none : False) => none.elim
  obtain ⟨owner, _, turns, _, chain, lawful, _, encodes⟩ := sound.trails
  refine ⟨choice, turns, ruled.chosen, ruled.ruleset, encodes, chain.numbered, ?_⟩
  intro past event later player clientSeq payload events command
  rw [events] at lawful
  exact Standing.Lawful.valid lawful command

theorem log_is_lawful_resumed : ∃ turns : List Turn,
    Lives [rationed] (fun _ _ => True) resumedRoom [keptTurn] ∧ turns.length = 2 ∧
    Forall₂ Encodes turns (resumedRoom.ledger [keptTurn]) ∧
    Numbered 1 (turns.flatMap Turn.events) ∧
    ∀ past event later player clientSeq payload, turns.flatMap Turn.events = past ++ event :: later →
      event.body = .command player clientSeq payload → past.foldl rationing.apply 0 < 2 := by
  obtain ⟨choice, turns, chosen, _, encodes, numbered, accepted⟩ := log_is_lawful resumedRoom_lives rationed_restores
  obtain rfl := mem_singleton.mp (mem_of_find chosen)
  have two : (resumedRoom.ledger [keptTurn]).length = 2 := by decide +kernel
  refine ⟨turns, resumedRoom_lives, by rw [encodes.length_eq, two], encodes, numbered, ?_⟩
  intro past event later player clientSeq payload events command
  by_contra refused
  have valid := accepted past event later player clientSeq payload events command
  cases (if_neg refused).symm.trans valid

theorem Lives.begun {allowed : Room σ → Room σ → Prop} (lives : Lives menu allowed r before) :
    r.closed = true ∨ ∃ r₀ first filed, Begins r₀ first filed ∧ Runs r₀ r := by
  induction lives with
  | new spec owner now disk => exact .inr ⟨_, _, _, .new spec owner now disk, .refl⟩
  | @stepped r r' before _ step _ ih =>
    rcases ih with closed | ⟨r₀, first, filed, begins, runs⟩
    · have live : r.closed = false := by cases step <;> assumption
      cases live.symm.trans closed
    · exact .inr ⟨r₀, first, filed, begins, runs.tail step⟩
  | restarted _ _ recovered => exact .inr ⟨_, _, _, .recovered recovered, .refl⟩
  | refused => exact .inl rfl

/-- In an open room all members are different players, the owner is among them, there are no more
than the room has seats for, only linked members have a stream, and they sit at the game's table in
the order they came. -/
theorem table_in_order {allowed : Room σ → Room σ → Prop} (lives : Lives menu allowed r before)
    (live : r.closed = false) : (r.members.map Member.player).Nodup ∧ r.owner ∈ r.members.map Member.player ∧
      r.members.length ≤ r.maxPlayers.toNat ∧
      (∀ member ∈ r.members, member.streaming = true → member.link.isSome = true) ∧
      ∀ game, r.phase = .running game → r.members.map Member.player = game.seated.map Prod.fst := by
  have linked (member : Member) (seated : member ∈ r.members) (streaming : member.streaming = true) :
      member.link.isSome = true := by
    rcases lives.begun with closed | ⟨_, _, _, begins, runs⟩
    · cases live.symm.trans closed
    · obtain ⟨link, _, _, linked, _⟩ := (begins.streams.runs runs).delivered.streams member seated streaming
      rw [linked]
      rfl
  obtain ⟨choice, ruled, sound⟩ := lives.sound (fun choice _ => choice.blind_views) fun (none : False) => none.elim
  cases phase : r.phase with
  | lobby =>
    obtain ⟨_, distinct, few, ⟨first, rest, members, owner⟩, _⟩ := (sound.waiting live phase).1
    refine ⟨distinct, ?_, few, linked, nofun⟩
    rw [members, owner]
    exact mem_cons_self
  | running game =>
    obtain ⟨_, _, _, plays, _, _⟩ := sound.running live phase
    have table := plays.orders.tabled (opening_tabled _ _ _)
    have players := plays.players
    have size : game.seated.length = r.members.length := by
      rw [← length_map Prod.fst, ← players, length_map]
    have someone : game.seated ≠ [] := by
      intro empty
      rw [empty] at size
      exact plays.seated (eq_nil_of_length_eq_zero size.symm)
    obtain ⟨first, rest, seated⟩ := exists_cons_of_ne_nil someone
    refine ⟨?_, ?_, ?_, linked, ?_⟩
    · rw [players]
      exact table.distinct
    · have owner : r.owner = first.1 := table.owner first rest seated
      rw [players, seated, owner]
      exact mem_cons_self
    · rw [← size]
      exact table.few
    · rintro _ ⟨⟩
      exact players

theorem table_in_order_resumed :
    Lives [rationed] (fun _ _ => True) resumedRoom [keptTurn] ∧ resumedRoom.closed = false ∧
    crashedRoom.members.length = 2 ∧ restartedRoom.members.length = 3 ∧ resumedRoom.members.length = 2 ∧
    (resumedRoom.members.map Member.player).Nodup ∧ resumedRoom.owner ∈ resumedRoom.members.map Member.player := by
  have live : resumedRoom.closed = false := by decide +kernel
  obtain ⟨distinct, owner, _⟩ := table_in_order resumedRoom_lives live
  exact ⟨resumedRoom_lives, live, by decide +kernel, by decide +kernel, by decide +kernel, distinct, owner⟩

end Sound

end Room

end Tpf3Mp.Server
