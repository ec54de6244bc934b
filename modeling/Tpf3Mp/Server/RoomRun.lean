import Tpf3Mp.Server.RoomStreams
import Tpf3Mp.Server.Standing

/-!
Runs of a room in one process: it begins new or recovered from its log, and takes commands, ticks and
the ends of rewrites in any order until it closes.
-/

namespace Tpf3Mp.Server
open Codec Proto Data Relation List

namespace Room
variable {σ : Type}

/-- One thing a running room does. A tick is seen in its two halves, and every step has an oracle of
its own. -/
inductive Step : Room σ → Room σ → Prop where
  | handled {r : Room σ} (o : Oracle) (now : Instant) (command : RoomCommand) (live : r.closed = false) :
      Step r (r.handle o now command).1
  | saved {r : Room σ} (o : Oracle) (now : Instant) (live : r.closed = false) : Step r (r.tickSaves o now)
  | sealed {r : Room σ} (o : Oracle) (now : Instant) (live : r.closed = false) : Step r (r.tickSeal o now)
  | compacted {r : Room σ} (done : Rewrite) (writes : Nat → Write) (renamed : Bool) (live : r.closed = false) :
      Step r (r.finishCompaction done writes renamed)

abbrev Runs : Room σ → Room σ → Prop := ReflTransGen Step

/-- A whole tick is two steps, or one if the saves close the room. -/
theorem onTick_runs {r : Room σ} (o : Oracle) (now : Instant) (live : r.closed = false) : Runs r (r.onTick o now) := by
  have saved : Runs r (r.tickSaves o now) := .single (.saved o now live)
  unfold onTick
  cases after : (r.tickSaves o now).closed with
  | false => exact saved.tail (.sealed o now after)
  | true =>
    rw [tickSeal, if_pos after]
    exact saved

/-- The number of the first turn in a disk's log, and the frames of its turns. -/
def loggedTurns (disk : Disk) : Nat × List Bytes :=
  match readRecords .log disk with
  | .ok (first :: records, _) =>
    ((((Wire.startRecord.decode first).map Prod.fst).bind StartRecord.base).elim 1 Base.firstTurn,
      records.filter fun frame => (decodeTurn frame).isSome)
  | _ => (1, [])

/-- How a room begins, with the first turn of its log and the turns logged before. -/
inductive Begins : Room σ → Nat → List Bytes → Prop where
  | new (spec : RoomSpec σ) (owner : NewMember) (now : Instant) (disk : Disk) : Begins (.new spec owner now disk) 1 []
  | recovered {o : Oracle} {menu : RulesMenu σ} {env : RoomEnv} {verify : Bytes → Bytes → Bool} {file : RoomId}
      {pointer : Option Agreed} {now : Instant} {disk disk' : Disk} {r : Room σ}
      (recovered : recover o menu env verify file pointer now disk = (disk', .ok (some r))) :
      Begins r (loggedTurns disk).1 (loggedTurns disk).2

end Room

namespace Replay
variable {σ : Type} {ruleset : Ruleset σ} {base : Option Base} {r r' : Replay σ} {first : Nat} {ledger : List Bytes}

theorem next_distinct (event : Event) (distinct : (r.game.seated.map Prod.fst).Nodup) :
    ((r.next ruleset event).game.seated.map Prod.fst).Nodup := by
  unfold next
  dsimp only
  split
  · unfold play
    split <;> exact seat_distinct event distinct
  · exact distinct

theorem Takes.distinct {frame : Bytes} (takes : r.Takes ruleset frame r')
    (distinct : (r.game.seated.map Prod.fst).Nodup) : (r'.game.seated.map Prod.fst).Nodup := by
  cases takes with
  | @turn turn decoded continues bounded =>
    show ((turn.events.foldl (next ruleset) r).game.seated.map Prod.fst).Nodup
    have step (r : Replay σ) (event : Event) (distinct : (r.game.seated.map Prod.fst).Nodup) :
        ((r.next ruleset event).game.seated.map Prod.fst).Nodup := next_distinct event distinct
    exact Run.foldl_preserves step distinct turn.events
  | marker => exact distinct

theorem Takes.files {frame : Bytes} (takes : r.Takes ruleset frame r') (files : r.game.Files first ledger) :
    r'.game.Files first (ledger ++ [frame].filter fun frame => (decodeTurn frame).isSome) := by
  cases takes with
  | @turn turn decoded continues bounded =>
    have read : decodeTurn frame = some turn := by
      unfold decodeTurn
      rw [decoded]
    obtain ⟨seated, state, owner, banned, folded⟩ := r.foldl_next_eq ruleset turn.events
    have played : (turn.events.foldl (next ruleset) r).game.Files first ledger := by
      rw [folded]
      exact ⟨files.nextTurn, files.low, files.high, files.window, files.numbered⟩
    have number : turn.number = (turn.events.foldl (next ruleset) r).game.nextTurn := by
      rw [folded]
      exact continues.number
    let logged : LoggedTurn := { firstEvent := r.game.nextEvent, sealedThrough := turn.sealedThrough, frame }
    have kept := played.keep (show Carries logged.frame _ from ⟨turn, number, .inr read⟩)
    simp only [filter_singleton, read, Option.isSome_some]
    exact ⟨kept.nextTurn, kept.low, kept.high, kept.window, kept.numbered⟩
  | @marker marker decoded _ _ _ =>
    have read : decodeTurn frame = none := by
      unfold decodeTurn
      rw [decoded]
    simp only [filter_singleton, read, Option.isSome_none, cond_false, append_nil]
    exact ⟨files.nextTurn, files.low, files.high, files.window, files.numbered⟩

theorem takeRecord_files {frame : Bytes} (taken : r.takeRecord ruleset base frame = .ok r')
    (files : r.game.Files first ledger) (distinct : (r.game.seated.map Prod.fst).Nodup) :
    r'.game.Files first (ledger ++ [frame].filter fun frame => (decodeTurn frame).isSome) ∧
      (r'.game.seated.map Prod.fst).Nodup := by
  obtain ⟨middle, read, settled⟩ := Run.bind_ok.mp taken
  have takes := (read_ok.mp read).2
  rw [(settle_ok settled).1]
  exact ⟨takes.files files, takes.distinct distinct⟩

theorem records_files {records : List Bytes} (taken : records.foldlM (takeRecord ruleset base) r = .ok r')
    (files : r.game.Files first ledger) (distinct : (r.game.seated.map Prod.fst).Nodup) :
    r'.game.Files first (ledger ++ records.filter fun frame => (decodeTurn frame).isSome) ∧
      (r'.game.seated.map Prod.fst).Nodup := by
  induction records generalizing r ledger with
  | nil =>
    cases taken
    exact ⟨by simpa using files, distinct⟩
  | cons frame records ih =>
    obtain ⟨middle, one, rest⟩ := Run.bind_ok.mp taken
    obtain ⟨files', distinct'⟩ := takeRecord_files one files distinct
    have all := ih rest files' distinct'
    rw [append_assoc, ← filter_append] at all
    exact all

end Replay

variable {now : Instant}

theorem StartRecord.replay_files {σ : Type} {start : StartRecord} {choice : RulesChoice σ}
    {replay : Replay σ} (begins : start.replay choice now = .ok replay) :
    replay.game.Files (start.base.elim 1 Base.firstTurn) [] ∧ (replay.game.seated.map Prod.fst).Nodup := by
  have opened (game : Game) (here : game.nextTurn = game.logFirstTurn) (empty : game.log = []) :
      game.Files game.logFirstTurn [] :=
    ⟨here, le_rfl, le_of_eq here.symm, by simp [empty], nofun⟩
  cases found : start.base with
  | none =>
    rw [StartRecord.replay_plain found begins]
    exact ⟨opened _ rfl rfl, nodup_nil⟩
  | some base =>
    obtain ⟨game, state, rebased, _, distinct, rfl⟩ := StartRecord.replay_based found begins
    obtain ⟨_, ⟨⟩⟩ := Option.ite_none_right_eq_some.mp rebased
    exact ⟨opened _ rfl rfl, distinct⟩

theorem replayLog_files {σ : Type} {menu : RulesMenu σ} {file : RoomId} {disk : Disk}
    {start : StartRecord} {choice : RulesChoice σ} {replay : Replay σ} {reader : LogReader}
    (done : replayLog menu file now disk = .ok (start, choice, replay, reader)) :
    replay.game.Files (Room.loggedTurns disk).1 (Room.loggedTurns disk).2 ∧
      (replay.game.seated.map Prod.fst).Nodup := by
  obtain ⟨first, records, read, started, replays, _⟩ := replayLog_ok done
  obtain ⟨begun, begins, replays⟩ := Run.bind_ok.mp replays
  obtain ⟨settled, settles, replays⟩ := Run.bind_ok.mp replays
  obtain ⟨files, distinct⟩ := StartRecord.replay_files begins
  have same := (Replay.settle_ok settles).1
  have files' : settled.game.Files (start.base.elim 1 Base.firstTurn) [] := by
    rw [same]
    exact files
  have distinct' : (settled.game.seated.map Prod.fst).Nodup := by
    rw [same]
    exact distinct
  have decoded : (Wire.startRecord.decode first).map Prod.fst = some start := by
    obtain ⟨start', found, checked⟩ := Run.bind_ok.mp started
    have kept : start' = start := by
      repeat' split at checked
      all_goals cases checked
      rfl
    cases decode : (Wire.startRecord.decode first).map Prod.fst with
    | none =>
      rw [decode] at found
      cases found
    | some other =>
      rw [decode] at found
      cases found
      rw [kept]
  have ledger : Room.loggedTurns disk =
      (start.base.elim 1 Base.firstTurn, records.filter fun frame => (decodeTurn frame).isSome) := by
    unfold Room.loggedTurns
    rw [read]
    dsimp only
    rw [decoded]
    rfl
  rw [ledger]
  exact Replay.records_files replays files' distinct'

namespace Room
variable {σ : Type} {r r' : Room σ} {first : Nat} {before : List Bytes}

theorem new_streams (spec : RoomSpec σ) (owner : NewMember) (now : Instant) (disk : Disk) :
    (Room.new spec owner now disk).Streams 1 [] := by
  have silent : ∀ member ∈ (Room.new spec owner now disk).members, member.streaming = false := by
    simp [Room.new, Member.new]
  refine ⟨⟨nodup_singleton _, fun member seated streaming => ?_⟩, fun _ => ⟨rfl, rfl, silent⟩,
    nofun⟩
  rw [silent member seated] at streaming
  cases streaming

theorem recovered_streams {o : Oracle} {menu : RulesMenu σ} {env : RoomEnv} {verify : Bytes → Bytes → Bool}
    {file : RoomId} {pointer : Option Agreed} {disk disk' : Disk}
    (recovered : recover o menu env verify file pointer now disk = (disk', .ok (some r))) :
    r.Streams (loggedTurns disk).1 (loggedTurns disk).2 := by
  obtain ⟨start, choice, replay, reader, cut, log, frame, log', replayed, _, _, _, _, rfl⟩ := recover_ok recovered
  obtain ⟨files, distinct⟩ := replayLog_files replayed
  generalize loggedTurns disk = ledger at files
  have total : ledger.2 ++ sealedFrames [] = ledger.2 := append_nil _
  refine ⟨⟨?_, fun member seated streaming => ?_⟩, nofun, ?_⟩
  · show ((replay.game.seated.map fun seat => Member.restored seat _ now).map Member.player).Nodup
    rw [List.map_map]
    exact distinct
  · obtain ⟨seat, _, rfl⟩ := mem_map.mp seated
    cases streaming
  rintro _ ⟨⟩
  refine .inr ?_
  show Game.Files _ _ (ledger.2 ++ sealedFrames [])
  rw [total]
  exact ⟨files.nextTurn, files.low, files.high, files.window, files.numbered⟩

theorem Begins.streams (begins : Begins r first before) : r.Streams first before := by
  cases begins with
  | new spec owner now disk => exact new_streams spec owner now disk
  | recovered recovered => exact recovered_streams recovered

theorem finishCompaction_eq (done : Rewrite) (writes : Nat → Write) (renamed : Bool) :
    ∃ disk log compaction compactAt, r.finishCompaction done writes renamed =
      { r with disk, log, compaction, compactAt } := by
  unfold finishCompaction
  split
  · exact ⟨_, _, _, _, rfl⟩
  · dsimp only
    split <;> exact ⟨_, _, _, _, rfl⟩

theorem Step.preserves {P : Room σ → Prop} (step : Step r r') (holds : P r)
    (deed : ∀ {o : Oracle} {r r' : Room σ}, P r → Deed .all o r r' → P r')
    (books : ∀ {r : Room σ} {disk log compaction compactAt}, P r → P { r with disk, log, compaction, compactAt }) :
    P r' := by
  have deeds {o : Oracle} {r' : Room σ} (deeds : Deeds .all o r r') : P r' := by
    induction deeds with
    | refl => exact holds
    | tail _ last ih => exact deed ih last
  cases step with
  | handled o now command live =>
    exact deeds (handle_deeds now command live (.inl rfl) (.inl rfl) (.inl rfl) (.inl rfl))
  | saved o now live => exact deeds (tickSaves_deeds rfl rfl now live)
  | sealed o now live => exact deeds (tickSeal_deeds now)
  | compacted done writes renamed live =>
    obtain ⟨disk, log, compaction, compactAt, same⟩ := r.finishCompaction_eq done writes renamed
    rw [same]
    exact books holds

theorem Streams.step (streams : r.Streams first before) (step : Step r r') : r'.Streams first before := by
  cases step with
  | handled o now command live =>
    exact streams.deeds (handle_deeds now command live (.inl rfl) (.inl rfl) (.inl rfl) (.inl rfl) : Deeds .all o _ _)
  | saved o now live => exact streams.deeds (tickSaves_deeds rfl rfl now live : Deeds .all o _ _)
  | sealed o now live => exact streams.deeds (tickSeal_deeds now : Deeds .all o _ _)
  | compacted done writes renamed live =>
    obtain ⟨disk, log, compaction, compactAt, same⟩ := r.finishCompaction_eq done writes renamed
    rw [same]
    exact streams.books live rfl rfl rfl

theorem Streams.runs (streams : r.Streams first before) (runs : Runs r r') : r'.Streams first before := by
  induction runs with
  | refl => exact streams
  | tail _ step ih => exact ih.step step

/-- Whatever a room did and whichever sends failed, a member's open stream carries exactly the turns
of the room's log from the one the stream starts with up to the last one sealed. -/
theorem streams_carry_log {r₀ : Room σ} {member : Member} (begins : Begins r₀ first before) (runs : Runs r₀ r)
    (seated : member ∈ r.members) (streaming : member.streaming = true) :
    ∃ game link start frames, r.phase = .running game ∧ member.link = some link ∧
      channel r.out member.player link = some (start, frames) ∧
      let ledger := before ++ sealedFrames r.out
      game.nextTurn = first + ledger.length ∧ game.log.map LoggedTurn.frame = ledger.drop (game.logFirstTurn - first) ∧
      first ≤ start.nextTurn ∧ start.nextTurn ≤ game.nextTurn ∧ frames = ledger.drop (start.nextTurn - first) ∧
      start.nextTurn + frames.length = game.nextTurn ∧
      ∀ index frame, frames[index]? = some frame → Carries frame (start.nextTurn + index) := by
  have streams := begins.streams.runs runs
  cases running : r.phase with
  | lobby =>
    rw [(streams.lobby running).2.2 member seated] at streaming
    cases streaming
  | running game =>
    rcases streams.files game running with ⟨_, silent⟩ | files
    · rw [silent member seated] at streaming
      cases streaming
    obtain ⟨link, start, frames, linked, got, low, high, same⟩ := streams.delivered.streams member seated streaming
    have next := files.nextTurn
    refine ⟨game, link, start, frames, rfl, linked, got, next, files.window, low, by omega, same, ?_, ?_⟩
    · rw [same, length_drop]
      omega
    intro index frame found
    rw [same, getElem?_drop] at found
    have carries := files.numbered _ frame found
    rwa [show first + (start.nextTurn - first + index) = start.nextTurn + index by omega] at carries

/-! A room with the default settings whose owner plays alone. -/

def steady : Oracle where
  send _ := .done
  write _ := .done
  synced _ := true
  history _ := 7

def plainSpec : RoomSpec Unit where
  id := .fill 16 0
  name := ⟨"room", by decide⟩
  maxPlayers := 4
  settings := { stepsPerSecond := 5, inputDelayMs := 250, checkpointInterval := 50 }
  secrets := { verify := fun _ _ => true, inviteTag := [], passwordTag := none }
  rules := .native
  ruleset := acceptAll
  state := ()
  env :=
    { dataDir := true
      timeouts := { stall := Duration.ofSecs 10, load := Duration.ofSecs 300, abandoned := Duration.ofSecs 3600 }
      snapshots := none
      compactLogAt := 2 ^ 20 }

def plainPlayer (number : UInt8) : NewMember where
  player := .fill 32 number
  name := ⟨"player", by decide⟩
  platform := { os := .linux, arch := .x86_64 }
  link := 1

def plainContent : ContentFingerprint := .fill 32 5

def plainRoom : Room Unit := .new plainSpec (plainPlayer 1) 0 { log := none, compacting := none }

def after (r : Room σ) (now : Instant) (commands : List RoomCommand) : Room σ :=
  commands.foldl (fun r command => (r.handle steady now command).1) r

theorem after_runs {r : Room σ} {commands : List RoomCommand}
    (live : ∀ count < commands.length, (r.after now (commands.take count)).closed = false) :
    Runs r (r.after now commands) := by
  induction commands generalizing r with
  | nil => exact .refl
  | cons command commands ih =>
    refine .head (.handled steady now command (live 0 (Nat.succ_pos _))) (ih fun count short => ?_)
    exact live (count + 1) (Nat.succ_lt_succ short)

def startAlone : List RoomCommand :=
  [.declareContent (plainPlayer 1).player plainContent, .setReady (plainPlayer 1).player true,
    .start (plainPlayer 1).player]

def startTogether (others : List UInt8) : List RoomCommand :=
  let players := (1 :: others).map fun number => (plainPlayer number).player
  others.map (fun number => .join (plainPlayer number) (.fill 32 0) none none none) ++
    players.map (fun player => .declareContent player plainContent) ++ players.map
      (fun player => .setReady player true) ++
    [.start (plainPlayer 1).player] ++ players.map fun player => .progress player 1 0

theorem streams_carry_log_alone : ∃ (r : Room Unit) (member : Member), Runs plainRoom r ∧ member ∈ r.members ∧
    member.streaming = true ∧ (sealedFrames r.out).length = 1 ∧
    ∃ game link start frames, r.phase = .running game ∧ member.link = some link ∧
      channel r.out member.player link = some (start, frames) ∧ frames = sealedFrames r.out := by
  let r := (plainRoom.after 0 startAlone).tickSeal steady (Duration.ofSecs 1)
  have started : Runs plainRoom (plainRoom.after 0 startAlone) := after_runs (by decide +kernel)
  have runs : Runs plainRoom r := started.tail (.sealed steady _ (by decide +kernel))
  obtain ⟨member, seated, streaming, here, opened⟩ : ∃ member ∈ r.members, member.streaming = true ∧
      member.link = some 1 ∧ (channel r.out member.player 1).map (fun got => got.1.nextTurn) = some 1 := by
        decide +kernel
  have one : (sealedFrames r.out).length = 1 := by decide +kernel
  clear_value r
  obtain ⟨game, link, start, frames, running, linked, got, _, _, _, _, same, _, _⟩ :=
    streams_carry_log (.new plainSpec (plainPlayer 1) 0 _) runs seated streaming
  refine ⟨r, member, runs, seated, streaming, one, game, link, start, frames, running, linked, got, ?_⟩
  cases linked.symm.trans here
  rw [got] at opened
  have whole : start.nextTurn = 1 := Option.some.inj opened
  rw [same, whole]
  rfl

end Room

end Tpf3Mp.Server
