import Tpf3Mp.Agent.Actions
import Tpf3Mp.Server.TurnLog

/-!
A game and a client that follows it. Whenever the client joins or resumes, and however its reading
falls between the game's seals, its follower accepts every turn, and takes every event the game
ordered from the start of its stream on.
-/

namespace Tpf3Mp.Server
open Codec Proto Agent List

variable {σ : Type}

structure Client where
  follower : TurnFollower
  /-- Frames on the stream that the follower has not taken yet. -/
  waiting : List Bytes
  start : TurnStart
  /-- The follower's queue when the stream started. -/
  queued : List Event
  /-- Events handed to the client's game since. -/
  applied : List Event

structure Play (σ : Type) where
  game : Game
  state : σ
  ordered : List Event
  client : Option Client

structure Table (σ : Type) where
  room : RoomId
  settings : RoomSettings
  rules : RulesName
  ruleset : Ruleset σ

def Table.start (table : Table σ) (game : Game) (stream : Stream) : TurnStart :=
  game.turnStart table.room table.settings table.rules stream none

/-- The plays of a new game: the game orders and seals, the client joins, resumes, reads and acts, in
any order. -/
inductive Table.Plays (table : Table σ) : Play σ → Prop where
  | new (history : UInt64) (now : Instant) (window : Nat) (state : σ) : table.Plays
      { game := { Game.new table.settings history now with resumeWindow := window }, state, ordered := [],
        client := none }
  | append {p : Play σ} (body : EventBody) : table.Plays p → table.Plays
      { p with
        game := (p.game.append body table.ruleset p.state).1
        state := (p.game.append body table.ruleset p.state).2
        ordered := p.ordered ++ (p.game.append body table.ruleset p.state).1.pending.getLast?.toList }
  | sealed {p : Play σ} {frontier : Nat} {game : Game} {frames : List Bytes} : table.Plays p →
      p.game.sealedThrough ≤ frontier → p.game.sealPending frontier = (game, .ok frames) → table.Plays
      { p with game, client := p.client.map fun c => { c with waiting := c.waiting ++ frames } }
  | join {p : Play σ} {stream : Stream} : table.Plays p → p.game.streamAfter none = .ok stream → table.Plays
      { p with
        client := some
          { follower := .new (table.start p.game stream), waiting := stream.backlog
            start := table.start p.game stream, queued := [], applied := [] } }
  | resume {p : Play σ} {c : Client} {stream : Stream} {follower : TurnFollower} : table.Plays p → p.client = some c →
      p.game.streamAfter (some c.follower.resumePoint) = .ok stream →
      c.follower.restart (table.start p.game stream) = .ok follower → table.Plays
      { p with
        client := some
          { follower, waiting := stream.backlog, start := table.start p.game stream
            queued := follower.queue, applied := [] } }
  | receive {p : Play σ} {c : Client} {frame : Bytes} {rest : List Bytes} {turn : Turn} {follower : TurnFollower} :
      table.Plays p → p.client = some c → c.waiting = frame :: rest → decodeTurn frame = some turn →
      c.follower.accept turn = .ok follower → table.Plays
      { p with client := some { c with follower, waiting := rest } }
  | act {p : Play σ} {c : Client} : table.Plays p → p.client = some c → table.Plays
      { p with
        client := some
          { c with
            follower := c.follower.nextAction.2
            applied := c.applied ++ c.follower.nextAction.1.toList.filterMap Action.event } }

/-- A client stands after some turns of the log, with frames of the turns after them to read. -/
structure Client.Synced (c : Client) (g : Game) (o : Origin) (before after : List Turn) : Prop where
  position : c.follower.At (o.after before)
  history : c.follower.history = g.history
  waiting : Forall₂ Encodes after c.waiting

/-- What the client took since its stream started are the events from there on. -/
def Client.Took (c : Client) (o : Origin) (before : List Turn) : Prop :=
  ∃ first taken, before = first ++ taken ∧ c.start.nextEvent = (o.after first).event ∧
    c.applied ++ c.follower.queue = c.queued ++ taken.flatMap Turn.events

structure Play.Stands (p : Play σ) (turns : List Turn) : Prop where
  tracks : p.game.Tracks ⟨1, 1, 0⟩ turns
  histories : ∃ id, p.game.histories = [{ id, afterTurn := 0 }]
  ordered : p.ordered = turns.flatMap Turn.events ++ p.game.pending
  client : ∀ c, p.client = some c → ∃ before after, turns = before ++ after ∧
    c.Synced p.game ⟨1, 1, 0⟩ before after ∧ c.Took ⟨1, 1, 0⟩ before

variable {o : Origin} {before after : List Turn} {g : Game} {turn : Turn}

theorem prefix_unique {turns before' after' : List Turn} (one : turns = before ++ after)
    (other : turns = before' ++ after') (same : (o.after before').turn = (o.after before).turn) :
    before' = before ∧ after' = after := by
  have lengths : before'.length = before.length := Nat.add_left_cancel same
  exact append_inj (other.symm.trans one) lengths

section Steps
variable {p : Play σ} {turns : List Turn}

theorem Play.Stands.appended (stands : p.Stands turns) (body : EventBody) (ruleset : Ruleset σ) : Play.Stands { p with
      game := (p.game.append body ruleset p.state).1
      state := (p.game.append body ruleset p.state).2
      ordered := p.ordered ++ (p.game.append body ruleset p.state).1.pending.getLast?.toList } turns := by
  refine ⟨Game.append_tracks stands.tracks body ruleset p.state, stands.histories, ?_, ?_⟩
  · simp [Game.append, stands.ordered]
  · intro c found
    obtain ⟨before, after, split, synced, took⟩ := stands.client c found
    exact ⟨before, after, split, ⟨synced.position, synced.history, synced.waiting⟩, took⟩

theorem Play.Stands.sealed {frontier : Nat} {game : Game} {frames : List Bytes} (stands : p.Stands turns)
    (forward : p.game.sealedThrough ≤ frontier) (sealed : p.game.sealPending frontier = (game, .ok frames)) :
    ∃ fresh, Play.Stands { p with game, client := p.client.map fun c => { c with waiting := c.waiting ++ frames } }
      (turns ++ fresh) := by
  obtain ⟨fresh, encodes, events, _, _, rfl, tracks⟩ := Game.sealPending_ok sealed stands.tracks forward
  obtain ⟨window, bytes, first, sealedBefore, unfolded⟩ :=
    Game.foldl_keep p.game (logged (Origin.after ⟨1, 1, 0⟩ turns) fresh frames)
  refine ⟨fresh, tracks, ?_, ?_, ?_⟩
  · rw [unfolded]
    exact stands.histories
  · simp [stands.ordered, events]
  intro _ mapped
  obtain ⟨c, found, rfl⟩ := Option.map_eq_some_iff.mp mapped
  obtain ⟨before, after, rfl, synced, took⟩ := stands.client c found
  refine ⟨before, after ++ fresh, by rw [append_assoc], ⟨synced.position, ?_, rel_append synced.waiting encodes⟩, took⟩
  rw [unfolded]
  exact synced.history

theorem Play.Stands.joined {table : Table σ} {stream : Stream} (stands : p.Stands turns)
    (granted : p.game.streamAfter none = .ok stream) : Play.Stands { p with
      client := some
        { follower := .new (table.start p.game stream), waiting := stream.backlog
          start := table.start p.game stream, queued := [], applied := [] } } turns := by
  refine ⟨stands.tracks, stands.histories, stands.ordered, ?_⟩
  rintro c ⟨⟩
  obtain ⟨_, _, before, after, split, here⟩ := Game.streamAfter_ok stands.tracks granted
  refine ⟨before, after, split, ⟨⟨here.nextTurn, here.nextEvent, here.sealedThrough⟩, rfl, here.backlog⟩,
    before, [], by simp, here.nextEvent, rfl⟩

variable {c : Client}

theorem Play.Stands.resumed {table : Table σ} {stream : Stream} {follower : TurnFollower}
    (stands : p.Stands turns) (found : p.client = some c)
    (granted : p.game.streamAfter (some c.follower.resumePoint) = .ok stream)
    (restarted : c.follower.restart (table.start p.game stream) = .ok follower) : Play.Stands { p with
      client := some
        { follower, waiting := stream.backlog, start := table.start p.game stream
          queued := follower.queue, applied := [] } } turns := by
  refine ⟨stands.tracks, stands.histories, stands.ordered, ?_⟩
  rintro _ ⟨⟩
  obtain ⟨nextTurn, _, _, rfl⟩ := TurnFollower.restart_ok.mp restarted
  obtain ⟨before, after, split, synced, took⟩ := stands.client c found
  obtain ⟨_, _, before', after', split', here⟩ := Game.streamAfter_ok stands.tracks granted
  obtain ⟨rfl, rfl⟩ := prefix_unique split split' (by rw [← here.nextTurn, ← synced.position.nextTurn]; exact nextTurn)
  exact ⟨before', after', split,
    ⟨⟨synced.position.nextTurn, synced.position.nextEvent, synced.position.sealedThrough⟩, rfl, here.backlog⟩,
    before', [], by simp, here.nextEvent, by simp⟩

theorem Play.Stands.received {frame : Bytes} {rest : List Bytes} {turn : Turn} {follower : TurnFollower}
    (stands : p.Stands turns) (found : p.client = some c) (first : c.waiting = frame :: rest)
    (read : decodeTurn frame = some turn) (accepted : c.follower.accept turn = .ok follower) :
    Play.Stands { p with client := some { c with follower, waiting := rest } } turns := by
  refine ⟨stands.tracks, stands.histories, stands.ordered, ?_⟩
  rintro _ ⟨⟩
  obtain ⟨before, after, rfl, synced, start, taken, rfl, event, queue⟩ := stands.client c found
  obtain ⟨continues, rfl⟩ := TurnFollower.accept_ok accepted
  have waiting := synced.waiting
  rw [first] at waiting
  cases waiting with
  | @cons sent _ after _ encoded encodes =>
    obtain rfl := decodeTurn_eq encoded read
    have step := Origin.after_append ⟨1, 1, 0⟩ (start ++ taken) [turn]
    refine ⟨start ++ taken ++ [turn], after, by simp, ⟨?_, synced.history, encodes⟩,
      start, taken ++ [turn], by simp, event, ?_⟩
    · rw [step]
      exact synced.position.taken turn
    · dsimp only [TurnFollower.taken]
      rw [← append_assoc, queue]
      simp

theorem Play.Stands.acted (stands : p.Stands turns) (found : p.client = some c) : Play.Stands { p with
      client := some
        { c with
          follower := c.follower.nextAction.2
          applied := c.applied ++ c.follower.nextAction.1.toList.filterMap Action.event } } turns := by
  refine ⟨stands.tracks, stands.histories, stands.ordered, ?_⟩
  rintro _ ⟨⟩
  obtain ⟨before, after, split, synced, start, taken, begun, event, queue⟩ := stands.client c found
  have history : c.follower.nextAction.2.history = c.follower.history := by
    obtain ⟨executed, queue, bytes, same⟩ := c.follower.nextAction_fields
    rw [same]
  refine ⟨before, after, split, ⟨synced.position.nextAction, history.trans synced.history, synced.waiting⟩,
    start, taken, begun, event, ?_⟩
  rw [append_assoc, c.follower.nextAction_event, queue]

end Steps

theorem Table.Plays.stands {table : Table σ} {p : Play σ} (plays : table.Plays p) : ∃ turns, p.Stands turns := by
  induction plays with
  | new history now window state =>
    obtain ⟨⟨chain, nextTurn, numbered, nextEvent, steps, held⟩, frontier⟩ := Game.new_tracks table.settings history now
    exact ⟨[], ⟨⟨chain, nextTurn, numbered, nextEvent, steps, held⟩, frontier⟩, ⟨history, rfl⟩, rfl, by simp⟩
  | append body _ ih =>
    obtain ⟨turns, stands⟩ := ih
    exact ⟨turns, stands.appended body table.ruleset⟩
  | sealed _ forward sealed ih =>
    obtain ⟨turns, stands⟩ := ih
    obtain ⟨fresh, stands⟩ := stands.sealed forward sealed
    exact ⟨turns ++ fresh, stands⟩
  | join _ granted ih =>
    obtain ⟨turns, stands⟩ := ih
    exact ⟨turns, stands.joined granted⟩
  | resume _ found granted restarted ih =>
    obtain ⟨turns, stands⟩ := ih
    exact ⟨turns, stands.resumed found granted restarted⟩
  | receive _ found first read accepted ih =>
    obtain ⟨turns, stands⟩ := ih
    exact ⟨turns, stands.received found first read accepted⟩
  | act _ found ih =>
    obtain ⟨turns, stands⟩ := ih
    exact ⟨turns, stands.acted found⟩

theorem numbered_filter {first : Nat} {left right : List Event} (numbered : Numbered first (left ++ right)) :
    (left ++ right).filter (first + left.length ≤ ·.seq) = right := by
  obtain ⟨before, after⟩ := numbered_append.mp numbered
  have low : ∀ event ∈ left, ¬ first + left.length ≤ event.seq := by
    intro event member
    have inside := mem_map_of_mem (f := Event.seq) member
    rw [before] at inside
    have := mem_range'_1.mp inside
    omega
  have high : ∀ event ∈ right, first + left.length ≤ event.seq := by
    intro event member
    have inside := mem_map_of_mem (f := Event.seq) member
    rw [after] at inside
    exact (mem_range'_1.mp inside).1
  rw [filter_append, filter_eq_nil_iff.mpr (by simpa using low), nil_append,
    filter_eq_self.mpr (by simpa using high)]

theorem Game.Tracks.inside (tracks : g.Tracks o (before ++ turn :: after)) :
    (o.after before).Next turn ∧ (o.after before).turn < g.nextTurn ∧
      (o.after before).event + turn.events.length ≤ g.nextEvent ∧
      (o.after before).frontier ≤ turn.sealedThrough ∧ turn.sealedThrough ≤ g.sealedThrough := by
  obtain ⟨⟨chain, nextTurn, _, nextEvent, _, _⟩, frontier⟩ := tracks
  obtain ⟨_, next, rest⟩ := chain_append.mp chain
  have onward := rest.forward
  have step := Origin.after_append o before ([turn] ++ after)
  rw [Origin.after_append (o.after before) [turn] after] at step
  rw [singleton_append] at step
  rw [step] at nextTurn nextEvent frontier
  refine ⟨next, ?_, ?_, next.forward, ?_⟩
  · rw [nextTurn]
    simp only [Origin.after, length_singleton]
    omega
  · rw [nextEvent]
    simp only [Origin.after, flatMap_singleton]
    omega
  · rw [frontier]
    exact onward

theorem Game.Tracks.turn_fits (tracks : g.Tracks o (before ++ turn :: after)) (frontier : g.sealedThrough ≤ u64Max)
    (turns : g.nextTurn ≤ u64Max) (events : g.nextEvent ≤ u64Max) : Proto.Wire.turnMessage.Fits (.turn turn) := by
  obtain ⟨next, number, event, _, sealed⟩ := tracks.inside
  have limit : u64Max < 2 ^ 64 := by decide
  exact next.fits (by omega) (by omega) (by omega)

theorem Client.Synced.continues {c : Client}
    (synced : c.Synced g o before (turn :: after)) (tracks : g.Tracks o (before ++ turn :: after))
    (frontier : g.sealedThrough < u64Max) (turns : g.nextTurn ≤ u64Max) (events : g.nextEvent ≤ u64Max) :
    c.follower.Continues turn := by
  obtain ⟨next, number, event, forward, sealed⟩ := tracks.inside
  exact synced.position.continues next (by omega) (by omega) (by omega)

theorem decoded_turns {frames : List Bytes}
    (tracks : g.Tracks o (before ++ after)) (encodes : Forall₂ Encodes after frames)
    (frontier : g.sealedThrough ≤ u64Max) (turns : g.nextTurn ≤ u64Max) (events : g.nextEvent ≤ u64Max) :
    frames.filterMap decodeTurn = after := by
  induction encodes generalizing before with
  | nil => rfl
  | @cons turn frame after frames encoded _ ih =>
    have read := decodeTurn_encodeFrame encoded (tracks.turn_fits frontier turns events)
    have rest : g.Tracks o ((before ++ [turn]) ++ after) := by simpa using tracks
    rw [filterMap_cons_some read, ih rest]

/-- As long as no counter reaches the end of a `u64`, resuming where the server grants it succeeds,
accepting can fail only for a full queue, and the follower takes exactly the events the game ordered
from the start of its stream on. -/
theorem follower_follows {table : Table σ} {p : Play σ} (plays : table.Plays p)
    (frontier : p.game.sealedThrough < u64Max) (turns : p.game.nextTurn ≤ u64Max)
    (events : p.game.nextEvent ≤ u64Max) :
    (∀ c stream, p.client = some c → p.game.streamAfter (some c.follower.resumePoint) = .ok stream →
      ∃ follower, c.follower.restart (table.start p.game stream) = .ok follower) ∧
    (∀ c frame rest, p.client = some c → c.waiting = frame :: rest → ∃ turn, decodeTurn frame = some turn ∧
      ((∃ follower, c.follower.accept turn = .ok follower) ∨ c.follower.accept turn = .error .backlog)) ∧
    (∀ c, p.client = some c → ∃ taken, c.applied ++ c.follower.queue = c.queued ++ taken ∧
      taken ++ (c.waiting.filterMap decodeTurn).flatMap Turn.events ++ p.game.pending =
        p.ordered.filter (c.start.nextEvent ≤ ·.seq)) ∧
    Numbered 1 p.ordered := by
  obtain ⟨log, stands⟩ := plays.stands
  have numbered : Numbered 1 p.ordered := by
    rw [stands.ordered]
    exact numbered_append.mpr ⟨stands.tracks.keeps.chain.numbered, stands.tracks.keeps.numbered⟩
  refine ⟨?_, ?_, ?_, numbered⟩
  · intro c stream found granted
    obtain ⟨before, after, split, synced, _⟩ := stands.client c found
    obtain ⟨resumed, _, before', after', split', here⟩ := Game.streamAfter_ok stands.tracks granted
    have total : p.game.nextTurn = 1 + (before ++ after).length := by
      rw [stands.tracks.keeps.nextTurn, split]
      rfl
    have position : c.follower.nextTurn = 1 + before.length := synced.position.nextTurn
    have asked := Game.resumeFrom_some resumed
    have same : stream.nextTurn = c.follower.nextTurn := by
      rw [length_append] at total
      have before : c.follower.resumePoint.afterTurn + 1 = c.follower.nextTurn :=
        Nat.sub_add_cancel (by omega)
      rw [asked, satAdd_eq (by omega), before]
    obtain ⟨rfl, rfl⟩ := prefix_unique split split' (by rw [← here.nextTurn, ← synced.position.nextTurn]; exact same)
    exact ⟨_, TurnFollower.restart_ok.mpr ⟨same, here.nextEvent.trans synced.position.nextEvent.symm,
      here.sealedThrough.trans synced.position.sealedThrough.symm, rfl⟩⟩
  · intro c frame rest found first
    obtain ⟨before, after, rfl, synced, _⟩ := stands.client c found
    have waiting := synced.waiting
    rw [first] at waiting
    cases waiting with
    | @cons turn _ after _ encoded _ =>
      refine ⟨turn, decodeTurn_encodeFrame encoded
        (stands.tracks.turn_fits (le_of_lt frontier) turns events), ?_⟩
      rw [TurnFollower.accept_continues (synced.continues stands.tracks frontier turns events)]
      split
      · exact .inr rfl
      · exact .inl ⟨_, rfl⟩
  · intro c found
    obtain ⟨before, after, rfl, synced, start, taken, rfl, event, queue⟩ := stands.client c found
    refine ⟨taken.flatMap Turn.events, queue, ?_⟩
    rw [decoded_turns stands.tracks synced.waiting (le_of_lt frontier) turns events, event]
    have all : p.ordered = start.flatMap Turn.events ++
        (taken.flatMap Turn.events ++ after.flatMap Turn.events ++ p.game.pending) := by
      rw [stands.ordered]
      simp
    rw [all] at numbered ⊢
    exact (numbered_filter numbered).symm

def plainTable : Table Unit where
  room := .fill 16 0
  settings := { stepsPerSecond := 5, inputDelayMs := 250, checkpointInterval := 50 }
  rules := .native
  ruleset := acceptAll

def plainGame : Game := { Game.new plainTable.settings 0 0 with resumeWindow := resumeWindow }

def firstStream : Stream := { nextTurn := 1, nextEvent := 1, sealedThrough := 0, backlog := [] }

theorem follower_follows_save : ∃ (p : Play Unit) (c : Client), plainTable.Plays p ∧ p.client = some c ∧
    c.follower.queue = [{ seq := 1, step := 1, body := .save }] ∧
    ∃ taken, c.applied ++ c.follower.queue = c.queued ++ taken ∧
      taken ++ (c.waiting.filterMap decodeTurn).flatMap Turn.events ++ p.game.pending =
        p.ordered.filter (c.start.nextEvent ≤ ·.seq) := by
  let ordered := (plainGame.append .save acceptAll ()).1
  let game := (ordered.sealPending 1).1
  let frame : Bytes := [8, 0, 0, 0, 1, 1, 1, 100, 1, 1, 1, 3]
  let turn : Turn :=
    { number := 1, sealedThrough := 1, speed := .normal, events := [{ seq := 1, step := 1, body := .save }] }
  have sealed : ordered.sealPending 1 = (game, .ok [frame]) := Prod.ext rfl (by decide +kernel)
  have read : decodeTurn frame = some turn := by decide +kernel
  have accepted : (TurnFollower.new (plainTable.start plainGame firstStream)).accept turn =
      .ok ((TurnFollower.new (plainTable.start plainGame firstStream)).taken turn) := by decide +kernel
  have begun : plainTable.Plays _ := .new 0 0 resumeWindow ()
  have joined := Table.Plays.join begun (show plainGame.streamAfter none = .ok firstStream from rfl)
  have played := Table.Plays.receive (.sealed (.append .save joined) (Nat.zero_le _) sealed) rfl rfl read accepted
  refine ⟨_, _, played, rfl, rfl, ?_⟩
  exact (follower_follows played (by decide +kernel) (by decide +kernel) (by decide +kernel)).2.2.1 _ rfl

theorem follower_refuses_last_frontier : ∃ (p : Play Unit) (c : Client) (frame : Bytes) (turn : Turn),
    plainTable.Plays p ∧ p.client = some c ∧ c.waiting = [frame] ∧ decodeTurn frame = some turn ∧
      c.follower.accept turn = .error .overflow := by
  let once := (plainGame.sealPending u64Max).1
  let twice := (once.sealPending u64Max).1
  let frame (number : UInt8) : Bytes :=
    [14, 0, 0, 0, 1, number, 255, 255, 255, 255, 255, 255, 255, 255, 255, 1, 100, 0]
  let turn (number : Nat) : Turn := { number, sealedThrough := u64Max, speed := .normal, events := [] }
  have first : plainGame.sealPending u64Max = (once, .ok [frame 1]) := Prod.ext rfl (by decide +kernel)
  have second : once.sealPending u64Max = (twice, .ok [frame 2]) := Prod.ext rfl (by decide +kernel)
  have read : decodeTurn (frame 1) = some (turn 1) := by decide +kernel
  have accepted : (TurnFollower.new (plainTable.start plainGame firstStream)).accept (turn 1) =
      .ok ((TurnFollower.new (plainTable.start plainGame firstStream)).taken (turn 1)) := by decide +kernel
  have begun : plainTable.Plays _ := .new 0 0 resumeWindow ()
  have joined := Table.Plays.join begun (show plainGame.streamAfter none = .ok firstStream from rfl)
  have took := Table.Plays.receive (.sealed joined (Nat.zero_le _) first) rfl rfl read accepted
  have played := Table.Plays.sealed took (by decide +kernel) second
  exact ⟨_, _, frame 2, turn 2, played, rfl, rfl, by decide +kernel, by decide +kernel⟩

end Tpf3Mp.Server
