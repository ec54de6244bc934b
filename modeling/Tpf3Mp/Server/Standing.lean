import Tpf3Mp.Server.Replay

/-!
Where a room stands after its turns: its counters, its speed, its rules' state, who sits at its table and
who owns it. A live room keeps that as it goes along; a restarted one reads it off its log.
-/

namespace Tpf3Mp.Server
open Codec Proto Data List

structure Standing (σ : Type) where
  origin : Origin
  speed : Speed
  state : σ
  seated : List Seat
  owner : PlayerId

def bars (banned : List PlayerId) (event : Event) : List PlayerId :=
  match event.body with
  | .playerLeft player kicked => if kicked && banned.length < maxBanned then banned.insert player else banned
  | _ => banned

def lastSpeed (speed : Speed) (turns : List Turn) : Speed := turns.foldl (fun _ turn => turn.speed) speed

namespace Standing
variable {σ : Type} (ruleset : Ruleset σ)

/-- An event happens. When the owner leaves, the room passes to the earliest player that remains. -/
def play (s : Standing σ) (event : Event) : Standing σ :=
  let seated := seat s.seated event
  { s with
    state := ruleset.apply s.state event
    seated
    owner := match event.body with
      | .playerLeft player _ => if player = s.owner then (seated.head?.map Prod.fst).getD s.owner else s.owner
      | _ => s.owner }

def take (s : Standing σ) (turn : Turn) : Standing σ :=
  { turn.events.foldl (play ruleset) s with origin := s.origin.after [turn], speed := turn.speed }

def after (s : Standing σ) (turns : List Turn) : Standing σ := turns.foldl (take ruleset) s

variable {ruleset} {s : Standing σ}

theorem after_append (left right : List Turn) :
    s.after ruleset (left ++ right) = (s.after ruleset left).after ruleset right :=
  foldl_append

theorem foldl_play_at (origin : Origin) (speed : Speed) (events : List Event) :
    events.foldl (play ruleset) { s with origin, speed } = { events.foldl (play ruleset) s with origin, speed } := by
  induction events generalizing s with
  | nil => rfl
  | cons event events ih => exact @ih (s.play ruleset event)

theorem foldl_play_state (events : List Event) :
    (events.foldl (play ruleset) s).state = events.foldl ruleset.apply s.state := by
  induction events generalizing s with
  | nil => rfl
  | cons event events ih => exact ih

theorem after_eq (turns : List Turn) : s.after ruleset turns = { (turns.flatMap Turn.events).foldl (play ruleset) s with
    origin := s.origin.after turns, speed := lastSpeed s.speed turns } := by
  induction turns generalizing s with
  | nil => rfl
  | cons turn turns ih =>
    show (s.take ruleset turn).after ruleset turns = _
    have rest := @foldl_play_at _ ruleset (turn.events.foldl (play ruleset) s) (s.origin.after [turn]) turn.speed
      (turns.flatMap Turn.events)
    rw [ih, flatMap_cons, foldl_append, s.origin.after_cons turn turns]
    unfold take
    rw [rest]
    rfl

theorem after_origin (turns : List Turn) : (s.after ruleset turns).origin = s.origin.after turns := by rw [after_eq]

theorem after_speed (turns : List Turn) : (s.after ruleset turns).speed = lastSpeed s.speed turns := by rw [after_eq]

/-- A room orders the commands its rules accept, and seats players who are not at its table while it
has room for them. The first to sit down is its owner. -/
def Permits (ruleset : Ruleset σ) (seats : Nat) (s : Standing σ) (event : Event) : Prop :=
  match event.body with
  | .command player _ payload => ruleset.validate s.state player payload = .ok ()
  | .playerJoined player _ _ =>
    (∀ seat ∈ s.seated, seat.1 ≠ player) ∧ s.seated.length < seats ∧ (s.seated = [] → player = s.owner)
  | .playerLeft .. | .save => True

/-- Events that a room may order one after another. -/
def Lawful (ruleset : Ruleset σ) (seats : Nat) : Standing σ → List Event → Prop
  | _, [] => True
  | s, event :: events => s.Permits ruleset seats event ∧ (s.play ruleset event).Lawful ruleset seats events

theorem lawful_append {seats : Nat} {left right : List Event} : s.Lawful ruleset seats (left ++ right) ↔
    s.Lawful ruleset seats left ∧ (left.foldl (play ruleset) s).Lawful ruleset seats right := by
  induction left generalizing s with
  | nil => exact (and_iff_right trivial).symm
  | cons event left ih => rw [cons_append, Lawful, Lawful, ih, foldl_cons, and_assoc]

theorem Lawful.valid {seats : Nat} {before after : List Event} {event : Event} {player : PlayerId} {clientSeq : UInt64}
    {payload : Payload} (lawful : s.Lawful ruleset seats (before ++ event :: after))
    (command : event.body = .command player clientSeq payload) :
    ruleset.validate (before.foldl ruleset.apply s.state) player payload = .ok () := by
  have permits := (lawful_append.mp lawful).2.1
  unfold Permits at permits
  rw [command, foldl_play_state] at permits
  exact permits

/-- A table as a room keeps it: nobody sits there twice, there are seats for all, and the first of
them owns the room. -/
structure Tabled (seats : Nat) (s : Standing σ) : Prop where
  distinct : (s.seated.map Prod.fst).Nodup
  few : s.seated.length ≤ seats
  owner : ∀ first rest, s.seated = first :: rest → s.owner = first.1

end Standing

theorem seat_distinct {seated : List Seat} (event : Event) (distinct : (seated.map Prod.fst).Nodup) :
    ((seat seated event).map Prod.fst).Nodup := by
  have left (player : PlayerId) : ((seated.filter fun seat => seat.1 ≠ player).map Prod.fst).Nodup :=
    distinct.sublist (filter_sublist.map _)
  unfold seat
  split
  · exact left _
  · next player name platform _ =>
    rw [map_append, nodup_append]
    refine ⟨left player, by simp, ?_⟩
    intro other among again last
    obtain ⟨seat, kept, rfl⟩ := mem_map.mp among
    rw [map_singleton, mem_singleton] at last
    rw [last]
    exact of_decide_eq_true (mem_filter.mp kept).2
  · exact distinct
  · exact distinct

namespace Standing.Tabled
variable {σ : Type} {ruleset : Ruleset σ} {s : Standing σ} {seats : Nat}

theorem play {event : Event} (tabled : s.Tabled seats) (permits : s.Permits ruleset seats event) :
    (s.play ruleset event).Tabled seats := by
  refine ⟨seat_distinct event tabled.distinct, ?_, ?_⟩
  · unfold Standing.play seat
    unfold Permits at permits
    cases body : event.body with
    | command | save => exact tabled.few
    | playerLeft player kicked => exact le_trans (length_filter_le _ _) tabled.few
    | playerJoined player name platform =>
      rw [body] at permits
      obtain ⟨absent, space, _⟩ := permits
      dsimp only
      rw [filter_eq_self.mpr fun seat member => decide_eq_true (absent seat member), length_append]
      exact space
  · intro first rest
    unfold Standing.play seat
    unfold Permits at permits
    cases body : event.body with
    | command | save => exact tabled.owner first rest
    | playerLeft player kicked =>
      dsimp only
      intro left
      rw [left]
      split
      · rfl
      rename_i other
      -- The owner stays, and stays the first at the table.
      cases before : s.seated with
      | nil =>
        rw [before] at left
        cases left
      | cons owner others =>
        have owns := tabled.owner owner others before
        have stays : decide (owner.1 ≠ player) = true := decide_eq_true (owns ▸ Ne.symm other)
        rw [before, filter_cons, if_pos stays] at left
        rw [owns, (List.cons.inj left).1]
    | playerJoined player name platform =>
      rw [body] at permits
      obtain ⟨absent, _, alone⟩ := permits
      dsimp only
      rw [filter_eq_self.mpr fun seat member => decide_eq_true (absent seat member)]
      intro seated
      cases before : s.seated with
      | nil =>
        rw [before] at seated
        cases seated
        exact (alone before).symm
      | cons owner others =>
        rw [before] at seated
        rw [tabled.owner owner others before, (List.cons.inj seated).1]

theorem foldl {events : List Event} (tabled : s.Tabled seats) (lawful : s.Lawful ruleset seats events) :
    (events.foldl (Standing.play ruleset) s).Tabled seats := by
  induction events generalizing s with
  | nil => exact tabled
  | cons event events ih => exact ih (tabled.play lawful.1) lawful.2

end Standing.Tabled

variable {turns : List Turn}

theorem Game.Tracks.origin {g : Game} {o : Origin} (tracks : g.Tracks o turns)
    (idle : g.pending = []) : g.origin = o.after turns := by
  obtain ⟨⟨_, nextTurn, _, nextEvent, _, _⟩, frontier⟩ := tracks
  rw [idle, length_nil, Nat.add_zero] at nextEvent
  unfold Game.origin
  rw [nextTurn, nextEvent, frontier]

namespace Replay
variable {σ : Type} {ruleset : Ruleset σ} {base : Option Base} {r r' : Replay σ}

def standing (r : Replay σ) : Standing σ where
  origin := r.game.origin
  speed := r.game.speed
  state := r.state
  seated := r.game.seated
  owner := r.owner

theorem foldl_next_based (events : List Event) (based : r.based = true) : events.foldl (next ruleset) r = { r with
      game := { r.game with
        nextEvent := r.game.nextEvent + events.length
        seated := (events.foldl (Standing.play ruleset) r.standing).seated }
      state := (events.foldl (Standing.play ruleset) r.standing).state
      owner := (events.foldl (Standing.play ruleset) r.standing).owner
      banned := events.foldl bars r.banned } := by
  induction events generalizing r with
  | nil => rfl
  | cons event events ih =>
    have one : r.next ruleset event = { r with
        game := { r.game with nextEvent := r.game.nextEvent + 1, seated := (r.standing.play ruleset event).seated }
        state := (r.standing.play ruleset event).state
        owner := (r.standing.play ruleset event).owner
        banned := bars r.banned event } := by
      unfold next
      rw [if_pos based]
      unfold play Standing.play bars
      cases event.body <;> rfl
    have stands : (r.next ruleset event).standing = { r.standing.play ruleset event with
        origin := (r.next ruleset event).game.origin, speed := r.game.speed } := by
      rw [one]
      rfl
    rw [foldl_cons, foldl_cons, foldl_cons, ih (by rw [one]; exact based), stands,
      Standing.foldl_play_at, one, length_cons, Nat.add_comm events.length 1, ← Nat.add_assoc]

theorem foldl_next_unbased (events : List Event) (unbased : r.based = false) :
    events.foldl (next ruleset) r = { r with
      game := { r.game with nextEvent := r.game.nextEvent + events.length } } := by
  induction events generalizing r with
  | nil => rfl
  | cons event events ih =>
    have one : r.next ruleset event = { r with game := { r.game with nextEvent := r.game.nextEvent + 1 } } := by
      unfold next
      rw [if_neg (by rw [unbased]; exact Bool.false_ne_true)]
    rw [foldl_cons, ih (by rw [one]; exact unbased), one, length_cons, Nat.add_comm events.length 1, ← Nat.add_assoc]

def taken (ruleset : Ruleset σ) (r : Replay σ) (frame : Bytes) (turn : Turn) : Replay σ :=
  (turn.events.foldl (next ruleset) r).file frame turn r.game.nextEvent

theorem taken_standing (ruleset : Ruleset σ) (frame : Bytes) (turn : Turn) (based : r.based = true) :
    (r.taken ruleset frame turn).standing = r.standing.take ruleset turn ∧
      (r.taken ruleset frame turn).banned = turn.events.foldl bars r.banned := by
  unfold taken
  rw [foldl_next_based turn.events based]
  refine ⟨?_, rfl⟩
  simp only [standing, file, Game.keep, Game.remember, Game.trim, Game.origin, Standing.take, Origin.after,
    length_singleton, flatMap_singleton, lastFrontier, foldl_cons, foldl_nil]

theorem taken_unbased (ruleset : Ruleset σ) (frame : Bytes) (turn : Turn) (unbased : r.based = false) :
    (r.taken ruleset frame turn).standing =
        { r.standing with origin := r.game.origin.after [turn], speed := turn.speed } ∧
      (r.taken ruleset frame turn).banned = r.banned := by
  unfold taken
  rw [foldl_next_unbased turn.events unbased]
  refine ⟨?_, rfl⟩
  simp only [standing, file, Game.keep, Game.remember, Game.trim, Game.origin, Origin.after,
    length_singleton, flatMap_singleton, lastFrontier, foldl_cons, foldl_nil]

theorem taken_rest (ruleset : Ruleset σ) (frame : Bytes) (turn : Turn) : (r.taken ruleset frame turn).based = r.based ∧
    (r.taken ruleset frame turn).game.pending = r.game.pending ∧
    (r.taken ruleset frame turn).game.histories = r.game.histories := by
  obtain ⟨seated, state, owner, banned, folded⟩ := r.foldl_next_eq ruleset turn.events
  unfold taken
  rw [folded]
  exact ⟨rfl, rfl, rfl⟩

variable {frame : Bytes}

theorem taken_tracks {o : Origin} {turns : List Turn} {turn : Turn} (tracks : r.game.Tracks o turns)
    (idle : r.game.pending = []) (encoded : Encodes turn frame) (next : (o.after turns).Next turn) :
    (r.taken ruleset frame turn).game.Tracks o (turns ++ [turn]) := by
  obtain ⟨seated, state, owner, banned, folded⟩ := r.foldl_next_eq ruleset turn.events
  obtain ⟨⟨chain, nextTurn, _, nextEvent, _, window⟩, frontier⟩ := tracks
  rw [idle, length_nil, Nat.add_zero] at nextEvent
  unfold taken
  rw [folded, nextEvent]
  let counted : Game := { r.game with nextEvent := (o.after turns).event + turn.events.length, seated }
  have keeps : counted.Keeps o turns (turn.events ++ []) := by
    rw [append_nil]
    exact ⟨chain, nextTurn, next.numbered, rfl, next.steps, window⟩
  obtain ⟨chain', nextTurn', numbered', nextEvent', steps', window'⟩ := Game.keep_keeps keeps next encoded (.inl rfl)
  refine ⟨⟨chain', nextTurn', ?_, ?_, ?_, window'⟩, ?_⟩
  · show Numbered _ r.game.pending
    rw [idle]
    rfl
  · show counted.nextEvent = _ + r.game.pending.length
    rw [idle]
    exact nextEvent'
  · show ∀ event ∈ r.game.pending, _
    rw [idle]
    exact nofun
  · rw [o.after_append turns [turn]]
    rfl

theorem read_turn {turn : Turn} (encoded : Encodes turn frame)
    (read : r.read ruleset frame = .ok r') : r' = r.taken ruleset frame turn := by
  cases (read_ok.mp read).2 with
  | turn decoded continues bounded =>
    cases (decodeFrame_eq encoded decoded).1
    rfl
  | marker decoded => cases (decodeFrame_eq encoded decoded).1

theorem read_mark {marker : TurnStart}
    (encoded : encodeFrame Proto.Wire.turnMessage (.start marker) turnMaxFrame = .ok frame)
    (read : r.read ruleset frame = .ok r') :
    r' = { r with game := r.game.beginHistory marker.history, index := r.index + 1 } := by
  cases (read_ok.mp read).2 with
  | turn decoded => cases (decodeFrame_eq encoded decoded).1
  | marker decoded =>
    cases (decodeFrame_eq encoded decoded).1
    rfl

def onward (ruleset : Ruleset σ) (base : Option Base) (r : Replay σ) (records : List Bytes) :
    Except RecoverError (Replay σ) := do
  let r ← r.settle base
  records.foldlM (takeRecord ruleset base) r

theorem onward_cons (frame : Bytes) (records : List Bytes) : r.onward ruleset base (frame :: records) = (do
    let r ← r.settle base
    let r ← r.read ruleset frame
    r.onward ruleset base records) := by
  unfold onward
  refine Run.bind_congr_ok fun settled _ => ?_
  rw [foldlM_cons]
  unfold takeRecord
  rw [bind_assoc]

end Replay

/-- The records of a log after its start: turns that continue one another from an origin, and between
them the marks of recoveries. -/
inductive Scroll : Origin → List Bytes → List Turn → List History → Prop where
  | nil {o : Origin} : Scroll o [] [] []
  | turn {o : Origin} {turn : Turn} {frame : Bytes} {frames : List Bytes} {turns : List Turn} {marks : List History}
      (encoded : Encodes turn frame) (next : o.Next turn) (rest : Scroll (o.after [turn]) frames turns marks) :
      Scroll o (frame :: frames) (turn :: turns) marks
  | mark {o : Origin} {marker : TurnStart} {frame : Bytes} {frames : List Bytes} {turns : List Turn}
    {marks : List History}
      (encoded : encodeFrame Proto.Wire.turnMessage (.start marker) turnMaxFrame = .ok frame)
      (turn : marker.nextTurn = o.turn) (event : marker.nextEvent = o.event)
        (frontier : marker.sealedThrough = o.frontier)
      (rest : Scroll o frames turns marks) :
      Scroll o (frame :: frames) turns ({ id := marker.history, afterTurn := o.turn - 1 } :: marks)

namespace Scroll
variable {o : Origin} {frames left right : List Bytes} {turns more : List Turn} {marks : List History}

theorem append {others : List Bytes} {later : List History} (scroll : Scroll o frames turns marks)
    (rest : Scroll (o.after turns) others more later) : Scroll o (frames ++ others) (turns ++ more)
    (marks ++ later) := by
  induction scroll with
  | nil => exact rest
  | turn encoded next _ ih =>
    rw [Origin.after_cons] at rest
    exact .turn encoded next (ih rest)
  | mark encoded turn event frontier _ ih => exact .mark encoded turn event frontier (ih rest)

theorem of_chain (chain : Chain o turns) (encodes : Forall₂ Encodes turns frames) : Scroll o frames turns [] := by
  induction encodes generalizing o with
  | nil => exact .nil
  | cons encoded _ ih => exact .turn encoded chain.1 (ih chain.2)

theorem marks_between (scroll : Scroll o frames turns marks) :
    (∀ mark ∈ marks, o.turn - 1 ≤ mark.afterTurn ∧ mark.afterTurn ≤ (o.after turns).turn - 1) ∧
      marks.Pairwise fun earlier later => earlier.afterTurn ≤ later.afterTurn := by
  induction scroll with
  | nil => simp
  | @turn o turn frame frames turns marks _ _ _ ih =>
    obtain ⟨between, sorted⟩ := ih
    refine ⟨fun mark member => ?_, sorted⟩
    have inside := between mark member
    simp only [Origin.after, length_cons, length_nil] at inside ⊢
    omega
  | @mark o marker frame frames turns marks _ _ _ _ _ ih =>
    obtain ⟨between, sorted⟩ := ih
    refine ⟨fun mark member => ?_, pairwise_cons.mpr ⟨fun mark member => (between mark member).1, sorted⟩⟩
    rcases mem_cons.mp member with rfl | later
    · simp only [Origin.after]
      omega
    · exact between mark later

theorem cut (scroll : Scroll o frames turns marks) (short : left <+: frames) : ∃ turns' marks',
    turns' <+: turns ∧ marks' <+: marks ∧ Scroll o left turns' marks' := by
  induction scroll generalizing left with
  | nil =>
    rw [prefix_nil.mp short]
    exact ⟨[], [], List.nil_prefix, List.nil_prefix, .nil⟩
  | turn encoded next _ ih =>
    cases left with
    | nil => exact ⟨[], [], List.nil_prefix, List.nil_prefix, .nil⟩
    | cons frame left =>
      obtain ⟨rfl, shorter⟩ := cons_prefix_cons.mp short
      obtain ⟨turns', marks', fewer, earlier, rest⟩ := ih shorter
      exact ⟨_ :: turns', marks', cons_prefix_cons.mpr ⟨rfl, fewer⟩, earlier, .turn encoded next rest⟩
  | mark encoded turn event frontier _ ih =>
    cases left with
    | nil => exact ⟨[], [], List.nil_prefix, List.nil_prefix, .nil⟩
    | cons frame left =>
      obtain ⟨rfl, shorter⟩ := cons_prefix_cons.mp short
      obtain ⟨turns', marks', fewer, earlier, rest⟩ := ih shorter
      exact ⟨turns', _ :: marks', fewer, cons_prefix_cons.mpr ⟨rfl, earlier⟩, .mark encoded turn event frontier rest⟩

end Scroll

namespace Replay
variable {σ : Type} {ruleset : Ruleset σ} {base : Option Base} {r r' r'' : Replay σ}

/-- A replay past its base went on by some turns and marks. -/
structure Goes (ruleset : Ruleset σ) (opened : Origin) (before turns : List Turn) (marks : List History)
    (r r' : Replay σ) : Prop where
  tracks : r'.game.Tracks opened (before ++ turns)
  idle : r'.game.pending = []
  based : r'.based = true
  standing : r'.standing = r.standing.after ruleset turns
  banned : r'.banned = (turns.flatMap Turn.events).foldl bars r.banned
  histories : r'.game.histories = r.game.histories ++ marks

variable {opened : Origin} {before : List Turn} {frames : List Bytes} {turns : List Turn} {marks : List History}

theorem Goes.refl (tracks : r.game.Tracks opened before) (idle : r.game.pending = []) (based : r.based = true) :
    Goes ruleset opened before [] [] r r :=
  ⟨by rw [append_nil]; exact tracks, idle, based, rfl, rfl, (append_nil _).symm⟩

theorem Goes.turn {turn : Turn} {frame : Bytes} (ruleset : Ruleset σ) (tracks : r.game.Tracks opened before)
    (idle : r.game.pending = [])
    (based : r.based = true) (encoded : Encodes turn frame) (next : (opened.after before).Next turn) :
    Goes ruleset opened before [turn] [] r (r.taken ruleset frame turn) := by
  obtain ⟨same, pending, histories⟩ := r.taken_rest ruleset frame turn
  obtain ⟨standing, banned⟩ := r.taken_standing ruleset frame turn based
  refine ⟨taken_tracks tracks idle encoded next, pending.trans idle, same.trans based, standing, ?_, ?_⟩
  · rw [banned, flatMap_singleton]
  · rw [histories, append_nil]

theorem Goes.trans {more : List Turn} {later : List History} (first : Goes ruleset opened before turns marks r r')
    (second : Goes ruleset opened (before ++ turns) more later r' r'') :
    Goes ruleset opened before (turns ++ more) (marks ++ later) r r'' := by
  refine ⟨?_, second.idle, second.based, ?_, ?_, ?_⟩
  · rw [← append_assoc]
    exact second.tracks
  · rw [second.standing, first.standing, Standing.after_append]
  · rw [second.banned, first.banned, flatMap_append, foldl_append]
  · rw [second.histories, first.histories, append_assoc]

theorem Goes.mark (ruleset : Ruleset σ) (marker : TurnStart) (tracks : r.game.Tracks opened before)
    (idle : r.game.pending = []) (based : r.based = true) :
    Goes ruleset opened before [] [{ id := marker.history, afterTurn := (opened.after before).turn - 1 }] r
      { r with game := r.game.beginHistory marker.history, index := r.index + 1 } := by
  obtain ⟨⟨chain, nextTurn, numbered, nextEvent, steps, window⟩, frontier⟩ := tracks
  refine ⟨?_, idle, based, rfl, rfl, ?_⟩
  · rw [append_nil]
    exact ⟨⟨chain, nextTurn, numbered, nextEvent, steps, window⟩, frontier⟩
  · rw [← nextTurn]
    rfl

end Replay

theorem Scroll.read {σ : Type} {ruleset : Ruleset σ} {base : Option Base} {r r' : Replay σ} {opened : Origin}
    {before : List Turn} {frames : List Bytes} {marks : List History}
    (scroll : Scroll (opened.after before) frames turns marks) (tracks : r.game.Tracks opened before)
    (idle : r.game.pending = []) (based : r.based = true)
    (read : frames.foldlM (Replay.takeRecord ruleset base) r = .ok r') :
    Replay.Goes ruleset opened before turns marks r r' := by
  generalize origin : opened.after before = o at scroll
  induction scroll generalizing r before with
  | nil =>
    cases read
    exact .refl tracks idle based
  | turn encoded next _ ih =>
    subst origin
    obtain ⟨middle, taken, rest⟩ := Run.bind_ok.mp read
    obtain ⟨unsettled, first, settled⟩ := Run.bind_ok.mp taken
    rw [Replay.read_turn encoded first] at settled
    have goes := Replay.Goes.turn ruleset tracks idle based encoded next
    rw [Replay.settle_based goes.based] at settled
    cases settled
    exact goes.trans (ih goes.tracks goes.idle goes.based rest (opened.after_append before [_]))
  | @mark _ marker _ _ _ _ encoded turn event _ _ ih =>
    subst origin
    obtain ⟨middle, taken, rest⟩ := Run.bind_ok.mp read
    obtain ⟨unsettled, first, settled⟩ := Run.bind_ok.mp taken
    rw [Replay.read_mark encoded first] at settled
    have goes := Replay.Goes.mark ruleset marker tracks idle based
    rw [Replay.settle_based goes.based] at settled
    cases settled
    exact goes.trans (ih goes.tracks goes.idle goes.based rest (by rw [append_nil]))

namespace Replay
variable {σ : Type} {ruleset : Ruleset σ} {base : Base} {r r' : Replay σ} {opened : Origin} {before kept : List Turn}
  {window left : List Bytes}

/-- The replay stands among turns that a compacted log only keeps. -/
structure Waits (opened : Origin) (before : List Turn) (r : Replay σ) : Prop where
  tracks : r.game.Tracks opened before
  idle : r.game.pending = []
  unbased : r.based = false

/-- It has come to where its base stands, with the speed of the last turn. -/
structure Met (opened : Origin) (before : List Turn) (speed : Speed) (r r' : Replay σ) : Prop where
  tracks : r'.game.Tracks opened before
  idle : r'.game.pending = []
  based : r'.based = true
  standing : r'.standing = { r.standing with origin := opened.after before, speed }
  banned : r'.banned = r.banned
  histories : r'.game.histories = r.game.histories

section
variable (waits : r.Waits opened before)
include waits

theorem Waits.turn {turn : Turn} {frame : Bytes} (encoded : Encodes turn frame)
    (next : (opened.after before).Next turn) : (r.taken ruleset frame turn).Waits opened (before ++ [turn]) := by
  obtain ⟨same, pending, _⟩ := r.taken_rest ruleset frame turn
  exact ⟨taken_tracks waits.tracks waits.idle encoded next, pending.trans waits.idle, same.trans waits.unbased⟩

theorem Waits.stays {turn : Turn}
    (stands : opened.after (before ++ turn :: kept) = ⟨base.afterTurn + 1, base.nextEvent, base.sealedThrough⟩) :
    r.settle (some base) = .ok r := by
  have origin := waits.tracks.origin waits.idle
  have turns := congrArg Origin.turn stands
  rw [opened.after_append before (turn :: kept), ← origin] at turns
  simp only [Game.origin, Origin.after, length_cons] at turns
  unfold settle
  rw [waits.unbased, if_neg]
  simp only [Bool.not_false, Bool.true_and, decide_eq_true_eq, Option.map_some, Option.getD_some]
  omega

theorem Waits.settles (stands : opened.after before = ⟨base.afterTurn + 1, base.nextEvent, base.sealedThrough⟩)
    (settled : r.settle (some base) = .ok r') : r.Met opened before r.game.speed r' := by
  have origin := waits.tracks.origin waits.idle
  have turn : r.game.nextTurn = base.afterTurn + 1 := congrArg Origin.turn (origin.trans stands)
  unfold settle at settled
  rw [waits.unbased, if_pos (by simp [turn])] at settled
  split at settled
  · cases settled
    obtain ⟨⟨chain, nextTurn, numbered, nextEvent, steps, window⟩, frontier⟩ := waits.tracks
    refine ⟨⟨⟨chain, nextTurn, numbered, nextEvent, steps, window⟩, frontier⟩, waits.idle, rfl, ?_, rfl, rfl⟩
    rw [← origin]
    rfl
  · cases settled

end

theorem Met.taken {turn : Turn} {frame : Bytes} {speed : Speed} (unbased : r.based = false)
    (met : (r.taken ruleset frame turn).Met opened before speed r') : r.Met opened before speed r' := by
  obtain ⟨standing, banned⟩ := r.taken_unbased ruleset frame turn unbased
  obtain ⟨_, _, histories⟩ := r.taken_rest ruleset frame turn
  refine ⟨met.tracks, met.idle, met.based, ?_, met.banned.trans banned, met.histories.trans histories⟩
  rw [met.standing, standing]

theorem Waits.read {tail : List Bytes} (waits : r.Waits opened before) (encodes : Forall₂ Encodes kept window)
    (chain : Chain (opened.after before) kept)
    (stands : opened.after (before ++ kept) = ⟨base.afterTurn + 1, base.nextEvent, base.sealedThrough⟩)
    (cut : left <+: window ++ tail) (read : r.onward ruleset (some base) left = .ok r') (based : r'.based = true) :
    ∃ rest middle, left = window ++ rest ∧ r.Met opened (before ++ kept) (lastSpeed r.game.speed kept) middle ∧
      rest.foldlM (takeRecord ruleset (some base)) middle = .ok r' := by
  induction encodes generalizing r before left with
  | nil =>
    obtain ⟨settled, settles, rest⟩ := Run.bind_ok.mp read
    rw [append_nil] at stands ⊢
    exact ⟨left, settled, rfl, waits.settles stands settles, rest⟩
  | @cons turn frame kept window encoded _ ih =>
    have stays := waits.stays stands
    cases left with
    | nil =>
      -- The log ends among its kept turns.
      unfold onward at read
      rw [stays] at read
      cases read
      cases waits.unbased.symm.trans based
    | cons frame' left =>
      obtain ⟨rfl, shorter⟩ := cons_prefix_cons.mp cut
      rw [onward_cons, stays, Run.ok_bind] at read
      obtain ⟨taken, first, read⟩ := Run.bind_ok.mp read
      cases read_turn encoded first
      have onward : opened.after (before ++ [turn]) = (opened.after before).after [turn] :=
        opened.after_append before [turn]
      have split : before ++ [turn] ++ kept = before ++ turn :: kept := by simp
      obtain ⟨rest, middle, same, met, read⟩ :=
        ih (waits.turn encoded chain.1) (onward ▸ chain.2) (split ▸ stands) shorter read
      rw [split] at met
      exact ⟨rest, middle, congrArg _ same, met.taken waits.unbased, read⟩

end Replay

end Tpf3Mp.Server
