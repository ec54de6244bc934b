import Tpf3Mp.Proto.Chain
import Tpf3Mp.Run.Basic
import Tpf3Mp.Server.Game

/-!
What a game's log holds. From wherever a game was taken up, the turns it seals continue one another,
carry every ordered event once, and the resume window keeps the last of them with their frames.
-/

namespace Tpf3Mp.Server
open Codec Proto List

def Encodes (turn : Turn) (frame : Bytes) : Prop :=
  encodeFrame Proto.Wire.turnMessage (.turn turn) turnMaxFrame = .ok frame

def logged (o : Origin) : List Turn → List Bytes → List LoggedTurn
  | turn :: turns, frame :: frames =>
    { firstEvent := o.event, sealedThrough := turn.sealedThrough, frame } :: logged (o.after [turn]) turns frames
  | _, _ => []

theorem logged_append {o : Origin} {left right : List Turn} {frames others : List Bytes}
    (same : left.length = frames.length) :
    logged o (left ++ right) (frames ++ others) = logged o left frames ++ logged (o.after left) right others := by
  induction left generalizing o frames with
  | nil =>
    obtain rfl := length_eq_zero_iff.mp same.symm
    simp [logged, Origin.after, lastFrontier]
  | cons turn left ih =>
    obtain ⟨frame, frames, rfl⟩ := exists_cons_of_length_eq_add_one same.symm
    simp only [cons_append, logged, ih (Nat.succ.inj same), o.after_cons turn left]

namespace Game

/-- The window holds the last turns; what was dropped from it only leaves its turn and frontier. -/
def Window (o : Origin) (turns : List Turn) (log : List LoggedTurn) (first sealedBefore : Nat) : Prop :=
  ∃ gone kept frames, turns = gone ++ kept ∧ Forall₂ Encodes kept frames ∧
    log = logged (o.after gone) kept frames ∧ first = (o.after gone).turn ∧ sealedBefore = (o.after gone).frontier

structure Keeps (g : Game) (o : Origin) (turns : List Turn) (pending : List Event) : Prop where
  chain : Chain o turns
  nextTurn : g.nextTurn = (o.after turns).turn
  numbered : Numbered (o.after turns).event pending
  nextEvent : g.nextEvent = (o.after turns).event + pending.length
  steps : ∀ event ∈ pending, event.step = ((o.after turns).frontier + 1) % 2 ^ 64
  window : Window o turns g.log g.logFirstTurn g.sealedBeforeLog

/-- The game stands after these turns, taken up from an origin. -/
structure Tracks (g : Game) (o : Origin) (turns : List Turn) : Prop where
  keeps : g.Keeps o turns g.pending
  frontier : g.sealedThrough = (o.after turns).frontier

theorem new_tracks (settings : RoomSettings) (history : UInt64) (now : Instant) :
    (new settings history now).Tracks ⟨1, 1, 0⟩ [] :=
  ⟨⟨trivial, rfl, rfl, rfl, by simp [new], [], [], [], rfl, .nil, rfl, rfl, rfl⟩, rfl⟩

variable {turns : List Turn} {o : Origin} {g : Game} {frames : List Bytes} {first : Nat} {turn : Turn}
  {frontier : Nat}

theorem trimTurns_window {log : List LoggedTurn} {window bytes sealedBefore : Nat}
    (held : Window o turns log first sealedBefore) : Window o turns (trimTurns window log bytes first sealedBefore).1
      (trimTurns window log bytes first sealedBefore).2.2.1 (trimTurns window log bytes first sealedBefore).2.2.2 := by
  induction log generalizing bytes first sealedBefore with
  | nil => exact held
  | cons oldest rest ih =>
    rw [trimTurns]
    split
    · obtain ⟨gone, kept, frames, rfl, encoded, log, rfl, rfl⟩ := held
      -- The oldest turn the window kept is the next one gone.
      cases encoded with
      | nil => cases log
      | @cons turn frame kept frames first encoded =>
        obtain ⟨rfl, rfl⟩ := List.cons.inj log
        refine ih ⟨gone ++ [turn], kept, frames, by simp, encoded, ?_, ?_, ?_⟩
        · rw [o.after_append gone [turn]]
        · rw [o.after_append gone [turn]]
          rfl
        · rw [o.after_append gone [turn]]
          rfl
    · exact held

theorem window_push {log : List LoggedTurn} {frame : Bytes}
    {sealedBefore : Nat} (held : Window o turns log first sealedBefore) (encoded : Encodes turn frame) :
    Window o (turns ++ [turn])
      (log ++ [{ firstEvent := (o.after turns).event, sealedThrough := turn.sealedThrough, frame }])
      first sealedBefore := by
  obtain ⟨gone, kept, frames, rfl, all, rfl, rfl, rfl⟩ := held
  refine ⟨gone, kept ++ [turn], frames ++ [frame], by simp, rel_append all (.cons encoded .nil), ?_, rfl, rfl⟩
  rw [logged_append all.length_eq, ← o.after_append gone kept]
  rfl

theorem keep_keeps {frame : Bytes} {pending : List Event}
    (keeps : g.Keeps o turns (turn.events ++ pending)) (next : (o.after turns).Next turn)
    (encoded : Encodes turn frame) (waiting : pending = [] ∨ turn.sealedThrough = (o.after turns).frontier) :
    (g.keep { firstEvent := (o.after turns).event, sealedThrough := turn.sealedThrough, frame }).Keeps
      o (turns ++ [turn]) pending := by
  have after := o.after_append turns [turn]
  have numbered := numbered_append.mp keeps.numbered
  refine ⟨chain_append.mpr ⟨keeps.chain, next, trivial⟩, ?_, ?_, ?_, ?_, ?_⟩
  · rw [after, keep, keeps.nextTurn]
    rfl
  · rw [after]
    simpa [Origin.after] using numbered.2
  · rw [after, keep, remember, trim]
    simp only [keeps.nextEvent, Origin.after, length_append, flatMap_cons, flatMap_nil, append_nil]
    omega
  · intro event member
    rcases waiting with rfl | same
    · cases member
    · rw [after, keeps.steps event (mem_append_right _ member), ← same]
      rfl
  · exact trimTurns_window (window_push keeps.window encoded)

theorem batches_flatten (budget : Nat) (batch events : List Event) :
    (batches budget batch events).flatten = batch ++ events := by
  induction events generalizing budget batch with
  | nil => simp [batches]
  | cons event rest ih =>
    unfold batches
    split
    · rw [flatten_cons, ih]
      rfl
    · rw [ih, append_assoc]
      rfl

theorem batches_nonempty {budget : Nat} {batch events : List Event} (begun : batch ≠ []) :
    ∀ other ∈ batches budget batch events, other ≠ [] := by
  induction events generalizing budget batch with
  | nil => simpa [batches] using begun
  | cons event rest ih =>
    unfold batches
    split
    · intro other member
      rcases mem_cons.mp member with rfl | later
      · exact begun
      · exact ih (by simp) other later
    · exact ih (by simp)

theorem batches_ne_nil (budget : Nat) (batch events : List Event) : batches budget batch events ≠ [] := by
  induction events generalizing budget batch with
  | nil => simp [batches]
  | cons event rest ih =>
    unfold batches
    split
    · simp
    · exact ih _ _

/-- Only a seal without events makes a turn without events. -/
theorem batches_shape (pending : List Event) :
    batches 0 [] pending = [[]] ∨ ∀ batch ∈ batches 0 [] pending, batch ≠ [] := by
  cases pending with
  | nil => exact .inl rfl
  | cons event rest =>
    refine .inr ?_
    unfold batches
    rw [if_neg (by simp)]
    exact batches_nonempty (by simp)

theorem sealBatches_ok {bs : List (List Event)} {g' : Game}
    (sealed : sealBatches frontier bs g = (g', .ok frames)) (keeps : g.Keeps o turns bs.flatten)
    (here : g.sealedThrough = (o.after turns).frontier) (forward : g.sealedThrough ≤ frontier)
    (shape : bs = [[]] ∨ ∀ batch ∈ bs, batch ≠ []) :
    ∃ fresh, Forall₂ Encodes fresh frames ∧ fresh.map Turn.events = bs ∧
      (∀ turn ∈ fresh, turn.speed = g.speed) ∧ g' = (logged (o.after turns) fresh frames).foldl keep g ∧
      g'.Keeps o (turns ++ fresh) [] ∧ (bs ≠ [] → (o.after (turns ++ fresh)).frontier = frontier) := by
  induction bs generalizing g turns frames with
  | nil =>
    cases sealed
    refine ⟨[], .nil, rfl, by simp, rfl, ?_, fun more => absurd rfl more⟩
    rw [append_nil]
    exact keeps
  | cons events rest ih =>
    unfold sealBatches at sealed
    dsimp only at sealed
    split at sealed
    · cases sealed
    rename_i frame encoded
    let turn : Turn :=
      { number := g.nextTurn, sealedThrough := if rest = [] then frontier else g.sealedThrough,
        speed := g.speed, events }
    have numbered := numbered_append.mp (flatten_cons ▸ keeps.numbered)
    have first : (events.head?.map Event.seq).getD g.nextEvent = (o.after turns).event := by
      cases events with
      | nil =>
        have alone : rest = [] := by
          rcases shape with only | all
          · exact (List.cons.inj only).2
          · exact absurd rfl (all [] mem_cons_self)
        rw [alone] at keeps
        simpa using keeps.nextEvent
      | cons event events => exact (numbered_cons.mp numbered.1).1
    have next : (o.after turns).Next turn := by
      refine ⟨⟨keeps.nextTurn, ?_, numbered.1⟩, ?_⟩
      · dsimp only [turn]
        split
        · exact here ▸ forward
        · exact le_of_eq here.symm
      · intro event member
        exact keeps.steps event (by rw [flatten_cons]; exact mem_append_left _ member)
    have waiting : rest.flatten = [] ∨ turn.sealedThrough = (o.after turns).frontier := by
      by_cases last : rest = []
      · exact .inl (by rw [last]; rfl)
      · exact .inr (by dsimp only [turn]; rw [if_neg last]; exact here)
    have kept := keep_keeps (flatten_cons ▸ keeps) next encoded waiting
    rw [first] at sealed
    split at sealed
    · next g'' frames' later =>
      cases sealed
      cases rest with
      | nil =>
        cases later
        refine ⟨[turn], .cons encoded .nil, rfl, by simp [turn], rfl, kept, fun _ => ?_⟩
        rw [o.after_append turns [turn]]
        rfl
      | cons batch rest =>
        have after : (o.after (turns ++ [turn])).frontier = g.sealedThrough := by
          rw [o.after_append turns [turn]]
          rfl
        have shape' : batch :: rest = [[]] ∨ ∀ other ∈ batch :: rest, other ≠ [] := by
          rcases shape with only | all
          · cases only
          · exact .inr (fun other member => all other (mem_cons_of_mem _ member))
        obtain ⟨fresh, encodes, same, speeds, folded, keeps', last⟩ := ih later kept after.symm forward shape'
        refine ⟨turn :: fresh, .cons encoded encodes, by simp [turn, same], ?_, ?_, ?_, fun _ => ?_⟩
        · intro other member
          rcases mem_cons.mp member with rfl | member
          · rfl
          · exact speeds other member
        · rw [folded, o.after_append turns [turn]]
          rfl
        · simpa using keeps'
        · simpa using last (by simp)
    · cases sealed

theorem foldl_keep (g : Game) (log : List LoggedTurn) : ∃ window bytes first sealedBefore, log.foldl keep g = { g with
      nextTurn := g.nextTurn + log.length, log := window, logBytes := bytes, logFirstTurn := first
      sealedBeforeLog := sealedBefore } := by
  induction log generalizing g with
  | nil => exact ⟨_, _, _, _, rfl⟩
  | cons turn log ih =>
    obtain ⟨window, bytes, first, sealedBefore, folded⟩ := ih (g.keep turn)
    refine ⟨window, bytes, first, sealedBefore, ?_⟩
    rw [foldl_cons, folded, length_cons, Nat.add_comm log.length 1, ← Nat.add_assoc]
    rfl

theorem foldl_keep_pending (g : Game) (pending : List Event) (log : List LoggedTurn) :
    log.foldl keep { g with pending } = { log.foldl keep g with pending } := by
  induction log generalizing g with
  | nil => rfl
  | cons turn log ih => exact ih (g.keep turn)

theorem sealPending_ok {g' : Game} (sealed : g.sealPending frontier = (g', .ok frames)) (tracks : g.Tracks o turns)
    (forward : g.sealedThrough ≤ frontier) :
    ∃ fresh, Forall₂ Encodes fresh frames ∧ fresh.flatMap Turn.events = g.pending ∧ fresh ≠ [] ∧
      (∀ turn ∈ fresh, turn.speed = g.speed) ∧
      g' = { (logged (o.after turns) fresh frames).foldl keep g with
        pending := [], sealedThrough := frontier, announcedSpeed := g.speed } ∧
      g'.Tracks o (turns ++ fresh) := by
  unfold sealPending at sealed
  split at sealed
  · next middle frames' batched =>
    cases sealed
    have pending : (batches 0 [] g.pending).flatten = g.pending := batches_flatten 0 [] g.pending
    have keeps : ({ g with pending := [] } : Game).Keeps o turns (batches 0 [] g.pending).flatten := by
      rw [pending]
      obtain ⟨chain, nextTurn, numbered, nextEvent, steps, window⟩ := tracks.keeps
      exact ⟨chain, nextTurn, numbered, nextEvent, steps, window⟩
    obtain ⟨fresh, encodes, same, speeds, folded, keeps', last⟩ :=
      sealBatches_ok batched keeps tracks.frontier forward (batches_shape g.pending)
    have more : fresh ≠ [] := by
      rintro rfl
      exact batches_ne_nil 0 [] g.pending same.symm
    rw [foldl_keep_pending] at folded
    obtain ⟨window, bytes, first, sealedBefore, unfolded⟩ := foldl_keep g (logged (o.after turns) fresh frames)
    have after := last (batches_ne_nil 0 [] g.pending)
    obtain ⟨chain, nextTurn, numbered, nextEvent, steps, held⟩ := keeps'
    refine ⟨fresh, encodes, ?_, more, speeds, ?_, ⟨⟨chain, nextTurn, ?_, ?_, ?_, held⟩, after.symm⟩⟩
    · rw [← pending, ← same, flatMap_def]
    · rw [folded, unfolded]
    · rw [folded]
      exact numbered
    · rw [folded] at nextEvent ⊢
      exact nextEvent
    · rw [folded]
      exact steps
  · cases sealed

theorem append_tracks {σ : Type} (tracks : g.Tracks o turns)
    (body : EventBody) (rules : Ruleset σ) (state : σ) : (g.append body rules state).1.Tracks o turns := by
  obtain ⟨⟨chain, nextTurn, numbered, nextEvent, steps, window⟩, frontier⟩ := tracks
  refine ⟨⟨chain, nextTurn, ?_, ?_, ?_, window⟩, frontier⟩
  · exact numbered_append.mpr ⟨numbered, by simp [Numbered, nextEvent]⟩
  · simp only [append, nextEvent, length_append, length_singleton, Nat.add_assoc]
  intro event member
  rcases mem_append.mp member with old | new
  · exact steps event old
  · rw [mem_singleton.mp new, frontier]

/-- A stream that starts at some point of the log and goes on with the turns after it. -/
structure StreamAt (stream : Stream) (o : Origin) (before after : List Turn) : Prop where
  nextTurn : stream.nextTurn = (o.after before).turn
  nextEvent : stream.nextEvent = (o.after before).event
  sealedThrough : stream.sealedThrough = (o.after before).frontier
  backlog : Forall₂ Encodes after stream.backlog

section
variable (same : turns.length = frames.length)
include same

theorem logged_length : (logged o turns frames).length = turns.length := by
  induction turns generalizing o frames with
  | nil => rfl
  | cons turn turns ih =>
    obtain ⟨frame, frames, rfl⟩ := exists_cons_of_length_eq_add_one same.symm
    simp only [logged, length_cons, ih (Nat.succ.inj same)]

theorem logged_frames : (logged o turns frames).map LoggedTurn.frame = frames := by
  induction turns generalizing o frames with
  | nil => exact (length_eq_zero_iff.mp same.symm).symm
  | cons turn turns ih =>
    obtain ⟨frame, frames, rfl⟩ := exists_cons_of_length_eq_add_one same.symm
    simp only [logged, map_cons, ih (Nat.succ.inj same)]

theorem logged_sealedThrough {index : Nat} :
    (logged o turns frames)[index]?.map LoggedTurn.sealedThrough = turns[index]?.map Turn.sealedThrough := by
  induction turns generalizing o frames index with
  | nil => rfl
  | cons turn turns ih =>
    obtain ⟨frame, frames, rfl⟩ := exists_cons_of_length_eq_add_one same.symm
    cases index with
    | zero => rfl
    | succ index => exact ih (Nat.succ.inj same)

end

theorem lastFrontier_take {index : Nat} (found : turns[index]? = some turn) :
    lastFrontier frontier (turns.take (index + 1)) = turn.sealedThrough := by
  rw [take_add_one, found, lastFrontier_append]
  rfl

theorem streamAfter_ok {resume : Option Resume} {stream : Stream}
    (tracks : g.Tracks o turns) (granted : g.streamAfter resume = .ok stream) :
    g.resumeFrom resume = .ok stream.nextTurn ∧ g.logFirstTurn ≤ stream.nextTurn ∧
      ∃ before after, turns = before ++ after ∧ StreamAt stream o before after := by
  obtain ⟨first, resumed, granted⟩ := Run.bind_ok.mp granted
  split at granted
  · cases granted
  rename_i inside
  cases granted
  obtain ⟨low, high⟩ := not_or.mp inside
  refine ⟨resumed, not_lt.mp high, ?_⟩
  obtain ⟨⟨_, nextTurn, numbered, nextEvent, _, gone, kept, frames, rfl, encodes, log, logFirst, sealedBefore⟩,
    frontier⟩ := tracks
  have size := encodes.length_eq
  have total : g.nextTurn = g.logFirstTurn + kept.length := by
    rw [nextTurn, logFirst, o.after_append gone kept]
    rfl
  have skip : first - g.logFirstTurn ≤ kept.length := by omega
  generalize skipped : first - g.logFirstTurn = count at skip
  have split : kept = kept.take count ++ kept.drop count := (take_append_drop count kept).symm
  have taken : (kept.take count).length = (frames.take count).length := by
    rw [length_take, length_take, size]
  have rest : g.log.drop count = logged ((o.after gone).after (kept.take count)) (kept.drop count)
    (frames.drop count) := by
    have whole := @logged_append (o.after gone) (kept.take count) (kept.drop count) (frames.take count)
      (frames.drop count) taken
    rw [take_append_drop, take_append_drop] at whole
    rw [log, whole]
    apply drop_left'
    rw [logged_length taken, length_take]
    omega
  have after := o.after_append gone (kept.take count)
  refine ⟨gone ++ kept.take count, kept.drop count, by rw [append_assoc, ← split], ?_, ?_, ?_, ?_⟩
  · rw [after]
    simp only [Origin.after, length_take] at logFirst ⊢
    omega
  · dsimp only
    rw [rest, after]
    cases left : kept.drop count with
    | nil =>
      have all : kept.take count = kept := by rw [left, append_nil] at split; exact split.symm
      rw [all, ← o.after_append gone kept, logged]
      · cases waiting : g.pending with
        | nil => rw [nextEvent, waiting]; rfl
        | cons event pending =>
          rw [waiting] at numbered
          exact (numbered_cons.mp numbered).1
      · simp
    | cons turn turns =>
      obtain ⟨frame, others, same⟩ : ∃ frame others, frames.drop count = frame :: others := by
        apply exists_cons_of_length_eq_add_one
        rw [length_drop, ← size, ← length_drop, left, length_cons]
      rw [same]
      rfl
  · dsimp only
    rw [after]
    cases count with
    | zero => exact sealedBefore
    | succ index =>
      obtain ⟨turn, found⟩ : ∃ turn, kept[index]? = some turn := ⟨_, getElem?_eq_getElem (by omega)⟩
      dsimp only
      rw [log, logged_sealedThrough size, found]
      exact (lastFrontier_take found).symm
  · dsimp only
    rw [rest, logged_frames (by rw [length_drop, length_drop, size])]
    exact forall₂_drop count encodes

theorem resumeFrom_some {resume : Resume} (resumed : g.resumeFrom (some resume) = .ok first) :
    first = satAdd resume.afterTurn 1 := by
  unfold resumeFrom at resumed
  dsimp only at resumed
  split at resumed
  · cases resumed
  split at resumed
  · cases resumed
  · cases resumed
    rfl

theorem streamAfter_granted {resume : Option Resume} (resumed : g.resumeFrom resume = .ok first)
    (kept : g.logFirstTurn ≤ first) (sealed : first ≤ g.nextTurn) : ∃ stream, g.streamAfter resume = .ok stream := by
  refine ⟨_, Run.bind_ok.mpr ⟨first, resumed, if_neg ?_⟩⟩
  omega

end Game

end Tpf3Mp.Server
