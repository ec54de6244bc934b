import Tpf3Mp.Proto.Turn

/-!
Consecutive turns of one game: numbered one after another, with every event numbered and timed as
the turns before it leave it.
-/

namespace Tpf3Mp.Proto
open List

def Numbered (first : Nat) (events : List Event) : Prop :=
  events.map Event.seq = range' first events.length

theorem numbered_cons {first : Nat} {event : Event} {events : List Event} :
    Numbered first (event :: events) ↔ event.seq = first ∧ Numbered (first + 1) events := by
  simp [Numbered, range'_succ]

theorem numbered_append {first : Nat} {left right : List Event} :
    Numbered first (left ++ right) ↔ Numbered first left ∧ Numbered (first + left.length) right := by
  induction left generalizing first with
  | nil => simp [Numbered]
  | cons event left ih =>
    rw [cons_append, numbered_cons, numbered_cons, ih, length_cons,
      show first + (left.length + 1) = first + 1 + left.length by omega, and_assoc]

def lastFrontier (frontier : Nat) (turns : List Turn) : Nat :=
  turns.foldl (fun _ turn => turn.sealedThrough) frontier

theorem lastFrontier_append (frontier : Nat) (left right : List Turn) :
    lastFrontier frontier (left ++ right) = lastFrontier (lastFrontier frontier left) right :=
  foldl_append

/-- Where a stretch of turns begins: the next turn, the next event and the frontier. -/
structure Origin where
  turn : Nat
  event : Nat
  frontier : Nat
  deriving DecidableEq

def Origin.after (o : Origin) (turns : List Turn) : Origin where
  turn := o.turn + turns.length
  event := o.event + (turns.flatMap Turn.events).length
  frontier := lastFrontier o.frontier turns

theorem Origin.after_append (o : Origin) (left right : List Turn) :
    o.after (left ++ right) = (o.after left).after right := by
  simp only [after, length_append, flatMap_append, lastFrontier_append, Nat.add_assoc]

@[simp] theorem Origin.after_nil (o : Origin) : o.after [] = o := rfl

theorem Origin.after_cons (o : Origin) (turn : Turn) (turns : List Turn) :
    o.after (turn :: turns) = (o.after [turn]).after turns := o.after_append [turn] turns

/-- One turn whose numbers continue from where others end. -/
structure Origin.Continues (o : Origin) (turn : Turn) : Prop where
  number : turn.number = o.turn
  forward : o.frontier ≤ turn.sealedThrough
  numbered : Numbered o.event turn.events

/-- One turn that continues from where others end. The step of its events wraps as the server's does. -/
structure Origin.Next (o : Origin) (turn : Turn) : Prop extends o.Continues turn where
  steps : ∀ event ∈ turn.events, event.step = (o.frontier + 1) % 2 ^ 64

variable {o : Origin} {turns : List Turn}

theorem Origin.Next.fits {turn : Turn} (next : o.Next turn) (number : o.turn < 2 ^ 64)
    (sealed : turn.sealedThrough < 2 ^ 64) (events : o.event + turn.events.length < 2 ^ 64) :
    Wire.turnMessage.Fits (.turn turn) := by
  refine Wire.turn_fits (next.number ▸ number) sealed (by omega) fun event member => ⟨?_, ?_⟩
  · have inside := mem_map_of_mem (f := Event.seq) member
    rw [next.numbered] at inside
    have := mem_range'_1.mp inside
    omega
  · rw [next.steps event member]
    exact Nat.mod_lt _ (by decide)

def Chain (o : Origin) : List Turn → Prop
  | [] => True
  | turn :: turns => o.Next turn ∧ Chain (o.after [turn]) turns

theorem chain_append {left right : List Turn} :
    Chain o (left ++ right) ↔ Chain o left ∧ Chain (o.after left) right := by
  induction left generalizing o with
  | nil => simp [Chain, Origin.after, lastFrontier]
  | cons turn left ih =>
    rw [cons_append, Chain, Chain, ih, o.after_cons turn left, and_assoc]

section
variable (chain : Chain o turns)
include chain

theorem Chain.forward : o.frontier ≤ (o.after turns).frontier := by
  induction turns generalizing o with
  | nil => exact le_rfl
  | cons turn turns ih =>
    exact le_trans chain.1.forward (ih chain.2)

theorem Chain.bounded : ∀ turn ∈ turns, turn.sealedThrough ≤ (o.after turns).frontier := by
  induction turns generalizing o with
  | nil => simp
  | cons first turns ih =>
    intro turn member
    rcases mem_cons.mp member with rfl | member
    · exact chain.2.forward
    · exact ih chain.2 turn member

theorem Chain.numbered : Numbered o.event (turns.flatMap Turn.events) := by
  induction turns generalizing o with
  | nil => rfl
  | cons turn turns ih =>
    have rest := ih chain.2
    simp only [Origin.after, flatMap_cons, flatMap_nil, append_nil] at rest
    exact numbered_append.mpr ⟨chain.1.numbered, rest⟩

theorem Chain.steps (room : (o.after turns).frontier < u64Max) :
    ∀ event ∈ turns.flatMap Turn.events, o.frontier < event.step ∧ event.step ≤ (o.after turns).frontier + 1 := by
  induction turns generalizing o with
  | nil => simp
  | cons turn turns ih =>
    have rest := o.after_cons turn turns
    have here : o.frontier ≤ (o.after [turn]).frontier := chain.1.forward
    have onward := chain.2.forward
    have limit : u64Max < 2 ^ 64 := by decide
    rw [rest] at room ⊢
    intro event member
    rcases mem_append.mp (flatMap_cons ▸ member) with first | later
    · have step := chain.1.steps event first
      omega
    · have step := ih chain.2 room event later
      omega

end

end Tpf3Mp.Proto
