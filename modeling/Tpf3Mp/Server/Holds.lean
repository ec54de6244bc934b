import Tpf3Mp.Server.SaveRuns
import Mathlib.Data.List.Flatten
import Mathlib.Logic.Function.Basic

/-!
Who holds which snapshot of the server's store (`tpf3mp-server`, `snapshots.rs`, and the upload half of
`bulk_stream` in `connection.rs`). Holds pass from an upload's task to a room by a command and from a
room's slots to a release in the background; every lock section, store call and point at which a task
waits is a step of its own.
-/

namespace Tpf3Mp.Server
open Proto List

abbrev ChunkId := FixedBytes 32

/-- How many holds each snapshot has; one without has no entry in the source's map. -/
abbrev Holding := SnapshotId → Nat

variable {id : SnapshotId}

namespace Holding

def hold (h : Holding) (id : SnapshotId) : Holding := Function.update h id (h id + 1)

/-- The first lock section of `release`: gives up the holds, and lists the snapshots left without. -/
def count : Holding → List SnapshotId → Holding × List SnapshotId
  | h, [] => (h, [])
  | h, id :: ids =>
    if h id > 1 then count (Function.update h id (h id - 1)) ids
    else
      let (h, unheld) := count (Function.update h id 0) ids
      (h, id :: unheld)

/-- The second, `drop_unheld`: a snapshot that is held again stays, and so does a record that cannot be
removed. -/
def dropUnheld (h : Holding) (stuck : SnapshotId → Bool) (ids retained : List SnapshotId) : List SnapshotId :=
  retained.filter fun id => !(ids.contains id && h id = 0 && !stuck id)

theorem hold_eq (h : Holding) (id other : SnapshotId) : h.hold id other = h other + [id].count other := by
  unfold hold
  by_cases same : other = id
  · subst same
    simp
  · rw [Function.update_of_ne same, count_eq_zero_of_not_mem (by simpa using same), Nat.add_zero]

theorem update_pred (h : Holding) {left : Nat} (less : left = h id - 1) (other : SnapshotId) :
    Function.update h id left other = h other - [id].count other := by
  by_cases same : other = id
  · subst same
    simp [less]
  · rw [Function.update_of_ne same, count_eq_zero_of_not_mem (by simpa using same), Nat.sub_zero]

theorem count_eq (h : Holding) (ids : List SnapshotId) (other : SnapshotId) :
    (h.count ids).1 other = h other - ids.count other := by
  induction ids generalizing h with
  | nil => rfl
  | cons id ids ih =>
    have split : (id :: ids).count other = [id].count other + ids.count other := by
      rw [← count_append, singleton_append]
    rw [split, ← Nat.sub_sub]
    unfold count
    split
    · rw [ih, update_pred h rfl]
    · dsimp only
      rw [ih, update_pred h (by omega)]

theorem mem_dropUnheld {h : Holding} {stuck : SnapshotId → Bool} {ids retained : List SnapshotId}
    (there : id ∈ retained) (held : h id ≠ 0) : id ∈ h.dropUnheld stuck ids retained :=
  mem_filter.mpr ⟨there, by simp [held]⟩

end Holding

/-- `gc`: deletes the chunks of no retained snapshot and no unfinished transfer. A file that cannot be
removed stays. -/
def collectChunks (parts : SnapshotId → List ChunkId) (retained pending : List SnapshotId) (stuck : ChunkId → Bool)
    (chunks : List ChunkId) : List ChunkId :=
  chunks.filter fun chunk => stuck chunk || (retained ++ pending).any fun id => (parts id).contains chunk

structure Slots where
  current : Option SnapshotId
  previous : Option SnapshotId
  deriving DecidableEq

namespace Slots

def empty : Slots := { current := none, previous := none }

def held (s : Slots) : List SnapshotId := s.current.toList ++ s.previous.toList

def promote (s : Slots) (id : SnapshotId) : Slots := { current := some id, previous := s.current }

def dropped (s : Slots) : List SnapshotId := s.previous.toList

end Slots

/-- A room that still takes commands, one that ended with its queue still there, or neither. -/
inductive Status where
  | running
  | closing
  | gone
  deriving DecidableEq

structure Keeper where
  slots : Slots
  status : Status
  /-- The snapshots of `Uploaded` commands with a manifest that wait in the room's queue. -/
  queue : List SnapshotId
  deriving DecidableEq

inductive Stage where
  | asked
  | holding
  | retained
  | failed
  deriving DecidableEq

structure Transfer where
  room : Nat
  id : SnapshotId
  stage : Stage
  deriving DecidableEq

def Keeper.tokens (k : Keeper) : List SnapshotId := (if k.status = .running then k.slots.held else []) ++ k.queue

def Transfer.tokens (t : Transfer) : List SnapshotId := if t.stage = .asked then [] else [t.id]

def Transfer.brought (t : Transfer) : List SnapshotId := if t.stage = .retained then [t.id] else []

structure Vault where
  holds : Holding
  retained : List SnapshotId
  chunks : List ChunkId
  rooms : List Keeper
  transfers : List Transfer
  /-- Calls of `release` before their first lock section. -/
  releases : List (List SnapshotId)
  /-- What they found unheld, before their second. -/
  unheld : List (List SnapshotId)
  /-- Holds whose owner vanished. -/
  leaked : List SnapshotId

namespace Vault

def tokens (v : Vault) : List SnapshotId :=
  v.rooms.flatMap Keeper.tokens ++ (v.transfers.flatMap Transfer.tokens ++ (v.releases.flatten ++ v.leaked))

/-- One step of a room, of an upload, of a release, or of the store. Holds vanish only in `lossy` runs. -/
inductive Step (parts : SnapshotId → List ChunkId) (lossy : Bool) (v : Vault) : Vault → Prop where
  | opens : Step parts lossy v { v with rooms := v.rooms ++ [{ slots := .empty, status := .running, queue := [] }] }
  | asks {index : Nat} {room : Keeper} (id : SnapshotId) (seat : v.rooms[index]? = some room)
    (running : room.status = .running) :
    Step parts lossy v { v with transfers := v.transfers ++ [{ room := index, id, stage := .asked }] }
  -- `bulk_stream`
  | holds {before after : List Transfer} {room : Nat} {id : SnapshotId}
    (waits : v.transfers = before ++ { room, id, stage := .asked } :: after) :
    Step parts lossy v { v with
      holds := v.holds.hold id
      transfers := before ++ { room, id, stage := .holding } :: after }
  | retains {before after : List Transfer} {room : Nat} {id : SnapshotId}
    (waits : v.transfers = before ++ { room, id, stage := .holding } :: after) (whole : parts id ⊆ v.chunks) :
    Step parts lossy v { v with
      retained := id :: v.retained
      transfers := before ++ { room, id, stage := .retained } :: after }
  | fails {before after : List Transfer} {room : Nat} {id : SnapshotId}
    (waits : v.transfers = before ++ { room, id, stage := .holding } :: after) :
    Step parts lossy v { v with transfers := before ++ { room, id, stage := .failed } :: after }
  | tells {before after : List Transfer} {index : Nat} {id : SnapshotId} {room : Keeper}
    (waits : v.transfers = before ++ { room := index, id, stage := .retained } :: after)
    (seat : v.rooms[index]? = some room) (there : room.status ≠ .gone) :
    Step parts lossy v { v with
      rooms := v.rooms.set index { room with queue := room.queue ++ [id] }
      transfers := before ++ after }
  | returns {before after : List Transfer} {index : Nat} {id : SnapshotId} {stage : Stage}
    (waits : v.transfers = before ++ { room := index, id, stage } :: after)
    (useless : stage = .failed ∨ stage = .retained ∧ ∃ room, v.rooms[index]? = some room ∧ room.status = .gone) :
    Step parts lossy v { v with transfers := before ++ after, releases := v.releases ++ [[id]] }
  -- The client disconnects, and the task ends where it waits.
  | aborts {before after : List Transfer} {transfer : Transfer} (waits : v.transfers = before ++ transfer :: after)
    (may : lossy = true ∨ transfer.stage = .asked) :
    Step parts lossy v { v with transfers := before ++ after, leaked := v.leaked ++ transfer.tokens }
  -- What a task that ended had begun to store is stored.
  | lingers {id : SnapshotId} (lost : id ∈ v.leaked) (whole : parts id ⊆ v.chunks) :
    Step parts lossy v { v with retained := id :: v.retained }
  -- `Room::uploaded`
  | receives {index : Nat} {room : Keeper} {id : SnapshotId} {rest : List SnapshotId}
    (seat : v.rooms[index]? = some room) (running : room.status = .running) (front : room.queue = id :: rest) :
    Step parts lossy v { v with
      rooms := v.rooms.set index { room with slots := room.slots.promote id, queue := rest }
      releases := v.releases ++ [room.slots.dropped] }
  | refuses {index : Nat} {room : Keeper} {id : SnapshotId} {rest : List SnapshotId}
    (seat : v.rooms[index]? = some room) (running : room.status = .running) (front : room.queue = id :: rest) :
    Step parts lossy v { v with
      rooms := v.rooms.set index { room with queue := rest }
      releases := v.releases ++ [[id]] }
  -- `ask_for_upload` of a save the room holds
  | reuses {index : Nat} {room : Keeper} {id : SnapshotId} (seat : v.rooms[index]? = some room)
    (running : room.status = .running) (named : id ∈ room.slots.held) :
    Step parts lossy v { v with
      holds := v.holds.hold id
      rooms := v.rooms.set index { room with slots := room.slots.promote id }
      releases := v.releases ++ [room.slots.dropped] }
  -- `discard_game`
  | closes {index : Nat} {room : Keeper} (seat : v.rooms[index]? = some room) (running : room.status = .running) :
    Step parts lossy v { v with
      rooms := v.rooms.set index { room with status := .closing }
      releases := v.releases ++ [room.slots.held] }
  -- A room that ends without discarding its game, for an internal error or the end of the server.
  | halts {index : Nat} {room : Keeper} (seat : v.rooms[index]? = some room) (running : room.status = .running)
    (may : lossy = true ∨ room.slots.held = []) :
    Step parts lossy v { v with
      rooms := v.rooms.set index { room with status := .closing }
      leaked := v.leaked ++ room.slots.held }
  -- The queue of a room that ended goes with what is in it.
  | ends {index : Nat} {room : Keeper} (seat : v.rooms[index]? = some room) (closing : room.status = .closing)
    (may : lossy = true ∨ room.queue = []) :
    Step parts lossy v { v with
      rooms := v.rooms.set index { room with status := .gone, queue := [] }
      leaked := v.leaked ++ room.queue }
  -- `release`
  | counts {before after : List (List SnapshotId)} {ids : List SnapshotId}
    (waits : v.releases = before ++ ids :: after) :
    Step parts lossy v { v with
      holds := (v.holds.count ids).1
      releases := before ++ after
      unheld := v.unheld ++ [(v.holds.count ids).2] }
  | drops {before after : List (List SnapshotId)} {ids : List SnapshotId} (stuck : SnapshotId → Bool)
    (waits : v.unheld = before ++ ids :: after) :
    Step parts lossy v { v with
      retained := v.holds.dropUnheld stuck ids v.retained
      unheld := before ++ after }
  | stores (chunk : ChunkId) : Step parts lossy v { v with chunks := chunk :: v.chunks }
  | collects (pending : List SnapshotId) (stuck : ChunkId → Bool) :
    Step parts lossy v { v with chunks := collectChunks parts v.retained pending stuck v.chunks }

/-- The states of a server that begins with rooms whose slots name retained snapshots, with one hold
for each slot. -/
inductive Reaches (parts : SnapshotId → List ChunkId) (lossy : Bool) : Vault → Prop where
  | start {retained : List SnapshotId} {chunks : List ChunkId} {slots : List Slots}
    (kept : ∀ room ∈ slots, room.held ⊆ retained) :
    Reaches parts lossy
      { holds := fun id => (slots.flatMap Slots.held).count id
        retained
        chunks
        rooms := slots.map fun slots => { slots, status := .running, queue := [] }
        transfers := []
        releases := []
        unheld := []
        leaked := [] }
  | step {v w : Vault} (before : Reaches parts lossy v) (moved : Step parts lossy v w) : Reaches parts lossy w

end Vault

theorem count_flatMap_set {α β : Type} [BEq β] {list : List α} {index : Nat} {old : α} (parts : α → List β) (new : α)
    (seat : list[index]? = some old) (b : β) : ((list.set index new).flatMap parts).count b + (parts old).count b =
      (list.flatMap parts).count b + (parts new).count b := by
  induction list generalizing index with
  | nil => cases seat
  | cons first list ih =>
    cases index with
    | zero =>
      cases seat
      simp only [set_cons_zero, flatMap_cons, count_append]
      omega
    | succ index =>
      have rest := ih seat
      simp only [set_cons_succ, flatMap_cons, count_append]
      omega

theorem Transfer.brought_tokens (t : Transfer) : t.brought ⊆ t.tokens := by
  unfold Transfer.brought Transfer.tokens
  split
  · next stage =>
    rw [stage]
    exact List.Subset.refl _
  · exact nil_subset _

namespace Vault
variable {parts : SnapshotId → List ChunkId} {lossy : Bool} {v w : Vault}

/-- Each hold is one that somebody is to give back. -/
def Balanced (v : Vault) : Prop := ∀ id, v.holds id = v.tokens.count id

theorem tokens_count (v : Vault) (id : SnapshotId) : v.tokens.count id = (v.rooms.flatMap Keeper.tokens).count id +
    ((v.transfers.flatMap Transfer.tokens).count id + (v.releases.flatten.count id + v.leaked.count id)) := by
  rw [tokens, count_append, count_append, count_append]

theorem Balanced.step (balanced : v.Balanced) (moved : Step parts lossy v w) : w.Balanced := by
  intro id
  have before := balanced id
  rw [tokens_count] at before ⊢
  cases moved with
  | opens => simpa [Keeper.tokens, Slots.held, Slots.empty] using before
  | asks id' seat running => simpa [Transfer.tokens] using before
  | holds waits =>
    rw [waits] at before
    simp only [flatMap_append, flatMap_cons, count_append, Transfer.tokens, Holding.hold_eq] at before ⊢
    simp at before ⊢
    omega
  | retains waits | fails waits =>
    rw [waits] at before
    simpa [Transfer.tokens] using before
  | @tells _ _ index told room waits seat there =>
    rw [waits] at before
    have moves := count_flatMap_set Keeper.tokens { room with queue := room.queue ++ [told] } seat id
    simp only [Keeper.tokens, count_append] at moves
    simp [Transfer.tokens, count_cons] at before moves ⊢
    omega
  | returns waits useless =>
    rw [waits] at before
    rcases useless with rfl | ⟨rfl, -⟩ <;>
    · simp [Transfer.tokens, count_cons] at before ⊢
      omega
  | aborts waits may =>
    rw [waits] at before
    simp only [flatMap_append, flatMap_cons, count_append] at before ⊢
    omega
  | @receives index room got rest seat running front =>
    have moves := count_flatMap_set Keeper.tokens { room with slots := room.slots.promote got, queue := rest } seat id
    simp [Keeper.tokens, running, front, Slots.held, Slots.promote, Slots.dropped, count_cons] at before moves ⊢
    omega
  | @refuses index room got rest seat running front =>
    have moves := count_flatMap_set Keeper.tokens { room with queue := rest } seat id
    simp [Keeper.tokens, front, count_cons] at before moves ⊢
    omega
  | @reuses index room named seat running held =>
    have moves := count_flatMap_set Keeper.tokens { room with slots := room.slots.promote named } seat id
    simp [Keeper.tokens, running, Slots.held, Slots.promote, Slots.dropped, Holding.hold_eq,
      count_cons] at before moves ⊢
    omega
  | @closes index room seat running =>
    have moves := count_flatMap_set Keeper.tokens { room with status := .closing } seat id
    simp [Keeper.tokens, running] at before moves ⊢
    omega
  | @halts index room seat running may =>
    have moves := count_flatMap_set Keeper.tokens { room with status := .closing } seat id
    simp [Keeper.tokens, running] at before moves ⊢
    omega
  | @ends index room seat closing may =>
    have moves := count_flatMap_set Keeper.tokens { room with status := .gone, queue := [] } seat id
    simp [Keeper.tokens, closing] at before moves ⊢
    omega
  | counts waits =>
    rw [waits] at before
    simp only [flatten_append, flatten_cons, count_append, Holding.count_eq] at before ⊢
    omega
  | lingers lost whole | drops stuck waits | stores chunk | collects pending stuck => exact before

theorem Reaches.balanced (reached : Reaches parts lossy v) : v.Balanced := by
  induction reached with
  | @start retained chunks slots kept =>
    intro id
    simp only [tokens, flatMap_map, Keeper.tokens, if_pos, append_nil, flatMap_nil, flatten_nil]
  | step _ moved balanced => exact balanced.step moved

/-- The snapshots of rooms and those that uploads brought are retained. -/
structure Kept (v : Vault) : Prop where
  rooms : ∀ room ∈ v.rooms, room.tokens ⊆ v.retained
  uploads : ∀ transfer ∈ v.transfers, transfer.brought ⊆ v.retained

theorem Kept.set (kept : v.Kept) (index : Nat) {room : Keeper} (fits : room.tokens ⊆ v.retained) :
    ∀ other ∈ v.rooms.set index room, other.tokens ⊆ v.retained := by
  intro other among
  rcases mem_or_eq_of_mem_set among with old | rfl
  · exact kept.rooms other old
  · exact fits

theorem Kept.waiting (kept : v.Kept) {before after : List Transfer} {transfer : Transfer}
    (waits : v.transfers = before ++ transfer :: after) :
    transfer.brought ⊆ v.retained ∧ ∀ other ∈ before ++ after, other.brought ⊆ v.retained := by
  refine ⟨kept.uploads transfer ?_, fun other among => kept.uploads other ?_⟩
  · rw [waits]
    exact mem_append_right _ mem_cons_self
  rw [waits]
  rcases mem_append.mp among with old | old
  · exact mem_append_left _ old
  · exact mem_append_right _ (mem_cons_of_mem _ old)

theorem Kept.moves (kept : v.Kept) {before after : List Transfer} {old new : Transfer}
    (waits : v.transfers = before ++ old :: after) (fits : new.brought ⊆ v.retained) :
    ∀ other ∈ before ++ new :: after, other.brought ⊆ v.retained := by
  intro other among
  obtain ⟨_, rest⟩ := kept.waiting waits
  rcases mem_append.mp among with early | late
  · exact rest other (mem_append_left _ early)
  · rcases mem_cons.mp late with rfl | late
    · exact fits
    · exact rest other (mem_append_right _ late)

theorem Kept.retains (kept : v.Kept) (id : SnapshotId) : Kept { v with retained := id :: v.retained } :=
  ⟨fun room among => subset_cons_of_subset _ (kept.rooms room among),
    fun transfer among => subset_cons_of_subset _ (kept.uploads transfer among)⟩

theorem Balanced.held (balanced : v.Balanced) (owned : id ∈ v.tokens) : v.holds id ≠ 0 := by
  rw [balanced id]
  exact Nat.pos_iff_ne_zero.mp (count_pos_iff.mpr owned)

theorem Kept.step (kept : v.Kept) (balanced : v.Balanced) (moved : Step parts lossy v w) : w.Kept := by
  have room {index : Nat} {room : Keeper} (seat : v.rooms[index]? = some room) : room.tokens ⊆ v.retained :=
    kept.rooms room (mem_of_getElem? seat)
  cases moved with
  | opens =>
    refine ⟨fun other among => ?_, kept.uploads⟩
    rcases mem_append.mp among with old | new
    · exact kept.rooms other old
    · rw [mem_singleton.mp new]
      exact nil_subset _
  | asks id seat running =>
    refine ⟨kept.rooms, fun transfer among => ?_⟩
    rcases mem_append.mp among with old | new
    · exact kept.uploads transfer old
    · rw [mem_singleton.mp new]
      exact nil_subset _
  | holds waits | fails waits => exact ⟨kept.rooms, kept.moves waits (nil_subset _)⟩
  | @retains _ _ _ id waits whole =>
    have kept := kept.retains id
    exact ⟨kept.rooms, kept.moves waits (cons_subset.mpr ⟨mem_cons_self, nil_subset _⟩)⟩
  | tells waits seat there =>
    obtain ⟨brought, rest⟩ := kept.waiting waits
    refine ⟨kept.set _ ?_, rest⟩
    rw [Keeper.tokens, ← append_assoc]
    exact append_subset.mpr ⟨room seat, brought⟩
  | returns waits useless => exact ⟨kept.rooms, (kept.waiting waits).2⟩
  | aborts waits may => exact ⟨kept.rooms, (kept.waiting waits).2⟩
  | @lingers id lost whole => exact kept.retains id
  | receives seat running front =>
    refine ⟨kept.set _ ?_, kept.uploads⟩
    have named := room seat
    simp [Keeper.tokens, running, front, Slots.held, Slots.promote, subset_def] at named ⊢
    grind
  | refuses seat running front =>
    refine ⟨kept.set _ ?_, kept.uploads⟩
    have named := room seat
    simp [Keeper.tokens, running, front, subset_def] at named ⊢
    grind
  | reuses seat running held =>
    refine ⟨kept.set _ ?_, kept.uploads⟩
    have named := room seat
    simp [Keeper.tokens, running, Slots.held, Slots.promote, subset_def] at named held ⊢
    grind
  | closes seat running | halts seat running may =>
    refine ⟨kept.set _ ?_, kept.uploads⟩
    exact List.Subset.trans (subset_append_right _ _) (room seat)
  | ends seat closing may => exact ⟨kept.set _ (nil_subset _), kept.uploads⟩
  | drops stuck waits =>
    refine ⟨fun room among id named => ?_, fun transfer among id brought => ?_⟩
    · apply Holding.mem_dropUnheld (kept.rooms room among named)
      apply balanced.held
      exact mem_append_left _ (mem_flatMap.mpr ⟨room, among, named⟩)
    apply Holding.mem_dropUnheld (kept.uploads transfer among brought)
    apply balanced.held
    refine mem_append_right _ (mem_append_left _ (mem_flatMap.mpr ⟨transfer, among, ?_⟩))
    exact transfer.brought_tokens brought
  | counts waits | stores chunk | collects pending stuck => exact ⟨kept.rooms, kept.uploads⟩

theorem Reaches.kept (reached : Reaches parts lossy v) : v.Kept := by
  induction reached with
  | @start retained chunks slots kept =>
    refine ⟨fun room among => ?_, nofun⟩
    obtain ⟨named, listed, rfl⟩ := mem_map.mp among
    exact append_subset.mpr ⟨kept named listed, nil_subset _⟩
  | step before moved kept => exact kept.step before.balanced moved

theorem mem_collectChunks {retained pending : List SnapshotId} {stuck : ChunkId → Bool} {chunks : List ChunkId}
    {chunk : ChunkId} (kept : id ∈ retained) (part : chunk ∈ parts id) (stored : chunk ∈ chunks) :
    chunk ∈ collectChunks parts retained pending stuck chunks := by
  refine mem_filter.mpr ⟨stored, ?_⟩
  rw [Bool.or_eq_true, any_eq_true]
  exact .inr ⟨id, mem_append_left _ kept, contains_iff_mem.mpr part⟩

/-- The store retains what a running room names, however uploads, releases, promotions and collections
interleave and whichever of them break off; so a collection leaves its chunks alone. -/
theorem slots_retained (reached : Reaches parts lossy v) {room : Keeper} (among : room ∈ v.rooms)
    (running : room.status = .running) {id : SnapshotId}
    (named : room.slots.current = some id ∨ room.slots.previous = some id) :
    id ∈ v.retained ∧ ∀ (pending : List SnapshotId) (stuck : ChunkId → Bool), ∀ chunk ∈ parts id, chunk ∈ v.chunks →
      chunk ∈ collectChunks parts v.retained pending stuck v.chunks := by
  have held : id ∈ room.slots.held := by
    rcases named with current | previous
    · rw [Slots.held, current]
      exact mem_cons_self
    · rw [Slots.held, previous]
      exact mem_append_right _ mem_cons_self
  have kept : id ∈ v.retained := by
    apply reached.kept.rooms room among
    rw [Keeper.tokens, if_pos running]
    exact mem_append_left _ held
  exact ⟨kept, fun _ _ _ part stored => mem_collectChunks kept part stored⟩

theorem slots_retained_shared : ∃ v : Vault, Reaches (fun _ => []) true v ∧ v.holds Room.plainWorld.snapshot = 1 ∧
    v.rooms.map (·.status) = [.closing, .running] ∧ Room.plainWorld.snapshot ∈ v.retained := by
  let slots : Slots := { current := some Room.plainWorld.snapshot, previous := none }
  have start : Reaches (fun _ => []) true _ :=
    @Reaches.start _ _ [Room.plainWorld.snapshot] [] [slots, slots] fun room among => by
      rcases mem_cons.mp among with rfl | among
      · exact List.Subset.refl _
      · cases mem_singleton.mp among
        exact List.Subset.refl _
  have closed := start.step (@Step.closes _ _ _ 0 _ rfl rfl)
  have counted := closed.step (@Step.counts _ _ _ [] [] _ rfl)
  have dropped := counted.step (@Step.drops _ _ _ [] [] _ (fun _ => false) rfl)
  refine ⟨_, dropped, by decide +kernel, rfl, ?_⟩
  exact (slots_retained dropped (mem_cons_of_mem _ mem_cons_self) rfl (.inl rfl)).1

def named (v : Vault) (id : SnapshotId) : Nat :=
  ((v.rooms.filter fun room => room.status = .running).flatMap fun room => room.slots.held).count id

theorem Reaches.unleaked (reached : Reaches parts false v) : v.leaked = [] := by
  induction reached with
  | start => rfl
  | step _ moved none =>
    cases moved with
    | aborts waits may =>
      rcases may with lossy | asked
      · cases lossy
      · show _ ++ Transfer.tokens _ = []
        rw [none, Transfer.tokens, if_pos asked]
        rfl
    | halts seat running may | ends seat closing may =>
      rcases may with lossy | nothing
      · cases lossy
      · show _ ++ _ = []
        rw [none, nothing]
        rfl
    | _ => exact none

theorem tokens_settled (rooms : List Keeper) (quiet : ∀ room ∈ rooms, room.queue = []) :
    rooms.flatMap Keeper.tokens = (rooms.filter fun room => room.status = .running).flatMap fun room =>
      room.slots.held := by
  induction rooms with
  | nil => rfl
  | cons room rooms ih =>
    have rest := ih fun other among => quiet other (mem_cons_of_mem _ among)
    have empty := quiet room mem_cons_self
    rw [flatMap_cons, rest, Keeper.tokens, empty, append_nil]
    by_cases running : room.status = .running
    · rw [if_pos running, filter_cons_of_pos (by simpa using running), flatMap_cons]
    · rw [if_neg running, filter_cons_of_neg (by simpa using running), nil_append]

/-- As long as no upload is broken off while it has a hold, no room ends without giving back what its
slots hold, and none ends with an upload still in its queue, holds are exactly those of the slots
whenever nothing is under way. -/
theorem holds_of_slots (reached : Reaches parts false v) (idle : v.transfers = [])
    (quiet : ∀ room ∈ v.rooms, room.queue = []) (released : v.releases = []) (id : SnapshotId) :
    v.holds id = v.named id := by
  rw [reached.balanced id, tokens_count, idle, released, reached.unleaked, tokens_settled v.rooms quiet]
  rfl

theorem holds_of_slots_received : ∃ v : Vault, Reaches (fun _ => []) false v ∧ v.transfers = [] ∧
    v.holds Room.plainWorld.snapshot = 1 ∧ v.named Room.plainWorld.snapshot = 1 := by
  let id := Room.plainWorld.snapshot
  have start : Reaches (fun _ => []) false _ := @Reaches.start _ _ [] [] [.empty] fun room among => by
    cases mem_singleton.mp among
    exact nil_subset _
  have asked := start.step (@Step.asks _ _ _ 0 _ id rfl rfl)
  have held := asked.step (@Step.holds _ _ _ [] [] _ _ rfl)
  have retained := held.step (@Step.retains _ _ _ [] [] _ _ rfl (nil_subset _))
  have told := retained.step (@Step.tells _ _ _ [] [] 0 _ _ rfl rfl (by decide))
  have received := told.step (@Step.receives _ _ _ 0 _ _ _ rfl rfl rfl)
  have counted := received.step (@Step.counts _ _ _ [] [] _ rfl)
  have settled := holds_of_slots counted rfl (fun room among => by cases mem_singleton.mp among; rfl) rfl id
  exact ⟨_, counted, rfl, settled.trans (by decide +kernel), by decide +kernel⟩

theorem broken_upload_keeps_hold : ∃ v : Vault, Reaches (fun _ => []) true v ∧ v.transfers = [] ∧
    (∀ room ∈ v.rooms, room.queue = []) ∧ v.releases = [] ∧ v.unheld = [] ∧
    v.holds Room.plainWorld.snapshot = 1 ∧ v.named Room.plainWorld.snapshot = 0 := by
  have start : Reaches (fun _ => []) true _ := @Reaches.start _ _ [] [] [.empty] fun room among => by
    cases mem_singleton.mp among
    exact nil_subset _
  have asked := start.step (@Step.asks _ _ _ 0 _ Room.plainWorld.snapshot rfl rfl)
  have held := asked.step (@Step.holds _ _ _ [] [] _ _ rfl)
  have broken := held.step (@Step.aborts _ _ _ [] [] _ rfl (.inl rfl))
  refine ⟨_, broken, rfl, fun room among => ?_, rfl, rfl, by decide +kernel, by decide +kernel⟩
  cases mem_singleton.mp among
  rfl

end Vault

end Tpf3Mp.Server
