import Tpf3Mp.Snapshot.Store

/-!
What assembling a file leaves at its destination (`ChunkStore::assemble`): the file that the manifest
describes, or what was there, whatever the store's chunk files hold and become meanwhile.
-/

namespace Tpf3Mp.Snapshot
open Codec Run Function

namespace ChunkStore

variable {δ π : Type} [DecidableEq π] (store : ChunkStore δ π)

/-- Every file but the chunk files is as `files` has it. -/
def Outside (files : π → Option Bytes) (disk : Disk π) : Prop :=
  ∀ path, (∀ id, path ≠ store.layout.chunkPath id) → disk.files path = files path

variable {store} {files : π → Option Bytes}

theorem Outside.chunk_write {disk : Disk π} (outside : store.Outside files disk) (id : δ) (content : Option Bytes) :
    store.Outside files (disk.write (store.layout.chunkPath id) content) := by
  intro path other
  exact (update_of_ne (other id) _ _).trans (outside path other)

theorem Outside.write {disk : Disk π} (outside : store.Outside files disk) (path : π) (content : Option Bytes) :
    store.Outside (update files path content) (disk.write path content) := by
  intro other apart
  by_cases same : other = path
  · subst same
    simp [Disk.write]
  · simp [Disk.write, update_of_ne same, outside other apart]

theorem Outside.elapse {disk : Disk π} (outside : store.Outside files disk) :
    store.Outside files (store.elapse disk) := by
  have start : store.Outside files { disk with clock := disk.clock + 1 } := outside
  exact foldl_preserves (fun disk change kept => kept.chunk_write change.1 change.2) start _

theorem attempt_outside (action : String) (path : π) : Keeps (store.Outside files) (store.attempt action path) :=
  .bind (.get fun _ kept => kept) fun _ => .bind (.modify fun _ kept => kept.elapse) fun _ =>
    .require (fun _ kept _ => kept) fun _ kept _ => kept

theorem has_outside (id : δ) : Keeps (store.Outside files) (store.has id) :=
  .bind (attempt_outside _ _) fun _ => .bind (.get fun _ kept => kept) fun _ => .pure fun _ kept => kept

theorem missingOf_outside (chunks : List (ChunkEntry δ)) : Keeps (store.Outside files) (store.missingOf chunks) := by
  induction chunks with
  | nil => exact .pure fun _ kept => kept
  | cons entry chunks ih =>
    exact .bind (has_outside _) fun _ => .bind ih fun _ => .pure fun _ kept => kept

theorem discard_outside (id : δ) (bytes : Bytes) :
    Keeps (store.Outside files) (store.discard (store.layout.chunkPath id) bytes) :=
  .bind (attempt_outside _ _) fun _ => .bind (.get fun _ kept => kept) fun _ =>
    .ite (fun _ => .bind (attempt_outside _ _) fun _ => .modify fun _ kept => kept.chunk_write id none)
      fun _ => .pure fun _ kept => kept

variable [DecidableEq δ]

theorem load_outside (id : δ) : Keeps (store.Outside files) (store.load id) := by
  refine .bind (attempt_outside _ _) fun _ => .bind (.get fun _ kept => kept) fun disk => ?_
  split
  · exact .throw fun _ kept => kept
  refine .bind (attempt_outside _ _) fun _ => .bind (attempt_outside _ _) fun _ => ?_
  split
  · exact .pure fun _ kept => kept
  · exact .bind (discard_outside _ _) fun _ => .throw fun _ kept => kept

theorem discardDamaged_outside (chunks : List (ChunkEntry δ)) :
    Keeps (store.Outside files) (store.discardDamaged chunks) := by
  induction chunks with
  | nil => exact .pure fun _ kept => kept
  | cons entry chunks ih =>
    refine .bind (.caught (.bind (load_outside _) fun _ => .pure fun _ kept => kept) fun error => ?_) fun _ => ih
    split
    · exact .pure fun _ kept => kept
    · exact .pure fun _ kept => kept
    · exact .throw fun _ kept => kept

theorem loadFor_outside (manifest : Manifest store.digest) (id : δ) :
    Keeps (store.Outside files) (store.loadFor manifest id) := by
  refine .caught (load_outside _) fun error => ?_
  split
  · exact .bind (discardDamaged_outside _) fun _ => .throw fun _ kept => kept
  · exact .throw fun _ kept => kept

def Describes (manifest : Manifest store.digest) (bytes : Bytes) : Prop :=
  store.digest.hash bytes = manifest.fileHash ∧ bytes.length = manifest.totalSize.toNat

/-- The files outside are as `files` has them, but for something being written at `draft`. -/
def Drafted (store : ChunkStore δ π) (files : π → Option Bytes) (draft : π) (disk : Disk π) : Prop :=
  ∃ content, store.Outside (update files draft content) disk

section Destination

variable {draft : π} (apart : ∀ id, draft ≠ store.layout.chunkPath id)
include apart

omit [DecidableEq δ] in
theorem append_outside (written bytes : Bytes) :
    Triple (store.Outside (update files draft (some written))) (store.append draft bytes)
      (fun _ => store.Outside (update files draft (some (written ++ bytes))))
      fun _ => store.Outside (update files draft (some written)) := by
  refine .bind (attempt_outside _ _) fun _ => .modify fun disk kept => ?_
  have here : disk.files draft = some written := by
    rw [kept draft apart, update_self]
  have after := kept.write draft (some (written ++ bytes))
  rw [update_idem] at after
  rwa [here]

variable (manifest : Manifest store.digest)

theorem streamChunks_outside (chunks : List (ChunkEntry δ)) (written : Bytes) :
    Triple (store.Outside (update files draft (some written)))
      (store.streamChunks manifest (store.append draft) chunks written)
      (fun whole disk => store.Outside (update files draft (some whole)) disk ∧
        whole.length = written.length + covered chunks)
      fun _ => Drafted store files draft := by
  induction chunks generalizing written with
  | nil => exact .pure fun _ kept => ⟨kept, rfl⟩
  | cons entry chunks ih =>
    refine ((loadFor_outside manifest entry.id).orElse fun _ _ kept => ⟨_, kept⟩).bind fun loaded => ?_
    refine .guarded (fun disk kept _ => ⟨_, kept⟩) fun size => ?_
    refine ((append_outside apart written loaded.raw).orElse fun _ _ kept => ⟨_, kept⟩).bind fun _ => ?_
    refine (ih (written ++ loaded.raw)).weaken (fun _ kept => kept) ?_ fun _ _ kept => kept
    rintro whole disk ⟨kept, length⟩
    refine ⟨kept, ?_⟩
    rw [length, List.length_append, size, covered_cons, Nat.add_assoc]

theorem streamFile_outside :
    Triple (store.Outside (update files draft (some []))) (store.streamFile manifest (store.append draft))
      (fun _ disk => ∃ bytes, store.Outside (update files draft (some bytes)) disk ∧ Describes manifest bytes)
      fun _ => Drafted store files draft := by
  refine .bind (streamChunks_outside apart manifest manifest.chunks []) fun whole => .require ?_ ?_
  · rintro disk ⟨kept, length⟩ hashed
    refine ⟨whole, kept, hashed, ?_⟩
    rw [length, List.length_nil, Nat.zero_add]
    exact manifest.tiles.covers
  · rintro disk ⟨kept, _⟩ _
    exact ⟨_, kept⟩

theorem writeFile_outside : Triple (store.Outside files) (store.writeFile manifest draft)
      (fun _ disk => ∃ bytes, store.Outside (update files draft (some bytes)) disk ∧ Describes manifest bytes)
      fun _ => Drafted store files draft := by
  have unwritten {disk : Disk π} (kept : store.Outside files disk) : Drafted store files draft disk :=
    ⟨files draft, by rwa [update_eq_self]⟩
  refine ((attempt_outside _ _).orElse fun _ _ => unwritten).bind fun _ => ?_
  refine .bind (.get fun _ kept => kept) fun _ => ?_
  refine .guarded (fun disk kept _ => unwritten kept) fun _ => ?_
  refine .bind (Q := fun _ => store.Outside (update files draft (some [])))
    (.modify fun disk kept => kept.write draft (some [])) fun _ => ?_
  refine (streamFile_outside apart manifest).bind fun _ => .exists_intro fun bytes => .and_intro fun verified => ?_
  exact (attempt_outside "flush" draft).weaken (fun _ kept => kept) (fun _ _ kept => ⟨bytes, kept, verified⟩)
    fun _ _ kept => ⟨_, kept⟩

omit [DecidableEq δ] in
theorem publish_outside {dest : π} (other : dest ≠ draft) : Triple
      (fun disk => ∃ bytes, store.Outside (update files draft (some bytes)) disk ∧ Describes manifest bytes)
      (store.publish draft dest)
      (fun _ disk => ∃ bytes, disk.files dest = some bytes ∧ Describes manifest bytes)
      fun _ => Drafted store files draft := by
  refine .exists_intro fun bytes => .and_intro fun verified => ?_
  refine ((attempt_outside _ _).orElse fun _ _ kept => ⟨_, kept⟩).bind fun _ => ?_
  refine .modify fun disk kept => ⟨bytes, ?_, verified⟩
  simp [Disk.write, update_of_ne other, kept draft apart]

end Destination

omit [DecidableEq δ] [DecidableEq π] in
theorem removeStalePartials_outside (dest : π) : Triple (store.Outside files) (store.removeStalePartials dest)
      (fun _ => store.Outside (store.layout.cleared dest files)) fun _ _ => False := by
  refine .modify fun disk kept path apart => ?_
  change store.layout.cleared dest disk.files path = store.layout.cleared dest files path
  unfold Layout.cleared
  rw [kept path apart]

omit [DecidableEq δ] [DecidableEq π] in
theorem partialPath_outside (dest : π) : Triple (store.Outside files) (store.partialPath dest)
      (fun draft disk => store.Outside files disk ∧ store.layout.stale dest draft = true)
      fun _ => store.Outside files := by
  refine .bind (.get fun _ kept => kept) fun disk => ?_
  split
  · exact .throw fun _ kept => kept
  rename_i draft named
  refine .bind ?_ fun _ => .pure fun _ kept => ⟨kept, store.layout.partial_stale named⟩
  exact .bind (.get fun _ kept => kept) fun _ =>
    .bind (.modify fun _ kept => kept) fun _ => .pure fun _ kept => kept

/-- Whatever the chunk files hold and become, the destination has the file that the manifest is of if
the assembly succeeds, and what it had if it fails. -/
theorem assemble_outside (manifest : Manifest store.digest) {dest : π}
    (plain : ∀ id, dest ≠ store.layout.chunkPath id) : Triple (store.Outside files) (store.assemble manifest dest)
      (fun _ disk => ∃ bytes, disk.files dest = some bytes ∧ Describes manifest bytes)
      fun _ disk => disk.files dest = files dest := by
  have left {disk : Disk π} (kept : store.Outside files disk) : disk.files dest = files dest := kept dest plain
  -- Removing stale files leaves the destination alone.
  have unstale : store.layout.cleared dest files dest = files dest :=
    if_neg fun stale => (store.layout.stale_apart stale).1 rfl
  refine ((missingOf_outside _).orElse fun _ _ => left).bind fun missing => ?_
  refine .guarded (fun disk kept _ => left kept) fun _ => ?_
  refine ((removeStalePartials_outside dest).orElse fun _ _ none => none.elim).bind fun _ => ?_
  refine ((partialPath_outside dest).orElse fun _ disk kept => (kept dest plain).trans unstale).bind fun draft => ?_
  refine .and_intro fun stale => ?_
  obtain ⟨other, apart⟩ := store.layout.stale_apart stale
  refine .caught (F := fun _ => Drafted store (store.layout.cleared dest files) draft) ?_ fun error => ?_
  · refine (writeFile_outside apart manifest).bind fun _ => ?_
    exact .bind (.pure fun _ kept => kept) fun _ => publish_outside apart manifest other.symm
  · refine .bind (.modify ?_) fun _ => .throw fun _ kept => kept
    rintro disk ⟨content, kept⟩
    rw [kept.write draft none dest plain, update_idem, update_of_ne other.symm, unstale]

end ChunkStore

end Tpf3Mp.Snapshot
