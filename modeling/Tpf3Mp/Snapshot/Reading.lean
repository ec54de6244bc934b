import Tpf3Mp.Snapshot.Assembly

/-!
What reading and assembling do to the files of a store (`ChunkStore::load`, `stream_file` and
`assemble`) where the medium works: chunks that are whole are found, damaged ones are removed.
-/

namespace Tpf3Mp.Snapshot
open Codec Run List Function

theorem Manifest.id_unique {δ : Type} [DecidableEq δ] {digest : Digest δ} (manifest : Manifest digest)
    {entry : ChunkEntry δ} (listed : entry ∈ manifest.chunks) : entry.id ∈ manifest.uniqueChunks.map ChunkEntry.id :=
  (id_mem_uniqueAfter listed).resolve_left not_mem_nil

abbrev Disk.At {π : Type} (files : π → Option Bytes) (disk : Disk π) : Prop := disk.files = files

namespace ChunkStore

variable {δ π : Type} [DecidableEq δ] (store : ChunkStore δ π)

/-- The chunk that `id` names is stored, and is `raw`. -/
def Holds (files : π → Option Bytes) (id : δ) (raw : Bytes) : Prop :=
  ∃ bytes, files (store.layout.chunkPath id) = some bytes ∧ store.verified id bytes = .ok raw

/-- Every chunk file present holds the chunk that its name states. -/
def Intact (files : π → Option Bytes) : Prop :=
  ∀ id bytes, files (store.layout.chunkPath id) = some bytes → ∃ raw, store.verified id bytes = .ok raw

/-- The store holds the chunks that a manifest lists, and together they are `source`. -/
def Restores (files : π → Option Bytes) (manifest : Manifest store.digest) (source : Bytes) : Prop :=
  ∃ raws : List Bytes,
    Forall₂ (fun entry raw => store.Holds files entry.id raw ∧ raw.length = entry.len.toNat) manifest.chunks raws ∧
    raws.flatten = source ∧ store.digest.hash source = manifest.fileHash

/-- There is a file long enough to hold a chunk. -/
def present (files : π → Option Bytes) (id : δ) : Bool := (files (store.layout.chunkPath id)).any holdsChunk

def Damaged (files : π → Option Bytes) (id : δ) : Prop :=
  ∃ bytes reason, files (store.layout.chunkPath id) = some bytes ∧ store.verified id bytes = .error reason

/-- What a chunk file that holds `id` is read as. -/
def Loads (files : π → Option Bytes) (id : δ) (loaded : Loaded) : Prop :=
  store.Holds files id loaded.raw ∧
    ∃ bytes, store.verified id bytes = .ok loaded.raw ∧ loaded.file = bytes.take (maxChunkFileLen + 1)

/-- The damaged ones of some chunks are gone, and nothing else. -/
structure Purged (ids : List δ) (files files' : π → Option Bytes) : Prop where
  gone : ∀ id ∈ ids, ¬ store.Damaged files' id
  other : ∀ path, files' path = files path ∨
    files' path = none ∧ ∃ id ∈ ids, path = store.layout.chunkPath id ∧ store.Damaged files id

variable {store} {files files' files'' : π → Option Bytes} {id : δ} {raw raw' : Bytes}
    {manifest : Manifest store.digest}
  {source source' : Bytes} {draft dest : π}

omit [DecidableEq δ] in
theorem parseChunkFile_ok {bytes frame : Bytes} {rawLen : UInt32}
    (parsed : parseChunkFile bytes = .ok (rawLen, frame)) :
    bytes.length = chunkHeaderLen + frame.length ∧ bytes.drop chunkHeaderLen = frame := by
  unfold parseChunkFile at parsed
  split at parsed
  · cases parsed
  split at parsed
  · split at parsed
    · cases parsed
    dsimp only at parsed
    split at parsed
    · cases parsed
    cases parsed
    refine ⟨?_, rfl⟩
    simp only [length_cons, chunkHeaderLen]
    omega
  · cases parsed

theorem verified_ok {bytes : Bytes} (verified : store.verified id bytes = .ok raw) :
    store.digest.hash raw = id ∧ holdsChunk bytes = true := by
  obtain ⟨⟨rawLen, frame⟩, parsed, decoded⟩ := bind_ok.mp verified
  obtain ⟨_, _, decoded⟩ := bind_ok.mp decoded
  obtain ⟨_, standard, decoded⟩ := bind_ok.mp decoded
  obtain ⟨raw', _, decoded⟩ := bind_ok.mp decoded
  obtain ⟨_, _, decoded⟩ := bind_ok.mp decoded
  obtain ⟨_, hashed, same⟩ := bind_ok.mp decoded
  cases same
  refine ⟨ensure_ok.mp hashed, ?_⟩
  have size := (parseChunkFile_ok parsed).1
  have start := congrArg List.length (ensure_ok.mp standard).1
  have magic : zstdMagic.length = 4 := rfl
  unfold holdsChunk
  rw [length_take] at size start
  rw [decide_eq_true_eq]
  omega

namespace Holds

section
variable (holds : store.Holds files id raw)
include holds

theorem present : store.present files id = true := by
  obtain ⟨bytes, here, verified⟩ := holds
  unfold ChunkStore.present
  rw [here]
  exact (verified_ok verified).2

theorem of_eq (same : files' (store.layout.chunkPath id) = files (store.layout.chunkPath id)) :
    store.Holds files' id raw := by
  obtain ⟨bytes, here, verified⟩ := holds
  exact ⟨bytes, same.trans here, verified⟩

theorem unique (holds' : store.Holds files id raw') : raw = raw' := by
  obtain ⟨bytes, here, verified⟩ := holds
  obtain ⟨bytes', here', verified'⟩ := holds'
  cases here.symm.trans here'
  exact Except.ok.inj (verified.symm.trans verified')

theorem not_damaged : ¬ store.Damaged files id := by
  rintro ⟨bytes, reason, here, failed⟩
  obtain ⟨bytes', here', verified⟩ := holds
  cases here.symm.trans here'
  cases failed.symm.trans verified

end

end Holds

theorem not_damaged_of_none (none : files (store.layout.chunkPath id) = none) : ¬ store.Damaged files id := by
  rintro ⟨bytes, reason, here, _⟩
  cases none.symm.trans here

theorem Damaged.of_eq (damaged : store.Damaged files id)
    (same : files' (store.layout.chunkPath id) = files (store.layout.chunkPath id)) : store.Damaged files' id := by
  obtain ⟨bytes, reason, here, failed⟩ := damaged
  exact ⟨bytes, reason, same.trans here, failed⟩

namespace Purged

variable {ids ids' : List δ}

theorem refl (good : ∀ id ∈ ids, ¬ store.Damaged files id) : store.Purged ids files files := ⟨good, fun _ => .inl rfl⟩

theorem single [DecidableEq π] {id : δ} (damaged : store.Damaged files id) :
    store.Purged [id] files (update files (store.layout.chunkPath id) none) := by
  constructor
  · intro other among
    cases mem_singleton.mp among
    exact not_damaged_of_none (update_self ..)
  intro path
  by_cases here : path = store.layout.chunkPath id
  · subst here
    exact .inr ⟨update_self .., id, mem_singleton_self _, rfl, damaged⟩
  · exact .inl (update_of_ne here _ _)

theorem damaged_before (purged : store.Purged ids files files') {id : δ} (damaged : store.Damaged files' id) :
    store.Damaged files id := by
  rcases purged.other (store.layout.chunkPath id) with same | ⟨none, _⟩
  · exact damaged.of_eq same.symm
  · exact absurd damaged (not_damaged_of_none none)

theorem trans (first : store.Purged ids files files') (second : store.Purged ids' files' files'') :
    store.Purged (ids ++ ids') files files'' := by
  constructor
  · intro id among damaged
    rcases mem_append.mp among with early | late
    · exact first.gone id early (second.damaged_before damaged)
    · exact second.gone id late damaged
  · intro path
    rcases second.other path with same | ⟨none, id, among, rfl, damaged⟩
    · rw [same]
      refine (first.other path).imp_right fun ⟨absent, id, among, rest⟩ => ⟨absent, id, mem_append_left _ among, rest⟩
    · exact .inr ⟨none, id, mem_append_right _ among, rfl, first.damaged_before damaged⟩

theorem mono (purged : store.Purged ids files files') (subset : ids ⊆ ids') (all : ids' ⊆ ids) :
    store.Purged ids' files files' :=
  ⟨fun id among => purged.gone id (all among), fun path => (purged.other path).imp_right
    fun ⟨absent, id, among, rest⟩ => ⟨absent, id, subset among, rest⟩⟩

theorem outside (purged : store.Purged ids files files') {path : π} (apart : ∀ id, path ≠ store.layout.chunkPath id) :
    files' path = files path := by
  rcases purged.other path with same | ⟨_, id, _, here, _⟩
  · exact same
  · exact absurd here (apart id)

end Purged

section
omit [DecidableEq δ]

theorem elapse_files [DecidableEq π] (keeps : ∀ time, store.medium.damage time = []) (disk : Disk π) :
    (store.elapse disk).files = disk.files := by
  unfold elapse
  rw [keeps]
  rfl

theorem takeTemp_files {p : (π → Option Bytes) → Prop} :
    Triple (fun disk => p disk.files) (takeTemp : Op δ π Nat) (fun _ disk => p disk.files) fun _ _ => False :=
  .seen fun _ _ => .bind (.modify fun _ kept => kept) fun _ => .pure fun _ kept => kept

theorem takeTemp_spec : Triple (Disk.At files) (takeTemp : Op δ π Nat) (fun _ => Disk.At files) fun _ _ => False :=
  takeTemp_files (p := (· = files))

end

/-- Why writing a file's chunks out failed, if none was damaged. -/
inductive Blamed (store : ChunkStore δ π) (files : π → Option Bytes) (manifest : Manifest store.digest) :
    StoreError δ π → Prop where
  | notFound {entry : ChunkEntry δ} (listed : entry ∈ manifest.chunks)
    (absent : files (store.layout.chunkPath entry.id) = none) : Blamed store files manifest (.notFound entry.id)
  | length {entry : ChunkEntry δ} {raw : Bytes} (listed : entry ∈ manifest.chunks)
    (holds : store.Holds files entry.id raw) (other : raw.length ≠ entry.len.toNat) :
    Blamed store files manifest (.lengthMismatch entry.id entry.len raw.length)
  | hash {raws : List Bytes}
    (held : Forall₂ (fun entry raw => store.Holds files entry.id raw ∧ raw.length = entry.len.toNat)
      manifest.chunks raws)
    (other : store.digest.hash raws.flatten ≠ manifest.fileHash) : Blamed store files manifest .fileHashMismatch

/-- How writing a file out fails, `place` being the files once so much was written. -/
def StreamFailed (store : ChunkStore δ π) (files : π → Option Bytes) (manifest : Manifest store.digest)
    (place : Bytes → π → Option Bytes) (error : StoreError δ π) (files' : π → Option Bytes) : Prop :=
  ∃ written, (store.Blamed files manifest error ∧ files' = place written) ∨
    (∃ entry ∈ manifest.chunks, (∃ reason, error = .corrupt entry.id reason) ∧ store.Damaged files entry.id) ∧
      store.Purged (manifest.uniqueChunks.map ChunkEntry.id) (place written) files'

namespace Restores

theorem held (restores : store.Restores files manifest source) {entry : ChunkEntry δ}
    (among : entry ∈ manifest.chunks) :
    ∃ raw, store.Holds files entry.id raw ∧ raw.length = entry.len.toNat := by
  obtain ⟨raws, held, whole⟩ := restores
  clear whole
  generalize manifest.chunks = chunks at held among
  induction held with
  | nil => cases among
  | cons here _ ih =>
    rcases mem_cons.mp among with rfl | later
    · exact ⟨_, here⟩
    · exact ih later

theorem same_raws {chunks : List (ChunkEntry δ)} {raws raws' : List Bytes}
    (held : Forall₂ (fun entry raw => store.Holds files entry.id raw ∧ raw.length = entry.len.toNat) chunks raws)
    (held' : Forall₂ (fun entry raw => store.Holds files entry.id raw ∧ raw.length = entry.len.toNat) chunks raws') :
    raws = raws' := by
  induction held generalizing raws' with
  | nil =>
    cases held'
    rfl
  | cons here _ ih =>
    cases held' with
    | cons here' held' => rw [here.1.unique here'.1, ih held']

theorem unique (restores : store.Restores files manifest source) (restores' : store.Restores files manifest source') :
    source = source' := by
  obtain ⟨raws, held, rfl, _⟩ := restores
  obtain ⟨raws', held', rfl, _⟩ := restores'
  rw [same_raws held held']

/-- What the store holds whole is written out without fail. -/
theorem streams (restores : store.Restores files manifest source) {place : Bytes → π → Option Bytes}
    {error : StoreError δ π} : ¬ store.StreamFailed files manifest place error files' := by
  rintro ⟨_, ⟨blamed, _⟩ | ⟨⟨entry, listed, _, damaged⟩, _⟩⟩
  · cases blamed with
    | notFound listed absent =>
      obtain ⟨_, ⟨_, here, _⟩, _⟩ := restores.held listed
      cases absent.symm.trans here
    | length listed holds other =>
      obtain ⟨_, holds', size⟩ := restores.held listed
      exact other (holds.unique holds' ▸ size)
    | hash held other =>
      obtain ⟨raws, held', rfl, hashed⟩ := restores
      exact other (same_raws held held' ▸ hashed)
  · obtain ⟨_, holds, _⟩ := restores.held listed
    exact holds.not_damaged damaged

end Restores

omit [DecidableEq δ] in
theorem cleared_chunk (dest : π) (files : π → Option Bytes) (id : δ) :
    store.layout.cleared dest files (store.layout.chunkPath id) = files (store.layout.chunkPath id) :=
  if_neg fun stale => (store.layout.stale_apart stale).2 id rfl

variable [DecidableEq π]

omit [DecidableEq δ] [DecidableEq π] in
theorem partialPath_spec : Triple (Disk.At files) (store.partialPath dest)
    (fun draft disk => disk.At files ∧ store.layout.stale dest draft = true)
    fun error disk => disk.At files ∧ error = .invalidDestination dest ∧
      ∃ number, store.layout.partialPath dest number = none := by
  refine .seen fun seen _ => ?_
  split
  · next unnamed => exact .throw fun disk kept => ⟨kept, rfl, _, unnamed⟩
  · next draft named => exact takeTemp_spec.after fun _ => .pure fun _ kept => ⟨kept, store.layout.partial_stale named⟩

section Reading

variable (sound : store.medium.Sound)
include sound

section
omit [DecidableEq δ]

theorem attempt_sound (action : String) (path : π) :
    Triple (Disk.At files) (store.attempt action path) (fun _ => Disk.At files) fun _ _ => False := by
  refine .seen fun disk _ => .bind (Q := fun _ => Disk.At files) (.modify fun disk kept => ?_) fun _ => ?_
  · rwa [Disk.At, elapse_files sound.keeps]
  · exact .require (fun _ kept _ => kept) fun _ _ failed => failed (sound.serves disk.clock)

theorem tried {α : Type} {action : String} {path : π} {f : Unit → Op δ π α} {R : α → Disk π → Prop}
    {E : StoreError δ π → Disk π → Prop} (rest : Triple (Disk.At files) (f ()) R E) :
    Triple (Disk.At files) (store.attempt action path >>= f) R E :=
  (attempt_sound sound action path).after fun _ => rest

theorem missing_spec (chunks : List (ChunkEntry δ)) : Triple (Disk.At files) (store.missingOf chunks)
      (fun missing disk => disk.At files ∧ missing = chunks.filter fun entry => !store.present files entry.id)
      fun _ _ => False := by
  induction chunks with
  | nil => exact .pure fun _ kept => ⟨kept, rfl⟩
  | cons entry chunks ih =>
    have looked : Triple (Disk.At files) (store.has entry.id)
        (fun found disk => disk.At files ∧ found = store.present files entry.id) fun _ _ => False := by
      refine tried sound (.seen fun seen same => .pure fun disk kept => ⟨kept, ?_⟩)
      rw [same]
      rfl
    refine looked.bind fun found => .and_intro fun here => ih.bind fun rest => .pure ?_
    rintro disk ⟨kept, rfl⟩
    refine ⟨kept, ?_⟩
    rw [filter_cons, here]
    cases store.present files entry.id with
    | true => rfl
    | false => rfl

end

theorem load_spec (id : δ) : Triple (Disk.At files) (store.load id)
    (fun loaded disk => disk.At files ∧ store.Loads files id loaded)
    fun error disk => (error = .notFound id ∧ files (store.layout.chunkPath id) = none ∧ disk.At files) ∨
      (∃ reason, error = .corrupt id reason) ∧ store.Damaged files id ∧
        disk.At (update files (store.layout.chunkPath id) none) := by
  refine tried sound (.seen fun seen same => ?_)
  rw [same]
  cases here : files (store.layout.chunkPath id) with
  | none => exact .throw fun disk kept => .inl ⟨rfl, rfl, kept⟩
  | some bytes =>
    refine tried sound (tried sound ?_)
    cases verified : store.verified id bytes with
    | ok raw => exact .pure fun disk kept => ⟨kept, ⟨bytes, here, verified⟩, bytes, verified, rfl⟩
    | error reason =>
      refine .bind (Q := fun _ => Disk.At (update files (store.layout.chunkPath id) none)) ?_ fun _ => ?_
      · refine tried sound (.seen fun seen same => ?_)
        rw [same, here]
        refine .ite (fun _ => tried sound (.modify ?_)) fun other => absurd rfl other
        rintro disk rfl
        rfl
      · exact .throw fun disk kept => .inr ⟨⟨reason, rfl⟩, ⟨bytes, reason, here, verified⟩, kept⟩

theorem discardDamaged_spec (chunks : List (ChunkEntry δ)) : Triple (Disk.At files) (store.discardDamaged chunks)
    (fun _ disk => store.Purged (chunks.map ChunkEntry.id) files disk.files) fun _ _ => False := by
  induction chunks generalizing files with
  | nil =>
    refine .pure fun disk kept => ?_
    rw [kept]
    exact .refl nofun
  | cons entry chunks ih =>
    have first : Triple (Disk.At files) (do let _ ← store.load entry.id : Op δ π Unit)
        (fun _ disk => store.Purged [entry.id] files disk.files)
        fun error disk => store.Purged [entry.id] files disk.files ∧
          ((error = .notFound entry.id) ∨ ∃ reason, error = .corrupt entry.id reason) := by
      refine ((load_spec sound entry.id).orElse ?_).bind fun loaded => .pure ?_
      · rintro error disk (⟨rfl, none, kept⟩ | ⟨corrupt, damaged, kept⟩)
        · rw [kept]
          exact ⟨.refl fun id among => mem_singleton.mp among ▸ not_damaged_of_none none, .inl rfl⟩
        · rw [kept]
          exact ⟨.single damaged, .inr corrupt⟩
      · rintro disk ⟨kept, holds, _⟩
        rw [kept]
        exact .refl fun id among => mem_singleton.mp among ▸ holds.not_damaged
    refine .bind (first.caught fun error => .and_intro ?_) fun _ => ?_
    · rintro (rfl | ⟨reason, rfl⟩)
      · exact .pure fun _ purged => purged
      · exact .pure fun _ purged => purged
    · intro disk purged
      exact (ih.weaken (fun _ same => same) (fun _ _ rest => purged.trans rest) fun _ _ none => none) disk rfl

theorem loadFor_spec (manifest : Manifest store.digest) {entry : ChunkEntry δ} (listed : entry ∈ manifest.chunks) :
    Triple (Disk.At files) (store.loadFor manifest entry.id)
      (fun loaded disk => disk.At files ∧ store.Loads files entry.id loaded)
      fun error disk => (error = .notFound entry.id ∧ files (store.layout.chunkPath entry.id) = none ∧ disk.At files) ∨
        (∃ reason, error = .corrupt entry.id reason) ∧ store.Damaged files entry.id ∧
          store.Purged (manifest.uniqueChunks.map ChunkEntry.id) files disk.files := by
  refine (load_spec sound entry.id).caught fun error => ?_
  rintro disk (⟨rfl, absent, kept⟩ | ⟨⟨reason, rfl⟩, damaged, kept⟩)
  · exact .inl ⟨rfl, absent, kept⟩
  have purged := Purged.single damaged
  refine (discardDamaged_spec sound _).after (fun _ => .throw fun disk rest => ?_) disk kept
  refine .inr ⟨⟨reason, rfl⟩, damaged, (purged.trans rest).mono ?_ fun id => mem_append_right _⟩
  intro id among
  rcases mem_append.mp among with here | later
  · cases mem_singleton.mp here
    exact manifest.id_unique listed
  · exact later

section Streaming

variable (place : Bytes → π → Option Bytes) {write : Bytes → Op δ π Unit}
  (chunksKept : ∀ written id, place written (store.layout.chunkPath id) = files (store.layout.chunkPath id))
  (writes : ∀ written raw, Triple (Disk.At (place written)) (write raw) (fun _ => Disk.At (place (written ++ raw)))
    fun _ _ => False)
include chunksKept writes

theorem streamChunks_spec (manifest : Manifest store.digest) {chunks : List (ChunkEntry δ)}
    (listed : ∀ entry ∈ chunks, entry ∈ manifest.chunks) (written : Bytes) :
    Triple (Disk.At (place written)) (store.streamChunks manifest write chunks written)
      (fun whole disk => disk.At (place whole) ∧ ∃ raws,
        Forall₂ (fun entry raw => store.Holds files entry.id raw ∧ raw.length = entry.len.toNat) chunks raws ∧
          whole = written ++ raws.flatten)
      fun error disk => store.StreamFailed files manifest place error disk.files := by
  induction chunks generalizing written with
  | nil => exact .pure fun _ kept => ⟨kept, [], .nil, by simp⟩
  | cons entry chunks ih =>
    have here := listed entry mem_cons_self
    have same := chunksKept written entry.id
    refine ((loadFor_spec sound manifest here).orElse ?_).bind fun loaded => .and_intro fun loads => ?_
    · rintro error disk (⟨rfl, absent, kept⟩ | ⟨corrupt, damaged, purged⟩)
      · exact ⟨written, .inl ⟨.notFound here (same.symm.trans absent), kept⟩⟩
      · exact ⟨written, .inr ⟨⟨entry, here, corrupt, damaged.of_eq same.symm⟩, purged⟩⟩
    have holds := loads.1.of_eq same.symm
    refine .guarded (fun disk kept other => ⟨written, .inl ⟨.length here holds other, kept⟩⟩) fun size => ?_
    refine (writes written loaded.raw).after fun _ => ?_
    refine (ih (fun other among => listed other (mem_cons_of_mem _ among)) _).weaken (fun _ kept => kept) ?_
      fun _ _ failed => failed
    rintro whole disk ⟨kept, raws, held, rfl⟩
    exact ⟨kept, loaded.raw :: raws, .cons ⟨holds, size⟩ held, by simp⟩

theorem streamFile_spec (manifest : Manifest store.digest) : Triple (Disk.At (place []))
    (store.streamFile manifest write)
    (fun _ disk => ∃ source, disk.At (place source) ∧ store.Restores files manifest source)
    fun error disk => store.StreamFailed files manifest place error disk.files := by
  refine (streamChunks_spec sound place chunksKept writes manifest (fun _ among => among) []).bind fun whole =>
    .require ?_ ?_
  · rintro disk ⟨kept, raws, held, rfl⟩ hashed
    exact ⟨_, kept, raws, held, by simp, hashed⟩
  · rintro disk ⟨kept, raws, held, rfl⟩ other
    exact ⟨_, .inl ⟨.hash held other, kept⟩⟩

end Streaming

omit [DecidableEq δ] in
theorem append_spec (written raw : Bytes) :
    Triple (Disk.At (update files draft (some written))) (store.append draft raw)
      (fun _ => Disk.At (update files draft (some (written ++ raw)))) fun _ _ => False := by
  refine tried sound (.modify fun disk kept => ?_)
  have before : disk.files = update files draft (some written) := kept
  simp [Disk.At, Disk.write, before]

theorem writeFile_spec (manifest : Manifest store.digest) (apart : ∀ id, draft ≠ store.layout.chunkPath id)
    (same : ∀ id, files' (store.layout.chunkPath id) = files (store.layout.chunkPath id)) (free : files' draft = none) :
    Triple (Disk.At files') (store.writeFile manifest draft)
      (fun _ disk => ∃ source, disk.At (update files' draft (some source)) ∧ store.Restores files manifest source)
      fun error disk => store.StreamFailed files manifest (fun written => update files' draft (some written)) error
        disk.files := by
  refine tried sound (.seen fun seen here => .guarded (fun _ _ taken => absurd (here ▸ free) taken) fun _ => ?_)
  refine .bind (Q := fun _ => Disk.At (update files' draft (some []))) (.modify ?_) fun _ => ?_
  · rintro disk rfl
    rfl
  refine (streamFile_spec sound (fun written => update files' draft (some written)) ?_
    (fun written raw => append_spec sound written raw) manifest).bind fun _ => .exists_intro fun source =>
      .and_intro fun restores => ?_
  · exact fun _ id => (update_of_ne (apart id).symm _ _).trans (same id)
  · exact (attempt_sound sound _ _).weaken (fun _ kept => kept) (fun _ _ kept => ⟨source, kept, restores⟩)
      fun _ _ none => none.elim

/-- How assembling a file fails: a chunk is not there, the destination names no file, or writing the
chunks out fails and the draft is removed. -/
inductive AssembleFailed (store : ChunkStore δ π) (files : π → Option Bytes)
    (manifest : Manifest store.digest) (dest : π) :
    StoreError δ π → (π → Option Bytes) → Prop where
  | lacking {entry : ChunkEntry δ} (count : Nat) (listed : entry ∈ manifest.chunks)
    (absent : store.present files entry.id = false) : AssembleFailed store files manifest dest (.incomplete count) files
  | unnamed {number : Nat} (unnamed : store.layout.partialPath dest number = none) :
    AssembleFailed store files manifest dest (.invalidDestination dest) (store.layout.cleared dest files)
  | undone {draft : π} {error : StoreError δ π} {files' : π → Option Bytes}
    (stale : store.layout.stale dest draft = true)
    (failed : store.StreamFailed files manifest
      (fun written => update (store.layout.cleared dest files) draft (some written)) error files') :
    AssembleFailed store files manifest dest error (update files' draft none)

omit sound [DecidableEq π] in
theorem lacking_entry {missing : List (ChunkEntry δ)}
    (same : missing = manifest.uniqueChunks.filter fun entry => !store.present files entry.id)
    (lacking : missing ≠ []) : ∃ entry ∈ manifest.chunks, store.present files entry.id = false := by
  obtain ⟨entry, rest, rfl⟩ := exists_cons_of_ne_nil lacking
  have among : entry ∈ manifest.uniqueChunks.filter fun entry => !store.present files entry.id := same ▸ mem_cons_self
  obtain ⟨unique, absent⟩ := mem_filter.mp among
  exact ⟨entry, mem_uniqueAfter unique, by simpa using absent⟩

/-- `next` changes the files as `change` does, once the draft is complete. -/
theorem assembleThen_spec {next : Op δ π Unit} {change : (π → Option Bytes) → π → Option Bytes}
    (changes : ∀ files, Triple (Disk.At files) next (fun _ => Disk.At (change files)) fun _ _ => False)
    (manifest : Manifest store.digest) : Triple (Disk.At files) (store.assembleThen manifest dest next)
      (fun _ disk => ∃ draft source built, store.layout.stale dest draft = true ∧ store.Restores files manifest source ∧
        built = change (update (store.layout.cleared dest files) draft (some source)) ∧
        disk.files = update (update built dest (built draft)) draft none)
      fun error disk => store.AssembleFailed files manifest dest error disk.files := by
  refine (missing_spec sound _).after fun missing => .and_intro fun same => .guarded ?_ fun _ => ?_
  · rintro disk rfl lacking
    obtain ⟨entry, listed, absent⟩ := lacking_entry same lacking
    exact .lacking _ listed absent
  refine .bind (Q := fun _ => Disk.At (store.layout.cleared dest files)) (.modify ?_) fun _ => ?_
  · rintro disk rfl
    rfl
  refine (partialPath_spec.orElse ?_).bind fun draft => .and_intro fun stale => ?_
  · rintro _ disk ⟨kept, rfl, _, unnamed⟩
    exact kept ▸ .unnamed unnamed
  have apart := (store.layout.stale_apart stale).2
  refine .caught (F := fun error (disk : Disk π) => store.StreamFailed files manifest
    (fun written => update (store.layout.cleared dest files) draft (some written)) error disk.files) ?_ fun error => ?_
  · refine (writeFile_spec sound manifest apart (cleared_chunk dest files) (if_pos stale)).bind fun _ => ?_
    refine .exists_intro fun source => .and_intro fun restores => (changes _).after fun _ => tried sound (.modify ?_)
    rintro disk kept
    exact ⟨draft, source, _, stale, restores, kept, rfl⟩
  · refine .bind (.modify ?_) fun _ =>
      .throw fun _ failed => failed
    exact fun disk failed => .undone stale failed

end Reading

end ChunkStore

end Tpf3Mp.Snapshot
