import Tpf3Mp.Snapshot.Ingest

/-!
Receiving a snapshot into a store (`sink.rs`): chunks are checked as they come and stored, and once all
are there the whole is verified and retained.
-/

namespace Tpf3Mp.Snapshot
open Codec Run List Function

inductive RecordDamage (δ : Type) where
  | tooLong (len : Nat)
  | manifest (error : ManifestError δ)
  | otherSnapshot (id : δ)

/-- Why a call on a sink failed. The errors of the store that are about records are listed with them. -/
inductive SinkError (δ π : Type) where
  | notInManifest (id : δ)
  | rejected (id : δ) (reason : ChunkError)
  | incomplete (missing : Nat)
  | alreadyOpen (id : δ)
  | inconsistent (error : StoreError δ π)
  | finished
  | unknownSnapshot (id : δ)
  | damagedRecord (id : δ) (damage : RecordDamage δ)
  | store (error : StoreError δ π)

abbrev SinkOp (δ π α : Type) := Effect (SinkError δ π) (Disk π) α

/-- What becomes of a complete snapshot: assemble the file somewhere, or only keep it. -/
inductive Completion (π : Type) where
  | file (dest : π)
  | retain
  deriving DecidableEq

/-- Records have files of their own, which no assembly clears away. -/
structure Layout.Sane {δ π : Type} (layout : Layout δ π) : Prop where
  record_inj : ∀ {record record' id id'}, layout.recordPath record id = layout.recordPath record' id' →
    record = record' ∧ id = id'
  stale_record : ∀ {dest path}, layout.stale dest path = true → ∀ record id, path ≠ layout.recordPath record id

theorem storeLayout_sane {δ : Type} {bytes : δ → Bytes} (distinct : Function.Injective bytes) (root : Path)
    (process : Nat) : (storeLayout bytes distinct root process).Sane where
  record_inj {record record'} _ _ same := by
    obtain ⟨name, dir⟩ := List.cons.inj same
    refine ⟨?_, distinct (hex_injective name)⟩
    cases record <;> cases record' <;> first | rfl | cases (List.cons.inj dir).1
  stale_record stale record id same := by
    obtain ⟨_, rest, parent, rfl⟩ := isStale_dotted stale
    exact hex_undotted _ _ (List.cons.inj same).1.symm

/-- The file to assemble is none of the store's own. -/
def Completion.Foreign {δ π : Type} (layout : Layout δ π) : Completion π → Prop
  | .file dest => (∀ id, dest ≠ layout.chunkPath id) ∧ ∀ record id, dest ≠ layout.recordPath record id
  | .retain => True

structure Sink {δ : Type} (digest : Digest δ) where
  manifest : Manifest digest
  /-- Distinct chunks that the store does not hold yet. -/
  missing : List δ
  finished : Bool

namespace ChunkStore

variable {δ π α : Type} [DecidableEq δ] [DecidableEq π] (store : ChunkStore δ π)

def stored (x : Op δ π α) : SinkOp δ π α := ExceptT.adapt .store x

def loadRecord (record : Record) (id : δ) : SinkOp δ π (Manifest store.digest) := do
  let path := store.layout.recordPath record id
  stored (store.attempt "open" path)
  match (← get).files path with
  | none => throw (.unknownSnapshot id)
  | some bytes => do
    stored (store.attempt "read" path)
    let bytes := bytes.take (maxManifestLen + 1)
    require (bytes.length ≤ maxManifestLen) (.damagedRecord id (.tooLong bytes.length))
    match Manifest.fromBytes store.digest bytes with
    | .error error => throw (.damagedRecord id (.manifest error))
    | .ok manifest => do
      require (manifest.id = id) (.damagedRecord id (.otherSnapshot manifest.id))
      return manifest

def removeRecord (record : Record) (id : δ) : SinkOp δ π Unit := do
  let path := store.layout.recordPath record id
  stored (store.attempt "remove" path)
  modify fun disk => disk.write path none

def isPending (id : δ) : SinkOp δ π Bool := do
  let path := store.layout.recordPath .pending id
  stored (store.attempt "list" path)
  return ((← get).files path).isSome

def promote (manifest : Manifest store.digest) : Op δ π Unit := do
  let pending := store.layout.recordPath .pending manifest.id
  let root := store.layout.recordPath .root manifest.id
  store.attempt "retain" root
  match (← get).files pending with
  | some content => modify fun disk => (disk.write root (some content)).write pending none
  | none => store.writeRecord .root manifest

/-- Checks a complete snapshot the way assembling it would, then runs `next`. -/
def verifyThen (manifest : Manifest store.digest) (next : Op δ π Unit) : Op δ π Unit := do
  let missing ← store.missing manifest
  require (missing = []) (.incomplete missing.length)
  store.streamFile manifest fun _ => return
  next

def refresh (sink : Sink store.digest) : SinkOp δ π (Sink store.digest) := do
  let missing ← stored (store.missing sink.manifest)
  return { sink with missing := missing.map ChunkEntry.id }

/-- `ChunkSink::open`. `claimed` if another sink of the process holds the snapshot. -/
def openSink (claimed : Bool) (manifest : Manifest store.digest) : SinkOp δ π (Sink store.digest) := do
  require (claimed = false) (.alreadyOpen manifest.id)
  stored (store.writeRecord .pending manifest)
  store.refresh ⟨manifest, [], false⟩

def resumeSink (claimed : Bool) (id : δ) : SinkOp δ π (Sink store.digest) := do
  require (claimed = false) (.alreadyOpen id)
  let manifest ← store.loadRecord .pending id
  store.refresh ⟨manifest, [], false⟩

/-- Checks one chunk as received from a peer, and stores it. `recompress` if the store compresses
received chunks again. -/
def put (recompress : Bool) (sink : Sink store.digest) (id : δ) (frame : Bytes) : SinkOp δ π (Sink store.digest) := do
  require (sink.finished = false) .finished
  match sink.manifest.uniqueChunks.find? fun entry => entry.id = id with
  | none => throw (.notInManifest id)
  | some entry =>
    if id ∉ sink.missing then return sink
    else
      match store.decode id entry.len frame with
      | .error reason => throw (.rejected id reason)
      | .ok raw => do
        let _ ← stored (store.writeChunk id entry.len (if recompress then store.zstd.compress raw else frame))
        return { sink with missing := sink.missing.filter (· ≠ id) }

/-- Ends a transfer after a final verification, however it went. -/
def settle (sink : Sink store.digest) : Except (StoreError δ π) Unit →
    SinkOp δ π (Sink store.digest × Except (SinkError δ π) Unit)
  | .ok () => return ({ sink with finished := true }, .ok ())
  | .error error =>
    if error matches .fileHashMismatch | .lengthMismatch _ _ _ then
      -- Left pending, it would pin its chunks forever.
      tryCatch
        (do
          store.removeRecord .pending sink.manifest.id
          return ({ sink with finished := true }, .error (.inconsistent error)))
        fun failed => return ({ sink with finished := true }, .error failed)
    else
      tryCatch
        (do
          let sink ← store.refresh sink
          return (sink, .error (.store error)))
        fun _ => return (sink, .error (.store error))

def outcome (x : Op δ π Unit) : SinkOp δ π (Except (StoreError δ π) Unit) :=
  tryCatch (do
    stored x
    return .ok ()) fun error => match error with
      | .store error => return .error error
      | error => throw error

/-- `ChunkSink::finish` and `ChunkSink::retain`. The sink is given back with how it went. -/
def complete (completion : Completion π) (sink : Sink store.digest) :
    SinkOp δ π (Sink store.digest × Except (SinkError δ π) Unit) := do
  if sink.finished then return (sink, .error .finished)
  else if sink.missing ≠ [] then return (sink, .error (.incomplete sink.missing.length))
  else
    let manifest := sink.manifest
    let verified ← outcome (match completion with
      | .file dest => store.assembleThen manifest dest (store.promote manifest)
      | .retain => store.verifyThen manifest (store.promote manifest))
    store.settle sink verified

def abandon (sink : Sink store.digest) : SinkOp δ π Unit := do
  if sink.finished then return
  else store.removeRecord .pending sink.manifest.id

def readCompressed (id : δ) : Op δ π Bytes := do
  let loaded ← store.load id
  return loaded.file.drop chunkHeaderLen

variable {store} {P : Disk π → Prop} {Q : α → Disk π → Prop} {E : StoreError δ π → Disk π → Prop}

omit [DecidableEq δ] [DecidableEq π] in
theorem stored_triple {x : Op δ π α} (triple : Triple P x Q E) :
    Triple P (stored x) Q fun error disk => ∃ reason, error = .store reason ∧ E reason disk := by
  intro disk start
  have after := triple disk start
  have unfolded : (stored x).run disk = match x.run disk with
      | (.ok a, disk') => (.ok a, disk')
      | (.error reason, disk') => (.error (.store reason), disk') := by
    change ((fun result : Except (StoreError δ π) α => result.mapError SinkError.store) <$> x.run) disk = _
    cases run : x.run disk with
    | mk result disk' =>
      simp only [Functor.map, StateT.map, run]
      cases result <;> rfl
  rw [unfolded]
  cases run : x.run disk with
  | mk result disk' =>
    rw [run] at after
    cases result with
    | ok a => exact after
    | error reason => exact ⟨reason, rfl, after⟩

omit [DecidableEq δ] [DecidableEq π] in
theorem stored_total {x : Op δ π α} (triple : Triple P x Q fun _ _ => False) : Triple P (stored x) Q fun _ _ => False :=
  (stored_triple triple).orElse fun _ _ ⟨_, _, never⟩ => never

def Ended (Q : Unit → Disk π → Prop) (E : StoreError δ π → Disk π → Prop) : Except (StoreError δ π) Unit → Disk π → Prop
  | .ok a => Q a
  | .error reason => E reason

omit [DecidableEq δ] [DecidableEq π] in
theorem outcome_triple {x : Op δ π Unit} {Q : Unit → Disk π → Prop} (triple : Triple P x Q E) :
    Triple P (outcome x) (Ended Q E) fun _ _ => False := by
  refine .caught ((stored_triple triple).bind fun _ => .pure fun _ after => after) fun error => ?_
  refine .exists_intro fun reason => ?_
  rintro disk ⟨rfl, failed⟩
  exact failed

variable {files files' files'' : π → Option Bytes}

section Reading

variable (sound : store.medium.Sound)
include sound

variable {frame : Bytes} {id : δ} {raw : Bytes} {draft : π} {manifest : Manifest store.digest} {dest : π}
  {len : UInt32}

theorem readCompressed_spec (holds : store.Holds files id raw) : Triple (Disk.At files) (store.readCompressed id)
    (fun frame disk => disk.At files ∧ ∃ len, store.decode id len frame = .ok raw) fun _ _ => False := by
  refine ((load_spec sound id).orElse ?_).bind fun loaded => .pure ?_
  · rintro _ _ (⟨_, absent, _⟩ | ⟨_, damaged, _⟩)
    · obtain ⟨_, here, _⟩ := holds
      cases absent.symm.trans here
    · exact holds.not_damaged damaged
  · rintro disk ⟨kept, holds', bytes, verified, file⟩
    obtain ⟨⟨rawLen, frame⟩, parsed, decoded⟩ := bind_ok.mp verified
    refine ⟨kept, rawLen, ?_⟩
    rw [file, (parseChunkFile_ok parsed).2, holds.unique holds']
    exact decoded

def promoted (store : ChunkStore δ π) (manifest : Manifest store.digest) (files : π → Option Bytes) :
    π → Option Bytes :=
  match files (store.layout.recordPath .pending manifest.id) with
  | some content => update (update files (store.layout.recordPath .root manifest.id) (some content))
      (store.layout.recordPath .pending manifest.id) none
  | none => update files (store.layout.recordPath .root manifest.id) (some manifest.toBytes)

omit [DecidableEq δ] in
theorem writeRecord_spec (record : Record) (manifest : Manifest store.digest) :
    Triple (Disk.At files) (store.writeRecord record manifest)
      (fun _ => Disk.At (update files (store.layout.recordPath record manifest.id) (some manifest.toBytes)))
      fun _ _ => False := by
  refine takeTemp_spec.after fun _ => tried sound (tried sound (tried sound (.modify ?_)))
  rintro disk rfl
  rfl

omit [DecidableEq δ] in
theorem promote_spec (manifest : Manifest store.digest) : Triple (Disk.At files) (store.promote manifest)
    (fun _ => Disk.At (store.promoted manifest files)) fun _ _ => False := by
  refine tried sound (.seen fun seen same => ?_)
  rw [same]
  unfold promoted
  cases files (store.layout.recordPath .pending manifest.id) with
  | some content =>
    refine .modify ?_
    rintro disk rfl
    rfl
  | none => exact writeRecord_spec sound .root manifest

structure Completed (store : ChunkStore δ π) (files : π → Option Bytes) (manifest : Manifest store.digest)
    (completion : Completion π) (files' : π → Option Bytes) : Prop where
  chunks : ∀ id, files' (store.layout.chunkPath id) = files (store.layout.chunkPath id)
  whole : ∃ source, store.Restores files manifest source ∧ ∀ dest, completion = .file dest → files' dest = some source
  retained : files' (store.layout.recordPath .root manifest.id) =
    some ((files (store.layout.recordPath .pending manifest.id)).getD manifest.toBytes)

/-- What a transfer that could not be completed leaves alone. -/
structure Untouched (store : ChunkStore δ π) (files : π → Option Bytes) (completion : Completion π)
    (files' : π → Option Bytes) : Prop where
  records : ∀ record id, files' (store.layout.recordPath record id) = files (store.layout.recordPath record id)
  dest : ∀ dest, completion = .file dest → files' dest = files dest

/-- The damaged ones of some chunks are gone, whatever became of other files. -/
structure Cleaned (store : ChunkStore δ π) (ids : List δ) (files files' : π → Option Bytes) : Prop where
  gone : ∀ id ∈ ids, ¬ store.Damaged files' id
  other : ∀ id, files' (store.layout.chunkPath id) = files (store.layout.chunkPath id) ∨
    files' (store.layout.chunkPath id) = none ∧ store.Damaged files id

/-- Why a transfer could not be completed, if no chunk was damaged. -/
inductive Refused (store : ChunkStore δ π) (files : π → Option Bytes) (manifest : Manifest store.digest)
    (completion : Completion π) : StoreError δ π → Prop where
  | incomplete {entry : ChunkEntry δ} (count : Nat) (listed : entry ∈ manifest.chunks)
    (absent : store.present files entry.id = false) : Refused store files manifest completion (.incomplete count)
  | blamed {error : StoreError δ π} (blamed : store.Blamed files manifest error) :
    Refused store files manifest completion error
  | invalid {dest : π} {number : Nat} (here : completion = .file dest)
    (unnamed : store.layout.partialPath dest number = none) :
    Refused store files manifest completion (.invalidDestination dest)

/-- How completing a transfer fails. -/
structure CompleteFailed (store : ChunkStore δ π) (files : π → Option Bytes) (manifest : Manifest store.digest)
    (completion : Completion π) (error : StoreError δ π) (files' : π → Option Bytes) : Prop where
  untouched : store.Untouched files completion files'
  cause : (store.Refused files manifest completion error ∧
      ∀ id, files' (store.layout.chunkPath id) = files (store.layout.chunkPath id)) ∨
    (∃ entry ∈ manifest.chunks, (∃ reason, error = .corrupt entry.id reason) ∧ store.Damaged files entry.id) ∧
      store.Cleaned (manifest.uniqueChunks.map ChunkEntry.id) files files'

section
omit sound [DecidableEq δ]

theorem promoted_other (manifest : Manifest store.digest) (files : π → Option Bytes) {path : π}
    (apart : ∀ record, path ≠ store.layout.recordPath record manifest.id) :
    store.promoted manifest files path = files path := by
  unfold promoted
  cases files (store.layout.recordPath .pending manifest.id) with
  | some content => exact (update_of_ne (apart .pending) _ _).trans (update_of_ne (apart .root) _ _)
  | none => exact update_of_ne (apart .root) _ _

theorem promoted_chunk (manifest : Manifest store.digest) (files : π → Option Bytes) (id : δ) :
    store.promoted manifest files (store.layout.chunkPath id) = files (store.layout.chunkPath id) :=
  promoted_other manifest files fun record => (store.layout.record_apart record manifest.id id).symm

theorem promoted_root (sane : store.layout.Sane) (manifest : Manifest store.digest) (files : π → Option Bytes) :
    store.promoted manifest files (store.layout.recordPath .root manifest.id) =
      some ((files (store.layout.recordPath .pending manifest.id)).getD manifest.toBytes) := by
  have apart : store.layout.recordPath .root manifest.id ≠ store.layout.recordPath .pending manifest.id := by
    intro same
    cases (sane.record_inj same).1
  unfold promoted
  cases files (store.layout.recordPath .pending manifest.id) with
  | some content => exact (update_of_ne apart _ _).trans (update_self _ _ _)
  | none => exact update_self _ _ _

end

omit sound [DecidableEq π] in
theorem Purged.cleaned {ids : List δ} (purged : store.Purged ids files' files'')
    (same : ∀ id, files' (store.layout.chunkPath id) = files (store.layout.chunkPath id)) :
    store.Cleaned ids files files'' := by
  refine ⟨purged.gone, fun id => ?_⟩
  rw [← same id]
  apply (purged.other (store.layout.chunkPath id)).imp_right
  rintro ⟨absent, other, _, here, damaged⟩
  cases store.layout.chunk_inj here
  exact ⟨absent, damaged.of_eq (same id).symm⟩

omit sound [DecidableEq π] in
theorem Cleaned.of_eq {ids : List δ} (cleaned : store.Cleaned ids files files')
    (same : ∀ id, files'' (store.layout.chunkPath id) = files' (store.layout.chunkPath id)) :
    store.Cleaned ids files files'' :=
  ⟨fun id among damaged => cleaned.gone id among (damaged.of_eq (same id).symm),
    fun id => by rw [same id]; exact cleaned.other id⟩

theorem verifyThen_spec (sane : store.layout.Sane) (manifest : Manifest store.digest) :
    Triple (Disk.At files) (store.verifyThen manifest (store.promote manifest))
      (fun _ disk => store.Completed files manifest .retain disk.files)
      fun error disk => store.CompleteFailed files manifest .retain error disk.files := by
  have untouched : store.Untouched files .retain files := ⟨fun _ _ => rfl, nofun⟩
  refine (missing_spec sound _).after fun missing => .and_intro fun same =>
    .guarded (fun disk kept lacking => ?_) fun _ => ?_
  · obtain ⟨entry, listed, absent⟩ := lacking_entry same lacking
    exact ⟨kept ▸ untouched, .inl ⟨.incomplete _ listed absent, fun id => by rw [kept]⟩⟩
  refine .bind
    ((streamFile_spec sound (fun _ => files) (fun _ _ => rfl) (fun _ _ => .pure fun _ kept => kept) manifest).orElse
      ?_) fun _ => .exists_intro fun source => .and_intro fun restores => ?_
  · rintro error disk ⟨_, ⟨blamed, kept⟩ | ⟨corrupt, purged⟩⟩
    · exact ⟨kept ▸ untouched, .inl ⟨.blamed blamed, fun id => by rw [kept]⟩⟩
    · refine ⟨⟨fun record id => purged.outside fun other => store.layout.record_apart record id other,
        nofun⟩, .inr ⟨corrupt, purged.cleaned fun _ => rfl⟩⟩
  · refine (promote_spec sound manifest).weaken (fun _ kept => kept) ?_ fun _ _ none => none.elim
    intro _ disk kept
    rw [kept]
    exact ⟨promoted_chunk manifest files, ⟨source, restores, nofun⟩,
      promoted_root sane manifest files⟩

omit sound [DecidableEq δ] [DecidableEq π] in
theorem cleared_record (sane : store.layout.Sane) (dest : π) (files : π → Option Bytes) (record : Record) (id : δ) :
    store.layout.cleared dest files (store.layout.recordPath record id) = files (store.layout.recordPath record id) :=
  if_neg fun stale => sane.stale_record stale record id rfl

omit sound [DecidableEq δ] [DecidableEq π] in
theorem cleared_dest (dest : π) (files : π → Option Bytes) : store.layout.cleared dest files dest = files dest :=
  if_neg fun stale => (store.layout.stale_apart stale).1 rfl

omit sound in
theorem published_completed (sane : store.layout.Sane) {source : Bytes} {built : π → Option Bytes}
    (foreign : Completion.Foreign store.layout (.file dest)) (stale : store.layout.stale dest draft = true)
    (restores : store.Restores files manifest source)
    (kept : built = store.promoted manifest (update (store.layout.cleared dest files) draft (some source))) :
    store.Completed files manifest (.file dest) (update (update built dest (built draft)) draft none) := by
  obtain ⟨other, apart⟩ := store.layout.stale_apart stale
  have unrecorded := sane.stale_record stale
  have elsewhere {path : π} (undrafted : path ≠ draft) (undest : path ≠ dest) :
      update (update built dest (built draft)) draft none path = built path :=
    (update_of_ne undrafted _ _).trans (update_of_ne undest _ _)
  constructor
  · intro id
    rw [elsewhere (apart id).symm (foreign.1 id).symm, kept, promoted_chunk, update_of_ne (apart id).symm,
      cleared_chunk]
  · refine ⟨source, restores, ?_⟩
    rintro _ ⟨⟩
    have complete : built draft = some source := by
      rw [kept, promoted_other manifest _ fun record => unrecorded record manifest.id, update_self]
    exact (update_of_ne other.symm _ _).trans ((update_self _ _ _).trans complete)
  · rw [elsewhere (unrecorded .root _).symm (foreign.2 .root _).symm, kept, promoted_root sane,
      update_of_ne (unrecorded .pending _).symm, cleared_record sane]

omit sound in
theorem AssembleFailed.complete (sane : store.layout.Sane) {error : StoreError δ π}
    (foreign : Completion.Foreign store.layout (.file dest))
    (failed : store.AssembleFailed files manifest dest error files') :
    store.CompleteFailed files manifest (.file dest) error files' := by
  cases failed with
  | lacking count listed absent =>
    exact ⟨⟨fun _ _ => rfl, fun _ _ => rfl⟩, .inl ⟨.incomplete _ listed absent, fun _ => rfl⟩⟩
  | unnamed unnamed =>
    refine ⟨⟨fun record id => cleared_record sane dest files record id, ?_⟩,
      .inl ⟨.invalid rfl unnamed, cleared_chunk dest files⟩⟩
    rintro _ ⟨⟩
    exact cleared_dest dest files
  | @undone draft _ files' stale failed =>
    obtain ⟨other, apart⟩ := store.layout.stale_apart stale
    have elsewhere {path : π} (undrafted : path ≠ draft) : update files' draft none path = files' path :=
      update_of_ne undrafted _ _
    obtain ⟨written, failed⟩ := failed
    have before {path : π} (undrafted : path ≠ draft) (unchunked : ∀ id, path ≠ store.layout.chunkPath id) :
        update files' draft none path = store.layout.cleared dest files path := by
      rcases failed with ⟨_, rfl⟩ | ⟨_, purged⟩
      · exact (elsewhere undrafted).trans (update_of_ne undrafted _ _)
      · exact (elsewhere undrafted).trans ((purged.outside unchunked).trans (update_of_ne undrafted _ _))
    refine ⟨⟨fun record id => ?_, ?_⟩, failed.imp (fun ⟨blamed, kept⟩ => ⟨.blamed blamed, fun id => ?_⟩)
      fun ⟨corrupt, purged⟩ =>
        ⟨corrupt, Cleaned.of_eq (purged.cleaned fun id => ?_) fun id => elsewhere (apart id).symm⟩⟩
    · rw [before (sane.stale_record stale record id).symm (store.layout.record_apart record id), cleared_record sane]
    · rintro _ ⟨⟩
      rw [before other.symm foreign.1, cleared_dest]
    · rw [elsewhere (apart id).symm, kept]
      exact (update_of_ne (apart id).symm _ _).trans (cleared_chunk dest files id)
    · exact (update_of_ne (apart id).symm _ _).trans (cleared_chunk dest files id)

theorem verification_spec (sane : store.layout.Sane) {completion : Completion π}
    (foreign : completion.Foreign store.layout) (manifest : Manifest store.digest) : Triple (Disk.At files)
      (match completion with
        | .file dest => store.assembleThen manifest dest (store.promote manifest)
        | .retain => store.verifyThen manifest (store.promote manifest))
      (fun _ disk => store.Completed files manifest completion disk.files)
      fun error disk => store.CompleteFailed files manifest completion error disk.files := by
  cases completion with
  | file dest =>
    refine (assembleThen_spec sound (fun _ => promote_spec sound manifest) manifest).weaken (fun _ kept => kept) ?_
      fun _ _ failed => failed.complete sane foreign
    rintro _ disk ⟨draft, source, built, stale, restores, kept, after⟩
    rw [after]
    exact published_completed sane foreign stale restores kept
  | retain => exact verifyThen_spec sound sane manifest

omit sound in
variable (store) in
def lacked (files : π → Option Bytes) (manifest : Manifest store.digest) : List δ :=
  (manifest.uniqueChunks.filter fun entry => !store.present files entry.id).map ChunkEntry.id

omit sound [DecidableEq π] in
theorem lacked_of_eq (same : ∀ id, files' (store.layout.chunkPath id) = files (store.layout.chunkPath id)) :
    store.lacked files' manifest = store.lacked files manifest := by
  simp only [lacked, present, same]

omit [DecidableEq δ] in
theorem attempted (action : String) (path : π) : Triple (Disk.At files) (stored (store.attempt action path))
    (fun _ => Disk.At files) fun _ _ => False :=
  stored_total (attempt_sound sound action path)

omit [DecidableEq δ] in
theorem tells {f : Unit → SinkOp δ π α} {action : String} {path : π} {R : α → Disk π → Prop}
    {E : SinkError δ π → Disk π → Prop} (rest : Triple (Disk.At files) (f ()) R E) :
    Triple (Disk.At files) (stored (store.attempt action path) >>= f) R E :=
  (attempted sound action path).after fun _ => rest

theorem refresh_spec (sink : Sink store.digest) : Triple (Disk.At files) (store.refresh sink)
    (fun sink' disk => disk.At files ∧ sink' = { sink with missing := store.lacked files sink.manifest })
    fun _ _ => False := by
  refine (stored_total (missing_spec sound _)).bind fun missing => .pure ?_
  rintro disk ⟨kept, rfl⟩
  exact ⟨kept, rfl⟩

omit [DecidableEq δ] in
theorem removeRecord_spec (record : Record) (id : δ) : Triple (Disk.At files) (store.removeRecord record id)
    (fun _ disk => disk.files = update files (store.layout.recordPath record id) none) fun _ _ => False := by
  refine tells sound (.modify ?_)
  rintro disk rfl
  rfl

omit [DecidableEq δ] in
theorem isPending_spec (id : δ) : Triple (Disk.At files) (store.isPending id)
    (fun found disk => disk.At files ∧ found = (files (store.layout.recordPath .pending id)).isSome) fun _ _ =>
      False := by
  refine tells sound (.seen fun seen same => .pure fun disk kept => ⟨kept, ?_⟩)
  rw [same]

theorem loadRecord_spec (record : Record) (id : δ) : Triple (Disk.At files) (store.loadRecord record id)
    (fun manifest disk => disk.At files ∧ manifest.id = id ∧
      ∃ bytes, files (store.layout.recordPath record id) = some bytes ∧
      Manifest.fromBytes store.digest bytes = .ok manifest)
    fun error disk => disk.At files ∧
      ((error = .unknownSnapshot id ∧ files (store.layout.recordPath record id) = none) ∨
        ∃ damage, error = .damagedRecord id damage) := by
  apply tells sound
  refine .seen fun seen same => ?_
  rw [same]
  cases here : files (store.layout.recordPath record id) with
  | none => exact .throw fun disk kept => ⟨kept, .inl ⟨rfl, rfl⟩⟩
  | some bytes =>
    apply tells sound
    refine .guarded (fun disk kept _ => ⟨kept, .inr ⟨_, rfl⟩⟩) fun short => ?_
    have all : bytes.take (maxManifestLen + 1) = bytes := by
      apply take_of_length_le
      rw [length_take] at short
      omega
    rw [all]
    cases read : Manifest.fromBytes store.digest bytes with
    | error error => exact .throw fun disk kept => ⟨kept, .inr ⟨_, rfl⟩⟩
    | ok manifest =>
      refine .guarded (fun disk kept _ => ⟨kept, .inr ⟨_, rfl⟩⟩) fun named => .pure fun disk kept => ?_
      exact ⟨kept, named, bytes, rfl, read⟩

theorem openSink_spec (claimed : Bool) (manifest : Manifest store.digest) :
    Triple (Disk.At files) (store.openSink claimed manifest)
      (fun sink disk => claimed = false ∧
        disk.files = update files (store.layout.recordPath .pending manifest.id) (some manifest.toBytes) ∧
        sink = ⟨manifest, store.lacked files manifest, false⟩)
      fun _ disk => disk.At files ∧ claimed = true := by
  refine .guarded (fun disk kept taken => ⟨kept, by simpa using taken⟩) fun free => ?_
  refine (stored_total (writeRecord_spec sound .pending manifest)).after fun _ => ?_
  refine (refresh_spec sound _).weaken (fun _ kept => kept) ?_ fun _ _ none => none.elim
  rintro sink disk ⟨kept, rfl⟩
  refine ⟨free, kept, ?_⟩
  rw [lacked_of_eq fun id => update_of_ne (store.layout.record_apart .pending manifest.id id).symm _ _]

theorem resumeSink_spec (claimed : Bool) (id : δ) : Triple (Disk.At files) (store.resumeSink claimed id)
      (fun sink disk => claimed = false ∧ disk.At files ∧ sink.manifest.id = id ∧
        sink = ⟨sink.manifest, store.lacked files sink.manifest, false⟩ ∧
        ∃ bytes, files (store.layout.recordPath .pending id) = some bytes ∧
          Manifest.fromBytes store.digest bytes = .ok sink.manifest)
      fun error disk => disk.At files ∧ (claimed = true ∨
        (error = .unknownSnapshot id ∧ files (store.layout.recordPath .pending id) = none) ∨
          ∃ damage, error = .damagedRecord id damage) := by
  refine .guarded (fun disk kept taken => ⟨kept, .inl (by simpa using taken)⟩) fun free => ?_
  refine ((loadRecord_spec sound .pending id).orElse fun _ _ failed => ⟨failed.1, .inr failed.2⟩).bind
    fun manifest => ?_
  refine .and_intro fun read => ?_
  refine (refresh_spec sound _).weaken (fun _ kept => kept) ?_ fun _ _ none => none.elim
  rintro sink disk ⟨kept, rfl⟩
  exact ⟨free, kept, read.1, rfl, read.2⟩

omit [DecidableEq δ] in
theorem abandon_spec (sink : Sink store.digest) : Triple (Disk.At files) (store.abandon sink)
    (fun _ disk => disk.files = if sink.finished then files
      else update files (store.layout.recordPath .pending sink.manifest.id) none) fun _ _ => False := by
  refine .ite (fun finished => .pure fun disk kept => ?_) fun unfinished => ?_
  · rw [kept, if_pos finished]
  · rw [if_neg unfinished]
    exact removeRecord_spec sound .pending _

omit [DecidableEq δ] in
theorem writeChunk_spec (id : δ) (len : UInt32) (frame : Bytes) : Triple (Disk.At files)
    (store.writeChunk id len frame) (fun _ disk => (disk.At files ∧ store.present files id = true) ∨
      disk.files = update files (store.layout.chunkPath id) (some (chunkMagic ++ le32 len.toNat ++ frame)))
    fun error disk => disk.At files ∧ ∃ used limit needed, error = .full used limit needed := by
  refine takeTemp_spec.after fun _ => tried sound ?_
  apply tried sound
  refine .bind (Q := fun _ disk => disk.At files) (.ite (fun _ => ?_) fun _ => .pure fun _ kept => kept) fun _ => ?_
  · exact (attempt_sound sound _ _).orElse fun _ _ none => none.elim
  apply tried sound
  refine .seen fun seen same => ?_
  rw [same]
  refine .ite (fun there => .pure fun disk kept => .inl ⟨kept, there⟩) fun _ => ?_
  refine .guarded (fun disk kept _ => ⟨kept, _, _, _, rfl⟩) fun _ => ?_
  apply tried sound
  apply tried sound
  refine .bind (.modify ?_) fun _ =>
    .pure fun _ kept => .inr kept
  rintro disk rfl
  rfl

section
omit sound [DecidableEq π]

theorem verified_framed (some : len ≠ 0) (short : len ≤ maxChunkLen) (decoded : store.decode id len frame = .ok raw) :
    store.verified id (chunkMagic ++ le32 len.toNat ++ frame) = .ok raw := by
  obtain ⟨_, bounded, _⟩ := bind_ok.mp decoded
  have small : frame.length ≤ maxCompressedChunkLen :=
    (ensure_ok.mp bounded).trans (compressBound_le (UInt32.le_iff_toNat_le.mp short))
  have fits : (chunkMagic ++ le32 len.toNat ++ frame).length ≤ maxChunkFileLen + 1 := by
    rw [length_append]
    exact Nat.le_succ_of_le (Nat.add_le_add_left small chunkHeaderLen)
  unfold verified
  rw [take_of_length_le fits, parse_written some short small, ok_bind]
  exact decoded

theorem decode_ok (decoded : store.decode id len frame = .ok raw) :
    raw.length = len.toNat ∧ store.digest.hash raw = id := by
  obtain ⟨_, _, decoded⟩ := bind_ok.mp decoded
  obtain ⟨_, _, decoded⟩ := bind_ok.mp decoded
  obtain ⟨raw', _, decoded⟩ := bind_ok.mp decoded
  obtain ⟨_, length, decoded⟩ := bind_ok.mp decoded
  obtain ⟨_, hashed, decoded⟩ := bind_ok.mp decoded
  cases decoded
  exact ⟨ensure_ok.mp length, ensure_ok.mp hashed⟩

theorem decode_again (decoded : store.decode id len frame = .ok raw) :
    store.decode id len (store.zstd.compress raw) = .ok raw := by
  obtain ⟨length, hashed⟩ := decode_ok decoded
  unfold decode
  rw [← length, store.zstd.inverts raw]
  exact bind_ok.mpr ⟨(), ensure_ok.mpr (store.zstd.bounded raw),
    bind_ok.mpr ⟨(), ensure_ok.mpr ⟨store.zstd.standard raw, store.zstd.single raw⟩,
      bind_ok.mpr ⟨raw, rfl, bind_ok.mpr ⟨(), ensure_ok.mpr rfl, bind_ok.mpr ⟨(), ensure_ok.mpr hashed, rfl⟩⟩⟩⟩⟩

end

/-- The files after a chunk was received: as they were, or with a file that holds what the frame does. -/
inductive Received (store : ChunkStore δ π) (manifest : Manifest store.digest) (files : π → Option Bytes) (id : δ)
    (frame : Bytes) : (π → Option Bytes) → Prop where
  | kept : Received store manifest files id frame files
  | stored {entry : ChunkEntry δ} {bytes raw : Bytes} (listed : entry ∈ manifest.uniqueChunks) (named : entry.id = id)
    (decoded : store.decode id entry.len frame = .ok raw) (verified : store.verified id bytes = .ok raw) :
    Received store manifest files id frame (update files (store.layout.chunkPath id) (some bytes))

omit sound in
theorem Received.record (received : store.Received manifest files id frame files') {record : Record} {other : δ} :
    files' (store.layout.recordPath record other) = files (store.layout.recordPath record other) := by
  cases received with
  | kept => rfl
  | stored => exact update_of_ne (store.layout.record_apart _ _ _) _ _

inductive PutFailed (store : ChunkStore δ π) (sink : Sink store.digest) (id : δ) (frame : Bytes) :
    SinkError δ π → Prop where
  | finished (ending : sink.finished = true) : PutFailed store sink id frame .finished
  | unlisted (other : ∀ entry ∈ sink.manifest.uniqueChunks, entry.id ≠ id) :
    PutFailed store sink id frame (.notInManifest id)
  | rejected {entry : ChunkEntry δ} {reason : ChunkError} (listed : entry ∈ sink.manifest.uniqueChunks)
    (named : entry.id = id)
    (bad : store.decode id entry.len frame = .error reason) : PutFailed store sink id frame (.rejected id reason)
  | full (used limit needed : Nat) : PutFailed store sink id frame (.store (.full used limit needed))

theorem put_spec (recompress : Bool) (sink : Sink store.digest) (id : δ) (frame : Bytes) :
    Triple (Disk.At files) (store.put recompress sink id frame)
      (fun sink' disk => store.Received sink.manifest files id frame disk.files ∧
      (id ∈ sink.missing → store.present disk.files id = true) ∧
        sink' = { sink with missing := sink.missing.filter (· ≠ id) })
      fun error disk => disk.At files ∧ store.PutFailed sink id frame error := by
  refine .guarded (fun disk kept ending => ⟨kept, .finished (by simpa using ending)⟩) fun _ => ?_
  cases found : sink.manifest.uniqueChunks.find? fun entry => entry.id = id with
  | none =>
    refine .throw fun disk kept => ⟨kept, .unlisted fun entry among => ?_⟩
    simpa using find?_eq_none.mp found entry among
  | some entry =>
    have listed := mem_of_find?_eq_some found
    have named : entry.id = id := by simpa using find?_some found
    refine .ite (fun here => .pure fun disk kept => ⟨kept ▸ .kept, fun among => absurd among here, ?_⟩) fun here => ?_
    · have same : sink.missing.filter (· ≠ id) = sink.missing := by
        refine filter_eq_self.mpr fun other among => decide_eq_true ?_
        rintro rfl
        exact here among
      rw [same]
    cases decoded : store.decode id entry.len frame with
    | error reason => exact .throw fun disk kept => ⟨kept, .rejected listed named decoded⟩
    | ok raw =>
      have chosen : store.decode id entry.len (if recompress then store.zstd.compress raw else frame) = .ok raw := by
        cases recompress with
        | true => exact decode_again decoded
        | false => exact decoded
      have member := mem_uniqueAfter listed
      have verified := verified_framed (sink.manifest.tiles.nonempty entry member)
        (UInt32.le_trans (sink.manifest.tiles.short entry member) sink.manifest.params.ceiling) chosen
      refine .bind ((stored_triple (writeChunk_spec sound id entry.len _)).orElse ?_) fun _ => .pure ?_
      · rintro _ disk ⟨_, rfl, kept, used, limit, needed, rfl⟩
        exact ⟨kept, .full used limit needed⟩
      rintro disk (⟨kept, there⟩ | kept)
      · rw [kept]
        exact ⟨.kept, fun _ => there, rfl⟩
      refine ⟨kept ▸ .stored listed named decoded verified, fun _ => ?_, rfl⟩
      unfold present
      rw [kept, update_self]
      exact (verified_ok verified).2

inductive Concluded (store : ChunkStore δ π) (files : π → Option Bytes) (completion : Completion π)
    (sink : Sink store.digest) :
    Sink store.digest × Except (SinkError δ π) Unit → (π → Option Bytes) → Prop where
  | ending (finished : sink.finished = true) : Concluded store files completion sink (sink, .error .finished) files
  | lacking (some : sink.missing ≠ []) :
    Concluded store files completion sink (sink, .error (.incomplete sink.missing.length)) files
  | completed {files' : π → Option Bytes} (all : sink.missing = [])
    (completed : store.Completed files sink.manifest completion files') :
    Concluded store files completion sink ({ sink with finished := true }, .ok ()) files'
  | inconsistent {files' : π → Option Bytes} {reason : StoreError δ π}
    (failed : store.CompleteFailed files sink.manifest completion reason files')
    (ofFile : reason = .fileHashMismatch ∨ ∃ id expected actual, reason = .lengthMismatch id expected actual) :
    Concluded store files completion sink ({ sink with finished := true }, .error (.inconsistent reason))
      (update files' (store.layout.recordPath .pending sink.manifest.id) none)
  | again {files' : π → Option Bytes} {reason : StoreError δ π}
    (failed : store.CompleteFailed files sink.manifest completion reason files') :
    Concluded store files completion sink ({ sink with missing := store.lacked files' sink.manifest },
      .error (.store reason)) files'

theorem complete_spec (sane : store.layout.Sane) {completion : Completion π} (foreign : completion.Foreign store.layout)
    (sink : Sink store.digest) : Triple (Disk.At files) (store.complete completion sink)
      (fun ended disk => store.Concluded files completion sink ended disk.files) fun _ _ => False := by
  refine .ite (fun ending => .pure ?_) fun _ => .ite (fun some => .pure ?_) fun all => ?_
  · rintro disk rfl
    exact .ending ending
  · rintro disk rfl
    exact .lacking some
  refine (outcome_triple (verification_spec sound sane foreign sink.manifest)).bind fun ended => ?_
  cases ended with
  | ok _ => exact .pure fun disk completed => .completed (Classical.not_not.mp all) completed
  | error reason =>
    refine .ite (fun ofFile => ?_) fun _ => ?_
    · refine .caught (F := fun _ _ => False) ?_ fun _ _ none => none.elim
      intro disk failed
      refine ((removeRecord_spec sound .pending sink.manifest.id).bind fun _ => .pure fun disk' removed => ?_) disk rfl
      rw [removed]
      refine .inconsistent failed ?_
      cases reason with
      | fileHashMismatch => exact .inl rfl
      | lengthMismatch id expected actual => exact .inr ⟨id, expected, actual, rfl⟩
      | _ => cases ofFile
    · refine .caught (F := fun _ _ => False) ?_ fun _ _ none => none.elim
      intro disk failed
      refine ((refresh_spec sound sink).bind fun sink' => .pure ?_) disk rfl
      rintro disk' ⟨kept, rfl⟩
      rw [kept]
      exact .again failed

end Reading

end ChunkStore

end Tpf3Mp.Snapshot
