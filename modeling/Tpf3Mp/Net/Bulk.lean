import Tpf3Mp.Snapshot.Sink

/-!
Fetching a snapshot over a bulk stream (`bulk::fetch`). The fetch is a machine that stops wherever the
source awaits the stream or the store. What the stream answers is free, so the peer may be hostile.
-/

namespace Tpf3Mp.Net
open Codec Run Snapshot Proto Function

def fetchWindow : Nat := 16 * 2 ^ 20

def repairRounds : Nat := 3

def maxChunksPerRequest : Nat := 256

inductive BulkRequest (δ : Type) where
  | manifest
  | chunks (ids : List δ)

inductive BulkResponse (δ : Type) where
  | manifest (bytes : Bytes)
  | chunk (id : δ) (frame : Bytes)
  | unavailable

inductive NetError where
  | read
  | write
  | frame (error : FrameError)

/-- Whether the peer went away, as opposed to sending something invalid. -/
def NetError.isDisconnect : NetError → Bool
  | .read | .write => true
  | .frame _ => false

inductive BulkError (δ π : Type) where
  | net (error : NetError)
  | violation (text : String)
  | idle
  | unavailable
  | manifest (error : ManifestError δ)
  | wrongManifest
  | sink (error : SinkError δ π)
  | store (error : StoreError δ π)

def BulkError.isViolation {δ π : Type} : BulkError δ π → Bool
  | .violation _ | .manifest _ | .wrongManifest => true
  | .net error => !error.isDisconnect
  | .sink (.rejected _ _) | .sink (.notInManifest _) => true
  | _ => false

/-- What keeps the stream from answering: it fails, or it is silent for too long. -/
inductive Trouble where
  | net (error : NetError)
  | idle

def Trouble.error {δ π : Type} : Trouble → BulkError δ π
  | .net error => .net error
  | .idle => .idle

/-- What a fetch is given. `claimed` if another sink of the process holds the snapshot when it is
opened, `recompress` if the store compresses received chunks again. -/
structure Job (δ π : Type) where
  store : ChunkStore δ π
  recompress : Bool
  claimed : Bool
  expected : δ
  completion : Completion π

variable {δ π : Type} [DecidableEq δ]

def wantedBy {digest : Digest δ} (sink : Sink digest) : List (ChunkEntry δ) :=
  sink.manifest.uniqueChunks.filter fun entry => entry.id ∈ sink.missing

/-- The state of `fetch_into` and `fetch_missing`. -/
structure Transfer (digest : Digest δ) where
  /-- As the peer sent it. -/
  manifest : Manifest digest
  round : Nat
  sink : Sink digest
  wanted : List (ChunkEntry δ)
  /-- Requested and not yet answered, in the order the answers come. -/
  outstanding : List (δ × Nat)
  outstandingBytes : Nat

inductive Phase (δ π : Type) (digest : Digest δ) where
  /-- Asking for the manifest. -/
  | asking
  | expecting
  /-- At the head of the loop of `fetch_missing`. -/
  | filling (transfer : Transfer digest)
  | sending (ids : List δ) (transfer : Transfer digest)
  | receiving (due : δ) (transfer : Transfer digest)
  | completing (transfer : Transfer digest)
  /-- Giving a sink up. -/
  | failing (sink : Sink digest) (error : BulkError δ π)
  | done (result : Except (BulkError δ π) (Manifest digest))

def Phase.fetched {digest : Digest δ} : Phase δ π digest → Option (Manifest digest)
  | .done (.ok manifest) => some manifest
  | _ => none

def Phase.transfer {digest : Digest δ} : Phase δ π digest → Option (Transfer digest)
  | .filling transfer | .sending _ transfer | .receiving _ transfer | .completing transfer => some transfer
  | _ => none

inductive Event (δ : Type) where
  | sent (result : Except Trouble Unit)
  | received (answer : Except Trouble (BulkResponse δ))
  /-- The store, or nothing at all. -/
  | ready

/-- Takes chunks for one request, at most `room`, while the window is open. -/
def batch : Nat → List (ChunkEntry δ) → Nat → List (ChunkEntry δ) × List (ChunkEntry δ) × Nat
  | 0, wanted, bytes => ([], wanted, bytes)
  | _ + 1, [], bytes => ([], [], bytes)
  | room + 1, entry :: wanted, bytes =>
    if bytes < fetchWindow then
      let (taken, rest, bytes) := batch room wanted (bytes + entry.len.toNat)
      (entry :: taken, rest, bytes)
    else ([], entry :: wanted, bytes)

namespace Job

variable (job : Job δ π)

def openSink [DecidableEq π] (manifest : Manifest job.store.digest) : SinkOp δ π (Sink job.store.digest) := do
  if ← job.store.isPending manifest.id then
    tryCatch (job.store.resumeSink job.claimed manifest.id) fun error => match error with
      -- The saved state is damaged: start over from the manifest.
      | .damagedRecord _ _ => job.store.openSink job.claimed manifest
      | error => throw error
  else job.store.openSink job.claimed manifest

def start [DecidableEq π] (answer : Except Trouble (BulkResponse δ)) (disk : Disk π) :
    Phase δ π job.store.digest × Disk π :=
  match answer with
  | .error trouble => (.done (.error trouble.error), disk)
  | .ok .unavailable => (.done (.error .unavailable), disk)
  | .ok (.chunk _ _) => (.done (.error (.violation "a chunk before the manifest")), disk)
  | .ok (.manifest bytes) =>
    if bytes.length > maxManifestLen then (.done (.error (.violation "an oversized manifest")), disk)
    else match Manifest.fromBytes job.store.digest bytes with
      | .error error => (.done (.error (.manifest error)), disk)
      | .ok manifest =>
        if manifest.id ≠ job.expected then (.done (.error .wrongManifest), disk)
        else match (job.openSink manifest).run disk with
          | (.ok sink, disk) => (.filling ⟨manifest, 1, sink, wantedBy sink, [], 0⟩, disk)
          | (.error error, disk) => (.done (.error (.sink error)), disk)

/-- One pass of the loop of `fetch_missing` up to where it waits. -/
def fill (transfer : Transfer job.store.digest) : Phase δ π job.store.digest :=
  if transfer.outstandingBytes < fetchWindow ∧ transfer.wanted ≠ [] then
    let (taken, wanted, bytes) := batch maxChunksPerRequest transfer.wanted transfer.outstandingBytes
    .sending (taken.map ChunkEntry.id) { transfer with
      wanted
      outstanding := transfer.outstanding ++ taken.map fun entry => (entry.id, entry.len.toNat)
      outstandingBytes := bytes }
  else match transfer.outstanding with
    | [] => .completing transfer
    | (due, len) :: outstanding =>
      .receiving due { transfer with outstanding, outstandingBytes := transfer.outstandingBytes - len }

def receive [DecidableEq π] (due : δ) (transfer : Transfer job.store.digest) (answer : Except Trouble (BulkResponse δ))
    (disk : Disk π) : Phase δ π job.store.digest × Disk π :=
  match answer with
  | .error trouble => (.failing transfer.sink trouble.error, disk)
  | .ok .unavailable => (.failing transfer.sink .unavailable, disk)
  | .ok (.manifest _) => (.failing transfer.sink (.violation "a manifest in place of a chunk"), disk)
  | .ok (.chunk id frame) =>
    if id ≠ due then (.failing transfer.sink (.violation "a chunk out of order"), disk)
    else match (job.store.put job.recompress transfer.sink id frame).run disk with
      | (.ok sink, disk) => (.filling { transfer with sink }, disk)
      | (.error error, disk) => (.failing transfer.sink (.sink error), disk)

/-- What follows from how a round ended: damage that was found is repaired in another. -/
def verdict (transfer : Transfer job.store.digest) :
    Sink job.store.digest × Except (SinkError δ π) Unit → Phase δ π job.store.digest
  | (_, .ok ()) => .done (.ok transfer.manifest)
  | (sink, .error (.store (.corrupt id reason))) =>
    if transfer.round < repairRounds then .filling ⟨transfer.manifest, transfer.round + 1, sink, wantedBy sink, [], 0⟩
    else .failing sink (.sink (.store (.corrupt id reason)))
  | (sink, .error error) => .failing sink (.sink error)

def conclude [DecidableEq π] (transfer : Transfer job.store.digest) (disk : Disk π) :
    Phase δ π job.store.digest × Disk π :=
  match (job.store.complete job.completion transfer.sink).run disk with
  | (.ok ended, disk) => (job.verdict transfer ended, disk)
  | (.error error, disk) => (.failing transfer.sink (.sink error), disk)

def step [DecidableEq π] (event : Event δ) : Phase δ π job.store.digest × Disk π → Phase δ π job.store.digest × Disk π
  | (.asking, disk) => match event with
    | .sent (.ok ()) => (.expecting, disk)
    | .sent (.error trouble) => (.done (.error trouble.error), disk)
    | _ => (.asking, disk)
  | (.expecting, disk) => match event with
    | .received answer => job.start answer disk
    | _ => (.expecting, disk)
  | (.filling transfer, disk) => match event with
    | .ready => (job.fill transfer, disk)
    | _ => (.filling transfer, disk)
  | (.sending ids transfer, disk) => match event with
    | .sent (.ok ()) => (.filling transfer, disk)
    | .sent (.error trouble) => (.failing transfer.sink trouble.error, disk)
    | _ => (.sending ids transfer, disk)
  | (.receiving due transfer, disk) => match event with
    | .received answer => job.receive due transfer answer disk
    | _ => (.receiving due transfer, disk)
  | (.completing transfer, disk) => match event with
    | .ready => job.conclude transfer disk
    | _ => (.completing transfer, disk)
  | (.failing sink error, disk) => match event with
    -- Leave nothing pinned. Whether that worked does not matter.
    | .ready => (.done (.error error), ((job.store.abandon sink).run disk).2)
    | _ => (.failing sink error, disk)
  | (.done result, disk) => (.done result, disk)

def run [DecidableEq π] (events : List (Event δ)) (state : Phase δ π job.store.digest × Disk π) :
    Phase δ π job.store.digest × Disk π :=
  events.foldl (fun state event => job.step event state) state

variable {job} {files files' files'' : π → Option Bytes}

variable (job) in
/-- Chunk files are as they were, or gone, or hold the chunk that their name states. -/
def Sincere (files files' : π → Option Bytes) : Prop :=
  ∀ id, files' (job.store.layout.chunkPath id) = files (job.store.layout.chunkPath id) ∨
    files' (job.store.layout.chunkPath id) = none ∨ ∃ raw, job.store.Holds files' id raw

variable (job) in
/-- Nothing is retained that was not, and nothing is at the destination that was not. -/
structure Kept (files files' : π → Option Bytes) : Prop where
  roots : ∀ id, files' (job.store.layout.recordPath .root id) = files (job.store.layout.recordPath .root id)
  dest : ∀ dest, job.completion = .file dest → files' dest = files dest
  chunks : job.Sincere files files'

namespace Kept

theorem refl : job.Kept files files := ⟨fun _ => rfl, fun _ _ => rfl, fun _ => .inl rfl⟩

theorem trans (first : job.Kept files files') (second : job.Kept files' files'') : job.Kept files files'' := by
  refine ⟨fun id => (second.roots id).trans (first.roots id), fun dest here => (second.dest dest here).trans
    (first.dest dest here), ?_⟩
  intro id
  rcases second.chunks id with same | changed
  · rcases first.chunks id with before | absent | ⟨raw, holds⟩
    · exact .inl (same.trans before)
    · exact .inr (.inl (same.trans absent))
    · exact .inr (.inr ⟨raw, holds.of_eq same⟩)
  · exact .inr changed

variable (sane : job.store.layout.Sane) (foreign : job.completion.Foreign job.store.layout)
include foreign

include sane in
theorem pending [DecidableEq π] (id : δ) (content : Option Bytes) :
    job.Kept files (update files (job.store.layout.recordPath .pending id) content) := by
  refine ⟨fun other => update_of_ne ?_ _ _, fun dest here => update_of_ne ?_ _ _, fun other => .inl ?_⟩
  · intro same
    cases (sane.record_inj same).1
  · rw [here] at foreign
    exact foreign.2 .pending id
  · exact update_of_ne (job.store.layout.record_apart _ _ _).symm _ _

theorem received [DecidableEq π] {manifest : Manifest job.store.digest} {id : δ} {frame : Bytes}
    (received : job.store.Received manifest files id frame files') : job.Kept files files' := by
  cases received with
  | kept => exact .refl
  | @stored entry bytes raw _ _ _ verified =>
    refine ⟨fun other => update_of_ne (job.store.layout.record_apart _ _ _) _ _,
      fun dest here => update_of_ne ?_ _ _, fun other => ?_⟩
    · rw [here] at foreign
      exact foreign.1 id
    by_cases here : other = id
    · subst here
      exact .inr (.inr ⟨raw, bytes, update_self _ _ _, verified⟩)
    · exact .inl (update_of_ne (fun same => here (job.store.layout.chunk_inj same)) _ _)

omit foreign in
theorem failed {manifest : Manifest job.store.digest} {error : StoreError δ π}
    (failed : job.store.CompleteFailed files manifest job.completion error files') : job.Kept files files' := by
  refine ⟨fun id => failed.untouched.records .root id, failed.untouched.dest, fun id => ?_⟩
  rcases failed.cause with ⟨_, same⟩ | ⟨_, cleaned⟩
  · exact .inl (same id)
  · exact (cleaned.other id).imp_right fun gone => .inl gone.1

end Kept

variable (job) in
/-- A transfer was opened: all that is missing is known, and the transfer is on record. -/
structure Opened [DecidableEq π] (files : π → Option Bytes) (manifest : Manifest job.store.digest)
    (sink : Sink job.store.digest) (files' : π → Option Bytes) : Prop where
  free : job.claimed = false
  sink : sink = ⟨manifest, job.store.lacked files manifest, false⟩
  recorded : files' (job.store.layout.recordPath .pending manifest.id) = some manifest.toBytes
  files : files' = files ∨
    files' = update files (job.store.layout.recordPath .pending manifest.id) (some manifest.toBytes)

section Opening

variable (sound : job.store.medium.Sound)
include sound

theorem openSink_spec [DecidableEq π] {manifest : Manifest job.store.digest}
    (unique : ∀ bytes other, files (job.store.layout.recordPath .pending manifest.id) = some bytes →
      Manifest.fromBytes job.store.digest bytes = .ok other → other.id = manifest.id → other = manifest) :
    Triple (fun disk => disk.files = files) (job.openSink manifest)
      (fun sink disk => job.Opened files manifest sink disk.files) fun _ disk => disk.files = files ∧
      job.claimed = true := by
  have opened : Triple (fun disk => disk.files = files) (job.store.openSink job.claimed manifest)
      (fun sink disk => job.Opened files manifest sink disk.files) fun _ disk => disk.files = files ∧
        job.claimed = true := by
    refine (ChunkStore.openSink_spec sound job.claimed manifest).weaken (fun _ kept => kept) ?_ fun _ _ failed => failed
    rintro sink disk ⟨free, kept, rfl⟩
    exact ⟨free, rfl, by rw [kept, update_self], .inr kept⟩
  refine ((ChunkStore.isPending_spec sound manifest.id).orElse fun _ _ none => none.elim).bind fun found => ?_
  refine .and_intro fun same => .ite (fun here => ?_) fun _ => opened
  refine .caught ((ChunkStore.resumeSink_spec sound job.claimed manifest.id).weaken (fun _ kept => kept) ?_
    fun _ _ failed => failed) fun error => ?_
  · rintro sink disk ⟨free, kept, named, made, bytes, saved, read⟩
    have this := unique bytes sink.manifest saved read named
    have canonical := (Wire.decode_sound (Manifest.fromBytes_wire read)).2
    rw [this] at made canonical
    refine ⟨free, made, ?_, .inl kept⟩
    rw [kept, saved, ← canonical]
    rfl
  · split
    · exact opened.given fun _ failed => failed.1
    rename_i other
    refine .throw fun disk failed => ⟨failed.1, ?_⟩
    rcases failed.2 with taken | ⟨_, absent⟩ | ⟨damage, rfl⟩
    · exact taken
    · rw [same, absent] at here
      cases here
    · exact absurd rfl (other _ _)

end Opening

variable (job) in
/-- The snapshot that was asked for is in the store, whole, and retained, and its file is at the destination. -/
structure Delivered (manifest : Manifest job.store.digest) (files : π → Option Bytes) : Prop where
  named : manifest.id = job.expected
  retained : files (job.store.layout.recordPath .root manifest.id) = some manifest.toBytes
  whole : ∃ raws : List Bytes,
    List.Forall₂ (fun entry raw => job.store.Holds files entry.id raw ∧ job.store.digest.hash raw = entry.id)
      manifest.chunks raws ∧
    raws.flatten.length = manifest.totalSize.toNat ∧ job.store.digest.hash raws.flatten = manifest.fileHash ∧
    ∀ dest, job.completion = .file dest → files dest = some raws.flatten

variable (job) in
structure Going (transfer : Transfer job.store.digest) (files : π → Option Bytes) : Prop where
  named : transfer.manifest.id = job.expected
  same : transfer.sink.manifest = transfer.manifest
  recorded : files (job.store.layout.recordPath .pending transfer.manifest.id) = some transfer.manifest.toBytes

variable (job) in
/-- What holds of a fetch that found the store with `before`. -/
def Safe (before : π → Option Bytes) : Phase δ π job.store.digest → (π → Option Bytes) → Prop
  | .asking, files | .expecting, files | .failing _ _, files | .done (.error _), files => job.Kept before files
  | .filling transfer, files | .sending _ transfer, files | .receiving _ transfer,
      files | .completing transfer, files =>
    job.Kept before files ∧ job.Going transfer files
  | .done (.ok manifest), files => job.Sincere before files ∧ job.Delivered manifest files

variable {before : π → Option Bytes}

omit [DecidableEq δ] in
theorem length_flatten {chunks : List (ChunkEntry δ)} {raws : List Bytes}
    (lengths : List.Forall₂ (fun entry raw => raw.length = entry.len.toNat) chunks raws) :
    raws.flatten.length = covered chunks := by
  induction lengths with
  | nil => rfl
  | cons here _ ih => rw [List.flatten_cons, List.length_append, here, ih, covered_cons]

theorem read_unique {digest : Digest δ} (collisionFree : Injective digest.hash) {bytes bytes' : Bytes}
    {manifest manifest' : Manifest digest} (read : Manifest.fromBytes digest bytes = .ok manifest)
    (read' : Manifest.fromBytes digest bytes' = .ok manifest') (same : manifest'.id = manifest.id) :
    manifest' = manifest := by
  have canonical := (Wire.decode_sound (Manifest.fromBytes_wire read)).2
  have canonical' := (Wire.decode_sound (Manifest.fromBytes_wire read')).2
  rw [manifest.named, manifest'.named, canonical, canonical'] at same
  rw [collisionFree same, read] at read'
  exact (Except.ok.inj read').symm

theorem Delivered.of_completed {manifest : Manifest job.store.digest} (named : manifest.id = job.expected)
    (recorded : files (job.store.layout.recordPath .pending manifest.id) = some manifest.toBytes)
    (completed : job.store.Completed files manifest job.completion files') : job.Delivered manifest files' := by
  obtain ⟨chunks, ⟨source, ⟨raws, held, rfl, hashed⟩, published⟩, retained⟩ := completed
  refine ⟨named, by rw [retained, recorded]; rfl, raws, held.imp ?_, ?_, hashed, published⟩
  · rintro entry raw ⟨holds, _⟩
    obtain ⟨bytes, here, verified⟩ := holds
    exact ⟨⟨bytes, (chunks entry.id).trans here, verified⟩, (ChunkStore.verified_ok verified).1⟩
  · exact (length_flatten (held.imp fun _ _ held => held.2)).trans manifest.tiles.covers

theorem Kept.sincere_of_completed {manifest : Manifest job.store.digest} (kept : job.Kept before files)
    (completed : job.store.Completed files manifest job.completion files') : job.Sincere before files' := by
  intro id
  have same := completed.chunks id
  rcases kept.chunks id with before | absent | ⟨raw, holds⟩
  · exact .inl (same.trans before)
  · exact .inr (.inl (same.trans absent))
  · exact .inr (.inr ⟨raw, holds.of_eq same⟩)

section Steps

variable (sound : job.store.medium.Sound) (sane : job.store.layout.Sane)
  (foreign : job.completion.Foreign job.store.layout)
include sound sane foreign

variable {disk : Disk π} {transfer : Transfer job.store.digest}

theorem start_safe [DecidableEq π] (collisionFree : Injective job.store.digest.hash)
    (answer : Except Trouble (BulkResponse δ)) (kept : job.Kept before disk.files) :
    job.Safe before (job.start answer disk).1 (job.start answer disk).2.files := by
  unfold start
  split
  · exact kept
  · exact kept
  · exact kept
  split
  · exact kept
  split
  · exact kept
  rename_i manifest read
  split
  · exact kept
  rename_i named
  have after := openSink_spec sound (fun _ _ _ read' same => read_unique collisionFree read read' same) disk rfl
  cases ran : (job.openSink manifest).run disk with
  | mk result disk' =>
    rw [ran] at after
    cases result with
    | error error =>
      change job.Kept before disk'.files
      rw [after.1]
      exact kept
    | ok sink =>
      obtain ⟨free, rfl, recorded, written⟩ := after
      refine ⟨kept.trans ?_, Classical.not_not.mp named, rfl, recorded⟩
      rcases written with same | written
      · rw [same]
        exact .refl
      · rw [written]
        exact .pending sane foreign _ _

omit sound sane foreign in
theorem fill_safe (kept : job.Kept before files) (going : job.Going transfer files) :
    job.Safe before (job.fill transfer) files := by
  unfold fill
  split
  · exact ⟨kept, going.named, going.same, going.recorded⟩
  · split
    · exact ⟨kept, going⟩
    · exact ⟨kept, going.named, going.same, going.recorded⟩

omit sane in
theorem receive_safe [DecidableEq π] {due : δ} (answer : Except Trouble (BulkResponse δ))
    (kept : job.Kept before disk.files) (going : job.Going transfer disk.files) :
    job.Safe before (job.receive due transfer answer disk).1 (job.receive due transfer answer disk).2.files := by
  unfold receive
  split
  · exact kept
  · exact kept
  · exact kept
  rename_i id frame
  split
  · exact kept
  have after := ChunkStore.put_spec sound job.recompress transfer.sink id frame disk rfl
  cases ran : (job.store.put job.recompress transfer.sink id frame).run disk with
  | mk result disk' =>
    rw [ran] at after
    cases result with
    | error error =>
      change job.Kept before disk'.files
      rw [after.1]
      exact kept
    | ok sink =>
      obtain ⟨received, _, rfl⟩ := after
      refine ⟨kept.trans (.received foreign received), going.named, going.same, ?_⟩
      exact received.record.trans going.recorded

theorem conclude_safe [DecidableEq π] (kept : job.Kept before disk.files) (going : job.Going transfer disk.files) :
    job.Safe before (job.conclude transfer disk).1 (job.conclude transfer disk).2.files := by
  have after := ChunkStore.complete_spec sound sane foreign transfer.sink disk rfl
  unfold conclude
  cases ran : (job.store.complete job.completion transfer.sink).run disk with
  | mk result disk' =>
    rw [ran] at after
    cases result with
    | error error => exact after.elim
    | ok ended =>
      change job.store.Concluded disk.files job.completion transfer.sink ended disk'.files at after
      change job.Safe before (job.verdict transfer ended) disk'.files
      generalize disk'.files = files' at after ⊢
      cases after with
      | ending | lacking => exact kept
      | completed _ completed =>
        rw [going.same] at completed
        exact ⟨kept.sincere_of_completed completed, .of_completed going.named going.recorded completed⟩
      | inconsistent failed _ => exact kept.trans ((Kept.failed failed).trans (.pending sane foreign _ _))
      | @again _ reason failed =>
        have kept' := kept.trans (.failed failed)
        cases reason with
        | corrupt id reason =>
          dsimp only [verdict]
          split
          · refine ⟨kept', going.named, going.same, ?_⟩
            rw [failed.untouched.records]
            exact going.recorded
          · exact kept'
        | _ => exact kept'

theorem step_safe [DecidableEq π] (collisionFree : Injective job.store.digest.hash) (event : Event δ)
    {state : Phase δ π job.store.digest × Disk π} (safe : job.Safe before state.1 state.2.files) :
    job.Safe before (job.step event state).1 (job.step event state).2.files := by
  obtain ⟨phase, disk⟩ := state
  cases phase with
  | asking =>
    cases event with
    | sent result => cases result <;> exact safe
    | received answer => exact safe
    | ready => exact safe
  | expecting =>
    cases event with
    | sent result => exact safe
    | received answer => exact start_safe sound sane foreign collisionFree answer safe
    | ready => exact safe
  | filling transfer =>
    cases event with
    | sent result => exact safe
    | received answer => exact safe
    | ready => exact fill_safe safe.1 safe.2
  | sending ids transfer =>
    cases event with
    | sent result =>
      cases result with
      | ok _ => exact safe
      | error trouble => exact safe.1
    | received answer => exact safe
    | ready => exact safe
  | receiving due transfer =>
    cases event with
    | sent result => exact safe
    | received answer => exact receive_safe sound foreign answer safe.1 safe.2
    | ready => exact safe
  | completing transfer =>
    cases event with
    | sent result => exact safe
    | received answer => exact safe
    | ready => exact conclude_safe sound sane foreign safe.1 safe.2
  | failing sink error =>
    cases event with
    | sent result => exact safe
    | received answer => exact safe
    | ready =>
      obtain ⟨_, disk', ran, left⟩ := (ChunkStore.abandon_spec sound sink).returns rfl
      change job.Kept before ((job.store.abandon sink).run disk).2.files
      rw [ran]
      change job.Kept before disk'.files
      rw [left]
      split
      · exact safe
      · exact Kept.trans safe (.pending sane foreign _ _)
  | done result => exact safe

theorem run_safe [DecidableEq π] (collisionFree : Injective job.store.digest.hash) (events : List (Event δ))
    (state : Phase δ π job.store.digest × Disk π) (safe : job.Safe before state.1 state.2.files) :
    job.Safe before (job.run events state).1 (job.run events state).2.files := by
  induction events generalizing state with
  | nil => exact safe
  | cons event events ih => exact ih _ (step_safe sound sane foreign collisionFree event safe)

end Steps

end Job

/-- Whatever the peer sends: a fetch that succeeds has put the snapshot that was asked for into the
store, retained it and published its file. Until it does, and if it fails, nothing is retained and
nothing is at the destination that was not. Every chunk file that it leaves is as it was or holds what its name
states. -/
theorem fetch_safe [DecidableEq π] (job : Job δ π) (sound : job.store.medium.Sound)
    (collisionFree : Injective job.store.digest.hash) (sane : job.store.layout.Sane)
    (foreign : job.completion.Foreign job.store.layout) (disk : Disk π) (events : List (Event δ)) :
    job.Sincere disk.files (job.run events (.asking, disk)).2.files ∧
      match (job.run events (.asking, disk)).1 with
      | .done (.ok manifest) => job.Delivered manifest (job.run events (.asking, disk)).2.files
      | _ => job.Kept disk.files (job.run events (.asking, disk)).2.files := by
  have start : job.Safe disk.files .asking disk.files := .refl
  have safe := Job.run_safe sound sane foreign collisionFree events (.asking, disk) start
  generalize job.run events (.asking, disk) = after at safe ⊢
  obtain ⟨phase, disk'⟩ := after
  cases phase with
  | done result =>
    cases result with
    | ok manifest => exact safe
    | error error => exact ⟨safe.chunks, safe⟩
  | asking | expecting | failing _ _ => exact ⟨safe.chunks, safe⟩
  | filling _ | sending _ _ | receiving _ _ | completing _ => exact ⟨safe.1.chunks, safe.1⟩

omit [DecidableEq δ] in
theorem Phase.fetched_eq {digest : Digest δ} {phase : Phase δ π digest} {manifest : Manifest digest}
    (fetched : phase.fetched = some manifest) : phase = .done (.ok manifest) := by
  unfold Phase.fetched at fetched
  split at fetched
  · cases fetched
    rfl
  · cases fetched

def plainJob (dest : Path) : Job Bytes Path where
  store := plainStore
  recompress := false
  claimed := false
  expected := plainManifest.id
  completion := .file dest

def plainEvents : List (Event Bytes) :=
  [.sent (.ok ()), .received (.ok (.manifest plainManifest.toBytes)), .ready, .sent (.ok ()), .ready,
    .received (.ok (.chunk [7] (plainZstd.compress [7]))), .ready, .ready]

theorem worldPath_foreign {ε : Type} {bytes : ε → Bytes} (distinct : Injective bytes) :
    Completion.Foreign (storeLayout bytes distinct [] 1) (.file worldPath) :=
  ⟨(fun _ same => nomatch (List.cons.inj same).2), (fun _ _ same => nomatch (List.cons.inj same).2)⟩

theorem fetch_safe_plain : ∃ manifest,
    ((plainJob worldPath).run plainEvents (.asking, emptyDisk)).1.fetched = some manifest ∧
    (plainJob worldPath).Delivered manifest ((plainJob worldPath).run plainEvents (.asking, emptyDisk)).2.files := by
  have safe := fetch_safe (plainJob worldPath) Medium.still_sound (fun _ _ same => same)
    (storeLayout_sane injective_id _ _) (worldPath_foreign injective_id) emptyDisk plainEvents
  have ended : ((plainJob worldPath).run plainEvents (.asking, emptyDisk)).1.fetched.isSome = true := by decide +kernel
  obtain ⟨manifest, fetched⟩ := Option.isSome_iff_exists.mp ended
  rw [Phase.fetched_eq fetched] at safe
  exact ⟨manifest, fetched, safe.2⟩

theorem byte_not_held {files : Path → Option Bytes} (here : files chunkPath = some [7]) :
    ¬ ∃ raw, plainStore.Holds files [7] raw := by
  rintro ⟨raw, bytes, there, verified⟩
  cases there.symm.trans here
  cases verified

theorem fetch_overwrites_chunk :
    (((plainJob chunkPath).run plainEvents (.asking, emptyDisk)).1.fetched.map fun manifest => manifest.chunks) =
      some [⟨[7], 0, 1⟩] ∧
    ¬ ∃ raw, plainStore.Holds ((plainJob chunkPath).run plainEvents (.asking, emptyDisk)).2.files [7] raw := by
  constructor
  · decide +kernel
  · apply byte_not_held
    decide +kernel

end Tpf3Mp.Net
