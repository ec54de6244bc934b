import Tpf3Mp.Snapshot.Reading

/-!
Ingesting a stream and assembling it again (`ChunkStore::ingest`): a store whose chunk files are
intact holds every piece of the stream afterwards, and gives the stream back.
-/

namespace Tpf3Mp.Snapshot
open Codec Run List Function

namespace ChunkStore

variable {δ π : Type} {store : ChunkStore δ π} {files : π → Option Bytes}

variable {data : Bytes} {id : δ} {raw : Bytes} {pieces : List Bytes} {manifest : Manifest store.digest}
  {source : Bytes}

theorem compressBound_le {len : Nat} (small : len ≤ maxChunkLen.toNat) : compressBound len ≤ maxCompressedChunkLen := by
  have most : maxChunkLen.toNat = 2 ^ 22 := rfl
  have bound : maxCompressedChunkLen = 2 ^ 22 + 2 ^ 14 := by decide
  unfold compressBound
  split
  · omega
  · omega

def Sized (data : Bytes) : Prop := 0 < data.length ∧ data.length ≤ maxChunkLen.toNat

theorem chunkLen_toNat (sized : Sized data) : (chunkLen data).toNat = data.length := by
  have most : maxChunkLen.toNat = 2 ^ 22 := rfl
  have small := sized.2
  unfold chunkLen
  rw [if_pos (by omega), UInt32.toNat_ofNat_of_lt' (by simp only [UInt32.size]; omega)]

theorem sized_of_chunkLen (nonempty : chunkLen data ≠ 0) (short : chunkLen data ≤ maxChunkLen) : Sized data := by
  unfold chunkLen at nonempty short
  split at short
  · next small =>
    have value : (UInt32.ofNat data.length).toNat = data.length :=
      UInt32.toNat_ofNat_of_lt' (by simp only [UInt32.size]; omega)
    rw [UInt32.le_iff_toNat_le, value] at short
    refine ⟨Nat.pos_of_ne_zero fun empty => nonempty ?_, short⟩
    rw [empty]
    rfl
  · exact absurd short (by decide)

theorem parse_written {len : UInt32} {frame : Bytes} (some : len ≠ 0) (short : len ≤ maxChunkLen)
    (small : frame.length ≤ maxCompressedChunkLen) :
    parseChunkFile (chunkMagic ++ le32 len.toNat ++ frame) = .ok (len, frame) := by
  have fits : ¬ (chunkMagic ++ le32 len.toNat ++ frame).length > maxChunkFileLen := by
    rw [length_append, not_lt]
    exact Nat.add_le_add_left small chunkHeaderLen
  have value : UInt32.ofNat (ofLe32 (UInt8.ofNat len.toNat) (UInt8.ofNat (len.toNat / 256))
      (UInt8.ofNat (len.toNat / 256 ^ 2)) (UInt8.ofNat (len.toNat / 256 ^ 3))) = len := by
    rw [ofLe32_le32 len.toNat_lt, UInt32.ofNat_toNat]
  have possible : ¬ (len = 0 ∨ len > maxChunkLen) := by
    rintro (zero | long)
    · exact some zero
    · exact absurd short (UInt32.not_le.mpr long)
  unfold parseChunkFile
  rw [if_neg fits]
  change (if [0x54, 0x33, 0x53, 0x43] ≠ chunkMagic then _ else _) = _
  rw [value, if_neg possible]
  rfl

variable [DecidableEq δ]

theorem decode_compressed (sized : Sized data) :
    store.decode (store.digest.hash data) (chunkLen data) (store.zstd.compress data) = .ok data := by
  have standard : (store.zstd.compress data).take 4 = zstdMagic ∧
      store.zstd.frameSize (store.zstd.compress data) = some (store.zstd.compress data).length :=
    ⟨store.zstd.standard data, store.zstd.single data⟩
  unfold decode
  rw [chunkLen_toNat sized, store.zstd.inverts data]
  refine bind_ok.mpr ⟨(), ensure_ok.mpr (store.zstd.bounded data), bind_ok.mpr ⟨(), ensure_ok.mpr standard, ?_⟩⟩
  exact bind_ok.mpr ⟨data, rfl, bind_ok.mpr ⟨(), ensure_ok.mpr rfl, bind_ok.mpr ⟨(), ensure_ok.mpr rfl, rfl⟩⟩⟩

theorem verified_written (sized : Sized data) : store.verified (store.digest.hash data)
      (chunkMagic ++ le32 (chunkLen data).toNat ++ store.zstd.compress data) = .ok data := by
  have length := chunkLen_toNat sized
  have small : (store.zstd.compress data).length ≤ maxCompressedChunkLen :=
    (store.zstd.bounded data).trans (compressBound_le sized.2)
  have nonempty : chunkLen data ≠ 0 := by
    intro zero
    rw [zero] at length
    exact absurd length.symm (Nat.ne_of_gt sized.1)
  have short : chunkLen data ≤ maxChunkLen := by
    rw [UInt32.le_iff_toNat_le, length]
    exact sized.2
  have fits : (chunkMagic ++ le32 (chunkLen data).toNat ++ store.zstd.compress data).length ≤ maxChunkFileLen + 1 := by
    rw [length_append]
    exact Nat.le_succ_of_le (Nat.add_le_add_left small chunkHeaderLen)
  unfold verified
  rw [take_of_length_le fits, parse_written nonempty short small, ok_bind]
  exact decode_compressed sized

variable [DecidableEq π]

variable (store) in
/-- The chunk files are intact, and there is one for each of `ids`. -/
def Stocked (ids : List δ) (disk : Disk π) : Prop :=
  store.Intact disk.files ∧ ∀ id ∈ ids, (disk.files (store.layout.chunkPath id)).isSome = true

section Storing

variable (keeps : ∀ time, store.medium.damage time = [])
include keeps

omit [DecidableEq δ] in
theorem attempt_files {p : (π → Option Bytes) → Prop} (action : String) (path : π) :
    Keeps (fun disk => p disk.files) (store.attempt action path) := by
  refine .seen fun _ _ => .bind (Q := fun _ disk => p disk.files) (.modify fun disk kept => ?_) fun _ => ?_
  · rwa [elapse_files keeps]
  · exact .require (fun _ kept _ => kept) fun _ kept _ => kept

variable {ids : List δ} {id : δ} {raw : Bytes}

theorem attempt_stocked (action : String) (path : π) :
    Triple (store.Stocked ids) (store.attempt action path) (fun _ => store.Stocked ids) fun _ _ => True :=
  (attempt_files keeps (p := fun files => store.Intact files ∧
    ∀ id ∈ ids, (files (store.layout.chunkPath id)).isSome = true) action path).orElse fun _ _ _ => trivial

omit keeps in
theorem Stocked.write {disk : Disk π} (stocked : store.Stocked ids disk) {bytes : Bytes}
    (verified : store.verified id bytes = .ok raw) :
    store.Stocked (id :: ids) (disk.write (store.layout.chunkPath id) (some bytes)) := by
  obtain ⟨intact, present⟩ := stocked
  constructor
  · intro other content here
    by_cases same : other = id
    · subst same
      simp only [Disk.write, update_self, Option.some.injEq] at here
      exact ⟨raw, here ▸ verified⟩
    have apart : store.layout.chunkPath other ≠ store.layout.chunkPath id := fun equal =>
      same (store.layout.chunk_inj equal)
    simp only [Disk.write, update_of_ne apart] at here
    exact intact other content here
  · intro other among
    by_cases same : other = id
    · subst same
      simp [Disk.write]
    have apart : store.layout.chunkPath other ≠ store.layout.chunkPath id := fun equal =>
      same (store.layout.chunk_inj equal)
    simp only [Disk.write, update_of_ne apart]
    exact present other ((mem_cons.mp among).resolve_left same)

omit keeps [DecidableEq π] in
theorem Stocked.found {disk : Disk π} (stocked : store.Stocked ids disk)
    (found : (disk.files (store.layout.chunkPath id)).any holdsChunk = true) : store.Stocked (id :: ids) disk := by
  refine ⟨stocked.1, fun other among => ?_⟩
  rcases mem_cons.mp among with rfl | among
  · cases here : disk.files (store.layout.chunkPath other) with
    | none => rw [here] at found; cases found
    | some bytes => rfl
  · exact stocked.2 other among

theorem has_stocked (id : δ) :
    Triple (store.Stocked ids) (store.has id) (fun found => store.Stocked (if found then id :: ids else ids))
      fun _ _ => True := by
  refine (attempt_stocked keeps _ _).bind fun _ => ?_
  refine .bind (.get (Q := fun seen disk => store.Stocked ids disk ∧ disk = seen) fun _ kept => ⟨kept, rfl⟩)
    fun seen => ?_
  refine .pure ?_
  rintro disk ⟨stocked, rfl⟩
  split
  · next found => exact stocked.found found
  · exact stocked

theorem commit_stocked {bytes : Bytes} (verified : store.verified id bytes = .ok raw) :
    Triple (store.Stocked ids) (store.commit id bytes) (fun _ => store.Stocked (id :: ids)) fun _ _ => True := by
  refine (attempt_stocked keeps _ _).bind fun _ => ?_
  refine .bind (.get (Q := fun seen disk => store.Stocked ids disk ∧ disk = seen) fun _ kept => ⟨kept, rfl⟩)
    fun seen => ?_
  refine .ite (fun found => .pure ?_) fun _ => .given (fun _ kept => kept.1) ?_
  · rintro disk ⟨stocked, rfl⟩
    exact stocked.found found
  refine .guarded (fun _ _ _ => trivial) fun _ => ?_
  refine (attempt_stocked keeps _ _).bind fun _ => ?_
  refine (attempt_stocked keeps _ _).bind fun _ => ?_
  refine .bind (.modify ?_) fun _ => .pure fun _ kept => kept
  exact fun disk stocked => stocked.write verified

theorem writeChunk_stocked {len : UInt32} {frame : Bytes}
    (verified : store.verified id (chunkMagic ++ le32 len.toNat ++ frame) = .ok raw) :
    Triple (store.Stocked ids) (store.writeChunk id len frame)
    (fun _ => store.Stocked (id :: ids)) fun _ _ => True := by
  refine (takeTemp_files (p := fun files => store.Intact files ∧
    ∀ id ∈ ids, (files (store.layout.chunkPath id)).isSome = true)).after fun _ => ?_
  refine (attempt_stocked keeps _ _).bind fun _ => ?_
  refine (attempt_stocked keeps _ _).bind fun _ => ?_
  refine .bind (Q := fun _ => store.Stocked ids) (.ite (fun _ => ?_) fun _ => .pure fun _ kept => kept) fun _ => ?_
  · exact attempt_stocked keeps _ _
  · exact commit_stocked keeps verified

theorem storePiece_stocked {data : Bytes} (sized : Sized data) :
    Triple (store.Stocked ids) (store.storePiece data) (fun _ => store.Stocked (store.digest.hash data :: ids))
      fun _ _ => True := by
  refine (has_stocked keeps _).bind fun found => .ite (fun here => .pure ?_) fun absent => ?_
  · rw [if_pos here]
    exact fun _ kept => kept
  · rw [if_neg absent]
    exact (writeChunk_stocked keeps (verified_written sized)).bind fun _ => .pure fun _ kept => kept

theorem storePieces_stocked {pieces : List Bytes} (sized : ∀ data ∈ pieces, Sized data) (offset : Nat) :
    Triple (store.Stocked ids) (store.storePieces offset pieces)
      (fun _ => store.Stocked (pieces.reverse.map store.digest.hash ++ ids)) fun _ _ => True := by
  induction pieces generalizing ids offset with
  | nil => exact .pure fun _ kept => kept
  | cons data pieces ih =>
    refine .guarded (fun _ _ _ => trivial) fun _ => ?_
    refine (storePiece_stocked keeps (sized data mem_cons_self)).bind fun _ => ?_
    refine (ih (fun other among => sized other (mem_cons_of_mem _ among)) _).bind fun _ => .pure fun _ kept => ?_
    simpa using kept

end Storing

def entriesOf (digest : Digest δ) : Nat → List Bytes → List (ChunkEntry δ)
  | _, [] => []
  | offset, data :: pieces =>
    ⟨digest.hash data, UInt64.ofNat offset, chunkLen data⟩ :: entriesOf digest (offset + data.length) pieces

omit [DecidableEq δ] in
theorem storePieces_entries (offset : Nat) (pieces : List Bytes) :
    Triple (fun _ => True) (store.storePieces offset pieces)
      (fun chunks _ => chunks = entriesOf store.digest offset pieces) fun _ _ => True := by
  induction pieces generalizing offset with
  | nil => exact .pure fun _ _ => rfl
  | cons data pieces ih =>
    refine .guarded (fun _ _ _ => trivial) fun _ => .bind (.trivial _) fun _ => ?_
    refine (ih _).bind fun chunks => .pure fun _ same => ?_
    rw [same]
    rfl

omit [DecidableEq δ] [DecidableEq π] in
theorem mem_entriesOf (digest : Digest δ) (offset : Nat) (among : data ∈ pieces) :
    ∃ entry ∈ entriesOf digest offset pieces, entry.len = chunkLen data := by
  induction pieces generalizing offset with
  | nil => cases among
  | cons first pieces ih =>
    rcases mem_cons.mp among with rfl | later
    · exact ⟨_, mem_cons_self, rfl⟩
    · obtain ⟨entry, member, same⟩ := ih (offset + first.length) later
      exact ⟨entry, mem_cons_of_mem _ member, same⟩

omit [DecidableEq δ] [DecidableEq π] in
theorem sized_of_tiles {digest : Digest δ} {params : ChunkParams} {totalSize : UInt64} {offset : Nat}
    (tiles : Tiles params totalSize (entriesOf digest offset pieces)) : ∀ data ∈ pieces, Sized data := by
  intro data among
  obtain ⟨entry, member, same⟩ := mem_entriesOf digest offset among
  have nonempty := tiles.nonempty entry member
  have short := UInt32.le_trans (tiles.short entry member) params.ceiling
  rw [same] at nonempty short
  exact sized_of_chunkLen nonempty short

omit [DecidableEq π] in
theorem restores_of_stocked (collisionFree : Injective store.digest.hash) {disk : Disk π}
    (sized : ∀ data ∈ pieces, Sized data)
    (stocked : store.Stocked (pieces.reverse.map store.digest.hash) disk) (offset : Nat) :
    Forall₂ (fun entry raw => store.Holds disk.files entry.id raw ∧ raw.length = entry.len.toNat)
      (entriesOf store.digest offset pieces) pieces := by
  have held : ∀ data ∈ pieces, store.Holds disk.files (store.digest.hash data) data := by
    intro data among
    have present := stocked.2 (store.digest.hash data) (by simpa using ⟨data, among, rfl⟩)
    obtain ⟨bytes, here⟩ := Option.isSome_iff_exists.mp present
    obtain ⟨raw, verified⟩ := stocked.1 _ bytes here
    have same : raw = data := collisionFree (verified_ok verified).1
    exact ⟨bytes, here, same ▸ verified⟩
  clear stocked
  induction pieces generalizing offset with
  | nil => exact .nil
  | cons data pieces ih =>
    refine .cons ⟨held data mem_cons_self, (chunkLen_toNat (sized data mem_cons_self)).symm⟩ ?_
    exact ih (fun other among => sized other (mem_cons_of_mem _ among)) _
      fun other among => held other (mem_cons_of_mem _ among)

omit [DecidableEq π] in
theorem fromChunks_ok {digest : Digest δ} {params : ChunkParams} {totalSize : UInt64} {fileHash : δ}
    {chunks : List (ChunkEntry δ)} {manifest : Manifest digest}
    (built : Manifest.fromChunks digest params totalSize fileHash chunks = .ok manifest) :
    manifest.toWire = { params, totalSize, fileHash, chunks } := by
  unfold Manifest.fromChunks at built
  split at built
  · cases built
    rfl
  · cases built

theorem Restores.write {disk : Disk π}
    (restores : store.Restores disk.files manifest source) {path : π} (apart : ∀ id, path ≠ store.layout.chunkPath id)
    (content : Option Bytes) : store.Restores (disk.write path content).files manifest source := by
  obtain ⟨raws, held, whole⟩ := restores
  exact ⟨raws, held.imp fun _ _ held => ⟨held.1.of_eq (update_of_ne (apart _).symm _ _), held.2⟩, whole⟩

section
variable (keeps : ∀ time, store.medium.damage time = [])
include keeps

/-- Pieces of lengths that entries may state are all stored; the entries are those of the pieces. -/
theorem storePieces_spec (pieces : List Bytes) :
    Triple (fun disk => store.Intact disk.files) (store.storePieces 0 pieces)
      (fun chunks disk => ((∀ data ∈ pieces, Sized data) → store.Stocked (pieces.reverse.map store.digest.hash) disk) ∧
        chunks = entriesOf store.digest 0 pieces) fun _ _ => True := by
  have entries : Triple (fun _ => True) (store.storePieces 0 pieces)
      (fun chunks _ => chunks = entriesOf store.digest 0 pieces) fun _ _ => True := storePieces_entries 0 pieces
  by_cases sized : ∀ data ∈ pieces, Sized data
  · have stocked : Triple (store.Stocked []) (store.storePieces 0 pieces)
        (fun _ => store.Stocked (pieces.reverse.map store.digest.hash ++ [])) fun _ _ => True :=
      storePieces_stocked keeps sized 0
    rw [append_nil] at stocked
    refine (stocked.and entries).weaken ?_ (fun _ _ after => ⟨fun _ => after.1, after.2⟩) fun _ _ _ => trivial
    exact fun disk intact => ⟨⟨intact, nofun⟩, trivial⟩
  · exact entries.weaken (fun _ _ => trivial) (fun _ _ same => ⟨fun all => absurd all sized, same⟩) fun _ _ _ => trivial

theorem writeRecord_restores (record : Record) (manifest : Manifest store.digest) (source : Bytes) :
    Keeps (fun disk => store.Restores disk.files manifest source) (store.writeRecord record manifest) := by
  have attempted (action : String) (path : π) :
      Keeps (fun disk => store.Restores disk.files manifest source) (store.attempt action path) :=
    attempt_files keeps (p := fun files => store.Restores files manifest source) action path
  refine (takeTemp_files (p := fun files => store.Restores files manifest source)).after fun _ => ?_
  refine (attempted _ _).bind fun _ => (attempted _ _).bind fun _ => ?_
  refine (attempted _ _).bind fun _ => .modify fun disk kept => ?_
  exact kept.write (fun id => store.layout.record_apart record manifest.id id) _

theorem ingest_restores (collisionFree : Injective store.digest.hash) (source : Bytes) (params : ChunkParams) :
    Triple (fun disk => store.Intact disk.files) (store.ingest source params)
      (fun manifest disk => store.Restores disk.files manifest source) fun _ _ => True := by
  refine (storePieces_spec keeps _).bind fun chunks => .and_intro fun entries => ?_
  subst entries
  dsimp only
  split
  · next manifest built =>
    have wire := fromChunks_ok built
    have chunks : manifest.chunks = entriesOf store.digest 0 (store.chunker.cut params source) := by rw [wire]
    have hashed : manifest.fileHash = store.digest.hash source := by rw [wire, store.chunker.whole]
    have sized := sized_of_tiles (chunks ▸ manifest.tiles)
    refine .given (P := fun disk => store.Restores disk.files manifest source) (fun disk stored => ?_) ?_
    · refine ⟨store.chunker.cut params source, ?_, store.chunker.whole params source, hashed.symm⟩
      rw [chunks]
      exact restores_of_stocked collisionFree sized (stored sized) 0
    · refine ((writeRecord_restores keeps _ _ _).orElse fun _ _ _ => trivial).bind fun _ => .pure fun _ kept => kept
  · exact .throw fun _ _ => trivial

end

theorem assemble_sound (sound : store.medium.Sound) (restores : store.Restores files manifest source) {dest : π}
    (named : ∀ number, (store.layout.partialPath dest number).isSome = true) :
    Triple (Disk.At files) (store.assemble manifest dest)
    (fun _ disk => disk.files dest = some source) fun _ _ => False := by
  refine (assembleThen_spec sound (fun files => .pure fun _ kept => kept) manifest).weaken (fun _ kept => kept) ?_ ?_
  · rintro _ disk ⟨draft, source', _, stale, restores', rfl, after⟩
    have other := (store.layout.stale_apart stale).1
    rw [after, update_of_ne other.symm, update_self, update_self, restores.unique restores']
  rintro error disk failed
  generalize disk.files = files' at failed
  cases failed with
  | lacking count listed absent =>
    obtain ⟨raw, holds, _⟩ := restores.held listed
    cases holds.present.symm.trans absent
  | @unnamed number unnamed =>
    have some := named number
    rw [unnamed] at some
    cases some
  | undone stale failed => exact restores.streams failed

end ChunkStore

/-- An assembly into a file that is not a chunk of the store puts the file of the stated hash and length
there if it succeeds, and leaves the destination alone if it fails, from every state of the store and
whatever happens to its chunks meanwhile. Once a stream was ingested into a store whose chunk files
were intact, its manifest is assembled to the stream. -/
theorem assembly_faithful {δ π : Type} [DecidableEq δ] [DecidableEq π] (store : ChunkStore δ π) :
    (∀ (disk : Disk π) (manifest : Manifest store.digest) (dest : π), (∀ id, dest ≠ store.layout.chunkPath id) →
      match (store.assemble manifest dest).run disk with
      | (.ok _, disk') => ∃ bytes, disk'.files dest = some bytes ∧
          store.digest.hash bytes = manifest.fileHash ∧ bytes.length = manifest.totalSize.toNat
      | (.error _, disk') => disk'.files dest = disk.files dest) ∧
    (Injective store.digest.hash → (∀ time, store.medium.damage time = []) →
      ∀ (disk disk' : Disk π) (source : Bytes) (params : ChunkParams) (manifest : Manifest store.digest) (dest : π),
        store.Intact disk.files → (store.ingest source params).run disk = (.ok manifest, disk') →
        (∀ number, (store.layout.partialPath dest number).isSome = true) →
        ∃ disk'', (ChunkStore.assemble { store with medium := .still } manifest dest).run disk' = (.ok (), disk'') ∧
          disk''.files dest = some source) := by
  constructor
  · intro disk manifest dest plain
    have left := ChunkStore.assemble_outside manifest plain disk fun _ _ => rfl
    cases run : (store.assemble manifest dest).run disk with
    | mk result disk' =>
      rw [run] at left
      cases result with
      | ok _ => exact left
      | error _ => exact left
  · intro collisionFree keeps disk disk' source params manifest dest intact ingested named
    have restores := (ChunkStore.ingest_restores keeps collisionFree source params).returned intact ingested
    let quiet : ChunkStore δ π := { store with medium := .still }
    have restores' : quiet.Restores disk'.files manifest source := restores
    have triple := ChunkStore.assemble_sound Medium.still_sound restores' named
    obtain ⟨_, disk'', run, whole⟩ := triple.returns rfl
    exact ⟨disk'', run, whole⟩

def plainZstd : Zstd where
  compress data := zstdMagic ++ data
  decompress _ frame := some (frame.drop 4)
  frameSize frame := some frame.length
  standard _ := rfl
  single _ := rfl
  bounded data := by
    rw [length_append]
    have magic : zstdMagic.length = 4 := rfl
    unfold compressBound
    split
    · omega
    · omega
  inverts _ := rfl

def plainStore : ChunkStore Bytes Path where
  digest := { hash := id, format := Format.byte.list }
  zstd := plainZstd
  chunker :=
    { cut := fun _ source => if source = [] then [] else [source]
      whole := fun _ source => by split <;> simp_all }
  layout := storeLayout id Function.injective_id [] 1
  medium := .still
  maxBytes := 1000
  syncChunks := true

def emptyDisk : Disk Path := ⟨fun _ => none, 0, 0, 0⟩

def plainManifest : Manifest plainStore.digest where
  params := .default
  totalSize := 1
  fileHash := [7]
  chunks := [⟨[7], 0, 1⟩]
  id := plainStore.digest.hash (Wire.encode plainStore.digest ⟨.default, 1, [7], [⟨[7], 0, 1⟩]⟩)
  small := by decide
  tiles :=
    { starts := by decide
      continues := .singleton _
      nonempty := by decide
      short := by decide
      long := by decide
      covers := by decide
      repeated := by decide }
  named := rfl

def worldPath : Path := ["world".toList]

def chunkPath : Path := plainStore.layout.chunkPath [7]

def diskWith (bytes : Bytes) : Disk Path :=
  { emptyDisk with files := fun path => if path = chunkPath then some bytes else none }

theorem assembly_faithful_plain :
    (∃ disk' bytes, (plainStore.assemble plainManifest worldPath).run
        (diskWith (chunkMagic ++ le32 1 ++ plainZstd.compress [7])) = (.ok (), disk') ∧
      disk'.files worldPath = some bytes ∧ bytes = [7] ∧ bytes.length = 1) ∧
    ∃ manifest disk' disk'', (plainStore.ingest [7] .default).run emptyDisk = (.ok manifest, disk') ∧
      (ChunkStore.assemble { plainStore with medium := .still } manifest worldPath).run disk' = (.ok (), disk'') ∧
        disk''.files worldPath = some [7] := by
  constructor
  · have assembled : ((plainStore.assemble plainManifest worldPath).run
        (diskWith (chunkMagic ++ le32 1 ++ plainZstd.compress [7]))).1.toBool = true := by decide +kernel
    have whole := (assembly_faithful plainStore).1
      (diskWith (chunkMagic ++ le32 1 ++ plainZstd.compress [7])) plainManifest
      worldPath fun _ same => nomatch (cons.inj same).2
    split at whole
    · next disk' run =>
      obtain ⟨bytes, here, same, length⟩ := whole
      exact ⟨disk', bytes, run, here, same, length⟩
    · next run =>
      rw [run] at assembled
      cases assembled
  have ingested : ((plainStore.ingest [7] .default).run emptyDisk).1.toBool = true := by decide +kernel
  obtain ⟨manifest, disk', run⟩ : ∃ manifest disk', (plainStore.ingest [7] .default).run emptyDisk =
    (.ok manifest, disk') := by
    cases run : (plainStore.ingest [7] .default).run emptyDisk with
    | mk result disk' =>
      rw [run] at ingested
      cases result with
      | ok manifest => exact ⟨manifest, disk', rfl⟩
      | error error => cases ingested
  have again := (assembly_faithful plainStore).2 (fun _ _ same => same) (fun _ => rfl) emptyDisk disk' [7] .default
    manifest worldPath nofun run fun _ => rfl
  obtain ⟨disk'', assembled, whole⟩ := again
  exact ⟨manifest, disk', disk'', run, assembled, whole⟩

theorem assemble_removes_destination :
    ((plainStore.assemble plainManifest chunkPath).run (diskWith (replicate 9 0))).2.files chunkPath = none ∧
      (diskWith (replicate 9 0)).files chunkPath ≠ none := by
  constructor
  · decide +kernel
  · decide +kernel

end Tpf3Mp.Snapshot
