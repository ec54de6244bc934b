import Tpf3Mp.Run.Effect
import Tpf3Mp.Snapshot.Manifest

/-!
The chunk store (`tpf3mp-snapshot`, `store.rs` and `codec.rs`): compressed chunks, each once under
the hash of its content, and the files assembled from them. Any file operation may be refused, and
chunk files may change on disk while one runs; a chunk is checked whenever it is read.
-/

namespace Tpf3Mp.Snapshot
open Codec Run

inductive ChunkError where
  | tooLarge (len max : Nat)
  | notOneFrame
  | decompress
  | lengthMismatch (expected actual : Nat)
  | hashMismatch
  | badFile (reason : String)
  deriving DecidableEq

def compressBound (len : Nat) : Nat :=
  len + len / 2 ^ 8 + if len < 128 * 1024 then (128 * 1024 - len) / 2 ^ 11 else 0

def maxCompressedChunkLen : Nat := compressBound maxChunkLen.toNat

/-- How every standard zstd frame begins. -/
def zstdMagic : Bytes := [0x28, 0xb5, 0x2f, 0xfd]

/-- zstd: what it compresses is one standard frame within its bound, and decompresses again. -/
structure Zstd where
  compress : Bytes → Bytes
  /-- Decompresses into a buffer of so many bytes. -/
  decompress : Nat → Bytes → Option Bytes
  /-- The length of the first frame. -/
  frameSize : Bytes → Option Nat
  standard : ∀ data, (compress data).take 4 = zstdMagic
  single : ∀ data, frameSize (compress data) = some (compress data).length
  bounded : ∀ data, (compress data).length ≤ compressBound data.length
  inverts : ∀ data, decompress data.length (compress data) = some data

def chunkMagic : Bytes := [0x54, 0x33, 0x53, 0x43]

def chunkHeaderLen : Nat := 8

def maxChunkFileLen : Nat := chunkHeaderLen + maxCompressedChunkLen

def holdsChunk (bytes : Bytes) : Bool := bytes.length > chunkHeaderLen

def parseChunkFile (bytes : Bytes) : Except ChunkError (UInt32 × Bytes) :=
  if bytes.length > maxChunkFileLen then .error (.badFile "longer than any valid chunk")
  else match bytes with
    | m :: n :: o :: p :: a :: b :: c :: d :: frame =>
      if [m, n, o, p] ≠ chunkMagic then .error (.badFile "not a chunk file")
      else
        let rawLen := UInt32.ofNat (ofLe32 a b c d)
        if rawLen = 0 ∨ rawLen > maxChunkLen then .error (.badFile "impossible chunk length")
        else .ok (rawLen, frame)
    | _ => .error (.badFile "truncated header")

def chunkLen (data : Bytes) : UInt32 := if data.length < 2 ^ 32 then UInt32.ofNat data.length else 0xffffffff

inductive Record where
  | root
  | pending
  deriving DecidableEq

structure Layout (δ π : Type) where
  chunkPath : δ → π
  fanOut : δ → π
  recordPath : Record → δ → π
  tempPath : Nat → π
  /-- Where a destination that names a file is built. -/
  partialPath : π → Nat → Option π
  /-- Whether a path is of a file that an assembly of a destination left behind. -/
  stale : π → π → Bool
  chunk_inj : Function.Injective chunkPath
  record_apart : ∀ record id id', recordPath record id ≠ chunkPath id'
  partial_stale : ∀ {dest number draft}, partialPath dest number = some draft → stale dest draft = true
  stale_apart : ∀ {dest path}, stale dest path = true → path ≠ dest ∧ ∀ id, path ≠ chunkPath id

/-- The components of a path, the last one first. -/
abbrev Path := List (List Char)

def hex (bytes : Bytes) : List Char :=
  bytes.flatMap fun byte => [(byte.toNat / 16).digitChar, (byte.toNat % 16).digitChar]

theorem hex_injective : Function.Injective hex := by
  have digit : ∀ m < 16, ∀ n < 16, m.digitChar = n.digitChar → m = n := by decide
  intro a
  induction a with
  | nil =>
    rintro (_ | ⟨_, _⟩) same
    · rfl
    · cases same
  | cons first rest ih =>
    rintro (_ | ⟨first', rest'⟩) same
    · cases same
    obtain ⟨high, low, tail⟩ : (first.toNat / 16).digitChar = (first'.toNat / 16).digitChar ∧
        (first.toNat % 16).digitChar = (first'.toNat % 16).digitChar ∧ hex rest = hex rest' := by
      simpa [hex] using same
    have small := first.toNat_lt
    have small' := first'.toNat_lt
    have high := digit _ (by omega) _ (by omega) high
    have low := digit _ (by omega) _ (by omega) low
    have same : first = first' := UInt8.toNat_inj.mp (by omega)
    rw [same, ih tail]

theorem hex_undotted (bytes : Bytes) (rest : List Char) : hex bytes ≠ '.' :: rest := by
  have digit : ∀ n < 16, n.digitChar ≠ '.' := by decide
  cases bytes with
  | nil => nofun
  | cons first bytes =>
    have small := first.toNat_lt
    exact fun same => digit _ (by omega) (List.cons.inj same).1

def Record.dir : Record → List Char
  | .root => "roots".toList
  | .pending => "pending".toList

def partialSuffix : List Char := ".tpf3mp-partial".toList

/-- A path that ends in `..` names no file. -/
def fileName : Path → Option (List Char × Path)
  | [] => none
  | name :: parent => if name = "..".toList then none else some (name, parent)

def isStale (dest path : Path) : Bool :=
  match fileName dest, path with
  | some (name, parent), file :: dir =>
    dir = parent && ('.' :: name ++ ['.']).isPrefixOf file && partialSuffix.isSuffixOf file
  | _, _ => false

theorem isStale_dotted {dest path : Path} (stale : isStale dest path = true) :
    path ≠ dest ∧ ∃ rest parent, path = ('.' :: rest) :: parent := by
  unfold isStale at stale
  split at stale
  · next name parent file dir named =>
    simp only [Bool.and_eq_true] at stale
    obtain ⟨rest, rfl⟩ := List.isPrefixOf_iff_prefix.mp stale.1.2
    refine ⟨?_, _, _, rfl⟩
    intro same
    rw [← same, fileName] at named
    split at named
    · cases named
    · have size := congrArg (fun entry => entry.1.length) (Option.some.inj named)
      simp only [List.length_append, List.length_cons, List.length_nil] at size
      omega
  · cases stale

/-- The files of a store under `root` that a process uses. -/
def storeLayout {δ : Type} (bytes : δ → Bytes) (distinct : Function.Injective bytes) (root : Path) (process : Nat) :
    Layout δ Path where
  chunkPath id := hex (bytes id) :: (hex (bytes id)).take 2 :: "chunks".toList :: root
  fanOut id := (hex (bytes id)).take 2 :: "chunks".toList :: root
  recordPath record id := hex (bytes id) :: record.dir :: root
  tempPath number := (Nat.toDigits 16 number).leftpad 16 '0' :: "tmp".toList :: root
  partialPath dest number := (fileName dest).map fun (name, parent) =>
    ('.' :: name ++ '.' :: (Nat.toDigits 16 process ++ '-' :: (Nat.toDigits 16 number ++ partialSuffix))) :: parent
  stale := isStale
  chunk_inj _ _ same := distinct (hex_injective (List.cons.inj same).1)
  record_apart record id id' same := by
    have size := congrArg List.length same
    simp only [List.length_cons] at size
    omega
  partial_stale := by
    intro dest number draft built
    obtain ⟨⟨name, parent⟩, named, rfl⟩ := Option.map_eq_some_iff.mp built
    unfold isStale
    rw [named]
    simp only [Bool.and_eq_true, decide_eq_true_eq, List.isPrefixOf_iff_prefix, List.isSuffixOf_iff_suffix]
    refine ⟨⟨trivial, ?_⟩, ?_⟩
    · exact ⟨Nat.toDigits 16 process ++ '-' :: (Nat.toDigits 16 number ++ partialSuffix), by simp⟩
    · exact ⟨'.' :: name ++ '.' :: (Nat.toDigits 16 process ++ '-' :: Nat.toDigits 16 number), by simp⟩
  stale_apart stale := by
    obtain ⟨apart, rest, parent, rfl⟩ := isStale_dotted stale
    exact ⟨apart, fun id same => hex_undotted _ _ (List.cons.inj same).1.symm⟩

/-- The files without those that assemblies of a destination left behind. -/
def Layout.cleared {δ π : Type} (layout : Layout δ π) (dest : π) (files : π → Option Bytes) (path : π) : Option Bytes :=
  if layout.stale dest path then none else files path

/-- Cuts a stream into pieces, losing nothing. -/
structure Chunker where
  cut : ChunkParams → Bytes → List Bytes
  whole : ∀ params source, (cut params source).flatten = source

/-- What happens while the files are used: which operations are refused, and what becomes of which
chunk files during one. -/
structure Medium (δ : Type) where
  fails : Nat → Bool
  damage : Nat → List (δ × Option Bytes)

structure Medium.Sound {δ : Type} (medium : Medium δ) : Prop where
  serves : ∀ time, medium.fails time = false
  keeps : ∀ time, medium.damage time = []

def Medium.still {δ : Type} : Medium δ where
  fails _ := false
  damage _ := []

theorem Medium.still_sound {δ : Type} : (Medium.still : Medium δ).Sound where
  serves _ := rfl
  keeps _ := rfl

/-- The files, the bytes of chunk files that the store counts, and how many names of temporary files
and file operations were used. -/
structure Disk (π : Type) where
  files : π → Option Bytes
  used : Nat
  nextTemp : Nat
  clock : Nat

def Disk.write {π : Type} [DecidableEq π] (disk : Disk π) (path : π) (content : Option Bytes) : Disk π :=
  { disk with files := Function.update disk.files path content }

inductive StoreError (δ π : Type) where
  | io (action : String) (path : π)
  | full (used limit needed : Nat)
  | notFound (id : δ)
  | corrupt (id : δ) (reason : ChunkError)
  | incomplete (missing : Nat)
  | lengthMismatch (id : δ) (expected : UInt32) (actual : Nat)
  | fileHashMismatch
  | invalidDestination (path : π)
  | sourceTooLarge (limit : UInt64)
  | manifest (error : ManifestError δ)

structure ChunkStore (δ π : Type) where
  digest : Digest δ
  zstd : Zstd
  chunker : Chunker
  layout : Layout δ π
  medium : Medium δ
  maxBytes : Nat
  syncChunks : Bool

abbrev Op (δ π α : Type) := Effect (StoreError δ π) (Disk π) α

namespace ChunkStore

variable {δ π : Type} [DecidableEq δ] [DecidableEq π] (store : ChunkStore δ π)

def decode (id : δ) (rawLen : UInt32) (frame : Bytes) : Except ChunkError Bytes := do
  ensure (frame.length ≤ compressBound rawLen.toNat) (.tooLarge frame.length (compressBound rawLen.toNat))
  ensure (frame.take 4 = zstdMagic ∧ store.zstd.frameSize frame = some frame.length) .notOneFrame
  let raw ← (store.zstd.decompress rawLen.toNat frame).elim (.error .decompress) .ok
  ensure (raw.length = rawLen.toNat) (.lengthMismatch rawLen.toNat raw.length)
  ensure (store.digest.hash raw = id) .hashMismatch
  return raw

/-- The chunk a file holds, if it is the one that `id` names. -/
def verified (id : δ) (bytes : Bytes) : Except ChunkError Bytes := do
  let (rawLen, frame) ← parseChunkFile (bytes.take (maxChunkFileLen + 1))
  store.decode id rawLen frame

def elapse (disk : Disk π) : Disk π :=
  (store.medium.damage disk.clock).foldl (fun disk (id, content) => disk.write (store.layout.chunkPath id) content)
    { disk with clock := disk.clock + 1 }

def attempt (action : String) (path : π) : Op δ π Unit := do
  let time := (← get).clock
  modify store.elapse
  require (store.medium.fails time = false) (.io action path)

omit [DecidableEq δ] [DecidableEq π] in
def takeTemp : Op δ π Nat := do
  let number := (← get).nextTemp
  modify fun disk => { disk with nextTemp := number + 1 }
  return number

def has (id : δ) : Op δ π Bool := do
  store.attempt "inspect" (store.layout.chunkPath id)
  return ((← get).files (store.layout.chunkPath id)).any holdsChunk

def missingOf : List (ChunkEntry δ) → Op δ π (List (ChunkEntry δ))
  | [] => return []
  | entry :: chunks => do
    let present ← store.has entry.id
    let rest ← missingOf chunks
    return if present then rest else entry :: rest

def missing (manifest : Manifest store.digest) : Op δ π (List (ChunkEntry δ)) := store.missingOf manifest.uniqueChunks

def commit (id : δ) (bytes : Bytes) : Op δ π Bool := do
  let dest := store.layout.chunkPath id
  store.attempt "inspect" dest
  let disk ← get
  if (disk.files dest).any holdsChunk then return false
  else
    let used := disk.used - ((disk.files dest).map List.length).getD 0
    require (used + bytes.length ≤ store.maxBytes) (.full used store.maxBytes bytes.length)
    store.attempt "create" (store.layout.fanOut id)
    store.attempt "store" dest
    modify fun disk => { disk.write dest (some bytes) with used := used + bytes.length }
    return true

def writeChunk (id : δ) (rawLen : UInt32) (frame : Bytes) : Op δ π Bool := do
  let temp := store.layout.tempPath (← takeTemp)
  store.attempt "create" temp
  store.attempt "write" temp
  (if store.syncChunks then store.attempt "write" temp else return)
  store.commit id (chunkMagic ++ le32 rawLen.toNat ++ frame)

def writeRecord (record : Record) (manifest : Manifest store.digest) : Op δ π Unit := do
  let temp := store.layout.tempPath (← takeTemp)
  let dest := store.layout.recordPath record manifest.id
  store.attempt "create" temp
  store.attempt "write" temp
  store.attempt "save" dest
  modify fun disk => disk.write dest (some manifest.toBytes)

def storePiece (data : Bytes) : Op δ π Unit := do
  let id := store.digest.hash data
  let present ← store.has id
  if present then return
  else
    let _ ← store.writeChunk id (chunkLen data) (store.zstd.compress data)

def storePieces : Nat → List Bytes → Op δ π (List (ChunkEntry δ))
  | _, [] => return []
  | offset, data :: pieces => do
    require (offset + data.length ≤ maxFileSize.toNat) (.sourceTooLarge maxFileSize)
    store.storePiece data
    let chunks ← storePieces (offset + data.length) pieces
    return ⟨store.digest.hash data, UInt64.ofNat offset, chunkLen data⟩ :: chunks

def ingest (source : Bytes) (params : ChunkParams) : Op δ π (Manifest store.digest) := do
  let pieces := store.chunker.cut params source
  let chunks ← store.storePieces 0 pieces
  let whole := pieces.flatten
  match Manifest.fromChunks store.digest params (UInt64.ofNat whole.length) (store.digest.hash whole) chunks with
  | .ok manifest => do
    store.writeRecord .root manifest
    return manifest
  | .error error => throw (.manifest error)

def discard (path : π) (bytes : Bytes) : Op δ π Unit := do
  store.attempt "inspect" path
  let disk ← get
  if disk.files path = some bytes then
    store.attempt "remove damaged chunk" path
    modify fun disk => { disk.write path none with used := disk.used - bytes.length }

structure Loaded where
  raw : Bytes
  file : Bytes

def load (id : δ) : Op δ π Loaded := do
  let path := store.layout.chunkPath id
  store.attempt "open" path
  match (← get).files path with
  | none => throw (.notFound id)
  | some bytes => do
    store.attempt "inspect" path
    store.attempt "read" path
    match store.verified id bytes with
    | .ok raw => return { raw, file := bytes.take (maxChunkFileLen + 1) }
    | .error reason => do
      store.discard path bytes
      throw (.corrupt id reason)

def discardDamaged : List (ChunkEntry δ) → Op δ π Unit
  | [] => return
  | entry :: chunks => do
    tryCatch (do let _ ← store.load entry.id) fun error => match error with
      | .corrupt _ _ | .notFound _ => return
      | error => throw error
    discardDamaged chunks

def loadFor (manifest : Manifest store.digest) (id : δ) : Op δ π Loaded :=
  tryCatch (store.load id) fun error => match error with
    | .corrupt id reason => do
      store.discardDamaged manifest.uniqueChunks
      throw (.corrupt id reason)
    | error => throw error

def streamChunks (manifest : Manifest store.digest) (write : Bytes → Op δ π Unit) :
    List (ChunkEntry δ) → Bytes → Op δ π Bytes
  | [], written => return written
  | entry :: chunks, written => do
    let loaded ← store.loadFor manifest entry.id
    require (loaded.raw.length = entry.len.toNat) (.lengthMismatch entry.id entry.len loaded.raw.length)
    write loaded.raw
    streamChunks manifest write chunks (written ++ loaded.raw)

def streamFile (manifest : Manifest store.digest) (write : Bytes → Op δ π Unit) : Op δ π Unit := do
  let written ← store.streamChunks manifest write manifest.chunks []
  require (store.digest.hash written = manifest.fileHash) .fileHashMismatch

def append (path : π) (bytes : Bytes) : Op δ π Unit := do
  store.attempt "write" path
  modify fun disk => disk.write path (some ((disk.files path).getD [] ++ bytes))

def writeFile (manifest : Manifest store.digest) (draft : π) : Op δ π Unit := do
  store.attempt "create" draft
  require ((← get).files draft = none) (.io "create" draft)
  modify fun disk => disk.write draft (some [])
  store.streamFile manifest (store.append draft)
  store.attempt "flush" draft

omit [DecidableEq δ] [DecidableEq π] in
def removeStalePartials (dest : π) : Op δ π Unit :=
  modify fun disk => { disk with files := store.layout.cleared dest disk.files }

omit [DecidableEq δ] [DecidableEq π] in
def partialPath (dest : π) : Op δ π π := do
  match store.layout.partialPath dest (← get).nextTemp with
  | none => throw (.invalidDestination dest)
  | some draft => do
    let _ ← takeTemp (δ := δ)
    return draft

def publish (draft dest : π) : Op δ π Unit := do
  store.attempt "publish" dest
  modify fun disk => (disk.write dest (disk.files draft)).write draft none

/-- Assembles a file, and runs `beforePublish` once it is complete and verified. -/
def assembleThen (manifest : Manifest store.digest) (dest : π) (beforePublish : Op δ π Unit) : Op δ π Unit := do
  let missing ← store.missing manifest
  require (missing = []) (.incomplete missing.length)
  store.removeStalePartials dest
  let draft ← store.partialPath dest
  tryCatch
    (do
      store.writeFile manifest draft
      beforePublish
      store.publish draft dest)
    fun error => do
      modify fun disk => disk.write draft none
      throw error

def assemble (manifest : Manifest store.digest) (dest : π) : Op δ π Unit :=
  store.assembleThen manifest dest (return)

end ChunkStore

end Tpf3Mp.Snapshot
