import Tpf3Mp.Net.Bulk

/-!
A fetch against a serve (`bulk::fetch`, `bulk::serve`) over two reliable, ordered streams: each side
takes a step whenever it can, in any order. Every exchange ends with the snapshot in the receiving
store, if that has room for it.
-/

namespace Tpf3Mp.Net
open Codec Run Snapshot Proto List

def bulkRequestMaxFrame : Nat := 16 * 1024

def bulkResponseMaxFrame : Nat := 11 * 2 ^ 20

section Wire

variable {δ α : Type}

-- Named, so that a literal carries no proof of its own.
local instance twoTags : NeZero 2 := ⟨nofun⟩
local instance threeTags : NeZero 3 := ⟨nofun⟩

theorem two_fit : 2 ≤ 2 ^ 32 := by decide

abbrev RequestFields (δ : Type) : Fin 2 → Type
  | 0 => Unit
  | 1 => List δ

def requestFields (digest : Digest δ) : (i : Fin 2) → Format (RequestFields δ i)
  | 0 => Format.unit
  | 1 => digest.format.list

def bulkRequest (digest : Digest δ) : Format (BulkRequest δ) := (Format.choice two_fit (requestFields digest)).iso
  { toFun := fun
      | ⟨0, ()⟩ => .manifest
      | ⟨1, ids⟩ => .chunks ids
    invFun := fun
      | .manifest => ⟨0, ()⟩
      | .chunks ids => ⟨1, ids⟩
    left_inv := fun
      | ⟨0, _⟩ => rfl
      | ⟨1, _⟩ => rfl
    right_inv := fun request => by cases request <;> rfl }

abbrev ResponseFields (δ : Type) : Fin 3 → Type
  | 0 => Bytes
  | 1 => δ × Bytes
  | 2 => Unit

def responseFields (digest : Digest δ) : (i : Fin 3) → Format (ResponseFields δ i)
  | 0 => Format.byte.list
  | 1 => digest.format.pair Format.byte.list
  | 2 => Format.unit

def bulkResponse (digest : Digest δ) :
    Format (BulkResponse δ) := (Format.choice (by decide) (responseFields digest)).iso
  { toFun := fun
      | ⟨0, bytes⟩ => .manifest bytes
      | ⟨1, id, frame⟩ => .chunk id frame
      | ⟨2, ()⟩ => .unavailable
    invFun := fun
      | .manifest bytes => ⟨0, bytes⟩
      | .chunk id frame => ⟨1, id, frame⟩
      | .unavailable => ⟨2, ()⟩
    left_inv := fun
      | ⟨0, _⟩ => rfl
      | ⟨1, _⟩ => rfl
      | ⟨2, _⟩ => rfl
    right_inv := fun response => by cases response <;> rfl }

/-- `read_message`, of a frame that arrived whole. -/
def readFrame (format : Format α) (max : Nat) (frame : Bytes) : Except FrameError α :=
  if frame.length - frameHeaderLen > max then .error (.tooLarge (frame.length - frameHeaderLen) max)
  else decodeFrame format (frame.drop frameHeaderLen)

def framed (format : Format α) (message : α) : Bytes :=
  le32 (format.encode message).length ++ format.encode message

/-- A message that a stream carries: its frame is short enough, and it can be read again. -/
structure Passes (format : Format α) (max : Nat) (message : α) : Prop where
  short : (format.encode message).length ≤ max
  fits : format.Fits message

theorem Passes.encoded {format : Format α} {message : α} {max : Nat} (passes : Passes format max message)
    (narrow : max < 2 ^ 32) : encodeFrame format message max = .ok (framed format message) := by
  unfold encodeFrame
  rw [if_neg (not_lt.mpr passes.short), if_pos (lt_of_le_of_lt passes.short narrow)]
  rfl

theorem Passes.read {format : Format α} {message : α} {max : Nat} (passes : Passes format max message)
    (narrow : max < 2 ^ 32) : readFrame format max (framed format message) = .ok message := by
  have size : (framed format message).length - frameHeaderLen = (format.encode message).length := by
    unfold framed frameHeaderLen
    rw [length_append, length_le32, Nat.add_sub_cancel_left]
  unfold readFrame
  rw [size, if_neg (not_lt.mpr passes.short)]
  exact decodeFrame_encodeFrame (passes.encoded narrow) passes.fits

/-- Ids are written as 32 bytes, whatever they are. -/
structure Wide (digest : Digest δ) : Prop where
  fits : ∀ id, digest.format.Fits id
  length : ∀ id, (digest.format.encode id).length = 32

variable {digest : Digest δ}

theorem manifestRequest_passes : Passes (bulkRequest digest) bulkRequestMaxFrame .manifest := by
  refine ⟨?_, trivial⟩
  change ((Format.uint 32).encode 0 ++ []).length ≤ _
  decide

theorem chunksRequest_passes (wide : Wide digest) {ids : List δ} (few : ids.length ≤ maxChunksPerRequest) :
    Passes (bulkRequest digest) bulkRequestMaxFrame (.chunks ids) := by
  have few : ids.length ≤ 256 := few
  have room : bulkRequestMaxFrame = 16384 := rfl
  refine ⟨?_, lt_of_le_of_lt few (by decide), fun id _ => wide.fits id⟩
  change (Format.varint 1 ++ digest.format.list.encode ids).length ≤ _
  rw [length_append, Format.length_list, room]
  have tag : (Format.varint 1).length = 1 := rfl
  have count : (Format.varint ids.length).length ≤ 2 := Format.varint_length (by omega)
  have each := @Format.length_elements_le _ ids digest.format (fun _ => 32) 0 fun id _ => (wide.length id).le
  rw [map_const', sum_replicate, smul_eq_mul] at each
  omega

theorem manifestResponse_passes {bytes : Bytes} (short : bytes.length ≤ maxManifestLen) :
    Passes (bulkResponse digest) bulkResponseMaxFrame (.manifest bytes) := by
  have most : maxManifestLen = 10747976 := by decide
  have room : bulkResponseMaxFrame = 11534336 := rfl
  refine ⟨?_, lt_of_le_of_lt short (by decide), fun _ _ => trivial⟩
  change (Format.varint 0 ++ Format.byte.list.encode bytes).length ≤ _
  rw [length_append, Format.length_bytes, room]
  have tag : (Format.varint 0).length = 1 := rfl
  have count : (Format.varint bytes.length).length ≤ 4 := Format.varint_length (by omega)
  omega

theorem chunkResponse_passes (wide : Wide digest) {id : δ} {frame : Bytes}
    (short : frame.length ≤ maxCompressedChunkLen) :
    Passes (bulkResponse digest) bulkResponseMaxFrame (.chunk id frame) := by
  have most : maxCompressedChunkLen = 4210688 := by decide
  have room : bulkResponseMaxFrame = 11534336 := rfl
  refine ⟨?_, wide.fits id, lt_of_le_of_lt short (by decide), fun _ _ => trivial⟩
  change (Format.varint 1 ++ (digest.format.encode id ++ Format.byte.list.encode frame)).length ≤ _
  rw [length_append, length_append, Format.length_bytes, wide.length, room]
  have tag : (Format.varint 1).length = 1 := rfl
  have count : (Format.varint frame.length).length ≤ 4 := Format.varint_length (by omega)
  omega

end Wire

structure Served where
  chunks : Nat
  bytes : Nat

inductive Serving (δ ρ : Type) where
  | reading (served : Served)
  /-- With these chunks to answer for, in this order. -/
  | replying (ids : List δ) (served : Served)
  | ended (result : Except (BulkError δ ρ) Served)

/-- A fetch, and what serves it. The stores share the hash and the compression. -/
structure Meeting (δ π ρ : Type) where
  job : Job δ π
  manifest : Manifest job.store.digest
  chunker : Chunker
  layout : Layout δ ρ
  medium : Medium δ
  maxBytes : Nat
  syncChunks : Bool

structure Exchange (δ π ρ : Type) (digest : Digest δ) where
  phase : Phase δ π digest
  disk : Disk π
  serving : Serving δ ρ
  source : Disk ρ
  /-- Frames on the way to the side that serves. -/
  requests : List Bytes
  responses : List Bytes
  /-- Ghost: the receiver's files as the round began. -/
  opened : π → Option Bytes
  /-- Ghost: the chunks requested in this round. -/
  asked : List δ

def BulkRequest.ids {δ : Type} : BulkRequest δ → List δ
  | .manifest => []
  | .chunks ids => ids

inductive Side where
  | fetch
  | serve

namespace Meeting

variable {δ π ρ : Type} [DecidableEq δ] [DecidableEq π] [DecidableEq ρ] (meeting : Meeting δ π ρ)

abbrev source : ChunkStore δ ρ where
  digest := meeting.job.store.digest
  zstd := meeting.job.store.zstd
  chunker := meeting.chunker
  layout := meeting.layout
  medium := meeting.medium
  maxBytes := meeting.maxBytes
  syncChunks := meeting.syncChunks

def goOn (event : Event δ) (x : Exchange δ π ρ meeting.job.store.digest) : Exchange δ π ρ meeting.job.store.digest :=
  let (phase, disk) := meeting.job.step event (x.phase, x.disk)
  match x.phase, phase with
  | .expecting, .filling _ | .completing _, .filling _ => { x with phase, disk, opened := disk.files, asked := [] }
  | _, _ => { x with phase, disk }

def request (message : BulkRequest δ) (x : Exchange δ π ρ meeting.job.store.digest) :
    Exchange δ π ρ meeting.job.store.digest :=
  match encodeFrame (bulkRequest meeting.job.store.digest) message bulkRequestMaxFrame with
  | .ok frame => meeting.goOn (.sent (.ok ()))
      { x with requests := x.requests ++ [frame], asked := x.asked ++ message.ids }
  | .error error => meeting.goOn (.sent (.error (.net (.frame error)))) x

def hear (frame : Bytes) (x : Exchange δ π ρ meeting.job.store.digest) : Exchange δ π ρ meeting.job.store.digest :=
  match readFrame (bulkResponse meeting.job.store.digest) bulkResponseMaxFrame frame with
  | .ok answer => meeting.goOn (.received (.ok answer)) x
  | .error error => meeting.goOn (.received (.error (.net (.frame error)))) x

def fetchStep (x : Exchange δ π ρ meeting.job.store.digest) : Option (Exchange δ π ρ meeting.job.store.digest) :=
  match x.phase with
  | .asking => some (meeting.request .manifest x)
  | .sending ids _ => some (meeting.request (.chunks ids) x)
  | .expecting | .receiving _ _ =>
    match x.responses with
    | frame :: responses => some (meeting.hear frame { x with responses })
    | [] => match x.serving with
      | .ended _ => some (meeting.goOn (.received (.error (.net .read))) x)
      | _ => none
  | .filling _ | .completing _ | .failing _ _ => some (meeting.goOn .ready x)
  | .done _ => none

def respond (message : BulkResponse δ) (serving : Serving δ ρ) (x : Exchange δ π ρ meeting.job.store.digest) :
    Exchange δ π ρ meeting.job.store.digest :=
  match encodeFrame (bulkResponse meeting.job.store.digest) message bulkResponseMaxFrame with
  | .ok frame => { x with responses := x.responses ++ [frame], serving }
  | .error error => { x with serving := .ended (.error (.net (.frame error))) }

def accept (served : Served) (x : Exchange δ π ρ meeting.job.store.digest) :
    Except FrameError (BulkRequest δ) → Exchange δ π ρ meeting.job.store.digest
  | .error error => { x with serving := .ended (.error (.net (.frame error))) }
  | .ok .manifest => meeting.respond (.manifest meeting.manifest.toBytes) (.reading served) x
  | .ok (.chunks ids) =>
    if ids = [] ∨ ids.length > maxChunksPerRequest then
      { x with serving := .ended (.error (.violation "a chunk request of the wrong size")) }
    else if ¬ ∀ id ∈ ids, id ∈ meeting.manifest.chunks.map ChunkEntry.id then
      { x with serving := .ended (.error (.violation "a request for a chunk not in the manifest")) }
    else { x with serving := .replying ids served }

def reply (id : δ) (ids : List δ) (served : Served) (x : Exchange δ π ρ meeting.job.store.digest) :
    Exchange δ π ρ meeting.job.store.digest :=
  match (meeting.source.readCompressed id).run x.source with
  | (.ok frame, source) =>
    meeting.respond (.chunk id frame) (.replying ids ⟨served.chunks + 1, served.bytes + frame.length⟩) { x with source }
  | (.error error, source) => meeting.respond .unavailable (.ended (.error (.store error))) { x with source }

def serveStep (x : Exchange δ π ρ meeting.job.store.digest) : Option (Exchange δ π ρ meeting.job.store.digest) :=
  match x.serving with
  | .reading served =>
    match x.requests with
    | frame :: requests =>
      some (meeting.accept served { x with requests }
        (readFrame (bulkRequest meeting.job.store.digest) bulkRequestMaxFrame frame))
    | [] => match x.phase with
      -- The fetching side is done, or gone.
      | .done _ => some { x with serving := .ended (.ok served) }
      | _ => none
  | .replying [] served => some { x with serving := .reading served }
  | .replying (id :: ids) served => some (meeting.reply id ids served x)
  | .ended _ => none

def step : Side → Exchange δ π ρ meeting.job.store.digest → Option (Exchange δ π ρ meeting.job.store.digest)
  | .fetch => meeting.fetchStep
  | .serve => meeting.serveStep

def run : List Side → Exchange δ π ρ meeting.job.store.digest → Option (Exchange δ π ρ meeting.job.store.digest)
  | [], x => some x
  | side :: schedule, x => (meeting.step side x).bind (run schedule)

def start (disk : Disk π) (source : Disk ρ) : Exchange δ π ρ meeting.job.store.digest where
  phase := .asking
  disk := disk
  serving := .reading ⟨0, 0⟩
  source := source
  requests := []
  responses := []
  opened := disk.files
  asked := []

end Meeting

end Tpf3Mp.Net
