import Tpf3Mp.Run.Threads
import Tpf3Mp.Snapshot.Store
import Mathlib.Data.List.AList
import Mathlib.Data.List.Sort

/-!
The chunk store as the threads of a process share it (`store.rs` and `sink.rs`), one file operation or
lock section at a time. Every file operation may be refused, without effect. Of a chunk file only its
length, its time and whether it holds its chunk count here, and of a saved manifest only whether it reads
back. Temporary files, progress and bytes are left out, as no other thread sees them.
-/

namespace Tpf3Mp.Snapshot.Shared
open Run List

structure File where
  len : Nat
  stamp : Nat
  intact : Bool
  deriving DecidableEq

inductive Saved where
  | good
  | damaged
  deriving DecidableEq

structure World (ι δ μ : Type) where
  chunks : AList fun _ : δ => File
  used : Nat
  /-- The thread that holds the lock of the accounting. -/
  accounting : Option ι
  roots : AList fun _ : μ => Saved
  pending : AList fun _ : μ => Saved
  /-- The threads that share the collection lock. -/
  readers : List ι
  /-- The thread that holds the collection lock alone. -/
  collector : Option ι
  /-- The snapshots with an open sink, and whose it is. -/
  openSinks : AList fun _ : μ => ι
  now : Nat
  /-- Whether a file operation was refused since the store was opened or last collected. -/
  refused : Bool
  /-- The snapshots of the sinks that were opened and have not ended. -/
  sinks : List μ
  /-- The transfers whose record a thread is about to remove without a claim. -/
  leaving : List (ι × μ)

/-- What the store is set up for, and what its manifests list. -/
structure Setup (δ μ : Type) where
  maxBytes : Nat
  syncChunks : Bool
  /-- The chunks that a manifest lists. -/
  parts : μ → List δ
  /-- Whether a manifest states the length that a chunk of it has. -/
  fits : μ → δ → Bool
  /-- Whether a manifest states the hash that its chunks have together. -/
  hashes : μ → Bool
  /-- The order of the manifests' ids. -/
  order : μ → μ → Bool

inductive Failure where
  | io (action : String)
  | full (used limit needed : Nat)
  | notFound
  | corrupt
  | incomplete (missing : Nat)
  | mismatch
  | unknownSnapshot
  | damagedRecord
  | alreadyOpen
  | notInManifest
  | rejected
  | finished
  deriving DecidableEq

abbrev Action (ι δ μ α : Type) := Prog (World ι δ μ) α

abbrev Call (ι δ μ α : Type) := ExceptT Failure (Prog (World ι δ μ)) α

def total {δ : Type} (chunks : AList fun _ : δ => File) : Nat := (chunks.entries.map fun entry => entry.2.len).sum

def World.opened {ι δ μ : Type} (chunks : AList fun _ : δ => File) (roots pending : AList fun _ : μ => Saved) :
    World ι δ μ where
  chunks
  used := chunks.entries.foldl (fun used entry => used + entry.2.len) 0
  accounting := none
  roots
  pending
  readers := []
  collector := none
  openSinks := ∅
  now := 0
  refused := false
  sinks := []
  leaving := []

section Operations

variable {ι δ μ α : Type} [DecidableEq ι] [DecidableEq δ] [DecidableEq μ]

def fileOp (action : String) (outcomes : World ι δ μ → List (α × World ι δ μ)) : Call ι δ μ α :=
  ExceptT.mk (.once fun w =>
    (outcomes w).map (fun (a, w) => (.ok a, w)) ++ [(.error (.io action), { w with refused := true })])

/-- A file operation that changes nothing a thread can see. -/
def attempt (action : String) : Call ι δ μ Unit := fileOp action fun w => [((), w)]

def lockAccounting (me : ι) : Action ι δ μ Unit :=
  .once fun w => if w.accounting = none then [((), { w with accounting := some me })] else []

def unlockAccounting : Action ι δ μ Unit := .once fun w => [((), { w with accounting := none })]

def lockShared (me : ι) : Action ι δ μ Unit :=
  .once fun w => if w.collector = none then [((), { w with readers := me :: w.readers })] else []

def unlockShared (me : ι) : Action ι δ μ Unit := .once fun w => [((), { w with readers := w.readers.erase me })]

def lockExclusive (me : ι) : Action ι δ μ Unit :=
  .once fun w => if w.collector = none ∧ w.readers = [] then [((), { w with collector := some me })] else []

def unlockExclusive : Action ι δ μ Unit := .once fun w => [((), { w with collector := none })]

/-- Runs a call under a lock, which is given back however it ends. -/
def locked (acquire release : Action ι δ μ Unit) (body : Call ι δ μ α) : Call ι δ μ α := ExceptT.mk do
  acquire
  let result ← body.run
  release
  return result

/-- How a call ends, for a caller that goes on either way. -/
def caught (body : Call ι δ μ α) : Call ι δ μ (Except Failure α) := ExceptT.lift body.run

def accounted (me : ι) (body : Call ι δ μ α) : Call ι δ μ α := locked (lockAccounting me) unlockAccounting body

def shared (me : ι) (body : Call ι δ μ α) : Call ι δ μ α := locked (lockShared me) (unlockShared me) body

def forEach {κ : Type} (body : κ → Call ι δ μ Unit) : List κ → Call ι δ μ Unit
  | [] => return
  | first :: rest => do
    body first
    forEach body rest

def holdsChunk (file : File) : Bool := file.len > chunkHeaderLen

def inspect (id : δ) : Call ι δ μ (Option File) := fileOp "inspect" fun w => [(w.chunks.lookup id, w)]

def has (id : δ) : Call ι δ μ Bool := do
  return (← inspect id).any holdsChunk

def missing : List δ → Call ι δ μ (List δ)
  | [] => return []
  | id :: ids => do
    let present ← has id
    let rest ← missing ids
    return if present then rest else id :: rest

/-- The accounting's count, which only a thread that holds its lock reads. -/
def readUsed : Action ι δ μ Nat := .once fun w => [(w.used, w)]

def setUsed (used : Nat) : Action ι δ μ Unit := .once fun w => [((), { w with used })]

/-- Whether a fan-out directory is not known to exist is left open. -/
def newFan : Action ι δ μ Bool := .once fun w => [(true, w), (false, w)]

/-- `commit`, under the lock of the accounting. -/
def commit (setup : Setup δ μ) (id : δ) (file : File) : Call ι δ μ Bool := do
  let found ← inspect id
  if found.any holdsChunk then return false
  else
    let replaced := (found.map File.len).getD 0
    let used := (← (readUsed : Action ι δ μ Nat)) - replaced
    if used + file.len > setup.maxBytes then throw (.full used setup.maxBytes file.len)
    else
      if ← (newFan : Action ι δ μ Bool) then attempt "create"
      fileOp "store" fun w => [((), { w with chunks := w.chunks.insert id file })]
      (setUsed (used + file.len) : Action ι δ μ Unit)
      return true

/-- When a file is written: now, or later than any other. -/
def writeTemp : Call ι δ μ Nat := do
  attempt "create"
  fileOp "write" fun w => [(w.now, w), (w.now + 1, { w with now := w.now + 1 })]

def writeChunk (setup : Setup δ μ) (me : ι) (id : δ) (frameLen : Nat) : Call ι δ μ Bool := do
  let stamp ← writeTemp
  if setup.syncChunks then attempt "write"
  accounted me (commit setup id ⟨chunkHeaderLen + frameLen, stamp, true⟩)

/-- Removes a damaged chunk file, unless it was replaced since it was read. -/
def discard (me : ι) (id : δ) (read : File) : Call ι δ μ Unit := accounted me do
  match ← inspect id with
  | none => return
  | some found =>
    if (found.len, found.stamp) = (read.len, read.stamp) then
      let removed ← fileOp "remove damaged chunk" fun w =>
        [((w.chunks.lookup id).isSome, { w with chunks := w.chunks.erase id })]
      if removed then
        let used ← (readUsed : Action ι δ μ Nat)
        (setUsed (used - read.len) : Action ι δ μ Unit)

/-- Reads and verifies a chunk file, removing it if it is damaged. -/
def load (me : ι) (id : δ) : Call ι δ μ Unit := do
  match ← fileOp "open" fun w => [(w.chunks.lookup id, w)] with
  | none => throw .notFound
  | some file => do
    attempt "inspect"
    attempt "read"
    if file.intact then return
    else
      discard me id file
      throw .corrupt

def discardDamaged (me : ι) (ids : List δ) : Call ι δ μ Unit :=
  forEach (fun id => do
    match ← caught (load me id) with
    | .ok () | .error .corrupt | .error .notFound => return
    | .error error => throw error) ids

/-- `stream_file`, into a file or into nothing. -/
def streamFile (setup : Setup δ μ) (me : ι) (id : μ) (publishes : Bool) : Call ι δ μ Unit := do
  forEach (fun chunk => do
    match ← caught (load me chunk) with
    | .error .corrupt => do
      discardDamaged me (setup.parts id).eraseDups
      throw .corrupt
    | .error error => throw error
    | .ok () =>
      if setup.fits id chunk then
        if publishes then attempt "write" else return
      else throw .mismatch) (setup.parts id)
  if setup.hashes id then return else throw .mismatch

def World.record (w : World ι δ μ) : Record → AList fun _ : μ => Saved
  | .root => w.roots
  | .pending => w.pending

def World.setRecord (w : World ι δ μ) (record : Record) (files : AList fun _ : μ => Saved) : World ι δ μ :=
  match record with
  | .root => { w with roots := files }
  | .pending => { w with pending := files }

def listRecords (setup : Setup δ μ) (record : Record) : Call ι δ μ (List μ) :=
  fileOp "list" fun w => [((w.record record).keys.insertionSort (setup.order · ·), w)]

def loadRecord (record : Record) (id : μ) : Call ι δ μ Unit := do
  match ← fileOp "open" fun w => [((w.record record).lookup id, w)] with
  | none => throw .unknownSnapshot
  | some saved => do
    attempt "read"
    match saved with
    | .good => return
    | .damaged => throw .damagedRecord

def removeRecord (record : Record) (id : μ) : Call ι δ μ Unit :=
  fileOp "remove" fun w => [((), w.setRecord record ((w.record record).erase id))]

def writeRecord (record : Record) (id : μ) : Call ι δ μ Unit := do
  let _ ← writeTemp
  fileOp "save" fun w => [((), w.setRecord record ((w.record record).insert id .good))]

def promote (id : μ) : Call ι δ μ Unit := do
  let moved ← fileOp "retain" fun w => [match w.pending.lookup id with
    | some saved => (true, { w with roots := w.roots.insert id saved, pending := w.pending.erase id })
    | none => (false, w)]
  if moved then return else writeRecord .root id

def claimSink (me : ι) (id : μ) : Action ι δ μ Bool :=
  .once fun w => if (w.openSinks.lookup id).isSome then [(false, w)]
    else [(true, { w with openSinks := w.openSinks.insert id me })]

/-- Gives a claim up. `removing` if the thread goes on to remove the transfer's record. -/
def dropClaim (me : ι) (id : μ) (removing : Bool) : Action ι δ μ Unit :=
  .once fun w => [((), { w with
    openSinks := w.openSinks.erase id
    sinks := w.sinks.filter (· ≠ id)
    leaving := if removing then (me, id) :: w.leaving else w.leaving })]

/-- A removal of a transfer's record without a claim. -/
def removeLate (me : ι) (id : μ) : Call ι δ μ Unit :=
  ExceptT.mk (.once fun w =>
    [(.ok (), { w with pending := w.pending.erase id, leaving := w.leaving.erase (me, id) }),
      (.error (.io "remove"), { w with refused := true, leaving := w.leaving.erase (me, id) })])

structure Sink (δ μ : Type) where
  id : μ
  missing : List δ
  finished : Bool

/-- The rest of `open` and `resume`, once a claim is there: the claim is given up if it fails. -/
def startSink (setup : Setup δ μ) (me : ι) (id : μ) (record : Call ι δ μ Unit) (removing : Bool) :
    Call ι δ μ (Sink δ μ) := ExceptT.mk do
  if ← claimSink me id then
    let found ← (do
      record
      missing (setup.parts id).eraseDups).run
    match found with
    | .ok missing => do
      .once fun w => [((), { w with sinks := id :: w.sinks })]
      return .ok ⟨id, missing, false⟩
    | .error error => do
      dropClaim me id (removing && error = .damagedRecord)
      return .error error
  else return .error .alreadyOpen

def openSink (setup : Setup δ μ) (me : ι) (id : μ) : Call ι δ μ (Sink δ μ) :=
  startSink setup me id (shared me (writeRecord .pending id)) false

/-- `ChunkSink::resume`. `removing` if the caller removes a damaged record afterwards. -/
def resumeSink (setup : Setup δ μ) (me : ι) (id : μ) (removing : Bool) : Call ι δ μ (Sink δ μ) :=
  startSink setup me id (loadRecord .pending id) removing

/-- `ChunkSink::put`, of a frame that is of the chunk named or is not. -/
def put (setup : Setup δ μ) (me : ι) (sink : Sink δ μ) (chunk : δ) (frameLen : Nat) (valid : Bool) :
    Call ι δ μ (Sink δ μ) :=
  if sink.finished then throw .finished
  else if chunk ∉ setup.parts sink.id then throw .notInManifest
  else if chunk ∉ sink.missing then return sink
  else if valid then do
    let _ ← shared me (writeChunk setup me chunk frameLen)
    return { sink with missing := sink.missing.filter (· ≠ chunk) }
  else throw .rejected

/-- What `assemble_then` and `verify_then` have in common, `then` being run once all is verified. -/
def verifyThen (setup : Setup δ μ) (me : ι) (id : μ) (publishes : Bool) (next : Call ι δ μ Unit) : Call ι δ μ Unit :=
  shared me do
    let lacking ← missing (setup.parts id).eraseDups
    if lacking ≠ [] then throw (.incomplete lacking.length)
    else
      if publishes then attempt "create"
      streamFile setup me id publishes
      if publishes then attempt "flush"
      next
      if publishes then attempt "publish"

def finish (setup : Setup δ μ) (me : ι) (sink : Sink δ μ) (publishes : Bool) : Action ι δ μ (Sink δ μ) :=
  if sink.finished then return sink
  else if sink.missing ≠ [] then return sink
  else do
    match ← (verifyThen setup me sink.id publishes (promote sink.id)).run with
    | .ok () => do
      dropClaim me sink.id false
      return { sink with finished := true }
    | .error .mismatch => do
      -- Left pending, it would pin its chunks forever.
      dropClaim me sink.id true
      let _ ← (removeLate me sink.id).run
      return { sink with finished := true }
    | .error _ => do
      match ← (missing (setup.parts sink.id).eraseDups).run with
      | .ok missing => return { sink with missing }
      | .error _ => return sink

def abandon (me : ι) (id : μ) : Call ι δ μ Unit := ExceptT.mk do
  .once fun w => [((), { w with sinks := w.sinks.filter (· ≠ id) })]
  let removed ← (removeRecord .pending id).run
  dropClaim me id false
  return removed

inductive SinkCall (δ : Type) where
  | put (chunk : δ) (frameLen : Nat) (valid : Bool)
  | finish (publishes : Bool)
  | refresh

inductive Ending where
  | abandon
  | drop

def sinkCall (setup : Setup δ μ) (me : ι) (sink : Sink δ μ) : SinkCall δ → Action ι δ μ (Sink δ μ)
  | .put chunk frameLen valid => do
    match ← (put setup me sink chunk frameLen valid).run with
    | .ok sink => return sink
    | .error _ => return sink
  | .finish publishes => finish setup me sink publishes
  | .refresh => do
    match ← (missing (setup.parts sink.id).eraseDups).run with
    | .ok missing => return { sink with missing }
    | .error _ => return sink

def sinkCalls (setup : Setup δ μ) (me : ι) (sink : Sink δ μ) : List (SinkCall δ) → Action ι δ μ (Sink δ μ)
  | [] => return sink
  | call :: calls => do
    let sink ← sinkCall setup me sink call
    sinkCalls setup me sink calls

def transfer (setup : Setup δ μ) (me : ι) (opening : Call ι δ μ (Sink δ μ)) (calls : List (SinkCall δ))
    (ending : Ending) :
    Action ι δ μ Unit := do
  match ← opening.run with
  | .error _ => return
  | .ok sink => do
    let sink ← sinkCalls setup me sink calls
    if sink.finished then return
    else
      match ending with
      | .abandon => do
        let _ ← (abandon me sink.id).run
      | .drop => dropClaim me sink.id false

def storeParts (setup : Setup δ μ) (me : ι) (id : μ) (frameLen : δ → Nat) : Call ι δ μ Unit :=
  forEach (fun chunk => do
    attempt "read"
    if ← has chunk then return
    else
      let _ ← writeChunk setup me chunk (frameLen chunk)) (setup.parts id)

def ingest (setup : Setup δ μ) (me : ι) (id : μ) (frameLen : δ → Nat) : Call ι δ μ Unit := shared me do
  storeParts setup me id frameLen
  writeRecord .root id

/-- The chunks of the manifests saved as one kind of record, those that cannot be read being dropped. -/
def keepRecords (setup : Setup δ μ) (record : Record) : List μ → List δ → Call ι δ μ (List δ)
  | [], keep => return keep
  | id :: ids, keep => do
    match ← caught (loadRecord record id) with
    | .ok () => keepRecords setup record ids (setup.parts id ++ keep)
    | .error .damagedRecord => do
      removeRecord record id
      keepRecords setup record ids keep
    | .error .unknownSnapshot => keepRecords setup record ids keep
    | .error error => throw error

def sweep (keep : List δ) : List δ → Nat → Call ι δ μ Nat
  | [], kept => return kept
  | id :: ids, kept => do
    match ← fileOp "inspect" fun w => [(w.chunks.lookup id, w)] with
    | none => throw (.io "inspect")
    | some file =>
      if id ∈ keep then sweep keep ids (kept + file.len)
      else
        match ← caught (fileOp "remove" fun w => [((), { w with chunks := w.chunks.erase id })]) with
        | .ok () => sweep keep ids kept
        | .error _ => sweep keep ids (kept + file.len)

def recount (me : ι) (keep : List δ) : Call ι δ μ Unit := accounted me do
  -- The files come in no particular order.
  let ids ← fileOp "list" fun w => w.chunks.keys.permutations.map fun ids => (ids, w)
  let kept ← sweep keep ids 0
  (.once fun w => [((), { w with used := kept, refused := false })] : Action ι δ μ Unit)

def collect (setup : Setup δ μ) (me : ι) (live : List μ) : Call ι δ μ Unit := do
  let keep := live.flatMap setup.parts
  let keep ← keepRecords setup .root (← listRecords setup .root) keep
  let keep ← keepRecords setup .pending (← listRecords setup .pending) keep
  recount me keep
  attempt "list"

def gc (setup : Setup δ μ) (me : ι) (live : List μ) : Call ι δ μ Unit :=
  locked (lockExclusive me) unlockExclusive (collect setup me live)

def abandonIdle (setup : Setup δ μ) (me : ι) : Call ι δ μ Unit := do
  forEach (fun id => do
    match ← caught (resumeSink setup me id true) with
    | .ok _ => abandon me id
    | .error .damagedRecord => removeLate me id
    | .error (.io action) => throw (.io action)
    | .error _ => return) (← listRecords setup .pending)

inductive Task (δ μ : Type) where
  | read (chunk : δ)
  | assemble (id : μ)
  | ingest (id : μ) (frameLen : δ → Nat)
  | open (id : μ) (calls : List (SinkCall δ)) (ending : Ending)
  | resume (id : μ) (calls : List (SinkCall δ)) (ending : Ending)
  | release (id : μ)
  | abandonIdle
  | gc (live : List μ)

def Task.prog (setup : Setup δ μ) (me : ι) : Task δ μ → Action ι δ μ Unit
  | .read chunk => do let _ ← (load me chunk).run
  | .assemble id => do let _ ← (verifyThen setup me id true (return)).run
  | .ingest id frameLen => do let _ ← (Shared.ingest setup me id frameLen).run
  | .open id calls ending => transfer setup me (openSink setup me id) calls ending
  | .resume id calls ending => transfer setup me (resumeSink setup me id false) calls ending
  | .release id => do let _ ← (removeRecord .root id).run
  | .abandonIdle => do let _ ← (Shared.abandonIdle setup me).run
  | .gc live => do let _ ← (Shared.gc setup me live).run

def work (setup : Setup δ μ) (me : ι) : List (Task δ μ) → Action ι δ μ Unit
  | [] => return
  | task :: tasks => do
    task.prog setup me
    work setup me tasks

def process (setup : Setup δ μ) (world : World ι δ μ) (tasks : ι → List (Task δ μ)) : System ι (World ι δ μ) where
  state := world
  threads me := work setup me (tasks me)

end Operations

section Made

variable {ι δ μ α : Type}

def Ends (ok : α → World ι δ μ → Prop) (failed : World ι δ μ → Prop) : Except Failure α → World ι δ μ → Prop
  | .ok a => ok a
  | .error _ => failed

/-- What an action does that no other thread sees: time passes, and a refusal is noted. -/
def Aside (w w' : World ι δ μ) : Prop :=
  ∃ now refused, (w.refused = true → refused = true) ∧ w' = { w with now, refused }

theorem mem_fileOp {outcomes : List (α × World ι δ μ)} {action : String} {w w' : World ι δ μ}
    {result : Except Failure α}
    (among : (result, w') ∈ outcomes.map (fun (a, w) => ((.ok a : Except Failure α), w)) ++
      [(.error (.io action), { w with refused := true })]) :
    (∃ a, result = .ok a ∧ (a, w') ∈ outcomes) ∨
      result = .error (.io action) ∧ w' = { w with refused := true } := by
  rcases mem_append.mp among with done | failed
  · obtain ⟨⟨a, next⟩, taken, same⟩ := mem_map.mp done
    cases same
    exact .inl ⟨a, rfl, taken⟩
  · cases mem_singleton.mp failed
    exact .inr ⟨rfl, rfl⟩

theorem Aside.same (w : World ι δ μ) : Aside w w := ⟨w.now, w.refused, id, rfl⟩

theorem Aside.failed (w : World ι δ μ) : Aside w { w with refused := true } := ⟨w.now, true, fun _ => rfl, rfl⟩

theorem forEach_made {κ : Type} {part : ∀ α : Type, Action ι δ μ α → Prop} {body : κ → Call ι δ μ Unit}
    (each : ∀ k, Prog.Made part (body k).run) (ks : List κ) : Prog.Made part (forEach body ks).run := by
  induction ks with
  | nil => exact .ret _
  | cons first rest ih => exact .exceptBind (each first) fun _ => ih

variable [DecidableEq δ] {setup : Setup δ μ} {me : ι}

inductive ChunkPart (setup : Setup δ μ) (me : ι) : ∀ α : Type, Action ι δ μ α → Prop where
  | aside {α : Type} {outcomes : World ι δ μ → List (α × World ι δ μ)}
    (each : ∀ w a w', (a, w') ∈ outcomes w → Aside w w') : ChunkPart setup me α (.once outcomes)
  | commit (id : δ) (file : File) : ChunkPart setup me _ (accounted me (commit setup id file)).run
  | discard (id : δ) (read : File) : ChunkPart setup me _ (discard me id read).run

theorem fileOp_made {action : String} {outcomes : World ι δ μ → List (α × World ι δ μ)}
    (each : ∀ w a w', (a, w') ∈ outcomes w → Aside w w') :
    Prog.Made (ChunkPart setup me) (fileOp action outcomes).run := by
  refine .part (.aside fun w result w' among => ?_)
  rcases mem_fileOp among with ⟨a, _, taken⟩ | ⟨_, rfl⟩
  · exact each w a w' taken
  · exact .failed w

theorem look_made {action : String} {f : World ι δ μ → α} :
    Prog.Made (ChunkPart setup me) (fileOp action fun w => [(f w, w)]).run := by
  refine fileOp_made fun w a w' among => ?_
  cases mem_singleton.mp among
  exact .same w

theorem missing_made (ids : List δ) : Prog.Made (ChunkPart setup me) (missing ids).run := by
  induction ids with
  | nil => exact .ret _
  | cons id ids ih =>
    refine .exceptBind (.exceptBind look_made fun _ => .ret _) fun present => ?_
    exact .exceptBind ih fun rest => .ret _

theorem writeTemp_made : Prog.Made (ChunkPart setup me) writeTemp.run := by
  refine .exceptBind look_made fun _ => fileOp_made fun w stamp w' among => ?_
  rcases mem_cons.mp among with same | among
  · cases same
    exact .same w
  · cases mem_singleton.mp among
    exact ⟨w.now + 1, w.refused, id, rfl⟩

theorem writeChunk_made (id : δ) (frameLen : Nat) :
    Prog.Made (ChunkPart setup me) (writeChunk setup me id frameLen).run := by
  refine .exceptBind writeTemp_made fun stamp => ?_
  have committed : Prog.Made (ChunkPart setup me)
      (accounted me (commit setup id ⟨chunkHeaderLen + frameLen, stamp, true⟩)).run := .part (.commit _ _)
  split
  · exact .exceptBind look_made fun _ => committed
  · exact committed

theorem load_made (id : δ) : Prog.Made (ChunkPart setup me) (load me id).run := by
  refine .exceptBind look_made fun found => ?_
  cases found with
  | none => exact .ret _
  | some file =>
    refine .exceptBind look_made fun _ => .exceptBind look_made fun _ => ?_
    split
    · exact .ret _
    · exact .exceptBind (.part (.discard id file)) fun _ => .ret _

theorem discardDamaged_made (ids : List δ) : Prog.Made (ChunkPart setup me) (discardDamaged me ids).run := by
  refine forEach_made (fun id => ?_) ids
  refine .exceptBind (.lift (load_made id)) fun result => ?_
  split
  all_goals exact .ret _

theorem streamFile_made (id : μ) (publishes : Bool) :
    Prog.Made (ChunkPart setup me) (streamFile setup me id publishes).run := by
  have each (chunk : δ) : Prog.Made (ChunkPart setup me) (do
      match ← caught (load me chunk) with
      | .error .corrupt => do
        discardDamaged me (setup.parts id).eraseDups
        throw .corrupt
      | .error error => throw error
      | .ok () =>
        if setup.fits id chunk then
          if publishes then attempt "write" else return
        else throw .mismatch : Call ι δ μ Unit).run := by
    refine .exceptBind (.lift (load_made chunk)) fun result => ?_
    split
    · exact .exceptBind (discardDamaged_made _) fun _ => .ret _
    · exact .ret _
    split
    · split
      · exact look_made
      · exact .ret _
    · exact .ret _
  refine .exceptBind (forEach_made each _) fun _ => ?_
  split
  all_goals exact .ret _

theorem storeParts_made (id : μ) (frameLen : δ → Nat) :
    Prog.Made (ChunkPart setup me) (storeParts setup me id frameLen).run := by
  refine forEach_made (fun chunk => ?_) _
  refine .exceptBind look_made fun _ => .exceptBind (.exceptBind look_made fun _ => .ret _) fun present => ?_
  split
  · exact .ret _
  · exact .exceptBind (writeChunk_made chunk _) fun _ => .ret _

end Made

end Tpf3Mp.Snapshot.Shared
