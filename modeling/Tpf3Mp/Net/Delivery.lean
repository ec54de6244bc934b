import Tpf3Mp.Net.Transfer

/-!
What a fetch and a serve do together (`bulk::fetch`, `bulk::serve`): what was asked for and not yet
answered is on its way, in order, so that every answer is the one that is due.
-/

namespace Tpf3Mp.Net
open Codec Run Snapshot Proto List

namespace Meeting

variable {δ π ρ : Type} [DecidableEq δ] {meeting : Meeting δ π ρ}

variable (meeting) in
abbrev entries : List (ChunkEntry δ) := meeting.manifest.uniqueChunks

variable (meeting) in
/-- What the exchange starts from: both stores work, the source holds the snapshot, and no hash is of
two contents. -/
structure Ready (disk : Disk π) (source : Disk ρ) : Prop where
  wide : Wide meeting.job.store.digest
  sound : meeting.job.store.medium.Sound
  soundSource : meeting.source.medium.Sound
  sane : meeting.job.store.layout.Sane
  /-- The file, if there is to be one, has a name, and is none of the store's own. -/
  foreign : meeting.job.completion.Foreign meeting.job.store.layout
  named : ∀ dest, meeting.job.completion = .file dest → ∀ number,
    (meeting.job.store.layout.partialPath dest number).isSome = true
  free : meeting.job.claimed = false
  expected : meeting.manifest.id = meeting.job.expected
  serves : ∃ content, meeting.source.Restores source.files meeting.manifest content
  agrees : ∀ id raw raw', meeting.job.store.Holds disk.files id raw →
    meeting.source.Holds source.files id raw' → raw = raw'
  unique : ∀ bytes other, disk.files (meeting.job.store.layout.recordPath .pending meeting.manifest.id) = some bytes →
    Manifest.fromBytes meeting.job.store.digest bytes = .ok other → other.id = meeting.manifest.id →
      other = meeting.manifest

inductive Item (δ : Type) where
  | manifest
  | chunk (id : δ)

def items : BulkRequest δ → List (Item δ)
  | .manifest => [.manifest]
  | .chunks ids => ids.map .chunk

variable (meeting) in
inductive Valid : BulkRequest δ → Prop where
  | manifest : Valid .manifest
  | chunks {ids : List δ} (some : ids ≠ []) (few : ids.length ≤ maxChunksPerRequest)
    (listed : ∀ id ∈ ids, id ∈ meeting.entries.map ChunkEntry.id) : Valid (.chunks ids)

variable (meeting) in
inductive Answers (held : ρ → Option Bytes) : Item δ → BulkResponse δ → Prop where
  | manifest : Answers held .manifest (.manifest meeting.manifest.toBytes)
  | chunk {entry : ChunkEntry δ} {frame raw : Bytes} (listed : entry ∈ meeting.entries)
    (holds : meeting.source.Holds held entry.id raw)
      (decoded : meeting.job.store.decode entry.id entry.len frame = .ok raw) :
    Answers held (.chunk entry.id) (.chunk entry.id frame)

def due : Serving δ ρ → List δ
  | .replying ids _ => ids
  | _ => []

variable (meeting) in
/-- What is under way in both directions, in the order in which it arrives. -/
structure Line (held : ρ → Option Bytes) (x : Exchange δ π ρ meeting.job.store.digest) (answered : List (Item δ))
    (answers : List (BulkResponse δ)) (asks : List (BulkRequest δ)) (flight : List (Item δ)) : Prop where
  good : Forall₂ (meeting.Answers held) answered answers
  responses : x.responses = answers.map (framed (bulkResponse meeting.job.store.digest))
  requests : x.requests = asks.map (framed (bulkRequest meeting.job.store.digest))
  valid : ∀ ask ∈ asks, meeting.Valid ask
  listed : ∀ id ∈ due x.serving, id ∈ meeting.entries.map ChunkEntry.id
  source : x.source.files = held
  flight : flight = answered ++ ((due x.serving).map .chunk ++ asks.flatMap items)
  going : ∀ result, x.serving = .ended result → (∃ served, result = .ok served) ∧ ∃ result, x.phase = .done result

def toil (asks : List (BulkRequest δ)) : Serving δ ρ → Nat
  | .reading _ => (asks.map fun ask => ask.ids.length + 2).sum + 1
  | .replying ids _ => (asks.map fun ask => ask.ids.length + 2).sum + ids.length + 2
  | .ended _ => 0

variable (meeting) in
def Carries (held : ρ → Option Bytes) (x : Exchange δ π ρ meeting.job.store.digest) (flight : List (Item δ))
    (cost : Nat) : Prop :=
  ∃ answered answers asks, meeting.Line held x answered answers asks flight ∧ cost = toil asks x.serving

def isOver {digest : Digest δ} : Phase δ π digest → Bool
  | .done _ => true
  | _ => false

omit [DecidableEq δ] in
theorem unfinished {digest : Digest δ} {phase : Phase δ π digest} (going : isOver phase = false)
    (result : Except (BulkError δ π) (Manifest digest)) : phase ≠ .done result := by
  rintro rfl
  cases going

section Sides

variable {disk : Disk π} {source : Disk ρ} (ready : meeting.Ready disk source)
  {x x' : Exchange δ π ρ meeting.job.store.digest} {flight : List (Item δ)}
include ready

theorem answer_passes {item : Item δ} {answer : BulkResponse δ} (good : meeting.Answers source.files item answer) :
    Passes (bulkResponse meeting.job.store.digest) bulkResponseMaxFrame answer := by
  cases good with
  | manifest =>
    exact manifestResponse_passes (encode_length ready.wide.length meeting.manifest.small meeting.manifest.tiles)
  | @chunk entry frame raw listed _ decoded =>
    obtain ⟨_, bounded, _⟩ := bind_ok.mp decoded
    have short := UInt32.le_trans (meeting.manifest.tiles.short entry (mem_uniqueAfter listed))
      meeting.manifest.params.ceiling
    exact chunkResponse_passes ready.wide
      ((ensure_ok.mp bounded).trans (ChunkStore.compressBound_le (UInt32.le_iff_toNat_le.mp short)))

theorem request_passes {ask : BulkRequest δ} (valid : meeting.Valid ask) :
    Passes (bulkRequest meeting.job.store.digest) bulkRequestMaxFrame ask := by
  cases valid with
  | manifest => exact manifestRequest_passes
  | chunks _ few _ => exact chunksRequest_passes ready.wide few

theorem source_answers [DecidableEq ρ] {id : δ} (listed : id ∈ meeting.entries.map ChunkEntry.id) {disk' : Disk ρ}
    (same : disk'.files = source.files) : ∃ frame disk'',
      (meeting.source.readCompressed id).run disk' = (.ok frame, disk'') ∧ disk''.files = source.files ∧
        meeting.Answers source.files (.chunk id) (.chunk id frame) := by
  obtain ⟨entry, among, rfl⟩ := mem_map.mp listed
  obtain ⟨content, restores⟩ := ready.serves
  obtain ⟨raw, holds, size⟩ := restores.held (mem_uniqueAfter among)
  obtain ⟨frame, disk'', ran, kept, len, decoded⟩ :=
    (ChunkStore.readCompressed_spec ready.soundSource holds).returns same
  have stated : len = entry.len := UInt32.toNat_inj.mp ((ChunkStore.decode_ok decoded).1.symm.trans size)
  subst stated
  exact ⟨frame, disk'', ran, kept, .chunk among holds decoded⟩

omit ready [DecidableEq δ] in
theorem forall₂_concat {α β : Type} {r : α → β → Prop} {as : List α} {bs : List β} {a : α} {b : β}
    (all : Forall₂ r as bs) (last : r a b) : Forall₂ r (as ++ [a]) (bs ++ [b]) :=
  rel_append all (.cons last .nil)

variable {cost : Nat}

theorem serveStep_carries [DecidableEq ρ] (carries : meeting.Carries source.files x flight cost)
    (stepped : meeting.serveStep x = some x') : (∃ cost' < cost, meeting.Carries source.files x' flight cost') ∧
      x'.phase = x.phase ∧ x'.disk = x.disk ∧ x'.opened = x.opened ∧ x'.asked = x.asked := by
  obtain ⟨answered, answers, asks, line, rfl⟩ := carries
  obtain ⟨phase, disk', serving, source', requests, responses, opened, asked⟩ := x
  obtain ⟨good, rfl, rfl, valid, listed, same, rfl, going⟩ := line
  cases serving with
  | reading served =>
    cases asks with
    | nil =>
      cases phase with
      | done result =>
        cases stepped
        refine ⟨⟨0, by simp [toil], answered, answers, [], ⟨good, rfl, rfl, valid, listed, same, rfl, ?_⟩, rfl⟩, rfl,
          rfl, rfl, rfl⟩
        rintro _ ⟨⟩
        exact ⟨⟨served, rfl⟩, result, rfl⟩
      | _ => cases stepped
    | cons ask asks =>
      have fine := valid ask mem_cons_self
      have later : ∀ other ∈ asks, meeting.Valid other := fun other among => valid other (mem_cons_of_mem _ among)
      have read := (request_passes ready fine).read (by decide)
      have stepped := Option.some.inj stepped
      rw [read] at stepped
      cases fine with
      | manifest =>
        have answer : meeting.Answers source.files .manifest (.manifest meeting.manifest.toBytes) := .manifest
        unfold accept respond at stepped
        rw [(answer_passes ready answer).encoded (by decide)] at stepped
        cases stepped
        refine ⟨⟨_, ?_, answered ++ [.manifest], answers ++ [.manifest meeting.manifest.toBytes], asks,
          ⟨forall₂_concat good answer, by simp, rfl, later, listed, same, by simp [due, items],
            fun _ same => by cases same⟩, rfl⟩, rfl, rfl, rfl, rfl⟩
        simp [toil]
      | @chunks ids some few listed' =>
        have sized : ¬ (ids = [] ∨ ids.length > maxChunksPerRequest) := by
          rintro (none | many)
          · exact some none
          · exact absurd few (not_le.mpr many)
        have known : ∀ id ∈ ids, id ∈ meeting.manifest.chunks.map ChunkEntry.id := by
          intro id among
          obtain ⟨entry, member, rfl⟩ := mem_map.mp (listed' id among)
          exact mem_map_of_mem (mem_uniqueAfter member)
        unfold accept at stepped
        dsimp only at stepped
        rw [if_neg sized, if_neg (Classical.not_not.mpr known)] at stepped
        cases stepped
        refine ⟨⟨_, ?_, answered, answers, asks,
          ⟨good, rfl, rfl, later, listed', same, by simp [due, items], fun _ same => by cases same⟩, rfl⟩,
          rfl, rfl, rfl, rfl⟩
        simp [toil, BulkRequest.ids]
        omega
  | replying ids served =>
    cases ids with
    | nil =>
      cases stepped
      refine ⟨⟨_, ?_, answered, answers, asks,
        ⟨good, rfl, rfl, valid, forall_mem_nil _, same, rfl, fun _ same => by cases same⟩, rfl⟩, rfl, rfl, rfl, rfl⟩
      simp [toil]
    | cons id ids =>
      obtain ⟨frame, source'', ran, kept, answer⟩ := source_answers ready (listed id mem_cons_self) same
      have stepped := Option.some.inj stepped
      unfold reply respond at stepped
      rw [ran] at stepped
      dsimp only at stepped
      rw [(answer_passes ready answer).encoded (by decide)] at stepped
      cases stepped
      refine ⟨⟨_, ?_, answered ++ [.chunk id], answers ++ [.chunk id frame], asks,
        ⟨forall₂_concat good answer, by simp, rfl, valid, fun other among => listed other (mem_cons_of_mem _ among),
          kept, by simp [due], fun _ same => by cases same⟩, rfl⟩, rfl, rfl, rfl, rfl⟩
      simp [toil]
  | ended result => cases stepped

section
omit ready

theorem Carries.moved (carries : meeting.Carries source.files x flight cost)
    (unfinished : ∀ result, x.phase ≠ .done result) (serving : x'.serving = x.serving) (kept : x'.source = x.source)
    (requests : x'.requests = x.requests) (responses : x'.responses = x.responses) :
    meeting.Carries source.files x' flight cost := by
  obtain ⟨answered, answers, asks, line, rfl⟩ := carries
  refine ⟨answered, answers, asks,
    ⟨line.good, responses.trans line.responses, requests.trans line.requests, line.valid, ?_, ?_, ?_, ?_⟩, ?_⟩
  · rw [serving]
    exact line.listed
  · rw [kept]
    exact line.source
  · rw [serving]
    exact line.flight
  · intro result ended
    obtain ⟨_, final, done⟩ := line.going result (serving.symm.trans ended)
    exact absurd done (unfinished final)
  · rw [serving]

theorem goOn_carries [DecidableEq π] (event : Event δ) (carries : meeting.Carries source.files x flight cost)
    (unfinished : ∀ result, x.phase ≠ .done result) :
    meeting.Carries source.files (meeting.goOn event x) flight cost := by
  unfold goOn
  dsimp only
  split
  · exact carries.moved unfinished rfl rfl rfl rfl
  · exact carries.moved unfinished rfl rfl rfl rfl
  · exact carries.moved unfinished rfl rfl rfl rfl

variable (meeting) in
abbrev posted (ask : BulkRequest δ) (x : Exchange δ π ρ meeting.job.store.digest) :
    Exchange δ π ρ meeting.job.store.digest :=
  { x with requests := x.requests ++ [framed (bulkRequest meeting.job.store.digest) ask], asked := x.asked ++ ask.ids }

end

theorem request_carries [DecidableEq π] (carries : meeting.Carries source.files x flight cost)
    (unfinished : ∀ result, x.phase ≠ .done result) {ask : BulkRequest δ} (valid : meeting.Valid ask) :
    meeting.request ask x = meeting.goOn (.sent (.ok ())) (meeting.posted ask x) ∧
      meeting.Carries source.files (meeting.posted ask x) (flight ++ items ask) (cost + ask.ids.length + 2) := by
  constructor
  · unfold request
    rw [(request_passes ready valid).encoded (by decide)]
  obtain ⟨answered, answers, asks, line, rfl⟩ := carries
  refine ⟨answered, answers, asks ++ [ask],
    ⟨line.good, line.responses, ?_, ?_, line.listed, line.source, ?_, line.going⟩, ?_⟩
  · simp [line.requests]
  · intro other among
    rcases mem_append.mp among with before | last
    · exact line.valid other before
    · cases mem_singleton.mp last
      exact valid
  · simp [line.flight]
  · have going := line.going
    cases serving : x.serving with
    | reading served => simp [toil]; omega
    | replying ids served => simp [toil]; omega
    | ended result =>
      obtain ⟨_, final, done⟩ := going result serving
      exact absurd done (unfinished final)

theorem hear_carries [DecidableEq π] (carries : meeting.Carries source.files x flight cost) {frame : Bytes}
    {responses : List Bytes}
    (arrived : x.responses = frame :: responses) : ∃ item answer rest, flight = item :: rest ∧
      meeting.Answers source.files item answer ∧ meeting.hear frame { x with responses } =
        meeting.goOn (.received (.ok answer)) { x with responses } ∧
      meeting.Carries source.files { x with responses } rest cost := by
  obtain ⟨answered, answers, asks, line, rfl⟩ := carries
  obtain ⟨good, framed, requests, valid, listed, same, rfl, going⟩ := line
  rw [arrived] at framed
  cases good with
  | nil => cases framed
  | @cons item answer answered answers first good =>
    obtain ⟨rfl, rfl⟩ := List.cons.inj framed
    refine ⟨item, answer, _, rfl, first, ?_, answered, answers, asks,
      ⟨good, rfl, requests, valid, listed, same, rfl, going⟩, rfl⟩
    unfold hear
    rw [(answer_passes ready first).read (by decide)]

omit ready in
theorem serve_works [DecidableEq ρ] (carries : meeting.Carries source.files x flight cost)
    (unfinished : ∀ result, x.phase ≠ .done result) (none : x.responses = []) (some : flight ≠ []) :
    (meeting.serveStep x).isSome = true ∧ ∀ result, x.serving ≠ .ended result := by
  obtain ⟨answered, answers, asks, line, rfl⟩ := carries
  have idle : answers = [] := map_eq_nil_iff.mp (line.responses.symm.trans none)
  have going : ∀ result, x.serving ≠ .ended result := by
    intro result ended
    obtain ⟨_, final, done⟩ := line.going result ended
    exact unfinished final done
  refine ⟨?_, going⟩
  have nothing : answered = [] := by
    have good := line.good
    rw [idle] at good
    cases good
    rfl
  have rest := line.flight
  rw [nothing, nil_append] at rest
  unfold serveStep
  cases serving : x.serving with
  | reading served =>
    rw [serving] at rest
    cases asks with
    | nil => exact absurd rest some
    | cons ask asks =>
      have requests := line.requests
      rw [map_cons] at requests
      rw [requests]
      rfl
  | replying ids served => cases ids <;> rfl
  | ended result => exact absurd serving (going result)

end Sides

section
omit [DecidableEq δ]

theorem batch_spec (room : Nat) (wanted : List (ChunkEntry δ)) (bytes : Nat) :
    (batch room wanted bytes).1 ++ (batch room wanted bytes).2.1 = wanted ∧ (batch room wanted bytes).1.length ≤ room ∧
      (batch room wanted bytes).2.2 = bytes + covered (batch room wanted bytes).1 := by
  induction room generalizing wanted bytes with
  | zero => exact ⟨rfl, Nat.le_refl 0, rfl⟩
  | succ room ih =>
    cases wanted with
    | nil => exact ⟨rfl, Nat.zero_le _, rfl⟩
    | cons entry wanted =>
      unfold batch
      split
      · obtain ⟨all, few, sum⟩ := ih wanted (bytes + entry.len.toNat)
        refine ⟨congrArg (entry :: ·) all, Nat.succ_le_succ few, ?_⟩
        rw [sum, covered_cons, Nat.add_assoc]
      · exact ⟨rfl, Nat.zero_le _, rfl⟩

theorem batch_window (room : Nat) {wanted : List (ChunkEntry δ)} {bytes longest : Nat}
    (short : ∀ entry ∈ wanted, entry.len.toNat ≤ longest) (below : bytes < fetchWindow + longest) :
    (batch room wanted bytes).2.2 < fetchWindow + longest := by
  induction room generalizing wanted bytes with
  | zero => exact below
  | succ room ih =>
    cases wanted with
    | nil => exact below
    | cons entry wanted =>
      have here := short entry mem_cons_self
      unfold batch
      split
      · exact ih (fun other among => short other (mem_cons_of_mem _ among)) (by omega)
      · exact below

theorem batch_some {wanted : List (ChunkEntry δ)} {bytes : Nat} (below : bytes < fetchWindow) (some : wanted ≠ []) :
    (batch maxChunksPerRequest wanted bytes).1 ≠ [] := by
  obtain ⟨entry, rest, rfl⟩ := exists_cons_of_ne_nil some
  change (batch (255 + 1) (entry :: rest) bytes).1 ≠ []
  unfold batch
  rw [if_pos below]
  exact cons_ne_nil _ _

end

def longest {digest : Digest δ} (manifest : Manifest digest) : Nat :=
  (manifest.chunks.map fun entry => entry.len.toNat).foldr max 0

omit [DecidableEq δ] in
theorem le_longest {digest : Digest δ} {manifest : Manifest digest} {entry : ChunkEntry δ}
    (among : entry ∈ manifest.chunks) : entry.len.toNat ≤ longest manifest := by
  unfold longest
  generalize manifest.chunks = chunks at among ⊢
  induction chunks with
  | nil => cases among
  | cons first chunks ih =>
    rcases mem_cons.mp among with rfl | later
    · exact Nat.le_max_left _ _
    · exact (ih later).trans (Nat.le_max_right _ _)

section Course

variable (meeting) (held : ρ → Option Bytes)

/-- A transfer under way, with `out` requested and not answered, `due` to be received next and `unsent` to be
sent next. -/
structure Course (transfer : Transfer meeting.job.store.digest) (files opened : π → Option Bytes)
    (asked unsent due : List δ) (out : List (ChunkEntry δ)) : Prop where
  manifest : transfer.manifest = meeting.manifest
  sink : transfer.sink.manifest = meeting.manifest
  unfinished : transfer.sink.finished = false
  listed : ∀ entry ∈ out ++ transfer.wanted, entry ∈ meeting.entries
  outstanding : transfer.outstanding = out.map fun entry => (entry.id, entry.len.toNat)
  bytes : transfer.outstandingBytes = covered out
  window : transfer.outstandingBytes < fetchWindow + longest meeting.manifest
  missing : transfer.sink.missing = due ++ (out ++ transfer.wanted).map ChunkEntry.id
  nodup : transfer.sink.missing.Nodup
  present : ∀ entry ∈ meeting.entries, entry.id ∉ transfer.sink.missing →
    meeting.job.store.present files entry.id = true
  asked : asked ++ (unsent ++ transfer.wanted.map ChunkEntry.id) = meeting.job.store.lacked opened meeting.manifest
  recorded : files (meeting.job.store.layout.recordPath .pending meeting.manifest.id) = some meeting.manifest.toBytes
  agrees : ∀ id raw raw', meeting.job.store.Holds files id raw → meeting.source.Holds held id raw' → raw = raw'
  /-- After one round of repair nothing is damaged. -/
  intact : transfer.round = 1 ∨ transfer.round = 2 ∧ ∀ entry ∈ meeting.entries,
    ¬ meeting.job.store.Damaged files entry.id

def NoRoom (error : BulkError δ π) : Prop := ∃ used limit needed, error = .sink (.store (.full used limit needed))

def Fetching (before : π → Option Bytes) (files opened : π → Option Bytes) (asked : List δ) (flight : List (Item δ)) :
    Phase δ π meeting.job.store.digest → Prop
  | .asking => flight = [] ∧ files = before
  | .expecting => flight = [.manifest] ∧ files = before
  | .filling transfer => ∃ out, meeting.Course held transfer files opened asked [] [] out ∧
      flight = out.map fun entry => .chunk entry.id
  | .sending ids transfer => ∃ out, meeting.Course held transfer files opened asked ids [] out ∧
      (flight ++ ids.map .chunk = out.map fun entry => .chunk entry.id) ∧ meeting.Valid (.chunks ids)
  | .receiving due transfer => ∃ out, meeting.Course held transfer files opened asked [] [due] out ∧
      flight = .chunk due :: out.map fun entry => .chunk entry.id
  | .completing transfer => meeting.Course held transfer files opened asked [] []
    [] ∧ transfer.wanted = [] ∧ flight = []
  | .failing _ error => NoRoom error
  | .done (.error error) => NoRoom error
  | .done (.ok manifest) => manifest = meeting.manifest ∧ meeting.job.Delivered manifest files

def labour : Phase δ π meeting.job.store.digest → Nat
  | .asking => 16 * meeting.entries.length + 8
  | .expecting => 16 * meeting.entries.length + 5
  | .filling transfer => 8 * transfer.wanted.length + 2 * transfer.outstanding.length + 2 + repair transfer
  | .sending ids transfer =>
      8 * transfer.wanted.length + 2 * transfer.outstanding.length + ids.length + 6 + repair transfer
  | .receiving _ transfer => 8 * transfer.wanted.length + 2 * transfer.outstanding.length + 3 + repair transfer
  | .completing transfer => 1 + repair transfer
  | .failing _ _ => 1
  | .done _ => 0
where
  repair (transfer : Transfer meeting.job.store.digest) : Nat :=
    if transfer.round = 1 then 8 * meeting.entries.length + 2 else 0

/-- All that is known of an exchange, and that `cost` bounds the steps still to come. -/
def Sound (before : π → Option Bytes) (x : Exchange δ π ρ meeting.job.store.digest) (cost : Nat) : Prop :=
  ∃ flight toil, meeting.Carries held x flight toil ∧
    meeting.Fetching held before x.disk.files x.opened x.asked flight x.phase ∧ cost = toil + meeting.labour x.phase

end Course

section Steps

variable {disk : Disk π} {source : Disk ρ} (ready : meeting.Ready disk source)
  {x x' : Exchange δ π ρ meeting.job.store.digest} {flight : List (Item δ)} {files opened : π → Option Bytes}
    {asked : List δ}
  {transfer : Transfer meeting.job.store.digest} {out : List (ChunkEntry δ)}

theorem entries_nodup : (meeting.entries.map ChunkEntry.id).Nodup := (uniqueAfter_nodup [] _).1

theorem lacked_nodup (files : π → Option Bytes) : (meeting.job.store.lacked files meeting.manifest).Nodup :=
  entries_nodup.sublist (filter_sublist.map _)

variable {cost : Nat} {id : δ} {sink : Sink meeting.job.store.digest} {before files' : π → Option Bytes}
  {frame : Bytes} {disk' : Disk π}

theorem mem_lacked {files : π → Option Bytes} : id ∈ meeting.job.store.lacked files meeting.manifest ↔
    id ∈ meeting.entries.map ChunkEntry.id ∧ meeting.job.store.present files id = false := by
  constructor
  · intro among
    obtain ⟨entry, member, rfl⟩ := mem_map.mp among
    obtain ⟨listed, absent⟩ := mem_filter.mp member
    exact ⟨mem_map_of_mem listed, by simpa using absent⟩
  · rintro ⟨listed, absent⟩
    obtain ⟨entry, member, rfl⟩ := mem_map.mp listed
    exact mem_map_of_mem (mem_filter.mpr ⟨member, by simpa using absent⟩)

theorem wantedBy_lacked (files : π → Option Bytes) (ofThis : sink.manifest = meeting.manifest)
    (missing : sink.missing = meeting.job.store.lacked files meeting.manifest) :
    wantedBy sink = meeting.entries.filter fun entry => !meeting.job.store.present files entry.id := by
  unfold wantedBy
  rw [ofThis, missing]
  refine filter_congr fun entry among => ?_
  have listed : entry.id ∈ meeting.entries.map ChunkEntry.id := mem_map_of_mem among
  cases there : meeting.job.store.present files entry.id with
  | true => exact decide_eq_false fun lacked => by rw [(mem_lacked.mp lacked).2] at there; cases there
  | false => exact decide_eq_true (mem_lacked.mpr ⟨listed, there⟩)

theorem course_begins {round : Nat} (ofThis : sink.manifest = meeting.manifest)
    (missing : sink.missing = meeting.job.store.lacked files meeting.manifest) (unfinished : sink.finished = false)
    (recorded : files (meeting.job.store.layout.recordPath .pending meeting.manifest.id) =
      some meeting.manifest.toBytes)
    (agrees : ∀ id raw raw', meeting.job.store.Holds files id raw →
      meeting.source.Holds source.files id raw' → raw = raw')
    (intact : round = 1 ∨ round = 2 ∧ ∀ entry ∈ meeting.entries, ¬ meeting.job.store.Damaged files entry.id) :
    meeting.Course source.files ⟨meeting.manifest, round, sink, wantedBy sink, [], 0⟩ files files [] [] [] [] := by
  have wanted := wantedBy_lacked files ofThis missing
  have ids : (wantedBy sink).map ChunkEntry.id = meeting.job.store.lacked files meeting.manifest := by
    rw [wanted]
    rfl
  refine ⟨rfl, ofThis, unfinished, fun entry among => ?_, rfl, rfl, ?_, missing.trans ids.symm, ?_,
    fun entry among absent => ?_,
    ids, recorded, agrees, intact⟩
  · rw [nil_append, wanted] at among
    exact mem_of_mem_filter among
  · exact lt_of_lt_of_le (by decide : 0 < fetchWindow) (Nat.le_add_right _ _)
  · rw [missing]
    exact lacked_nodup files
  by_contra lacking
  apply absent
  rw [missing]
  exact mem_lacked.mpr ⟨mem_map_of_mem among, by simpa using lacking⟩

theorem fill_fetching (course : meeting.Course source.files transfer files opened asked [] [] out)
    (flying : flight = out.map fun entry => .chunk entry.id) :
    meeting.Fetching source.files before files opened asked flight (meeting.job.fill transfer) ∧
      meeting.labour (meeting.job.fill transfer) < meeting.labour (.filling transfer) := by
  unfold Job.fill
  split
  · next more =>
    have short : ∀ entry ∈ transfer.wanted, entry.len.toNat ≤ longest meeting.manifest := fun entry among =>
      le_longest (mem_uniqueAfter (course.listed entry (mem_append_right _ among)))
    obtain ⟨all, few, sum⟩ := batch_spec maxChunksPerRequest transfer.wanted transfer.outstandingBytes
    have window := batch_window maxChunksPerRequest short course.window
    have some := batch_some more.1 more.2
    generalize batch maxChunksPerRequest transfer.wanted transfer.outstandingBytes = taken at all few sum window some ⊢
    obtain ⟨taken, rest, bytes⟩ := taken
    dsimp only at all few sum window some ⊢
    have listed : ∀ entry ∈ (out ++ taken) ++ rest, entry ∈ meeting.entries := by
      rw [append_assoc, all]
      exact course.listed
    constructor
    · refine ⟨out ++ taken, ⟨course.manifest, course.sink, course.unfinished, listed, ?_, ?_, window, ?_, course.nodup,
        course.present, ?_, course.recorded, course.agrees, course.intact⟩, ?_, .chunks ?_ ?_ ?_⟩
      · rw [map_append, course.outstanding]
      · rw [sum, course.bytes, covered_append]
      · rw [course.missing, append_assoc, all]
      · rw [← map_append, all]
        exact course.asked
      · rw [flying, map_append, map_map]
        rfl
      · exact fun none => some (map_eq_nil_iff.mp none)
      · rw [length_map]
        exact few
      · intro id among
        obtain ⟨entry, member, rfl⟩ := mem_map.mp among
        exact mem_map_of_mem (listed entry (mem_append_left _ (mem_append_right _ member)))
    · have count := congrArg List.length all
      have one := length_pos_iff.mpr some
      rw [length_append] at count
      simp only [labour, labour.repair, length_map, length_append]
      omega
  · next closed =>
    cases out with
    | nil =>
      have idle : transfer.outstanding = [] := course.outstanding
      have still : transfer.outstandingBytes = 0 := course.bytes
      have all : transfer.wanted = [] := by
        by_contra more
        exact closed ⟨still ▸ (by decide : 0 < fetchWindow), more⟩
      rw [idle]
      refine ⟨⟨course, all, flying⟩, ?_⟩
      simp only [labour, labour.repair]
      omega
    | cons entry out =>
      have queued : transfer.outstanding = (entry.id, entry.len.toNat) :: out.map fun entry =>
        (entry.id, entry.len.toNat) :=
        course.outstanding
      have bytes : transfer.outstandingBytes = entry.len.toNat + covered out := course.bytes
      have window := course.window
      rw [queued]
      constructor
      · refine ⟨out, ⟨course.manifest, course.sink, course.unfinished,
          fun other among => course.listed other (mem_cons_of_mem _ among), rfl, ?_, ?_, course.missing, course.nodup,
          course.present, course.asked, course.recorded, course.agrees, course.intact⟩, flying⟩
        · dsimp only
          omega
        · dsimp only
          omega
      · simp only [labour, labour.repair, queued, length_cons]
        omega

theorem received_agrees [DecidableEq π] {entry : ChunkEntry δ} {raw : Bytes} (listed : entry ∈ meeting.entries)
    (holds : meeting.source.Holds source.files entry.id raw)
    (decoded : meeting.job.store.decode entry.id entry.len frame = .ok raw)
    (received : meeting.job.store.Received meeting.manifest files entry.id frame files')
    (agrees : ∀ id raw raw', meeting.job.store.Holds files id raw →
      meeting.source.Holds source.files id raw' → raw = raw') :
    ∀ id raw raw', meeting.job.store.Holds files' id raw → meeting.source.Holds source.files id raw' → raw = raw' := by
  cases received with
  | kept => exact agrees
  | @stored other bytes stored among named decoded' verified =>
    intro id found served foundHolds servedHolds
    by_cases here : id = entry.id
    · subst here
      have len := meeting.manifest.tiles.repeated other (mem_uniqueAfter among) entry (mem_uniqueAfter listed) named
      rw [len, decoded] at decoded'
      cases decoded'
      obtain ⟨bytes', there, verified'⟩ := foundHolds
      rw [Function.update_self] at there
      cases there
      cases verified.symm.trans verified'
      obtain ⟨bytes', there, verified'⟩ := servedHolds
      obtain ⟨bytes'', there', verified''⟩ := holds
      cases there.symm.trans there'
      exact Except.ok.inj (verified''.symm.trans verified')
    · refine agrees id found served (foundHolds.of_eq ?_) servedHolds
      exact (Function.update_of_ne (fun same => here (meeting.job.store.layout.chunk_inj same)) _ _).symm

theorem received_intact [DecidableEq π] {other : δ}
    (received : meeting.job.store.Received meeting.manifest files id frame files')
    (good : ¬ meeting.job.store.Damaged files other) : ¬ meeting.job.store.Damaged files' other := by
  cases received with
  | kept => exact good
  | @stored entry bytes raw _ _ _ verified =>
    by_cases here : other = id
    · subst here
      exact ChunkStore.Holds.not_damaged ⟨bytes, Function.update_self _ _ _, verified⟩
    · exact fun damaged => good (damaged.of_eq
        (Function.update_of_ne (fun same => here (meeting.job.store.layout.chunk_inj same)) _ _).symm)

theorem received_present [DecidableEq π] {other : δ}
    (received : meeting.job.store.Received meeting.manifest files id frame files')
    (there : meeting.job.store.present files other = true) : meeting.job.store.present files' other = true := by
  cases received with
  | kept => exact there
  | @stored entry bytes raw _ _ _ verified =>
    unfold ChunkStore.present
    by_cases here : other = id
    · subst here
      rw [Function.update_self]
      exact (ChunkStore.verified_ok verified).2
    · rw [Function.update_of_ne fun same => here (meeting.job.store.layout.chunk_inj same)]
      exact there

theorem receive_fetching [DecidableEq π] {due : δ} (ready : meeting.Ready disk source) {answer : BulkResponse δ}
    (course : meeting.Course source.files transfer disk'.files opened asked [] [due] out)
    (good : meeting.Answers source.files (.chunk due) answer) :
    meeting.Fetching source.files before (meeting.job.receive due transfer (.ok answer) disk').2.files opened asked
        (out.map fun entry => .chunk entry.id) (meeting.job.receive due transfer (.ok answer) disk').1 ∧
      meeting.labour (meeting.job.receive due transfer (.ok answer) disk').1 < meeting.labour
      (.receiving due transfer) := by
  cases good with
  | @chunk entry frame raw listed holds decoded =>
    have after := ChunkStore.put_spec ready.sound meeting.job.recompress transfer.sink entry.id frame disk' rfl
    unfold Job.receive
    dsimp only
    rw [if_neg (Classical.not_not.mpr rfl)]
    cases ran : (meeting.job.store.put meeting.job.recompress transfer.sink entry.id frame).run disk' with
    | mk result disk'' =>
      rw [ran] at after
      cases result with
      | error error =>
        refine ⟨?_, by simp only [labour]; omega⟩
        obtain ⟨_, failed⟩ := after
        cases failed with
        | finished ending => rw [course.unfinished] at ending; cases ending
        | unlisted other => exact absurd rfl (other entry (course.sink.symm ▸ listed))
        | @rejected other reason among named bad =>
          rw [course.sink] at among
          have len := meeting.manifest.tiles.repeated other (mem_uniqueAfter among) entry (mem_uniqueAfter listed) named
          rw [len, decoded] at bad
          cases bad
        | full used limit needed => exact ⟨used, limit, needed, rfl⟩
      | ok sink =>
        obtain ⟨received, stored, rfl⟩ := after
        rw [course.sink] at received
        have nodup := course.nodup
        rw [course.missing, singleton_append, nodup_cons] at nodup
        have missing : transfer.sink.missing = entry.id :: (out ++ transfer.wanted).map ChunkEntry.id := course.missing
        have rest : transfer.sink.missing.filter (· ≠ entry.id) = (out ++ transfer.wanted).map ChunkEntry.id := by
          rw [missing, filter_cons_of_neg (by simp)]
          refine filter_eq_self.mpr fun id among => decide_eq_true ?_
          rintro rfl
          exact nodup.1 among
        refine ⟨⟨out, ⟨course.manifest, course.sink, course.unfinished, course.listed, course.outstanding, course.bytes,
          course.window, rest, ?_, fun other among absent => ?_, course.asked, received.record.trans course.recorded,
          received_agrees listed holds decoded received course.agrees, ?_⟩, rfl⟩, ?_⟩
        · dsimp only
          rw [rest]
          exact nodup.2
        · by_cases here : other.id = entry.id
          · rw [here]
            apply stored
            rw [missing]
            exact mem_cons_self
          · refine received_present received (course.present other among fun lacking => absent ?_)
            rw [rest]
            rw [missing] at lacking
            exact (mem_cons.mp lacking).resolve_left here
        · exact course.intact.imp_right fun ⟨second, good⟩ =>
            ⟨second, fun other among => received_intact received (good other among)⟩
        · simp only [labour, labour.repair]
          omega

omit [DecidableEq δ] in
theorem forall₂_unique {α β : Type} {r s : α → β → Prop} (same : ∀ a b b', r a b → s a b' → b = b') {as : List α}
    {bs bs' : List β} (first : Forall₂ r as bs) (second : Forall₂ s as bs') : bs = bs' := by
  induction first generalizing bs' with
  | nil => cases second; rfl
  | cons here _ ih =>
    cases second with
    | cons here' rest => rw [same _ _ _ here here', ih rest]

theorem course_unrefused (ready : meeting.Ready disk source) {asked due : List δ}
    (course : meeting.Course source.files transfer files opened asked [] due []) (all : transfer.sink.missing = [])
    {reason : StoreError δ π}
    (refused : meeting.job.store.Refused files meeting.manifest meeting.job.completion reason) : False := by
  have there {entry : ChunkEntry δ} (among : entry ∈ meeting.manifest.chunks) :
      meeting.job.store.present files entry.id = true := by
    obtain ⟨first, member, same⟩ := mem_map.mp (meeting.manifest.id_unique among)
    rw [← same]
    apply course.present first member
    rw [all]
    exact not_mem_nil
  obtain ⟨content, restores⟩ := ready.serves
  cases refused with
  | incomplete count listed absent =>
    rw [there listed] at absent
    cases absent
  | blamed blamed =>
    cases blamed with
    | notFound listed absent =>
      have present := there listed
      unfold ChunkStore.present at present
      rw [absent] at present
      cases present
    | length listed holds other =>
      obtain ⟨raw, served, size⟩ := restores.held listed
      rw [course.agrees _ _ _ holds served] at other
      exact other size
    | hash held other =>
      obtain ⟨raws, served, rfl, hashed⟩ := restores
      rw [forall₂_unique (fun _ _ _ here here' => course.agrees _ _ _ here.1 here'.1) held served] at other
      exact other hashed
  | @invalid dest number here unnamed =>
    have named := ready.named dest here number
    rw [unnamed] at named
    cases named

theorem conclude_fetching [DecidableEq π] (ready : meeting.Ready disk source)
    (course : meeting.Course source.files transfer disk'.files opened asked [] [] []) (all : transfer.wanted = []) :
    ((meeting.job.conclude transfer disk').1 = .done (.ok meeting.manifest) ∧
      meeting.job.Delivered meeting.manifest (meeting.job.conclude transfer disk').2.files) ∨
    ∃ sink, (meeting.job.conclude transfer disk').1 = .filling ⟨meeting.manifest, 2, sink, wantedBy sink, [], 0⟩ ∧
      transfer.round = 1 ∧ meeting.Course source.files ⟨meeting.manifest, 2, sink, wantedBy sink, [], 0⟩
        (meeting.job.conclude transfer disk').2.files (meeting.job.conclude transfer disk').2.files [] [] [] [] := by
  have after := ChunkStore.complete_spec ready.sound ready.sane ready.foreign transfer.sink disk' rfl
  have none : transfer.sink.missing = [] := by
    rw [course.missing, all]
    rfl
  unfold Job.conclude
  cases ran : (meeting.job.store.complete meeting.job.completion transfer.sink).run disk' with
  | mk result disk'' =>
    rw [ran] at after
    cases result with
    | error error => exact after.elim
    | ok ended =>
      change meeting.job.store.Concluded disk'.files meeting.job.completion transfer.sink ended disk''.files at after
      generalize disk''.files = files' at after ⊢
      cases after with
      | ending finished => rw [course.unfinished] at finished; cases finished
      | lacking some => exact absurd none some
      | completed _ completed =>
        rw [course.sink] at completed
        exact .inl ⟨congrArg _ (congrArg _ course.manifest), .of_completed ready.expected course.recorded completed⟩
      | inconsistent failed ofFile =>
        rw [course.sink] at failed
        exfalso
        rcases failed.cause with ⟨refused, _⟩ | ⟨⟨entry, _, ⟨reason, corrupt⟩, _⟩, _⟩
        · exact course_unrefused ready course none refused
        rw [corrupt] at ofFile
        rcases ofFile with other | ⟨_, _, _, other⟩
        · cases other
        · cases other
      | again failed =>
        rw [course.sink] at failed
        rcases failed.cause with ⟨refused, _⟩ | ⟨⟨entry, listed, ⟨reason, rfl⟩, damaged⟩, cleaned⟩
        · exact (course_unrefused ready course none refused).elim
        have first : transfer.round = 1 := by
          rcases course.intact with first | ⟨_, good⟩
          · exact first
          · obtain ⟨other, member, same⟩ := mem_map.mp (meeting.manifest.id_unique listed)
            rw [← same] at damaged
            exact absurd damaged (good other member)
        refine .inr ⟨{ transfer.sink with missing := meeting.job.store.lacked files' transfer.sink.manifest },
          ?_, first, ?_⟩
        · unfold Job.verdict
          rw [first, course.manifest]
          rfl
        · refine course_begins course.sink ?_ course.unfinished ?_ ?_ (.inr ⟨rfl, ?_⟩)
          · rw [course.sink]
          · rw [failed.untouched.records]
            exact course.recorded
          · intro id raw raw' holds served
            refine course.agrees id raw raw' ?_ served
            rcases cleaned.other id with same | ⟨gone, _⟩
            · exact holds.of_eq same.symm
            · obtain ⟨bytes, here, _⟩ := holds
              cases gone.symm.trans here
          · exact fun entry among => cleaned.gone entry.id (mem_map_of_mem among)

theorem start_fetching [DecidableEq π] (ready : meeting.Ready disk source) (same : disk'.files = disk.files) :
    ∃ sink, (meeting.job.start (.ok (.manifest meeting.manifest.toBytes)) disk').1 =
        .filling ⟨meeting.manifest, 1, sink, wantedBy sink, [], 0⟩ ∧
      meeting.Course source.files ⟨meeting.manifest, 1, sink, wantedBy sink, [], 0⟩
        (meeting.job.start (.ok (.manifest meeting.manifest.toBytes)) disk').2.files
        (meeting.job.start (.ok (.manifest meeting.manifest.toBytes)) disk').2.files [] [] [] [] := by
  have short : ¬ meeting.manifest.toBytes.length > maxManifestLen :=
    not_lt.mpr (encode_length ready.wide.length meeting.manifest.small meeting.manifest.tiles)
  have read := meeting.manifest.read_back ready.wide.length ready.wide.fits
  have after := Job.openSink_spec ready.sound ready.unique disk' same
  unfold Job.start
  dsimp only
  rw [if_neg short, read]
  dsimp only
  rw [if_neg (Classical.not_not.mpr ready.expected)]
  cases ran : (meeting.job.openSink meeting.manifest).run disk' with
  | mk result disk'' =>
    rw [ran] at after
    cases result with
    | error error =>
      rw [ready.free] at after
      cases after.2
    | ok sink =>
      obtain ⟨_, rfl, recorded, written⟩ := after
      have chunks (id : δ) : disk''.files (meeting.job.store.layout.chunkPath id) =
          disk.files (meeting.job.store.layout.chunkPath id) := by
        rcases written with kept | written
        · rw [kept]
        · rw [written, Function.update_of_ne (meeting.job.store.layout.record_apart _ _ _).symm]
      refine ⟨_, rfl, course_begins rfl (ChunkStore.lacked_of_eq chunks).symm rfl recorded ?_ (.inl rfl)⟩
      exact fun id raw raw' holds served => ready.agrees id raw raw' (holds.of_eq (chunks id).symm) served

theorem wantedBy_length (ofThis : sink.manifest = meeting.manifest) :
    (wantedBy sink).length ≤ meeting.entries.length := by
  unfold wantedBy
  rw [ofThis]
  exact length_filter_le _ _

theorem goOn_begins [DecidableEq π] (event : Event δ)
    (before : x.phase = .expecting ∨ ∃ transfer, x.phase = .completing transfer)
    (after : (meeting.job.step event (x.phase, x.disk)).1 = .filling transfer) : meeting.goOn event x = { x with
      phase := .filling transfer
      disk := (meeting.job.step event (x.phase, x.disk)).2
      opened := (meeting.job.step event (x.phase, x.disk)).2.files
      asked := [] } := by
  unfold goOn
  obtain ⟨phase, disk', serving, source', requests, responses, opened, asked⟩ := x
  dsimp only at before after ⊢
  rw [after]
  rcases before with rfl | ⟨_, rfl⟩
  · rfl
  · rfl

theorem goOn_done [DecidableEq π] (event : Event δ)
    {result : Except (BulkError δ π) (Manifest meeting.job.store.digest)}
    (after : (meeting.job.step event (x.phase, x.disk)).1 = .done result) :
    meeting.goOn event x = { x with phase := .done result, disk := (meeting.job.step event (x.phase, x.disk)).2 } := by
  unfold goOn
  dsimp only
  rw [after]
  split
  · next same => cases same
  · next same => cases same
  · rfl

theorem fetchStep_sound [DecidableEq π] [DecidableEq ρ] (ready : meeting.Ready disk source)
    (sound : meeting.Sound source.files disk.files x cost)
    (stepped : meeting.fetchStep x = some x') : ∃ cost' < cost, meeting.Sound source.files disk.files x' cost' := by
  obtain ⟨flight, toil, carries, fetching, rfl⟩ := sound
  obtain ⟨phase, disk', serving, source', requests, responses, opened, asked⟩ := x
  cases phase with
  | asking =>
    have stepped := Option.some.inj stepped
    subst stepped
    obtain ⟨written, carried⟩ := request_carries ready carries (unfinished rfl) .manifest
    rw [written]
    obtain ⟨rfl, same⟩ := fetching
    refine ⟨_, ?_, _, _, goOn_carries _ carried (unfinished rfl), ⟨rfl, same⟩, rfl⟩
    change toil + 0 + 2 + meeting.labour .expecting < toil + meeting.labour .asking
    simp only [labour]
    omega
  | expecting =>
    obtain ⟨rfl, same⟩ := fetching
    cases responses with
    | nil =>
      have works := (serve_works carries (unfinished rfl) rfl (cons_ne_nil _ _)).2
      cases serving with
      | ended result => exact absurd rfl (works result)
      | _ => cases stepped
    | cons frame responses =>
      have stepped := Option.some.inj stepped
      subst stepped
      obtain ⟨item, answer, rest, flying, good, heard, carried⟩ := hear_carries ready carries rfl
      obtain ⟨rfl, rfl⟩ := List.cons.inj flying
      cases good
      obtain ⟨sink, begun, course⟩ := start_fetching ready same
      have ofThis : sink.manifest = meeting.manifest := course.sink
      have few := wantedBy_length ofThis
      have carried := goOn_carries (.received (.ok (.manifest meeting.manifest.toBytes))) carried (unfinished rfl)
      have opens := goOn_begins (x := ⟨.expecting, disk', serving, source', requests, responses, opened, asked⟩)
        (.received (.ok (.manifest meeting.manifest.toBytes))) (.inl rfl) begun
      rw [opens] at carried
      rw [heard, opens]
      refine ⟨_, ?_, [], toil, carried, ⟨[], course, rfl⟩, rfl⟩
      simp only [labour, labour.repair, length_nil, if_true]
      omega
  | filling transfer =>
    have stepped := Option.some.inj stepped
    subst stepped
    obtain ⟨out, course, flying⟩ := fetching
    obtain ⟨fetching, less⟩ := fill_fetching course flying
    exact ⟨_, Nat.add_lt_add_left less toil, flight, toil, goOn_carries .ready carries (unfinished rfl), fetching, rfl⟩
  | sending ids transfer =>
    have stepped := Option.some.inj stepped
    subst stepped
    obtain ⟨out, course, flying, valid⟩ := fetching
    obtain ⟨written, carried⟩ := request_carries ready carries (unfinished rfl) valid
    rw [written]
    refine ⟨_, ?_, _, _, goOn_carries _ carried (unfinished rfl), ⟨out, { course with asked := ?_ }, flying⟩, rfl⟩
    · change toil + ids.length + 2 + meeting.labour (.filling transfer) < toil + meeting.labour (.sending ids transfer)
      simp only [labour]
      omega
    · rw [nil_append]
      exact (append_assoc _ _ _).trans course.asked
  | receiving due transfer =>
    obtain ⟨out, course, flown⟩ := fetching
    cases responses with
    | nil =>
      have works := (serve_works carries (unfinished rfl) rfl (flown ▸ cons_ne_nil _ _)).2
      cases serving with
      | ended result => exact absurd rfl (works result)
      | _ => cases stepped
    | cons frame responses =>
      have stepped := Option.some.inj stepped
      subst stepped
      obtain ⟨item, answer, rest, flying, good, heard, carried⟩ := hear_carries ready carries rfl
      obtain ⟨rfl, rfl⟩ := List.cons.inj (flown.symm.trans flying)
      obtain ⟨fetching, less⟩ := receive_fetching ready course good
      rw [heard]
      exact ⟨_, Nat.add_lt_add_left less toil, _, toil, goOn_carries _ carried (unfinished rfl), fetching, rfl⟩
  | completing transfer =>
    have stepped := Option.some.inj stepped
    subst stepped
    obtain ⟨course, all, rfl⟩ := fetching
    have carried := goOn_carries .ready carries (unfinished rfl)
    let concluding : Exchange δ π ρ meeting.job.store.digest :=
      ⟨.completing transfer, disk', serving, source', requests, responses, opened, asked⟩
    rcases conclude_fetching ready course all with ⟨done, delivered⟩ | ⟨sink, begun, first, course'⟩
    · rw [goOn_done (x := concluding) .ready done] at carried ⊢
      refine ⟨_, ?_, [], toil, carried, ⟨rfl, delivered⟩, rfl⟩
      simp only [labour]
      omega
    · have ofThis : sink.manifest = meeting.manifest := course'.sink
      have few := wantedBy_length ofThis
      rw [goOn_begins (x := concluding) .ready (.inr ⟨transfer, rfl⟩) begun] at carried ⊢
      refine ⟨_, ?_, [], toil, carried, ⟨[], course', rfl⟩, rfl⟩
      simp only [labour, labour.repair, first, length_nil]
      simp
      omega
  | failing sink error =>
    have stepped := Option.some.inj stepped
    subst stepped
    exact ⟨_, Nat.add_lt_add_left Nat.zero_lt_one toil, flight, toil, goOn_carries .ready carries (unfinished rfl),
      fetching, rfl⟩
  | done result => cases stepped

theorem step_sound [DecidableEq π] [DecidableEq ρ] (ready : meeting.Ready disk source)
    (sound : meeting.Sound source.files disk.files x cost) {side : Side} (stepped : meeting.step side x = some x') :
    ∃ cost' < cost, meeting.Sound source.files disk.files x' cost' := by
  cases side with
  | fetch => exact fetchStep_sound ready sound stepped
  | serve =>
    obtain ⟨flight, toil, carries, fetching, rfl⟩ := sound
    obtain ⟨⟨toil', less, carried⟩, phase, kept, opened, asked⟩ := serveStep_carries ready carries stepped
    refine ⟨toil' + meeting.labour x.phase, Nat.add_lt_add_right less _, flight, toil', carried, ?_, by rw [phase]⟩
    rw [phase, kept, opened, asked]
    exact fetching

theorem run_sound [DecidableEq π] [DecidableEq ρ] (ready : meeting.Ready disk source)
    (sound : meeting.Sound source.files disk.files x cost)
    {schedule : List Side} (ran : meeting.run schedule x = some x') :
    ∃ cost', schedule.length + cost' ≤ cost ∧ meeting.Sound source.files disk.files x' cost' := by
  induction schedule generalizing x cost with
  | nil =>
    cases ran
    exact ⟨cost, by simp, sound⟩
  | cons side schedule ih =>
    obtain ⟨next, stepped, rest⟩ := Option.bind_eq_some_iff.mp ran
    obtain ⟨less, below, sound'⟩ := step_sound ready sound stepped
    obtain ⟨cost', bound, final⟩ := ih sound' rest
    refine ⟨cost', ?_, final⟩
    rw [length_cons]
    omega

theorem start_sound : meeting.Sound source.files disk.files (meeting.start disk source)
    (16 * meeting.entries.length + 9) := by
  refine ⟨[], 1, ⟨[], [], [],
    ⟨.nil, rfl, rfl, forall_mem_nil _, forall_mem_nil _, rfl, rfl, fun _ same => by cases same⟩, rfl⟩, ⟨rfl, rfl⟩, ?_⟩
  change _ = 1 + (16 * meeting.entries.length + 8)
  omega

variable (meeting) in
structure Orderly (x : Exchange δ π ρ meeting.job.store.digest) : Prop where
  /-- Requests are of the right size, and for chunks of the snapshot. -/
  requests : ∀ frame ∈ x.requests, ∃ ask,
    readFrame (bulkRequest meeting.job.store.digest) bulkRequestMaxFrame frame = .ok ask ∧ meeting.Valid ask
  window : ∀ transfer ∈ x.phase.transfer, transfer.outstandingBytes = (transfer.outstanding.map Prod.snd).sum ∧
    transfer.outstandingBytes < fetchWindow + longest meeting.manifest
  /-- No chunk is requested twice in a round, and none that was there. -/
  once : x.phase.transfer ≠ none → x.asked <+: meeting.job.store.lacked x.opened meeting.manifest ∧ x.asked.Nodup
  /-- Every chunk that was not there is requested in the round. -/
  every : ∀ transfer, x.phase = .completing transfer → x.asked = meeting.job.store.lacked x.opened meeting.manifest
  fetchBlameless : ∀ error, ((∃ sink, x.phase = .failing sink error) ∨ x.phase = .done (.error error)) →
    error.isViolation = false
  serveBlameless : ∀ result, x.serving = .ended result → ∃ served, result = .ok served

omit [DecidableEq δ] in
theorem NoRoom.blameless {error : BulkError δ π} (full : NoRoom error) : error.isViolation = false := by
  obtain ⟨used, limit, needed, rfl⟩ := full
  rfl

theorem Course.orderly {unsent due : List δ}
    (course : meeting.Course source.files transfer files opened asked unsent due out) :
    (transfer.outstandingBytes = (transfer.outstanding.map Prod.snd).sum ∧
      transfer.outstandingBytes < fetchWindow + longest meeting.manifest) ∧
    asked <+: meeting.job.store.lacked opened meeting.manifest ∧ asked.Nodup := by
  have early : asked <+: meeting.job.store.lacked opened meeting.manifest := ⟨_, course.asked⟩
  refine ⟨⟨?_, course.window⟩, early, (lacked_nodup opened).sublist early.sublist⟩
  rw [course.bytes, course.outstanding, map_map]
  rfl

theorem Fetching.course {phase : Phase δ π meeting.job.store.digest}
    (fetching : meeting.Fetching source.files before files opened asked flight phase)
    (under : phase.transfer = some transfer) :
    ∃ unsent due out, meeting.Course source.files transfer files opened asked unsent due out := by
  cases phase with
  | filling _ | sending _ _ | receiving _ _ =>
    cases under
    obtain ⟨out, course, _⟩ := fetching
    exact ⟨_, _, out, course⟩
  | completing _ =>
    cases under
    exact ⟨_, _, _, fetching.1⟩
  | asking | expecting | failing _ _ | done _ => cases under

theorem Sound.orderly (ready : meeting.Ready disk source) (sound : meeting.Sound source.files disk.files x cost) :
    meeting.Orderly x := by
  obtain ⟨flight, toil, ⟨answered, answers, asks, line, _⟩, fetching, _⟩ := sound
  constructor
  · intro frame among
    rw [line.requests] at among
    obtain ⟨ask, member, rfl⟩ := mem_map.mp among
    have valid := line.valid ask member
    exact ⟨ask, (request_passes ready valid).read (by decide), valid⟩
  · intro transfer under
    obtain ⟨_, _, _, course⟩ := fetching.course under
    exact course.orderly.1
  · intro some
    obtain ⟨transfer, under⟩ := Option.ne_none_iff_exists'.mp some
    obtain ⟨_, _, _, course⟩ := fetching.course under
    exact course.orderly.2
  · intro transfer ending
    rw [ending] at fetching
    obtain ⟨course, all, _⟩ := fetching
    have asked := course.asked
    rw [all, map_nil, append_nil, append_nil] at asked
    exact asked
  · rintro error (⟨sink, failing⟩ | failed)
    · rw [failing] at fetching
      exact NoRoom.blameless fetching
    · rw [failed] at fetching
      exact NoRoom.blameless fetching
  · exact fun result ended => (line.going result ended).1

variable (meeting) in
def Ended (x : Exchange δ π ρ meeting.job.store.digest) : Prop :=
  (∃ served, x.serving = .ended (.ok served)) ∧
    ((x.phase = .done (.ok meeting.manifest) ∧ meeting.job.Delivered meeting.manifest x.disk.files) ∨
      ∃ error, x.phase = .done (.error error) ∧ NoRoom error)

theorem Sound.ended [DecidableEq π] [DecidableEq ρ] (sound : meeting.Sound source.files disk.files x cost)
    (stuck : ∀ side, meeting.step side x = none) : meeting.Ended x := by
  obtain ⟨flight, toil, carries, fetching, _⟩ := sound
  have fetchStuck : meeting.fetchStep x = none := stuck .fetch
  have serveStuck : meeting.serveStep x = none := stuck .serve
  obtain ⟨phase, disk', serving, source', requests, responses, opened, asked⟩ := x
  -- Something is under way, so that one of the sides has something to do.
  have waits (unfinished : ∀ result, phase ≠ .done result) (idle : responses = []) (some : flight ≠ []) : False := by
    have works := (serve_works carries unfinished idle some).1
    rw [serveStuck] at works
    cases works
  cases phase with
  | asking | filling _ | sending _ _ | completing _ | failing _ _ => cases fetchStuck
  | expecting =>
    obtain ⟨rfl, _⟩ := fetching
    cases responses with
    | nil => exact (waits (unfinished rfl) rfl (cons_ne_nil _ _)).elim
    | cons frame responses => cases fetchStuck
  | receiving due transfer =>
    obtain ⟨out, _, rfl⟩ := fetching
    cases responses with
    | nil => exact (waits (unfinished rfl) rfl (cons_ne_nil _ _)).elim
    | cons frame responses => cases fetchStuck
  | done result =>
    have final : ∃ served, serving = .ended (.ok served) := by
      cases serving with
      | reading served => cases requests <;> cases serveStuck
      | replying ids served => cases ids <;> cases serveStuck
      | ended result =>
        obtain ⟨_, _, _, line, _⟩ := carries
        obtain ⟨⟨served, rfl⟩, _⟩ := line.going result rfl
        exact ⟨served, rfl⟩
    refine ⟨final, ?_⟩
    cases result with
    | ok manifest =>
      obtain ⟨rfl, delivered⟩ := fetching
      exact .inl ⟨rfl, delivered⟩
    | error error => exact .inr ⟨error, rfl, fetching⟩

end Steps

def wireManifest (wire : Snapshot.Wire (FixedBytes 32)) (small : wire.totalSize ≤ maxFileSize)
    (tiles : Tiles wire.params wire.totalSize wire.chunks) : Manifest (Digest.fixed headHash) :=
  ⟨wire, headHash (wire.encode (Digest.fixed headHash)), small, tiles, rfl⟩

def plainMeeting (manifest : Manifest (Digest.fixed headHash)) (dest : Path) : Meeting (FixedBytes 32) Path Path where
  job :=
    { store :=
        { digest := Digest.fixed headHash
          zstd := plainZstd
          chunker := plainStore.chunker
          layout := storeLayout Subtype.val Subtype.val_injective [] 1
          medium := .still
          maxBytes := 2 ^ 20
          syncChunks := true }
      recompress := false
      claimed := false
      expected := manifest.id
      completion := .file dest }
  manifest
  chunker := plainStore.chunker
  layout := storeLayout Subtype.val Subtype.val_injective [] 1
  medium := .still
  maxBytes := 2 ^ 20
  syncChunks := true

def pathOf (raw : Bytes) : Path := plainStore.layout.chunkPath (headHash raw).1

def chunkDisk (raws : List Bytes) : Disk Path :=
  { emptyDisk with files := fun path => (raws.find? fun raw => path = pathOf raw).map fun raw =>
      chunkMagic ++ le32 (chunkLen raw).toNat ++ plainZstd.compress raw }

theorem chunkDisk_holds {manifest : Manifest (Digest.fixed headHash)} {dest : Path} {raws : List Bytes} {raw : Bytes}
    (found : (raws.find? fun other => pathOf raw = pathOf other) = some raw) (sized : ChunkStore.Sized raw) :
    (plainMeeting manifest dest).source.Holds (chunkDisk raws).files (headHash raw) raw :=
  ⟨_, congrArg (Option.map _) found, ChunkStore.verified_written sized⟩

def twoMeeting : Meeting (FixedBytes 32) Path Path :=
  plainMeeting (wireManifest twoChunks (by decide) twoChunks_tiles) worldPath

def twoRaws : List Bytes := [1 :: replicate (32 * 1024 - 1) 1, [2]]

theorem twoChunks_ready : twoMeeting.Ready emptyDisk (chunkDisk twoRaws) where
  wide := ⟨Digest.fixed_fits headHash, fixedBytes_length⟩
  sound := Medium.still_sound
  soundSource := Medium.still_sound
  sane := storeLayout_sane Subtype.val_injective _ _
  foreign := worldPath_foreign Subtype.val_injective
  named := by
    rintro dest ⟨⟩ number
    rfl
  free := rfl
  expected := rfl
  serves := by
    have long : (1 :: replicate (32 * 1024 - 1) 1 : Bytes).length = 32 * 1024 := by rw [length_cons, length_replicate]
    have sized : ChunkStore.Sized (1 :: replicate (32 * 1024 - 1) 1) := by
      unfold ChunkStore.Sized
      rw [long]
      decide
    have first : twoMeeting.source.Holds (chunkDisk twoRaws).files (headHash [1]) (1 :: replicate (32 * 1024 - 1) 1) :=
      chunkDisk_holds (find?_cons_of_pos (decide_eq_true rfl)) sized
    have second : twoMeeting.source.Holds (chunkDisk twoRaws).files (headHash [2]) [2] :=
      chunkDisk_holds rfl ⟨by decide, by decide⟩
    exact ⟨twoRaws.flatten, twoRaws, .cons ⟨first, long⟩ (.cons ⟨second, rfl⟩ .nil), rfl, rfl⟩
  agrees := by
    rintro id raw raw' ⟨bytes, absent, _⟩
    cases absent
  unique := by
    rintro bytes other absent
    cases absent

section Schedules
variable [DecidableEq π] [DecidableEq ρ] {schedule : List Side}

theorem run_snoc {side : Side} {x x' y : Exchange δ π ρ meeting.job.store.digest}
    (ran : meeting.run schedule x = some x')
    (stepped : meeting.step side x' = some y) : meeting.run (schedule ++ [side]) x = some y := by
  induction schedule generalizing x with
  | nil =>
    cases ran
    exact Option.bind_eq_some_iff.mpr ⟨y, stepped, rfl⟩
  | cons first schedule ih =>
    obtain ⟨next, one, rest⟩ := Option.bind_eq_some_iff.mp ran
    exact Option.bind_eq_some_iff.mpr ⟨next, one, ih rest⟩

theorem ends_or_goes_on (x : Exchange δ π ρ meeting.job.store.digest) (count : Nat) :
    (∃ schedule x', meeting.run schedule x = some x' ∧ ∀ side, meeting.step side x' = none) ∨
    ∃ schedule x', meeting.run schedule x = some x' ∧ schedule.length = count := by
  induction count with
  | zero => exact .inr ⟨[], x, rfl, rfl⟩
  | succ count ih =>
    rcases ih with ends | ⟨schedule, x', ran, long⟩
    · exact .inl ends
    by_cases stuck : ∀ side, meeting.step side x' = none
    · exact .inl ⟨schedule, x', ran, stuck⟩
    obtain ⟨side, moves⟩ := not_forall.mp stuck
    obtain ⟨y, stepped⟩ := Option.ne_none_iff_exists'.mp moves
    exact .inr ⟨schedule ++ [side], y, run_snoc ran stepped, by rw [length_append, long]; rfl⟩

end Schedules

def oneByte : Snapshot.Wire (FixedBytes 32) where
  params := .default
  totalSize := 1
  fileHash := headHash [7]
  chunks := [⟨headHash [7], 0, 1⟩]

theorem oneByte_tiles : Tiles oneByte.params oneByte.totalSize oneByte.chunks where
  starts := by decide
  continues := .singleton _
  nonempty := by decide
  short := by decide
  long := by decide
  covers := by decide
  repeated := by decide

def oneByteMeeting : Meeting (FixedBytes 32) Path Path :=
  plainMeeting (wireManifest oneByte (by decide) oneByte_tiles) (pathOf [7])

def oneByteSchedule : List Side :=
  [.fetch, .serve, .fetch, .fetch, .fetch, .fetch, .serve, .serve, .fetch, .fetch, .fetch, .serve, .serve]

end Meeting

end Tpf3Mp.Net
