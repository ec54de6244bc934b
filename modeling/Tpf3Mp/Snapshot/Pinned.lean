import Tpf3Mp.Snapshot.Shared

/-!
What a collection may not take: the chunks of retained snapshots and of transfers under way. While it runs
records only disappear, and a transfer is pinned by its pending record, or by the retained one. Only the
thread with the claim on a snapshot touches its pending record, but for `settle` and
`abandon_idle_transfers`, which remove records after they gave the claim up; and a release unpins a
transfer that was promoted but could not be published.
-/

namespace Tpf3Mp.Snapshot.Shared
open Run List Function

variable {ι δ μ α : Type} [DecidableEq μ]

def Pinned (w : World ι δ μ) (id : μ) : Prop :=
  w.pending.lookup id = some .good ∨ w.pending.lookup id = none ∧ w.roots.lookup id = some .good

def Referenced (w : World ι δ μ) (id : μ) : Prop := w.roots.lookup id = some .good ∨ id ∈ w.sinks

structure Upheld (w : World ι δ μ) : Prop where
  alone : w.collector ≠ none → w.readers = []
  pinned : ∀ id ∈ w.sinks, w.openSinks.lookup id ≠ none ∧ Pinned w id
  left : ∀ entry ∈ w.leaving, w.openSinks.lookup entry.2 = none

/-- A step in which no snapshot is claimed whose record a thread is about to remove, and no snapshot
released that has an open sink. -/
def Orderly (w w' : World ι δ μ) : Prop :=
  (∀ entry ∈ w.leaving, w.openSinks.lookup entry.2 = none → w'.openSinks.lookup entry.2 = none) ∧
    ∀ id ∈ w.sinks, w.roots.lookup id = some .good → w'.roots.lookup id ≠ none

instance (w w' : World ι δ μ) : Decidable (Orderly w w') := inferInstanceAs (Decidable (_ ∧ _))

/-- What an action of a thread leaves to the others, and what a collection leaves alone. -/
structure Yields (setup : Setup δ μ) (i : ι) (w w' : World ι δ μ) : Prop where
  readers : ∀ k, k ≠ i → k ∈ w.readers → k ∈ w'.readers
  collector : ∀ k, k ≠ i → (w'.collector = some k ↔ w.collector = some k)
  claims : ∀ k id, k ≠ i → (w'.openSinks.lookup id = some k ↔ w.openSinks.lookup id = some k)
  sinks : ∀ k id, k ≠ i → w.openSinks.lookup id = some k → (id ∈ w'.sinks ↔ id ∈ w.sinks)
  pending : ∀ k id, k ≠ i → w.openSinks.lookup id = some k → w.pending.lookup id = some .good →
    w'.pending.lookup id = some .good
  leaving : ∀ k id, k ≠ i → (k, id) ∈ w.leaving → (k, id) ∈ w'.leaving
  records : ∀ k, k ≠ i → w.collector = some k → ∀ record id saved,
    (w'.record record).lookup id = some saved → (w.record record).lookup id = some saved
  spares : w.collector = some i → ∀ chunk ∈ w.chunks, chunk ∉ w'.chunks → ∀ id, Referenced w id → chunk ∉ setup.parts id

def pinning (setup : Setup δ μ) : Discipline ι (World ι δ μ) where
  inv := Upheld
  guar := Yields setup
  allow _ := Orderly

variable {setup : Setup δ μ} {me i : ι} {w w' : World ι δ μ} {p q : World ι δ μ → Prop}

theorem Yields.refl (setup : Setup δ μ) (i : ι) (w : World ι δ μ) : Yields setup i w w where
  readers _ _ among := among
  collector _ _ := .rfl
  claims _ _ _ := .rfl
  sinks _ _ _ _ := .rfl
  pending _ _ _ _ good := good
  leaving _ _ _ among := among
  records _ _ _ _ _ _ found := found
  spares _ _ among gone := absurd among gone

def Free (me : ι) (w : World ι δ μ) : Prop := w.collector ≠ some me

def Reading (me : ι) (w : World ι δ μ) : Prop := me ∈ w.readers

/-- It has a claim on a snapshot, but no sink of it yet, or no longer. -/
def Claimed (me : ι) (id : μ) (w : World ι δ μ) : Prop := Free me w ∧ w.openSinks.lookup id = some me ∧ id ∉ w.sinks

def Open (me : ι) (id : μ) (w : World ι δ μ) : Prop := Free me w ∧ w.openSinks.lookup id = some me ∧ id ∈ w.sinks

/-- It is about to remove a record that it has no claim on. -/
def Leaving (me : ι) (id : μ) (w : World ι δ μ) : Prop := Free me w ∧ (me, id) ∈ w.leaving

def Recorded (me : ι) (id : μ) (w : World ι δ μ) : Prop := Claimed me id w ∧ w.pending.lookup id = some .good

theorem free_stable : (pinning setup).Stable me (Free me : World ι δ μ → Prop) :=
  fun _ _ _ other _ free done _ collecting => free ((done.collector me (Ne.symm other)).mp collecting)

theorem reading_stable : (pinning setup).Stable me (Reading me : World ι δ μ → Prop) :=
  fun _ _ _ other _ reading done _ => done.readers me (Ne.symm other) reading

theorem claimed_stable (id : μ) : (pinning setup).Stable me (Claimed me id : World ι δ μ → Prop) :=
  fun j w w' other inv ⟨free, claim, closed⟩ done inv' =>
    ⟨free_stable j w w' other inv free done inv', (done.claims me id (Ne.symm other)).mpr claim,
      fun among => closed ((done.sinks me id (Ne.symm other) claim).mp among)⟩

theorem open_stable (id : μ) : (pinning setup).Stable me (Open me id : World ι δ μ → Prop) :=
  fun j w w' other inv ⟨free, claim, opened⟩ done inv' =>
    ⟨free_stable j w w' other inv free done inv', (done.claims me id (Ne.symm other)).mpr claim,
      (done.sinks me id (Ne.symm other) claim).mpr opened⟩

theorem leaving_stable (id : μ) : (pinning setup).Stable me (Leaving me id : World ι δ μ → Prop) :=
  fun j w w' other inv ⟨free, among⟩ done inv' =>
    ⟨free_stable j w w' other inv free done inv', done.leaving me id (Ne.symm other) among⟩

theorem recorded_stable (id : μ) : (pinning setup).Stable me (Recorded me id : World ι δ μ → Prop) :=
  fun j w w' other inv ⟨claimed, good⟩ done inv' =>
    ⟨claimed_stable id j w w' other inv claimed done inv', done.pending me id (Ne.symm other) claimed.2.1 good⟩

/-- What an action does that only touches chunk files, the count, its lock and the time. -/
def Quiet (w w' : World ι δ μ) : Prop :=
  ∃ chunks used accounting now refused, w' = { w with chunks, used, accounting, now, refused }

def Steady (p : World ι δ μ → Prop) : Prop := ∀ w w', Quiet w w' → p w → p w'

theorem Quiet.step (quiet : Quiet w w') (inv : Upheld w)
    (spares : w.collector = some i → ∀ chunk ∈ w.chunks, chunk ∉ w'.chunks → ∀ id, Referenced w id →
      chunk ∉ setup.parts id) : Yields setup i w w' ∧ Upheld w' := by
  obtain ⟨chunks, used, accounting, now, refused, rfl⟩ := quiet
  exact ⟨{ Yields.refl setup i w with spares }, ⟨inv.alone, inv.pinned, inv.left⟩⟩

variable {id : μ} {action : String} {f : World ι δ μ → α × World ι δ μ} {other : μ}

section Each
omit [DecidableEq μ]
variable {r : World ι δ μ → World ι δ μ → Prop}

theorem Aside.quiet (aside : Aside w w') : Quiet w w' := by
  obtain ⟨now, refused, _, rfl⟩ := aside
  exact ⟨w.chunks, w.used, w.accounting, now, refused, rfl⟩

/-- What an action of a collection does: it only deletes chunks that are not kept. -/
def Sparing (keep : List δ) (w w' : World ι δ μ) : Prop :=
  Quiet w w' ∧ ∀ chunk ∈ w.chunks, chunk ∉ w'.chunks → chunk ∉ keep

theorem Sparing.of_same {keep : List δ} (quiet : Quiet w w') (same : w'.chunks = w.chunks) : Sparing keep w w' :=
  ⟨quiet, fun _ among gone => absurd (same ▸ among) gone⟩

theorem each_fileOp {outcomes : World ι δ μ → List (α × World ι δ μ)} (each : ∀ w a w', (a, w') ∈ outcomes w → r w w')
    (refused : ∀ w : World ι δ μ, r w { w with refused := true }) : Prog.Each r (fileOp action outcomes).run := by
  refine .once fun w result w' among => ?_
  rcases mem_fileOp among with ⟨a, _, taken⟩ | ⟨_, rfl⟩
  · exact each w a w' taken
  · exact refused w

theorem each_op (refused : ∀ w : World ι δ μ, r w { w with refused := true }) {action : String}
    {f : World ι δ μ → α × World ι δ μ} (kept : ∀ w, r w (f w).2) : Prog.Each r (fileOp action fun w => [f w]).run := by
  refine each_fileOp (fun w a w' among => ?_) refused
  have same : w' = (f w).2 := congrArg Prod.snd (mem_singleton.mp among)
  rw [same]
  exact kept w

theorem each_accounted (lock : ∀ (w : World ι δ μ) (accounting : Option ι), r w { w with accounting })
    {body : Call ι δ μ α} (each : Prog.Each r body.run) : Prog.Each r (accounted me body).run := by
  refine .next (Prog.Each.once fun w _ w' among => ?_) fun _ => .next each fun _ =>
    .next (Prog.Each.one fun w => lock w none) fun _ => .ret _
  split at among
  · cases mem_singleton.mp among
    exact lock w _
  · cases among

theorem Quiet.refl (w : World ι δ μ) : Quiet w w := ⟨_, _, _, _, _, rfl⟩

theorem Quiet.refused (w : World ι δ μ) : Quiet w { w with refused := true } := ⟨_, _, _, _, _, rfl⟩

theorem newFan_each (refl : ∀ w, r w w) : Prog.Each r (newFan : Action ι δ μ Bool) := by
  refine .once fun w _ w' among => ?_
  simp only [mem_cons, Prod.mk.injEq, not_mem_nil, or_false] at among
  rcases among with ⟨_, rfl⟩ | ⟨_, rfl⟩
  · exact refl _
  · exact refl _

theorem commit_quiet [DecidableEq δ] (id : δ) (file : File) :
    Prog.Each Quiet (accounted me (commit setup id file)).run := by
  refine each_accounted (fun w accounting => ⟨_, _, _, _, _, rfl⟩)
    (.exceptBind (each_op .refused .refl) fun found => ?_)
  split
  · exact .ret _
  refine .exceptBind (.lift (Prog.Each.one .refl)) fun used => ?_
  dsimp only
  split
  · exact .ret _
  have stored : Prog.Each Quiet (do
      fileOp "store" fun w => [((), { w with chunks := w.chunks.insert id file })]
      (setUsed (used - (found.map File.len).getD 0 + file.len) : Action ι δ μ Unit)
      return true : Call ι δ μ Bool).run :=
    .exceptBind (each_op .refused fun w => ⟨_, _, _, _, _, rfl⟩) fun _ =>
      .exceptBind (.lift (Prog.Each.one fun w => ⟨_, _, _, _, _, rfl⟩)) fun _ => .ret _
  refine .exceptBind (.lift (newFan_each .refl)) fun fresh => ?_
  split
  · exact .exceptBind (each_op .refused .refl) fun _ => stored
  · exact stored

theorem discard_quiet [DecidableEq δ] (id : δ) (read : File) :
    Prog.Each Quiet (discard me id read : Call ι δ μ Unit).run := by
  refine each_accounted (fun w accounting => ⟨_, _, _, _, _, rfl⟩)
    (.exceptBind (each_op .refused .refl) fun found => ?_)
  cases found with
  | none => exact .ret _
  | some found =>
    dsimp only
    split
    · refine .exceptBind (each_op .refused fun w => ⟨_, _, _, _, _, rfl⟩) fun removed => ?_
      split
      · exact .exceptBind (.lift (Prog.Each.one .refl)) fun used => .lift (Prog.Each.one fun w => ⟨_, _, _, _, _, rfl⟩)
      · exact .ret _
    · exact .ret _

end Each

/-- What a thread may know while it works on chunks: others cannot change it, and such work does not. -/
structure Tame (setup : Setup δ μ) (me : ι) (p : World ι δ μ → Prop) : Prop where
  stable : (pinning setup).Stable me p
  steady : Steady p

theorem Tame.of (stable : (pinning setup).Stable me p)
    (blind : ∀ w chunks used accounting now refused, p w → p { w with chunks, used, accounting, now, refused }) :
    Tame setup me p := by
  refine ⟨stable, ?_⟩
  rintro w _ ⟨_, _, _, _, _, rfl⟩
  exact blind w _ _ _ _ _

theorem free_tame : Tame setup me (Free me) :=
  .of free_stable fun _ _ _ _ _ _ holds => holds

theorem claimed_tame (id : μ) : Tame setup me (Claimed me id) :=
  .of (claimed_stable id) fun _ _ _ _ _ _ holds => holds

theorem open_tame (id : μ) : Tame setup me (Open me id) :=
  .of (open_stable id) fun _ _ _ _ _ _ holds => holds

theorem recorded_tame (id : μ) : Tame setup me (Recorded me id) :=
  .of (recorded_stable id) fun _ _ _ _ _ _ holds => holds

theorem Tame.reading (tame : Tame setup me p) : Tame setup me fun w => p w ∧ Reading me w := by
  refine ⟨tame.stable.and reading_stable, fun w w' quiet both => ⟨tame.steady w w' quiet both.1, ?_⟩⟩
  obtain ⟨_, _, _, _, _, rfl⟩ := quiet
  exact both.2

theorem chunk_spec [DecidableEq δ] {x : Action ι δ μ α} (tame : Tame setup me p) (free : ∀ w, p w → Free me w)
    (made : Prog.Made (ChunkPart setup me) x) : (pinning setup).Spec me p x fun _ => p := by
  have step (w w' : World ι δ μ) (inv : Upheld w) (start : p w) (quiet : Quiet w w') (_ : Orderly w w') :
      Yields setup me w w' ∧ Upheld w' ∧ p w' := by
    obtain ⟨yields, inv'⟩ := quiet.step inv fun collecting => absurd collecting (free w start)
    exact ⟨yields, inv', tame.steady w w' quiet start⟩
  refine .made tame.stable ?_ made
  intro β y part
  cases part with
  | aside each => exact .each tame.stable step (.once fun w a w' among => (each w a w' among).quiet)
  | commit id file => exact .each tame.stable step (commit_quiet id file)
  | discard id read => exact .each tame.stable step (discard_quiet id read)

def Tried (action : String) (ok : α → World ι δ μ → Prop) (refused : World ι δ μ → Prop) :
    Except Failure α → World ι δ μ → Prop
  | .ok a => ok a
  | .error error => fun w => refused w ∧ error = .io action

theorem op_tried {ok : α → World ι δ μ → Prop}
    (tame : Tame setup me p) (stable : ∀ a, (pinning setup).Stable me (ok a))
    (done : ∀ w, Upheld w → p w → Orderly w (f w).2 → Yields setup me w (f w).2 ∧ Upheld (f w).2 ∧ ok (f w).1 (f w).2) :
    (pinning setup).Spec me p (fileOp action fun w => [f w]).run (Tried action ok p) := by
  refine .once tame.stable (fun result => ?_) fun w inv start result w' among allowed => ?_
  · cases result with
    | ok a => exact stable a
    | error error => exact tame.stable.and (.const _)
  rcases mem_fileOp among with ⟨a, rfl, taken⟩ | ⟨rfl, rfl⟩
  · have same : f w = (a, w') := (mem_singleton.mp taken).symm
    have after := done w inv start
    rw [same] at after
    exact after allowed
  · have quiet := Quiet.refused w
    obtain ⟨yields, inv'⟩ : Yields setup me w { w with refused := true } ∧ Upheld { w with refused := true } :=
      quiet.step inv fun _ _ among gone => absurd among gone
    exact ⟨yields, inv', tame.steady w _ quiet start, rfl⟩

theorem op_spec (ok : α → World ι δ μ → Prop)
    (tame : Tame setup me p) (stable : ∀ a, (pinning setup).Stable me (ok a))
    (done : ∀ w, Upheld w → p w → Orderly w (f w).2 → Yields setup me w (f w).2 ∧ Upheld (f w).2 ∧ ok (f w).1 (f w).2) :
    (pinning setup).Spec me p (fileOp action fun w => [f w]).run (Ends ok p) := by
  refine (op_tried tame stable done).weaken unchanged fun result _ _ holds => ?_
  cases result with
  | ok a => exact holds
  | error error => exact holds.1

theorem op_keeps (tame : Tame setup me p)
    (done : ∀ w, Upheld w → p w → Orderly w (f w).2 → Yields setup me w (f w).2 ∧ Upheld (f w).2 ∧ p (f w).2) :
    (pinning setup).Spec me p (fileOp action fun w => [f w]).run fun _ => p := by
  refine (op_spec (fun _ => p) tame (fun _ => tame.stable) done).weaken unchanged fun result _ _ holds => ?_
  cases result with
  | ok _ => exact holds
  | error _ => exact holds

theorem look_tried {f : World ι δ μ → α} (ok : α → World ι δ μ → Prop)
    (tame : Tame setup me p) (stable : ∀ a, (pinning setup).Stable me (ok a)) (seen : ∀ w, p w → ok (f w) w) :
    (pinning setup).Spec me p (fileOp action fun w => [(f w, w)]).run (Tried action ok p) :=
  op_tried tame stable fun w inv start _ => ⟨Yields.refl setup me w, inv, seen w start⟩

theorem Upheld.not_collecting (inv : Upheld w) (reading : Reading me w) : w.collector = none := by
  by_contra collecting
  rw [Reading, inv.alone collecting] at reading
  cases reading

theorem shared_spec [DecidableEq ι] {body : Call ι δ μ α} {q : Except Failure α → World ι δ μ → Prop}
    (stable : (pinning setup).Stable me p) (stable' : ∀ result, (pinning setup).Stable me (q result))
    (blind : ∀ w readers, p w → p { w with readers })
    (blind' : ∀ result w readers, q result w → q result { w with readers })
    (inside : (pinning setup).Spec me (fun w => p w ∧ Reading me w) body.run fun result w => q result w ∧
      Reading me w) : (pinning setup).Spec me p (shared me body).run q := by
  have acquired : (pinning setup).Spec me p (lockShared me) fun _ w => p w ∧ Reading me w := by
    refine .once stable (fun _ => stable.and reading_stable) fun w inv start _ w' among _ => ?_
    split at among
    · next idle =>
      cases mem_singleton.mp among
      refine ⟨{ Yields.refl setup me w with readers := fun _ _ among => mem_cons_of_mem _ among },
        ⟨fun collecting => absurd idle collecting, inv.pinned, inv.left⟩, blind w _ start, mem_cons_self ..⟩
    · cases among
  have released (result : Except Failure α) : (pinning setup).Spec me (fun w => q result w ∧ Reading me w)
      (unlockShared me) fun _ => q result := by
    refine .once ((stable' result).and reading_stable) (fun _ => stable' result) fun w inv start _ w' among _ => ?_
    cases mem_singleton.mp among
    refine ⟨{ Yields.refl setup me w with readers := fun _ other among => (mem_erase_of_ne other).mpr among },
      ⟨fun collecting => ?_, inv.pinned, inv.left⟩, blind' result w _ start.1⟩
    exact eq_nil_of_subset_nil ((inv.alone collecting) ▸ erase_subset)
  refine acquired.bind fun _ => inside.bind fun result => (released result).bind fun _ => ?_
  exact .ret (stable' result) unchanged

theorem Upheld.records {roots pending : AList fun _ : μ => Saved} (inv : Upheld w)
    (kept : ∀ id ∈ w.sinks, Pinned w id → Pinned { w with roots, pending } id) : Upheld { w with roots, pending } :=
  ⟨inv.alone, fun id among => ⟨(inv.pinned id among).1, kept id among (inv.pinned id among).2⟩, inv.left⟩

theorem Pinned.of_eq (pinned : Pinned w id) (pending : w'.pending.lookup id = w.pending.lookup id)
    (roots : w'.roots.lookup id = w.roots.lookup id) : Pinned w' id := by
  unfold Pinned
  rw [pending, roots]
  exact pinned

theorem claim_other {k : ι} (mine : w.openSinks.lookup id = some me) (theirs : k ≠ me)
    (claim : w.openSinks.lookup other = some k) : other ≠ id := by
  rintro rfl
  exact theirs (Option.some.inj (claim.symm.trans mine))

theorem savePending_spec [DecidableEq δ] (id : μ) : (pinning setup).Spec me (fun w => Claimed me id w ∧ Reading me w)
    (writeRecord .pending id).run fun result w => Ends (fun _ => Recorded me id)
    (Claimed me id) result w ∧ Reading me w := by
  have tame : Tame setup me fun w => Claimed me id w ∧ Reading me w := (claimed_tame id).reading
  refine .exceptBind (chunk_spec tame (fun w holds => holds.1.1) writeTemp_made) (fun _ => ?_)
    fun _ => .ret tame.stable unchanged
  refine .weaken (op_spec (fun _ w => Recorded me id w ∧ Reading me w) tame
    (fun _ => (recorded_tame id).reading.stable) ?_) unchanged fun result _ _ holds => ?_
  · intro w inv ⟨claimed, reading⟩ _
    have idle := inv.not_collecting reading
    refine ⟨{ Yields.refl setup me w with pending := ?_, records := ?_ }, inv.records ?_, ⟨claimed, ?_⟩, reading⟩
    · intro k other theirs claim good
      exact (AList.lookup_insert_ne (claim_other claimed.2.1 theirs claim)).trans good
    · exact fun k _ collecting => nomatch idle.symm.trans collecting
    · intro other among pinned
      exact pinned.of_eq (AList.lookup_insert_ne (ne_of_mem_of_not_mem among claimed.2.2)) rfl
    · exact AList.lookup_insert _
  · cases result with
    | ok _ => exact holds
    | error _ => exact holds

theorem Pinned.insert_root (pinned : Pinned w other) : Pinned { w with roots := w.roots.insert id .good } other := by
  rcases pinned with good | ⟨none, good⟩
  · exact .inl good
  refine .inr ⟨none, ?_⟩
  by_cases same : other = id
  · subst same
    exact AList.lookup_insert _
  · exact (AList.lookup_insert_ne same).trans good

theorem saveRoot_spec [DecidableEq δ] (id : μ) (tame : Tame setup me p) (free : ∀ w, p w → Free me w)
    (blind : ∀ w roots, p w → p { w with roots }) : (pinning setup).Spec me (fun w => p w ∧ Reading me w)
    (writeRecord .root id).run fun _ w => p w ∧ Reading me w := by
  have tame : Tame setup me fun w => p w ∧ Reading me w := tame.reading
  refine .exceptBind (chunk_spec tame (fun w holds => free w holds.1) writeTemp_made) (fun _ => ?_)
    fun _ => .ret tame.stable unchanged
  refine op_keeps tame fun w inv ⟨start, reading⟩ _ => ?_
  have idle := inv.not_collecting reading
  refine ⟨{ Yields.refl setup me w with records := ?_ }, inv.records ?_, blind w _ start, reading⟩
  · exact fun k _ collecting => nomatch idle.symm.trans collecting
  · exact fun other _ pinned => pinned.insert_root

def Reads (good other : World ι δ μ → Prop) : Option Saved → World ι δ μ → Prop
  | some .good => good
  | _ => other

/-- How reading a record ends, given what is known if it is good and if it is not. -/
def Loaded (start good other : World ι δ μ → Prop) : Except Failure Unit → World ι δ μ → Prop
  | .ok _ => good
  | .error (.io _) => start
  | .error _ => other

theorem loadRecord_spec {record : Record} {good other : World ι δ μ → Prop} (tame : Tame setup me p)
    (tameGood : Tame setup me good) (tameOther : Tame setup me other)
    (isGood : ∀ w, p w → (w.record record).lookup id = some .good → good w)
    (isOther : ∀ w, p w → (w.record record).lookup id ≠ some .good → other w)
    (backGood : ∀ w, good w → p w) (backOther : ∀ w, other w → p w) :
    (pinning setup).Spec me p (loadRecord record id).run (Loaded p good other) := by
  have reads (found : Option Saved) : Tame setup me (Reads good other found) := by
    unfold Reads
    split
    · exact tameGood
    · exact tameOther
  have back {found : Option Saved} {w : World ι δ μ} (holds : Reads good other found w) : p w := by
    unfold Reads at holds
    split at holds
    · exact backGood w holds
    · exact backOther w holds
  refine .exceptBind (look_tried (Reads good other) tame (fun found => (reads found).stable) fun w start => ?_)
    (fun found => ?_) fun _ => .and_intro fun refused => ?_
  · cases found : (w.record record).lookup id with
    | none => exact isOther w start (by rw [found]; exact nofun)
    | some saved =>
      cases saved with
      | good => exact isGood w start found
      | damaged => exact isOther w start (by rw [found]; exact nofun)
  · cases found with
    | none => exact .ret tameOther.stable unchanged
    | some saved =>
      refine .exceptBind (look_tried (fun _ => Reads good other (some saved)) (reads _) (fun _ => (reads _).stable)
        fun _ holds => holds) (fun _ => ?_) fun _ => .and_intro fun refused => ?_
      · cases saved with
        | good => exact .ret tameGood.stable unchanged
        | damaged => exact .ret tameOther.stable unchanged
      · subst refused
        exact .ret (reads _).stable fun _ _ holds => back holds
  · subst refused
    exact .ret tame.stable unchanged

omit [DecidableEq μ] in
theorem Loaded.ends {start good other : World ι δ μ → Prop} {result : Except Failure Unit}
    (back : ∀ w, other w → start w)
    (loaded : Loaded start good other result w) : Ends (fun _ => good) start result w := by
  unfold Loaded at loaded
  split at loaded
  · exact loaded
  · exact loaded
  · exact back w loaded

theorem lookup_of_erase {files : AList fun _ : μ => Saved} {saved : Saved}
    (found : (files.erase id).lookup other = some saved) : files.lookup other = some saved := by
  by_cases same : other = id
  · subst same
    rw [AList.lookup_erase] at found
    cases found
  · rwa [AList.lookup_erase_ne same] at found

theorem erasePending_step (setup : Setup δ μ) (i : ι) (inv : Upheld w) (closed : id ∉ w.sinks)
    (unclaimed : ∀ k, k ≠ i → w.openSinks.lookup id ≠ some k) :
    Yields setup i w { w with pending := w.pending.erase id } ∧ Upheld { w with pending := w.pending.erase id } := by
  refine ⟨{ Yields.refl setup i w with pending := ?_, records := ?_ }, inv.records ?_⟩
  · intro k other theirs claim good
    have different : other ≠ id := by
      rintro rfl
      exact unclaimed k theirs claim
    exact (AList.lookup_erase_ne different).trans good
  · intro k _ _ record other saved found
    cases record with
    | root => exact found
    | pending => exact lookup_of_erase found
  · intro other among pinned
    exact pinned.of_eq (AList.lookup_erase_ne (ne_of_mem_of_not_mem among closed)) rfl

theorem removePending_spec (id : μ) :
    (pinning setup).Spec me (Claimed me id) (removeRecord .pending id).run fun _ => Claimed me id := by
  refine op_keeps (claimed_tame id) fun w inv claimed _ => ?_
  obtain ⟨yields, inv'⟩ := erasePending_step setup me inv claimed.2.2 fun k theirs claim =>
    theirs (Option.some.inj (claim.symm.trans claimed.2.1))
  exact ⟨yields, inv', claimed⟩

theorem removeRoot_spec (id : μ) : (pinning setup).Spec me (Free me) (removeRecord .root id).run fun _ => Free me := by
  refine op_keeps free_tame fun w inv free allowed => ?_
  refine ⟨{ Yields.refl setup me w with records := ?_ }, inv.records ?_, free⟩
  · intro k _ _ record other saved found
    cases record with
    | root => exact lookup_of_erase found
    | pending => exact found
  · rintro other among (good | ⟨none, good⟩)
    · exact .inl good
    have kept := allowed.2 other among good
    have different : other ≠ id := by
      rintro rfl
      exact kept (AList.lookup_erase _ _)
    exact .inr ⟨none, (AList.lookup_erase_ne different).trans good⟩

theorem promote_step (setup : Setup δ μ) {saved : Saved} (inv : Upheld w) (opened : Open me id w)
    (reading : Reading me w) (found : w.pending.lookup id = some saved) :
    Yields setup me w { w with roots := w.roots.insert id saved, pending := w.pending.erase id } ∧
      Upheld { w with roots := w.roots.insert id saved, pending := w.pending.erase id } := by
  have idle := inv.not_collecting reading
  have good : saved = .good := by
    rcases (inv.pinned id opened.2.2).2 with good | ⟨none, _⟩
    · exact Option.some.inj (found.symm.trans good)
    · cases found.symm.trans none
  refine ⟨{ Yields.refl setup me w with pending := ?_, records := ?_ }, inv.records ?_⟩
  · intro k other theirs claim good
    exact (AList.lookup_erase_ne (claim_other opened.2.1 theirs claim)).trans good
  · exact fun k _ collecting => nomatch idle.symm.trans collecting
  intro other among pinned
  by_cases same : other = id
  · subst same
    exact .inr ⟨AList.lookup_erase _ _, good ▸ AList.lookup_insert _⟩
  · exact pinned.of_eq (AList.lookup_erase_ne same) (AList.lookup_insert_ne same)

theorem promote_spec [DecidableEq δ] (id : μ) : (pinning setup).Spec me (fun w => Open me id w ∧ Reading me w)
    (promote id).run
    fun _ w => Open me id w ∧ Reading me w := by
  have tame : Tame setup me fun w => Open me id w ∧ Reading me w := (open_tame id).reading
  refine .exceptBind (op_keeps tame fun w inv ⟨opened, reading⟩ _ => ?_) (fun moved => ?_)
    fun _ => .ret tame.stable unchanged
  · cases found : w.pending.lookup id with
    | none => exact ⟨Yields.refl setup me w, inv, opened, reading⟩
    | some saved =>
      obtain ⟨yields, inv'⟩ := promote_step setup inv opened reading found
      exact ⟨yields, inv', opened, reading⟩
  · split
    · exact .ret tame.stable unchanged
    · exact saveRoot_spec id (open_tame id) (fun _ opened => opened.1) fun _ _ opened => opened

def Won (me : ι) (id : μ) : Bool → World ι δ μ → Prop
  | true => Claimed me id
  | false => Free me

theorem claimSink_spec (id : μ) : (pinning setup).Spec me (Free me) (claimSink me id) (Won me id) := by
  refine .once free_stable (fun won => ?_) fun w inv free won w' among allowed => ?_
  · cases won with
    | true => exact claimed_stable id
    | false => exact free_stable
  split at among
  · cases mem_singleton.mp among
    exact ⟨Yields.refl setup me w, inv, free⟩
  next unclaimed =>
  cases mem_singleton.mp among
  have none : w.openSinks.lookup id = none := Option.not_isSome_iff_eq_none.mp unclaimed
  refine ⟨{ Yields.refl setup me w with claims := ?_ }, ⟨inv.alone, ?_, ?_⟩, free, AList.lookup_insert _, ?_⟩
  · intro k other theirs
    by_cases same : other = id
    · subst same
      rw [AList.lookup_insert, none]
      exact ⟨fun mine => absurd (Option.some.inj mine).symm theirs, nofun⟩
    · rw [AList.lookup_insert_ne same]
  · intro other among
    obtain ⟨claim, pinned⟩ := inv.pinned other among
    refine ⟨?_, pinned⟩
    have different : other ≠ id := by
      rintro rfl
      exact claim none
    rwa [AList.lookup_insert_ne different]
  · intro entry among
    exact allowed.1 entry among (inv.left entry among)
  · intro among
    exact (inv.pinned id among).1 none

theorem mark_spec (id : μ) : (pinning setup).Spec me (Recorded me id)
    (.once fun w => [((), { w with sinks := id :: w.sinks })]) fun _ : Unit => Open me id := by
  refine .once (recorded_stable id) (fun _ => open_stable id) fun w inv ⟨⟨free, claim, _⟩, good⟩ _ w' among _ => ?_
  cases mem_singleton.mp among
  refine ⟨{ Yields.refl setup me w with sinks := ?_ }, ⟨inv.alone, ?_, inv.left⟩, free, claim, mem_cons_self ..⟩
  · intro k other theirs theirClaim
    have different := claim_other claim theirs theirClaim
    exact ⟨fun among => (mem_cons.mp among).resolve_left different, fun among => mem_cons_of_mem _ among⟩
  intro other among
  rcases mem_cons.mp among with rfl | among
  · refine ⟨?_, .inl good⟩
    rw [claim]
    exact nofun
  · exact inv.pinned other among

theorem sinks_filter_other {k : ι} (mine : w.openSinks.lookup id = some me) (other : μ) (theirs : k ≠ me)
    (claim : w.openSinks.lookup other = some k) : other ∈ w.sinks.filter (· ≠ id) ↔ other ∈ w.sinks := by
  have different := claim_other mine theirs claim
  simp [different]

theorem ended_spec (id : μ) : (pinning setup).Spec me (Open me id)
    (.once fun w => [((), { w with sinks := w.sinks.filter (· ≠ id) })]) fun _ : Unit => Claimed me id := by
  refine .once (open_stable id) (fun _ => claimed_stable id) fun w inv ⟨free, claim, _⟩ _ w' among _ => ?_
  cases mem_singleton.mp among
  refine ⟨{ Yields.refl setup me w with sinks := fun k other theirs => sinks_filter_other claim other theirs },
    ⟨inv.alone, fun other among => inv.pinned other (mem_filter.mp among).1, inv.left⟩, free, claim, ?_⟩
  simp

def Dropped (me : ι) (id : μ) (removing : Bool) (w : World ι δ μ) : Prop :=
  Free me w ∧ (removing = true → (me, id) ∈ w.leaving)

theorem dropped_stable (id : μ) (removing : Bool) :
    (pinning setup).Stable me (Dropped me id removing : World ι δ μ → Prop) :=
  fun j w w' other inv ⟨free, leaving⟩ done inv' => ⟨free_stable j w w' other inv free done inv', fun removes =>
    done.leaving me id (Ne.symm other) (leaving removes)⟩

theorem dropClaim_spec (id : μ) (removing : Bool) (stable : (pinning setup).Stable me p)
    (mine : ∀ w, p w → Free me w ∧ w.openSinks.lookup id = some me) :
    (pinning setup).Spec me p (dropClaim me id removing) fun _ => Dropped me id removing := by
  refine .once stable (fun _ => dropped_stable id removing) fun w inv start _ w' among _ => ?_
  obtain ⟨free, claim⟩ := mine w start
  cases mem_singleton.mp among
  have kept {entry : ι × μ} (among : entry ∈ w.leaving) : entry ∈ if removing then
    (me, id) :: w.leaving else w.leaving := by
    split
    · exact mem_cons_of_mem _ among
    · exact among
  refine ⟨{ Yields.refl setup me w with
    claims := ?_, sinks := fun k other theirs => sinks_filter_other claim other theirs, leaving := fun _ _ _ => kept },
    ⟨inv.alone, ?_, ?_⟩, free, ?_⟩
  · intro k other theirs
    by_cases same : other = id
    · subst same
      rw [AList.lookup_erase, claim]
      exact ⟨nofun, fun mine => absurd (Option.some.inj mine).symm theirs⟩
    · rw [AList.lookup_erase_ne same]
  · intro other among
    obtain ⟨among, different⟩ := mem_filter.mp among
    have different : other ≠ id := of_decide_eq_true different
    obtain ⟨claim, pinned⟩ := inv.pinned other among
    refine ⟨?_, pinned⟩
    rwa [AList.lookup_erase_ne different]
  · intro entry among
    by_cases same : entry.2 = id
    · rw [same]
      exact AList.lookup_erase _ _
    rw [AList.lookup_erase_ne same]
    apply inv.left entry
    split at among
    · rcases mem_cons.mp among with rfl | among
      · exact absurd rfl same
      · exact among
    · exact among
  · intro removes
    rw [if_pos removes]
    exact mem_cons_self ..

theorem removeLate_spec [DecidableEq ι] (id : μ) :
    (pinning setup).Spec me (Leaving me id) (removeLate me id).run fun _ => Free me := by
  refine .once (leaving_stable id) (fun _ => free_stable) fun w inv ⟨free, leaving⟩ result w' among _ => ?_
  have unclaimed := inv.left (me, id) leaving
  have closed : id ∉ w.sinks := fun among => (inv.pinned id among).1 unclaimed
  have kept (k : ι) (other : μ) (theirs : k ≠ me) (among : (k, other) ∈ w.leaving) :
    (k, other) ∈ w.leaving.erase (me, id) :=
    (mem_erase_of_ne fun same => theirs (Prod.mk.inj same).1).mpr among
  have left (entry : ι × μ) (among : entry ∈ w.leaving.erase (me, id)) : w.openSinks.lookup entry.2 = none :=
    inv.left entry (mem_of_mem_erase among)
  simp only [mem_cons, Prod.mk.injEq, not_mem_nil, or_false] at among
  rcases among with ⟨_, rfl⟩ | ⟨_, rfl⟩
  · obtain ⟨yields, inv'⟩ := erasePending_step setup me inv closed fun k _ claim =>
      nomatch unclaimed.symm.trans claim
    exact ⟨{ yields with leaving := kept }, ⟨inv'.alone, inv'.pinned, left⟩, free⟩
  · exact ⟨{ Yields.refl setup me w with leaving := kept }, ⟨inv.alone, inv.pinned, left⟩, free⟩

/-- A thread and a sink of its own: open until it is finished. -/
def Alive (me : ι) (id : μ) (sink : Sink δ μ) (w : World ι δ μ) : Prop :=
  sink.id = id ∧ if sink.finished then Free me w else Open me id w

theorem alive_stable (id : μ) (sink : Sink δ μ) : (pinning setup).Stable me (Alive me id sink) := by
  apply (Discipline.Stable.const _).and
  split
  · exact free_stable
  · exact open_stable id

theorem alive_tame (id : μ) (sink : Sink δ μ) : Tame setup me (Alive me id sink) :=
  .of (alive_stable id sink) fun _ _ _ _ _ _ holds => holds

theorem Alive.free {sink : Sink δ μ} (alive : Alive me id sink w) : Free me w := by
  obtain ⟨_, state⟩ := alive
  split at state
  · exact state
  · exact state.1

def Started (me : ι) (id : μ) (removing : Bool) : Except Failure (Sink δ μ) → World ι δ μ → Prop
  | .ok sink => fun w => Open me id w ∧ sink.id = id ∧ sink.finished = false
  | .error error => Dropped me id (removing && error = .damagedRecord)

theorem startSink_spec [DecidableEq δ] {record : Call ι δ μ Unit} (id : μ) (removing : Bool)
    (recorded : (pinning setup).Spec me (Claimed me id) record.run (Ends (fun _ => Recorded me id) (Claimed me id))) :
    (pinning setup).Spec me (Free me) (startSink setup me id record removing).run (Started me id removing) := by
  refine (claimSink_spec id).bind fun won => ?_
  split
  · next claimed =>
    subst claimed
    have listed : (pinning setup).Spec me (Claimed me id) (do
        record
        missing (setup.parts id).eraseDups : Call ι δ μ (List δ)).run
          (Ends (fun _ => Recorded me id) (Claimed me id)) := by
      refine .exceptBind recorded (fun _ => ?_) fun _ => .ret (claimed_stable id) unchanged
      refine (chunk_spec (recorded_tame id) (fun w holds => holds.1.1) (missing_made _)).weaken unchanged
        fun result _ _ holds => ?_
      cases result with
      | ok _ => exact holds
      | error _ => exact holds.1
    refine listed.bind fun found => ?_
    cases found with
    | ok missing => exact (mark_spec id).bind fun _ => .ret (open_stable id) fun _ _ opened => ⟨opened, rfl, rfl⟩
    | error error =>
      refine (dropClaim_spec id _ (claimed_stable id) fun w holds => ⟨holds.1, holds.2.1⟩).bind fun _ => ?_
      exact .ret (dropped_stable id _) unchanged
  · next lost =>
    have lost : won = false := Bool.eq_false_iff.mpr lost
    subst lost
    refine .ret free_stable fun w _ free => ⟨free, fun removes => ?_⟩
    rw [Bool.and_eq_true] at removes
    cases of_decide_eq_true removes.2

theorem openSink_spec [DecidableEq ι] [DecidableEq δ] (id : μ) :
    (pinning setup).Spec me (Free me) (openSink setup me id).run (Started me id false) := by
  refine startSink_spec id false (shared_spec (claimed_stable id) (fun result => ?_) (fun _ _ holds => holds)
    (fun result _ _ holds => ?_) (savePending_spec id))
  · cases result with
    | ok _ => exact recorded_stable id
    | error _ => exact claimed_stable id
  · cases result with
    | ok _ => exact holds
    | error _ => exact holds

theorem resumeSink_spec [DecidableEq δ] (id : μ) (removing : Bool) :
    (pinning setup).Spec me (Free me) (resumeSink setup me id removing).run (Started me id removing) := by
  have loaded : (pinning setup).Spec me (Claimed me id) (loadRecord .pending id).run
      (Loaded (Claimed me id) (Recorded me id) (Claimed me id)) :=
    loadRecord_spec (claimed_tame id) (recorded_tame id) (claimed_tame id) (fun w claimed good => ⟨claimed, good⟩)
      (fun _ claimed _ => claimed) (fun w recorded => recorded.1) fun _ claimed => claimed
  exact startSink_spec id removing (loaded.weaken unchanged fun _ _ _ holds => holds.ends fun _ claimed => claimed)

theorem keeps_bind {β : Type} {x : Call ι δ μ α} {f : α → Call ι δ μ β} (stable : (pinning setup).Stable me p)
    (first : (pinning setup).Spec me p x.run fun _ => p) (rest : ∀ a, (pinning setup).Spec me p (f a).run fun _ => p) :
    (pinning setup).Spec me p (x >>= f).run fun _ => p :=
  .exceptBind first rest fun _ => .ret stable unchanged

theorem forEach_spec {κ : Type} {body : κ → Call ι δ μ Unit} (stable : (pinning setup).Stable me p)
    (each : ∀ k, (pinning setup).Spec me p (body k).run fun _ => p) (ks : List κ) :
    (pinning setup).Spec me p (forEach body ks).run fun _ => p := by
  induction ks with
  | nil => exact .ret stable unchanged
  | cons first rest ih => exact keeps_bind stable (each first) fun _ => ih

theorem put_spec [DecidableEq ι] [DecidableEq δ] (sink : Sink δ μ) (chunk : δ) (frameLen : Nat) (valid : Bool) :
    (pinning setup).Spec me (Alive me sink.id sink) (put setup me sink chunk frameLen valid).run
      (Ends (Alive me sink.id) (Alive me sink.id sink)) := by
  have stable : (pinning setup).Stable me (Alive me sink.id sink) := alive_stable sink.id sink
  unfold put
  split
  · exact .ret stable unchanged
  next unfinished =>
  split
  · exact .ret stable unchanged
  split
  · exact .ret stable unchanged
  split
  · have stored : (pinning setup).Spec me (Open me sink.id)
      (shared me (writeChunk setup me chunk frameLen)).run fun _ =>
        Open me sink.id :=
      shared_spec (open_stable _) (fun _ => open_stable _) (fun _ _ holds => holds) (fun _ _ _ holds => holds)
        (chunk_spec (open_tame _).reading (fun _ holds => holds.1.1) (writeChunk_made chunk frameLen))
    have alive {w : World ι δ μ} {missing : List δ} (opened : Open me sink.id w) :
        Alive me sink.id { sink with missing } w := ⟨rfl, by rwa [if_neg unfinished]⟩
    refine .given (fun w _ alive => ?_)
      (.exceptBind stored (fun _ => .ret (open_stable _) fun _ _ opened => alive opened)
      fun _ => .ret (open_stable _) fun _ _ opened => alive opened)
    rw [Alive, if_neg unfinished] at alive
    exact alive.2
  · exact .ret stable unchanged

theorem verifyThen_spec [DecidableEq ι] [DecidableEq δ] {next : Call ι δ μ Unit} (id : μ) (publishes : Bool)
    (tame : Tame setup me p) (free : ∀ w, p w → Free me w) (blind : ∀ w readers, p w → p { w with readers })
    (last : (pinning setup).Spec me (fun w => p w ∧ Reading me w) next.run fun _ w => p w ∧ Reading me w) :
    (pinning setup).Spec me p (verifyThen setup me id publishes next).run fun _ => p := by
  have tame' : Tame setup me fun w => p w ∧ Reading me w := tame.reading
  have chunk {β : Type} {x : Action ι δ μ β} (made : Prog.Made (ChunkPart setup me) x) :
      (pinning setup).Spec me (fun w => p w ∧ Reading me w) x fun _ w => p w ∧ Reading me w :=
    chunk_spec tame' (fun w holds => free w holds.1) made
  have done {β : Type} {a : β} : (pinning setup).Spec me (fun w => p w ∧ Reading me w) (pure a : Action ι δ μ β)
      fun _ w => p w ∧ Reading me w := .ret tame'.stable unchanged
  have streamed := chunk (streamFile_made id publishes)
  refine shared_spec tame.stable (fun _ => tame.stable) blind (fun _ => blind) ?_
  refine keeps_bind tame'.stable (chunk (missing_made _)) fun lacking => ?_
  split
  · exact done
  cases publishes with
  | true =>
    exact keeps_bind tame'.stable (chunk look_made) fun _ => keeps_bind tame'.stable streamed fun _ =>
      keeps_bind tame'.stable (chunk look_made) fun _ => keeps_bind tame'.stable last fun _ => chunk look_made
  | false => exact keeps_bind tame'.stable streamed fun _ => keeps_bind tame'.stable last fun _ => done

theorem finish_spec [DecidableEq ι] [DecidableEq δ] (sink : Sink δ μ) (publishes : Bool) :
    (pinning setup).Spec me (Alive me sink.id sink) (finish setup me sink publishes) (Alive me sink.id) := by
  have stable : (pinning setup).Stable me (Alive me sink.id sink) := alive_stable sink.id sink
  unfold finish
  split
  · exact .ret stable unchanged
  next unfinished =>
  split
  · exact .ret stable unchanged
  have opened {w : World ι δ μ} (alive : Alive me sink.id sink w) : Open me sink.id w := by
    rw [Alive, if_neg unfinished] at alive
    exact alive.2
  have alive {w : World ι δ μ} {missing : List δ} (opened : Open me sink.id w) :
      Alive me sink.id { sink with missing } w := ⟨rfl, by rwa [if_neg unfinished]⟩
  have drop (removing : Bool) : (pinning setup).Spec me (Open me sink.id) (dropClaim me sink.id removing) fun _ =>
      Dropped me sink.id removing :=
    dropClaim_spec sink.id removing (open_stable _) fun w holds => ⟨holds.1, holds.2.1⟩
  refine .given (fun w _ => opened) ((verifyThen_spec sink.id publishes (open_tame sink.id) (fun _ holds => holds.1)
    (fun _ _ holds => holds) (promote_spec sink.id)).bind fun result => ?_)
  split
  · exact (drop false).bind fun _ => .ret (dropped_stable _ _) fun _ _ dropped => ⟨rfl, dropped.1⟩
  · refine (drop true).bind fun _ => .given (p := Leaving me sink.id) (fun w _ dropped => ⟨dropped.1, dropped.2 rfl⟩) ?_
    exact (removeLate_spec sink.id).bind fun _ => .ret free_stable fun _ _ free => ⟨rfl, free⟩
  refine (chunk_spec (open_tame sink.id) (fun _ holds => holds.1) (missing_made _)).bind fun found => ?_
  split
  · exact .ret (open_stable _) fun _ _ holds => alive holds
  · exact .ret (open_stable _) fun _ _ holds => alive holds

theorem abandon_spec (id : μ) : (pinning setup).Spec me (Open me id) (abandon me id).run fun _ => Free me := by
  refine (ended_spec id).bind fun _ => (removePending_spec id).bind fun removed => ?_
  refine (dropClaim_spec id false (claimed_stable id) fun w holds => ⟨holds.1, holds.2.1⟩).bind fun _ => ?_
  exact .ret (dropped_stable id false) fun _ _ dropped => dropped.1

/-- What a collection knows: every snapshot recorded is yet to be read, or has its chunks kept. -/
def Covering (setup : Setup δ μ) (me : ι) (unread : Record → μ → Prop) (keep : List δ) (w : World ι δ μ) : Prop :=
  w.collector = some me ∧ ∀ record id, (w.record record).lookup id = some .good →
    unread record id ∨ ∀ chunk ∈ setup.parts id, chunk ∈ keep

def Collecting (me : ι) (w : World ι δ μ) : Prop := w.collector = some me

section Collections

variable {unread : Record → μ → Prop} {keep : List δ}

theorem covering_tame : Tame setup me (Covering setup me unread keep) := by
  constructor
  · intro j w w' other _ ⟨mine, covers⟩ done _
    refine ⟨(done.collector me (Ne.symm other)).mpr mine, fun record id good => ?_⟩
    exact covers record id (done.records me (Ne.symm other) mine record id .good good)
  rintro w _ ⟨_, _, _, _, _, rfl⟩ ⟨mine, covers⟩
  refine ⟨mine, fun record id good => covers record id ?_⟩
  cases record with
  | root => exact good
  | pending => exact good

theorem collecting_stable : (pinning setup).Stable me (Collecting me : World ι δ μ → Prop) :=
  fun _ _ _ other _ mine done _ => (done.collector me (Ne.symm other)).mpr mine

theorem listRecords_spec (record : Record) : (pinning setup).Spec me (Covering setup me unread keep)
    (listRecords setup record).run
    (Ends (fun ids => Covering setup me (update unread record (· ∈ ids)) keep) (Collecting me)) := by
  refine .weaken (look_tried (fun ids => Covering setup me (update unread record (· ∈ ids)) keep) covering_tame
    (fun _ => covering_tame.stable) ?_) unchanged ?_
  · intro w ⟨mine, covers⟩
    refine ⟨mine, fun other id good => ?_⟩
    by_cases same : other = record
    · subst same
      rw [update_self]
      exact .inl ((mem_insertionSort _).mpr
        (AList.mem_keys.mp (AList.lookup_isSome.mp (Option.isSome_of_eq_some good))))
    · rw [update_of_ne same]
      exact covers other id good
  · intro result w _ holds
    cases result with
    | ok ids => exact holds
    | error _ => exact holds.1.1

theorem Covering.skip {record : Record} {id : μ} {ids : List μ}
    (covering : Covering setup me (update unread record (· ∈ id :: ids)) keep w)
    (other : (w.record record).lookup id ≠ some .good) : Covering setup me (update unread record (· ∈ ids)) keep w := by
  refine ⟨covering.1, fun record' id' good => ?_⟩
  have before := covering.2 record' id' good
  by_cases same : record' = record
  · subst same
    rw [update_self] at before ⊢
    refine before.imp_left fun among => (mem_cons.mp among).resolve_left ?_
    rintro rfl
    exact other good
  · rwa [update_of_ne same] at before ⊢

theorem Covering.read {record : Record} {id : μ} {ids : List μ}
    (covering : Covering setup me (update unread record (· ∈ id :: ids)) keep w) :
    Covering setup me (update unread record (· ∈ ids)) (setup.parts id ++ keep) w := by
  refine ⟨covering.1, fun record' id' good => ?_⟩
  have kept {among : Prop} (before : among ∨ ∀ chunk ∈ setup.parts id', chunk ∈ keep) :
      among ∨ ∀ chunk ∈ setup.parts id', chunk ∈ setup.parts id ++ keep :=
    before.imp_right fun all chunk part => mem_append_right _ (all chunk part)
  have before := covering.2 record' id' good
  by_cases same : record' = record
  · subst same
    rw [update_self] at before ⊢
    rcases before with among | all
    · rcases mem_cons.mp among with rfl | among
      · exact .inr fun chunk part => mem_append_left _ part
      · exact .inl among
    · exact kept (.inr all)
  · rw [update_of_ne same] at before ⊢
    exact kept before

/-- A collection that found a record to be none that counts. -/
def Skipping (setup : Setup δ μ) (me : ι) (unread : Record → μ → Prop) (keep : List δ) (record : Record) (id : μ)
    (w : World ι δ μ) : Prop :=
  Covering setup me unread keep w ∧ (w.record record).lookup id ≠ some .good

variable {record : Record} {id : μ}

theorem skipping_tame : Tame setup me (Skipping setup me unread keep record id) := by
  constructor
  · intro j w w' other inv ⟨covering, unreadable⟩ done inv'
    refine ⟨covering_tame.stable j w w' other inv covering done inv', fun good => unreadable ?_⟩
    exact done.records me (Ne.symm other) covering.1 record id .good good
  intro w w' quiet ⟨covering, unreadable⟩
  refine ⟨covering_tame.steady w w' quiet covering, ?_⟩
  obtain ⟨_, _, _, _, _, rfl⟩ := quiet
  cases record with
  | root => exact unreadable
  | pending => exact unreadable

theorem lookup_setRecord_erase {other : Record} {id' : μ} {saved : Saved}
    (found : ((w.setRecord record ((w.record record).erase id)).record other).lookup id' = some saved) :
    (w.record other).lookup id' = some saved := by
  cases record with
  | root =>
    cases other with
    | root => exact lookup_of_erase found
    | pending => exact found
  | pending =>
    cases other with
    | root => exact found
    | pending => exact lookup_of_erase found

theorem eraseUnreadable_step (setup : Setup δ μ) (inv : Upheld w)
    (unreadable : (w.record record).lookup id ≠ some .good) :
    Yields setup i w (w.setRecord record ((w.record record).erase id)) ∧
      Upheld (w.setRecord record ((w.record record).erase id)) := by
  have shrinks (other : Record) (id' : μ) (saved : Saved)
      (found : ((w.setRecord record ((w.record record).erase id)).record other).lookup id' = some saved) :
      (w.record other).lookup id' = some saved := lookup_setRecord_erase found
  have stays {other : μ} (good : (w.record record).lookup other = some .good) :
      ((w.record record).erase id).lookup other = some .good := by
    have different : other ≠ id := by
      rintro rfl
      exact unreadable good
    exact (AList.lookup_erase_ne different).trans good
  cases record with
  | root =>
    refine ⟨{ Yields.refl setup i w with records := fun _ _ _ => shrinks }, inv.records fun other among pinned => ?_⟩
    exact pinned.imp_right fun ⟨absent, good⟩ => ⟨absent, stays good⟩
  | pending =>
    refine ⟨{ Yields.refl setup i w with records := fun _ _ _ => shrinks, pending := fun _ _ _ _ => stays },
      inv.records ?_⟩
    rintro other among (good | ⟨none, good⟩)
    · exact .inl (stays good)
    refine .inr ⟨?_, good⟩
    by_contra found
    obtain ⟨saved, found⟩ := Option.ne_none_iff_exists'.mp found
    exact nomatch none.symm.trans (lookup_of_erase found)

theorem removeRecord_spec : (pinning setup).Spec me (Skipping setup me unread keep record id)
    (removeRecord record id).run fun _ => Skipping setup me unread keep record id := by
  refine op_keeps skipping_tame fun w inv ⟨⟨mine, covers⟩, unreadable⟩ _ => ?_
  obtain ⟨yields, inv'⟩ := eraseUnreadable_step setup inv unreadable
  refine ⟨yields, inv', ⟨?_, fun other id' good => covers other id' (lookup_setRecord_erase good)⟩, fun good =>
    unreadable (lookup_setRecord_erase good)⟩
  cases record with
  | root => exact mine
  | pending => exact mine

theorem keepRecords_spec (record : Record) (ids : List μ) (keep : List δ) : (pinning setup).Spec me
    (Covering setup me (update unread record (· ∈ ids)) keep) (keepRecords setup record ids keep).run
    (Ends (Covering setup me (update unread record (· ∈ ([] : List μ)))) (Collecting me)) := by
  induction ids generalizing keep with
  | nil => exact .ret covering_tame.stable unchanged
  | cons id ids ih =>
    have loaded : (pinning setup).Spec me (Covering setup me (update unread record (· ∈ id :: ids)) keep)
        (loadRecord record id).run (Loaded (Covering setup me (update unread record (· ∈ id :: ids)) keep)
          (Covering setup me (update unread record (· ∈ id :: ids)) keep)
          (Skipping setup me (update unread record (· ∈ id :: ids)) keep record id)) :=
      loadRecord_spec covering_tame covering_tame skipping_tame (fun _ holds _ => holds)
        (fun _ holds unreadable => ⟨holds, unreadable⟩) (fun _ holds => holds) fun _ holds => holds.1
    refine .liftBind loaded fun result => ?_
    split
    · exact .given (fun w _ covering => covering.read) (ih _)
    · refine .exceptBind removeRecord_spec
        (fun _ => .given (fun w _ skipping => skipping.1.skip skipping.2) (ih _)) fun _ => ?_
      exact .ret skipping_tame.stable fun _ _ skipping => skipping.1.1
    · exact .given (fun w _ skipping => skipping.1.skip skipping.2) (ih _)
    · refine .given (fun w _ holds => ?_) (.ret collecting_stable unchanged)
      exact (holds.ends fun _ skipping => skipping.1).1

omit [DecidableEq μ] in
theorem sweep_sparing [DecidableEq δ] (keep ids : List δ) (kept : Nat) :
    Prog.Each (Sparing keep) (sweep keep ids kept : Call ι δ μ Nat).run := by
  have refused (w : World ι δ μ) : Sparing keep w { w with refused := true } := .of_same (.refused w) rfl
  induction ids generalizing kept with
  | nil => exact .ret _
  | cons id ids ih =>
    refine .exceptBind (each_op refused fun w => .of_same (.refl w) rfl) fun found => ?_
    cases found with
    | none => exact .ret _
    | some file =>
      dsimp only
      split
      · exact ih _
      rename_i unkept
      refine .exceptBind (.lift (each_op refused fun w => ⟨⟨_, _, _, _, _, rfl⟩, fun chunk among gone => ?_⟩))
        fun result => ?_
      · have same : chunk = id := by
          by_contra different
          exact gone ((AList.mem_erase ..).mpr ⟨different, among⟩)
        exact same ▸ unkept
      · cases result with
        | ok _ => exact ih _
        | error _ => exact ih _

omit [DecidableEq μ] in
theorem recount_sparing [DecidableEq δ] (keep : List δ) :
    Prog.Each (Sparing keep) (recount me keep : Call ι δ μ Unit).run := by
  have quiet {w w' : World ι δ μ} (quiet : Quiet w w') (same : w'.chunks = w.chunks) : Sparing keep w w' :=
    .of_same quiet same
  refine each_accounted (fun w accounting => quiet ⟨_, _, _, _, _, rfl⟩ rfl)
    (.exceptBind (each_fileOp (fun w ids w' among => ?_)
    fun w => quiet (.refused w) rfl) fun ids => .exceptBind (sweep_sparing keep ids 0) fun kept => ?_)
  · obtain ⟨_, _, same⟩ := mem_map.mp among
    cases same
    exact quiet (.refl w) rfl
  · exact .lift (Prog.Each.one fun w => quiet ⟨_, _, _, _, _, rfl⟩ rfl)

theorem recount_spec [DecidableEq δ] (read : ∀ record id, ¬ unread record id) :
    (pinning setup).Spec me (Covering setup me unread keep)
    (recount me keep).run fun _ => Covering setup me unread keep := by
  refine .each covering_tame.stable (fun w w' inv covering sparing _ => ?_) (recount_sparing keep)
  obtain ⟨quiet, spared⟩ := sparing
  have covers (record : Record) {id : μ} (good : (w.record record).lookup id = some .good) :
      ∀ chunk ∈ setup.parts id, chunk ∈ keep := (covering.2 record id good).resolve_left (read record id)
  obtain ⟨yields, inv'⟩ : Yields setup me w w' ∧ Upheld w' := by
    refine quiet.step inv fun _ chunk among gone id referenced part => spared chunk among gone ?_
    rcases referenced with good | opened
    · exact covers .root good chunk part
    · rcases (inv.pinned id opened).2 with good | ⟨_, good⟩
      · exact covers .pending good chunk part
      · exact covers .root good chunk part
  exact ⟨yields, inv', covering_tame.steady w w' quiet covering⟩

theorem gc_spec [DecidableEq δ] (live : List μ) :
    (pinning setup).Spec me (Free me) (gc setup me live).run fun _ => Free me := by
  have acquired : (pinning setup).Spec me (Free me) (lockExclusive me) fun _ =>
      Covering setup me (fun _ _ => True) (live.flatMap setup.parts) := by
    refine .once free_stable (fun _ => covering_tame.stable) fun w inv free _ w' among _ => ?_
    split at among
    · next idle =>
      cases mem_singleton.mp among
      refine ⟨{ Yields.refl setup me w with collector := fun k other => ?_, spares := fun mine => absurd mine free },
        ⟨fun _ => idle.2, inv.pinned, inv.left⟩, rfl, fun _ _ _ => .inl trivial⟩
      rw [idle.1]
      exact ⟨fun mine => absurd (Option.some.inj mine).symm other, nofun⟩
    · cases among
  have released : (pinning setup).Spec me (Collecting me) unlockExclusive fun _ : Unit => Free me := by
    refine .once collecting_stable (fun _ => free_stable) fun w inv mine _ w' among _ => ?_
    cases mem_singleton.mp among
    refine ⟨{ Yields.refl setup me w with collector := fun k other => ?_ },
      ⟨fun busy => absurd rfl busy, inv.pinned, inv.left⟩, nofun⟩
    rw [mine]
    exact ⟨nofun, fun same => absurd (Option.some.inj same).symm other⟩
  have collected : (pinning setup).Spec me (Covering setup me (fun _ _ => True) (live.flatMap setup.parts))
      (collect setup me live).run fun _ => Collecting me := by
    have failed {β : Type} {result : β} : (pinning setup).Spec me (Collecting me)
      (pure result : Action ι δ μ β) fun _ =>
        Collecting me := .ret collecting_stable unchanged
    refine .exceptBind (listRecords_spec .root) (fun roots => ?_) fun _ => failed
    refine .exceptBind (keepRecords_spec .root roots _) (fun keep => ?_) fun _ => failed
    refine .exceptBind (listRecords_spec .pending) (fun pending => ?_) fun _ => failed
    refine .exceptBind (keepRecords_spec .pending pending keep) (fun keep => ?_) fun _ => failed
    refine .exceptBind (recount_spec ?_) (fun _ => ?_) fun _ => .ret covering_tame.stable fun _ _ holds => holds.1
    · intro record id unread
      cases record with
      | root => exact not_mem_nil unread
      | pending => exact not_mem_nil unread
    · exact .weaken (op_keeps covering_tame fun w inv holds _ => ⟨Yields.refl setup me w, inv, holds⟩) unchanged
        fun _ _ _ holds => holds.1
  exact acquired.bind fun _ => collected.bind fun _ => released.bind fun _ => .ret free_stable unchanged

end Collections

variable [DecidableEq ι] [DecidableEq δ]

theorem abandonIdle_spec : (pinning setup).Spec me (Free me) (abandonIdle setup me).run fun _ => Free me := by
  refine keeps_bind free_stable (chunk_spec free_tame (fun _ free => free) look_made) fun ids => ?_
  refine forEach_spec free_stable (fun id => .liftBind (resumeSink_spec id true) fun result => ?_) ids
  have dropped {error : Failure} : (pinning setup).Stable me (Started me id true (.error error)) := dropped_stable id _
  split
  · exact .given (fun w _ started => started.1) (abandon_spec id)
  · refine .given (fun w _ dropped => ⟨dropped.1, dropped.2 rfl⟩) (removeLate_spec id)
  · exact .ret dropped fun _ _ dropped => dropped.1
  · exact .ret dropped fun _ _ dropped => dropped.1

theorem sinkCall_spec (sink : Sink δ μ) (call : SinkCall δ) :
    (pinning setup).Spec me (Alive me sink.id sink) (sinkCall setup me sink call) (Alive me sink.id) := by
  cases call with
  | put chunk frameLen valid =>
    refine (put_spec sink chunk frameLen valid).bind fun result => ?_
    cases result with
    | ok sink' => exact .ret (alive_stable _ sink') unchanged
    | error _ => exact .ret (alive_stable _ sink) unchanged
  | finish publishes => exact finish_spec sink publishes
  | refresh =>
    refine (chunk_spec (alive_tame _ sink) (fun _ alive => alive.free) (missing_made _)).bind fun found => ?_
    cases found with
    | ok missing => exact .ret (alive_stable _ sink) unchanged
    | error _ => exact .ret (alive_stable _ sink) unchanged

theorem sinkCalls_spec (calls : List (SinkCall δ)) (id : μ) (sink : Sink δ μ) :
    (pinning setup).Spec me (Alive me id sink) (sinkCalls setup me sink calls) (Alive me id) := by
  induction calls generalizing sink with
  | nil => exact .ret (alive_stable id sink) unchanged
  | cons call calls ih =>
    intro w inv alive
    have same : sink.id = id := alive.1
    subst same
    exact ((sinkCall_spec sink call).bind ih) w inv alive

theorem transfer_spec {opening : Call ι δ μ (Sink δ μ)} (calls : List (SinkCall δ)) (ending : Ending)
    (opened : (pinning setup).Spec me (Free me) opening.run (Started me id false)) :
    (pinning setup).Spec me (Free me) (transfer setup me opening calls ending) fun _ => Free me := by
  refine opened.bind fun result => ?_
  cases result with
  | error error => exact .ret (dropped_stable id _) fun _ _ dropped => dropped.1
  | ok sink =>
    refine .given (p := Alive me id sink)
      (fun w _ ⟨opened, same, unfinished⟩ => ⟨same, by simpa [unfinished] using opened⟩) ?_
    refine (sinkCalls_spec calls id sink).bind fun sink => ?_
    split
    · exact .ret (alive_stable id sink) fun _ _ alive => alive.free
    rename_i unfinished
    refine .given (p := fun w => Open me id w ∧ sink.id = id) (fun w _ ⟨same, state⟩ => ⟨?_, same⟩)
      (.and_intro fun same => ?_)
    · rwa [if_neg unfinished] at state
    subst same
    cases ending with
    | abandon => exact (abandon_spec sink.id).bind fun _ => .ret free_stable unchanged
    | drop =>
      exact (dropClaim_spec sink.id false (open_stable _) fun w opened => ⟨opened.1, opened.2.1⟩).weaken unchanged
        fun _ _ _ dropped => dropped.1

theorem ingest_spec (id : μ) (frameLen : δ → Nat) :
    (pinning setup).Spec me (Free me) (ingest setup me id frameLen).run fun _ => Free me := by
  refine shared_spec free_stable (fun _ => free_stable) (fun _ _ free => free) (fun _ _ _ free => free) ?_
  refine keeps_bind free_tame.reading.stable (chunk_spec free_tame.reading (fun _ holds => holds.1)
    (storeParts_made id frameLen)) fun _ => ?_
  exact saveRoot_spec id free_tame (fun _ free => free) fun _ _ free => free

theorem task_spec (task : Task δ μ) : (pinning setup).Spec me (Free me) (task.prog setup me) fun _ => Free me := by
  have last {β : Type} {x : Action ι δ μ β} (spec : (pinning setup).Spec me (Free me) x fun _ => Free me) :
      (pinning setup).Spec me (Free me) (x >>= fun _ => pure ()) fun _ => Free me :=
    spec.bind fun _ => .ret free_stable unchanged
  cases task with
  | read chunk => exact last (chunk_spec free_tame (fun _ free => free) (load_made chunk))
  | assemble id =>
    refine last (verifyThen_spec id true free_tame (fun _ free => free) (fun _ _ free => free) ?_)
    exact .ret free_tame.reading.stable unchanged
  | ingest id frameLen => exact last (ingest_spec id frameLen)
  | «open» id calls ending => exact transfer_spec calls ending (openSink_spec id)
  | resume id calls ending => exact transfer_spec calls ending (resumeSink_spec id false)
  | release id => exact last (removeRoot_spec id)
  | abandonIdle => exact last abandonIdle_spec
  | gc live => exact last (gc_spec live)

theorem work_spec (tasks : List (Task δ μ)) :
    (pinning setup).Spec me (Free me) (work setup me tasks) fun _ => Free me := by
  induction tasks with
  | nil => exact .ret free_stable unchanged
  | cons task tasks ih => exact (task_spec task).bind fun _ => ih

omit [DecidableEq ι] [DecidableEq δ] in
theorem opened_upheld (chunks : AList fun _ : δ => File) (roots pending : AList fun _ : μ => Saved) :
    Upheld (World.opened chunks roots pending : World ι δ μ) where
  alone busy := absurd rfl busy
  pinned _ among := absurd among not_mem_nil
  left _ among := absurd among not_mem_nil

/-- In every run in which no snapshot is claimed while a record of it is yet to be removed, and none
released while a sink of it is open: every open sink has a record that reads back, pending or retained,
and no collection deletes a chunk of a retained snapshot or of an open sink. -/
theorem gc_spares (setup : Setup δ μ) (chunks : AList fun _ : δ => File) (roots pending : AList fun _ : μ => Saved)
    (tasks : ι → List (Task δ μ)) (sys : System ι (World ι δ μ))
    (reached : System.Reaches (fun _ => Orderly) (process setup (.opened chunks roots pending) tasks) sys) :
    (∀ id ∈ sys.state.sinks, sys.state.pending.lookup id = some .good ∨ sys.state.roots.lookup id = some .good) ∧
    ∀ i outcome sys', sys.advance i outcome = some sys' → Orderly sys.state sys'.state →
      sys.state.collector = some i → ∀ chunk ∈ sys.state.chunks, chunk ∉ sys'.state.chunks →
      ∀ id, sys.state.roots.lookup id = some .good ∨ id ∈ sys.state.sinks → chunk ∉ setup.parts id := by
  have start : (pinning setup).inv (process setup (.opened chunks roots pending) tasks).state := opened_upheld ..
  have safe (i : ι) : (pinning setup).Safe i (work setup i (tasks i)) (fun _ _ => True)
      (World.opened chunks roots pending) := by
    have free : Free i (World.opened chunks roots pending : World ι δ μ) := by
      intro mine
      cases mine
    exact (work_spec (tasks i) _ start free).weaken start fun _ _ _ _ => trivial
  obtain ⟨inv, safe'⟩ := Discipline.reaches_safe start safe reached
  constructor
  · intro id among
    exact (inv.pinned id among).2.imp_right And.right
  · intro i outcome sys' next allowed
    exact (Discipline.advance_safe safe' next allowed).1.spares

def single : Setup Nat Unit := ⟨100, false, fun _ => [0], fun _ _ => true, fun _ => true, fun _ _ => true⟩

local instance threeTasks : NeZero 3 := ⟨nofun⟩

def contended (pending : AList fun _ : Unit => Saved) : System (Fin 3) (World (Fin 3) Nat Unit) :=
  process single (.opened (AList.singleton 0 ⟨20, 0, true⟩) ∅ pending)
    fun i => if i = 0 then [.abandonIdle] else if i = 1 then [.open () [] .drop] else [.gc []]

theorem gc_spares_contended :
    ∃ sys, System.run (fun _ => Orderly) (replicate 6 (0, 0) ++ replicate 8 (1, 0) ++ replicate 8 (2, 0))
        (contended (AList.singleton () .damaged)) = some sys ∧
      (() ∈ sys.state.sinks ∧ sys.state.collector = some 2) ∧
      ∀ id ∈ sys.state.sinks, sys.state.pending.lookup id = some .good ∨ sys.state.roots.lookup id = some .good := by
  have seen : (System.run (fun _ => Orderly) (replicate 6 (0, 0) ++ replicate 8 (1, 0) ++ replicate 8 (2, 0))
      (contended (AList.singleton () .damaged))).map
        (fun sys => decide (() ∈ sys.state.sinks ∧ sys.state.collector = some 2)) = some true := by decide
  obtain ⟨sys, ran, facts⟩ := Option.map_eq_some_iff.mp seen
  exact ⟨sys, ran, of_decide_eq_true facts, (gc_spares _ _ _ _ _ sys (System.run_reaches .refl ran)).1⟩

theorem gc_takes_open :
    ∃ sys sys', System.Reaches (fun _ _ _ => True) (contended (AList.singleton () .damaged)) sys ∧
      sys.advance 2 0 = some sys' ∧ sys.state.collector = some 2 ∧
      (() ∈ sys.state.sinks ∧ sys.state.pending.lookup () = none ∧ sys.state.roots.lookup () = none) ∧
      0 ∈ single.parts () ∧ 0 ∈ sys.state.chunks ∧ 0 ∉ sys'.state.chunks := by
  have seen : ((System.run (fun _ _ _ => True)
      (replicate 5 (0, 0) ++ replicate 8 (1, 0) ++ [(0, 0)] ++ replicate 6 (2, 0))
      (contended (AList.singleton () .damaged))).bind fun sys => (sys.advance 2 0).map fun sys' =>
        decide (sys.state.collector = some 2 ∧
          (() ∈ sys.state.sinks ∧ sys.state.pending.lookup () = none ∧ sys.state.roots.lookup () = none) ∧
          0 ∈ single.parts () ∧ 0 ∈ sys.state.chunks ∧ 0 ∉ sys'.state.chunks)) = some true := by decide
  obtain ⟨sys, ran, rest⟩ := Option.bind_eq_some_iff.mp seen
  obtain ⟨sys', next, facts⟩ := Option.map_eq_some_iff.mp rest
  exact ⟨sys, sys', System.run_reaches .refl ran, next, of_decide_eq_true facts⟩

end Tpf3Mp.Snapshot.Shared
