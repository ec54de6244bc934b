import Tpf3Mp.Snapshot.Shared
import Mathlib.Data.List.Permutation

/-!
The count of a store's bytes is changed where a chunk is committed, where a damaged one is discarded, and
where a collection recounts, each under the lock of the accounting. Whoever takes the lock finds the count
at or above what is on disk, and at it unless something was refused, and gives it back the same way.
-/

namespace Tpf3Mp.Snapshot.Shared
open Run List

section Total

variable {δ : Type} [DecidableEq δ] (chunks : AList fun _ : δ => File) (id : δ)

def lenOf : Nat := ((chunks.lookup id).map File.len).getD 0

theorem total_erase : total (chunks.erase id) + lenOf chunks id = total chunks := by
  obtain ⟨entries, _⟩ := chunks
  change ((entries.kerase id).map fun entry => entry.2.len).sum + ((entries.dlookup id).map File.len).getD 0 =
    (entries.map fun entry => entry.2.len).sum
  rename_i nodup
  clear nodup
  induction entries with
  | nil => rfl
  | cons first rest ih =>
    obtain ⟨key, file⟩ := first
    by_cases same : key = id
    · subst same
      simp [kerase_cons_eq, dlookup_cons_eq, Nat.add_comm]
    · rw [kerase_cons_ne (Ne.symm same), dlookup_cons_ne _ _ (Ne.symm same)]
      simp only [map_cons, sum_cons]
      omega

theorem total_insert (file : File) : total (chunks.insert id file) = total (chunks.erase id) + file.len := by
  obtain ⟨entries, nodup⟩ := chunks
  change ((⟨id, file⟩ :: entries.kerase id).map fun entry => entry.2.len).sum = _
  rw [map_cons, sum_cons, Nat.add_comm]
  rfl

theorem lenOf_erase {other : δ} (different : other ≠ id) : lenOf (chunks.erase id) other = lenOf chunks other := by
  unfold lenOf
  rw [AList.lookup_erase_ne different]

theorem total_keys : total chunks = (chunks.keys.map (lenOf chunks)).sum := by
  have each : ∀ entry ∈ chunks.entries, lenOf chunks entry.1 = entry.2.len := by
    intro entry among
    have found : chunks.lookup entry.1 = some entry.2 := AList.mem_lookup_iff.mpr among
    rw [lenOf, found]
    rfl
  unfold total AList.keys List.keys
  rw [map_map]
  exact congrArg List.sum (map_congr_left fun entry among => (each entry among).symm)

end Total

variable {ι δ μ α β : Type}

/-- A count is at or above what is on disk, and at it if nothing was refused. -/
def Counted (n : Nat) (w : World ι δ μ) : Prop :=
  total w.chunks ≤ n ∧ (w.refused = false → n = total w.chunks)

/-- Chunk files only grow within the store's bound. -/
def Bounded (setup : Setup δ μ) (w w' : World ι δ μ) : Prop :=
  total w'.chunks ≤ total w.chunks ∨ total w'.chunks ≤ setup.maxBytes

/-- What an action does not touch that does without the lock of the accounting. -/
structure Apart (w w' : World ι δ μ) : Prop where
  chunks : w'.chunks = w.chunks
  used : w'.used = w.used
  refused : w.refused = true → w'.refused = true

def counting (setup : Setup δ μ) : Discipline ι (World ι δ μ) where
  inv w := w.accounting = none → Counted w.used w
  guar i w w' := (∀ k, k ≠ i → (w'.accounting = some k ↔ w.accounting = some k)) ∧
    (w.accounting ≠ some i → Apart w w') ∧ Bounded setup w w'
  allow _ _ _ := True

def Held (me : ι) (p : World ι δ μ → Prop) (w : World ι δ μ) : Prop := w.accounting = some me ∧ p w

def Outside (me : ι) (w : World ι δ μ) : Prop := w.accounting ≠ some me

/-- What stays true while nobody touches the chunk files or the count. -/
def Lasting (p : World ι δ μ → Prop) : Prop := ∀ w w', Apart w w' → p w → p w'

def InOrder (w : World ι δ μ) : Prop := Counted w.used w

variable {setup : Setup δ μ} {me : ι} {p : World ι δ μ → Prop}

variable {w : World ι δ μ} {failed : World ι δ μ → Prop} {id : δ} {outcomes : World ι δ μ → List (α × World ι δ μ)}
  {ok : α → World ι δ μ → Prop} {action : String} {x : Action ι δ μ α} {found : Option File}

theorem Apart.counted {w' : World ι δ μ} {n : Nat} (apart : Apart w w') (counted : Counted n w) : Counted n w' := by
  obtain ⟨bound, exact⟩ := counted
  unfold Counted
  rw [apart.chunks]
  refine ⟨bound, fun kept => exact ?_⟩
  cases before : w.refused with
  | false => rfl
  | true => exact absurd (apart.refused before) (by simp [kept])

theorem counted_lasting (n : Nat) : Lasting (Counted n : World ι δ μ → Prop) := fun _ _ apart => apart.counted

theorem inOrder_lasting : Lasting (InOrder : World ι δ μ → Prop) := by
  intro w w' apart counted
  unfold InOrder
  rw [apart.used]
  exact apart.counted counted

theorem Lasting.and {q : World ι δ μ → Prop} (left : Lasting p) (right : Lasting q) : Lasting fun w => p w ∧ q w :=
  fun w w' apart both => ⟨left w w' apart both.1, right w w' apart both.2⟩

theorem Lasting.ends (done : ∀ a, Lasting (ok a))
    (refused : Lasting failed) (result : Except Failure α) : Lasting (Ends ok failed result) := by
  cases result with
  | ok a => exact done a
  | error e => exact refused

theorem Lasting.books (q : (AList fun _ : δ => File) → Nat → Prop) : Lasting fun w :
    World ι δ μ => q w.chunks w.used := by
  intro w w' apart holds
  rw [apart.chunks, apart.used]
  exact holds

theorem held_stable (lasting : Lasting p) : (counting setup).Stable me (Held me p) := by
  intro j w w' other _ ⟨lock, holds⟩ ⟨locks, apart, _⟩ _
  have mine : w.accounting ≠ some j := by
    rw [lock]
    exact fun same => other (Option.some.inj same).symm
  exact ⟨(locks me (Ne.symm other)).mpr lock, lasting w w' (apart mine) holds⟩

theorem outside_stable : (counting setup).Stable me (Outside me : World ι δ μ → Prop) :=
  fun _ _ _ other _ outside done _ mine => outside ((done.1 me (Ne.symm other)).mp mine)

theorem held_once {q : α → World ι δ μ → Prop} (before : Lasting p) (after : ∀ a, Lasting (q a))
    (each : ∀ w, p w → ∀ a w', (a, w') ∈ outcomes w → w'.accounting = w.accounting ∧ Bounded setup w w' ∧ q a w') :
    (counting setup).Spec me (Held me p) (.once outcomes) fun a => Held me (q a) := by
  refine .once (held_stable before) (fun a => held_stable (after a)) ?_
  intro w _ ⟨lock, holds⟩ a w' among _
  obtain ⟨kept, bounded, next⟩ := each w holds a w' among
  have lock' : w'.accounting = some me := kept.trans lock
  refine ⟨⟨?_, fun apart => absurd lock apart, bounded⟩, ?_, lock', next⟩
  · intro k other
    rw [kept]
  · intro free
    cases lock'.symm.trans free

theorem held_fileOp (ok : α → World ι δ μ → Prop) (before : Lasting p) (after : ∀ a, Lasting (ok a))
    (refused : Lasting failed)
    (each : ∀ w, p w → ∀ a w', (a, w') ∈ outcomes w → w'.accounting = w.accounting ∧ Bounded setup w w' ∧ ok a w')
    (fails : ∀ w, p w → failed { w with refused := true }) :
    (counting setup).Spec me (Held me p) (fileOp action outcomes).run fun result =>
      Held me (Ends ok failed result) := by
  apply held_once before (Lasting.ends after refused)
  intro w holds result w' among
  rcases mem_fileOp among with ⟨a, rfl, taken⟩ | ⟨rfl, rfl⟩
  · exact each w holds a w' taken
  · exact ⟨rfl, .inl le_rfl, fails w holds⟩

theorem held_look {f : World ι δ μ → α} (ok : α → World ι δ μ → Prop)
    (before : Lasting p) (after : ∀ a, Lasting (ok a)) (refused : Lasting failed) (seen : ∀ w, p w → ok (f w) w)
    (fails : ∀ w, p w → failed { w with refused := true }) :
    (counting setup).Spec me (Held me p) (fileOp action fun w => [(f w, w)]).run fun result =>
      Held me (Ends ok failed result) := by
  refine held_fileOp ok before after refused ?_ fails
  intro w holds a w' among
  cases mem_singleton.mp among
  exact ⟨rfl, .inl le_rfl, seen w holds⟩

theorem held_ret {a : α} {q : α → World ι δ μ → Prop} (before : Lasting p) (holds : ∀ w, p w → q a w) :
    (counting setup).Spec me (Held me p) (pure a : Action ι δ μ α) fun a => Held me (q a) :=
  .ret (held_stable before) fun w _ held => ⟨held.1, holds w held.2⟩

theorem held_bind {x : Call ι δ μ α} {f : α → Call ι δ μ β} {ok' : β → World ι δ μ → Prop} (refused : Lasting failed)
    (first : (counting setup).Spec me (Held me p) x.run fun result => Held me (Ends ok failed result))
    (rest : ∀ a, (counting setup).Spec me (Held me (ok a)) (f a).run fun result => Held me (Ends ok' failed result)) :
    (counting setup).Spec me (Held me p) (x >>= f).run fun result => Held me (Ends ok' failed result) :=
  .exceptBind first rest fun _ => held_ret refused fun _ holds => holds

theorem inOrder_of_refused (w : World ι δ μ) (bound : total w.chunks ≤ w.used) :
    InOrder ({ w with refused := true } : World ι δ μ) := ⟨bound, nofun⟩

theorem inOrder_refused (w : World ι δ μ) (counted : InOrder w) : InOrder ({ w with refused := true } : World ι δ μ) :=
  inOrder_of_refused w counted.1

/-- A call that finds the count in order and leaves it so. -/
def Keeps (setup : Setup δ μ) (me : ι) (body : Call ι δ μ α) : Prop :=
  (counting setup).Spec me (Held me InOrder) body.run fun result => Held me (Ends (fun _ => InOrder) InOrder result)

def Fair (setup : Setup δ μ) (me : ι) (x : Action ι δ μ α) : Prop :=
  (counting setup).Spec me (Outside me) x fun _ => Outside me

variable {body : Call ι δ μ α}

theorem Keeps.accounted (keeps : Keeps setup me body) : Fair setup me (accounted me body).run := by
  have lock : (counting setup).Spec me (Outside me) (lockAccounting me) fun _ : Unit => Held me InOrder := by
    refine .once outside_stable (fun _ => held_stable inOrder_lasting) ?_
    intro w inv outside _ w' among _
    split at among
    · next free =>
      cases mem_singleton.mp among
      refine ⟨⟨?_, fun _ => ⟨rfl, rfl, fun h => h⟩, .inl le_rfl⟩, fun taken => (nomatch taken), rfl, inv free⟩
      intro k other
      rw [free]
      exact ⟨fun same => absurd (Option.some.inj same).symm other, nofun⟩
    · cases among
  have unlock : (counting setup).Spec me (Held me InOrder) unlockAccounting fun _ : Unit => Outside me := by
    refine .once (held_stable inOrder_lasting) (fun _ => outside_stable) ?_
    intro w _ ⟨held, counted⟩ _ w' among _
    cases mem_singleton.mp among
    refine ⟨⟨?_, fun apart => absurd held apart, .inl le_rfl⟩, fun _ => counted, nofun⟩
    intro k other
    rw [held]
    exact ⟨fun none => (nomatch none), fun same => absurd (Option.some.inj same).symm other⟩
  refine lock.bind fun _ => keeps.bind fun result => ?_
  refine .given ?_ (unlock.bind fun _ => .ret outside_stable fun _ _ outside => outside)
  intro w _ held
  cases result with
  | ok a => exact held
  | error e => exact held

theorem held_lift
    (after : ∀ a, Lasting (ok a)) (spec : (counting setup).Spec me (Held me p) x fun a => Held me (ok a)) :
    (counting setup).Spec me (Held me p) (liftM x : Call ι δ μ α).run fun result => Held me (Ends ok failed result) :=
  spec.bind fun a => held_ret (after a) fun _ holds => holds

theorem held_see (ok : α → World ι δ μ → Prop) (before : Lasting p)
    (after : ∀ a, Lasting (ok a)) (each : ∀ w, p w → ∀ a w', (a, w') ∈ outcomes w → w' = w ∧ ok a w) :
    (counting setup).Spec me (Held me p) (.once outcomes) fun a => Held me (ok a) := by
  apply held_once before after
  intro w holds a w' among
  obtain ⟨rfl, seen⟩ := each w holds a w' among
  exact ⟨rfl, .inl le_rfl, seen⟩

/-- What an action does that leaves the chunk files, the count and its lock alone. -/
def Idle (w w' : World ι δ μ) : Prop := Apart w w' ∧ w'.accounting = w.accounting

theorem idle_fair (each : ∀ w a w', (a, w') ∈ outcomes w → Idle w w') : Fair setup me (.once outcomes) := by
  refine .once outside_stable (fun _ => outside_stable) ?_
  intro w inv outside a w' among _
  obtain ⟨apart, lock⟩ := each w a w' among
  refine ⟨⟨fun k _ => by rw [lock], fun _ => apart, .inl (le_of_eq (by rw [apart.chunks]))⟩, fun free => ?_, ?_⟩
  · rw [lock] at free
    exact inOrder_lasting w w' apart (inv free)
  · rw [Outside, lock]
    exact outside

theorem Aside.idle {w' : World ι δ μ} (aside : Aside w w') : Idle w w' := by
  obtain ⟨now, refused, kept, rfl⟩ := aside
  exact ⟨⟨rfl, rfl, kept⟩, rfl⟩

theorem idle_setRecord (w : World ι δ μ) (record : Record) (files : AList fun _ : μ => Saved) :
    Idle w (w.setRecord record files) := by
  cases record with
  | root => exact ⟨⟨rfl, rfl, id⟩, rfl⟩
  | pending => exact ⟨⟨rfl, rfl, id⟩, rfl⟩

theorem opened_inOrder (chunks : AList fun _ : δ => File) (roots pending : AList fun _ : μ => Saved) :
    InOrder (World.opened chunks roots pending : World ι δ μ) := by
  have counted : (World.opened chunks roots pending : World ι δ μ).used = total chunks := by
    change chunks.entries.foldl (fun used entry => used + entry.2.len) 0 = total chunks
    rw [← foldl_map, total,
      sum_eq_foldl]
  exact ⟨le_of_eq counted.symm, fun _ => counted⟩

theorem setUsed_held {n : Nat} : (counting setup).Spec me (Held me (Counted n))
    (setUsed n) fun _ => Held me InOrder := by
  refine held_once (counted_lasting n) (fun _ => inOrder_lasting) ?_
  intro w counted _ w' among
  cases mem_singleton.mp among
  exact ⟨rfl, .inl le_rfl, counted⟩

variable [DecidableEq δ]

/-- What is known of the file that a commit is about to replace. -/
def Sought (found : Option File) (id : δ) (w : World ι δ μ) : Prop := found = w.chunks.lookup id ∧ InOrder w

def Placing (found : Option File) (id : δ) (used : Nat) (w : World ι δ μ) : Prop :=
  (found = w.chunks.lookup id ∧ used = w.used) ∧ Counted used w

theorem sought_lasting (found : Option File) (id : δ) : Lasting (Sought found id : World ι δ μ → Prop) :=
  (Lasting.books fun chunks _ => found = chunks.lookup id).and inOrder_lasting

theorem placing_lasting (found : Option File) (id : δ) (used : Nat) :
    Lasting (Placing found id used : World ι δ μ → Prop) :=
  (Lasting.books fun chunks count => found = chunks.lookup id ∧ used = count).and (counted_lasting used)

theorem Placing.inOrder {used : Nat} (placing : Placing found id used w) : InOrder w := by
  obtain ⟨⟨_, rfl⟩, counted⟩ := placing
  exact counted

theorem Placing.stored {used : Nat} {file : File}
    (placing : Placing found id used w) (room : used - (found.map File.len).getD 0 + file.len ≤ setup.maxBytes) :
    total (w.chunks.insert id file) ≤ setup.maxBytes ∧
      Counted (used - (found.map File.len).getD 0 + file.len) { w with chunks := w.chunks.insert id file } := by
  obtain ⟨⟨rfl, _⟩, bound, same⟩ := placing
  have erased := total_erase w.chunks id
  have inserted := total_insert w.chunks id file
  unfold lenOf at erased
  refine ⟨by omega, ?_, fun kept => ?_⟩
  · dsimp only
    omega
  · have := same kept
    dsimp only
    omega

theorem readUsed_held :
    (counting setup).Spec me (Held me (Sought found id)) readUsed fun used => Held me (Placing found id used) := by
  apply held_see _ (sought_lasting found id) (placing_lasting found id)
  intro w ⟨same, counted⟩ used w' among
  cases mem_singleton.mp among
  exact ⟨rfl, ⟨same, rfl⟩, counted⟩

theorem commit_keeps (id : δ) (file : File) : Keeps setup me (commit setup id file) := by
  refine held_bind inOrder_lasting (held_look (fun found => Sought found id) inOrder_lasting
    (fun found => sought_lasting found id) inOrder_lasting (fun w holds => ⟨rfl, holds⟩) inOrder_refused)
    fun found => ?_
  split
  · exact held_ret (sought_lasting found id) fun w holds => holds.2
  refine held_bind inOrder_lasting (held_lift (placing_lasting found id) readUsed_held) fun used => ?_
  have placing := placing_lasting (ι := ι) (μ := μ) found id used
  dsimp only
  split
  · exact held_ret placing fun w holds => holds.inOrder
  next room =>
  have stored : (counting setup).Spec me (Held me (Placing found id used)) (do
      fileOp "store" fun w => [((), { w with chunks := w.chunks.insert id file })]
      (setUsed (used - (found.map File.len).getD 0 + file.len) : Action ι δ μ Unit)
      return true : Call ι δ μ Bool).run fun result => Held me (Ends (fun _ => InOrder) InOrder result) := by
    refine held_bind inOrder_lasting (held_fileOp
      (fun _ => Counted (used - (found.map File.len).getD 0 + file.len)) placing (fun _ => counted_lasting _)
      inOrder_lasting ?_ fun w holds => inOrder_refused w holds.inOrder) fun _ => ?_
    · intro w holds _ w' among
      cases mem_singleton.mp among
      have ⟨bounded, counted⟩ := holds.stored (Nat.le_of_not_lt room)
      exact ⟨rfl, .inr bounded, counted⟩
    · refine held_bind inOrder_lasting (held_lift (fun _ => inOrder_lasting) setUsed_held) fun _ => ?_
      exact held_ret inOrder_lasting fun _ holds => holds
  have chosen : (counting setup).Spec me (Held me (Placing found id used)) newFan fun _ : Bool =>
      Held me (Placing found id used) := by
    refine held_see _ placing (fun _ => placing) ?_
    intro w holds fresh w' among
    simp only [mem_cons, Prod.mk.injEq, not_mem_nil, or_false] at among
    rcases among with ⟨_, rfl⟩ | ⟨_, rfl⟩
    · exact ⟨rfl, holds⟩
    · exact ⟨rfl, holds⟩
  refine held_bind inOrder_lasting (held_lift (fun _ => placing) chosen) fun fresh => ?_
  split
  · exact held_bind inOrder_lasting (held_look (fun _ => Placing found id used) placing (fun _ => placing)
      inOrder_lasting (fun _ holds => holds) fun w holds => inOrder_refused w holds.inOrder) fun _ => stored
  · exact stored

def Owed (n : Nat) (w : World ι δ μ) : Prop := Counted (w.used - n) w

theorem discard_fair (id : δ) (read : File) : Fair setup me (discard me id read : Call ι δ μ Unit).run := by
  have owed (removed : Bool) : Lasting fun w : World ι δ μ => removed = true ∧ Owed read.len w := by
    intro w w' apart ⟨done, counted⟩
    unfold Owed
    rw [apart.used]
    exact ⟨done, apart.counted counted⟩
  refine Keeps.accounted (held_bind inOrder_lasting (held_look (fun found => Sought found id) inOrder_lasting
    (fun found => sought_lasting found id) inOrder_lasting (fun w holds => ⟨rfl, holds⟩) inOrder_refused)
    fun found => ?_)
  cases found with
  | none => exact held_ret (sought_lasting none id) fun w holds => holds.2
  | some found =>
    have sought := sought_lasting (ι := ι) (μ := μ) (some found) id
    dsimp only
    split
    · next same =>
      refine held_bind inOrder_lasting (held_fileOp (fun removed w => removed = true ∧ Owed read.len w) sought owed
        inOrder_lasting ?_ fun w holds => inOrder_refused w holds.2) fun removed => ?_
      · intro w ⟨there, bound, counted⟩ removed w' among
        cases mem_singleton.mp among
        have erased := total_erase w.chunks id
        have len : lenOf w.chunks id = read.len := by
          rw [lenOf, ← there]
          exact (Prod.mk.inj same).1
        refine ⟨rfl, .inl (by dsimp only; omega), by rw [← there]; rfl, ?_, fun kept => ?_⟩
        · dsimp only
          omega
        · have := counted kept
          dsimp only
          omega
      · split
        · refine held_bind inOrder_lasting (held_lift (fun used => counted_lasting (used - read.len))
            (held_see (fun used => Counted (used - read.len)) (owed removed) (fun _ => counted_lasting _) ?_))
              fun used => ?_
          · intro w ⟨_, counted⟩ used w' among
            cases mem_singleton.mp among
            exact ⟨rfl, counted⟩
          · exact held_lift (fun _ => inOrder_lasting) setUsed_held
        · next kept => exact held_ret (owed removed) fun w holds => absurd holds.1 kept
    · exact held_ret sought fun w holds => holds.2

/-- Where a collection's scan stands: the files it has yet to visit, and the bytes of those it kept. -/
def Sweeping (ids : List δ) (kept : Nat) (w : World ι δ μ) : Prop :=
  (ids.Nodup ∧ (∀ id ∈ ids, (w.chunks.lookup id).isSome)) ∧
    total w.chunks = kept + (ids.map (lenOf w.chunks)).sum ∧ total w.chunks ≤ w.used

theorem sweeping_lasting (ids : List δ) (kept : Nat) : Lasting (Sweeping ids kept : World ι δ μ → Prop) :=
  .books fun chunks used => (ids.Nodup ∧ (∀ id ∈ ids, (chunks.lookup id).isSome)) ∧
    total chunks = kept + (ids.map (lenOf chunks)).sum ∧ total chunks ≤ used

theorem Sweeping.keep {ids : List δ} {kept : Nat} (sweeping : Sweeping (id :: ids) kept w) :
    Sweeping ids (kept + lenOf w.chunks id) w := by
  obtain ⟨⟨nodup, there⟩, counted, bound⟩ := sweeping
  refine ⟨⟨(nodup_cons.mp nodup).2, fun other among => there other (mem_cons_of_mem _ among)⟩, ?_, bound⟩
  rw [counted, map_cons, sum_cons, Nat.add_assoc]

theorem Sweeping.remove {ids : List δ} {kept : Nat}
    (sweeping : Sweeping (id :: ids) kept w) : Sweeping ids kept { w with chunks := w.chunks.erase id } := by
  obtain ⟨⟨nodup, there⟩, counted, bound⟩ := sweeping
  obtain ⟨fresh, nodup⟩ := nodup_cons.mp nodup
  have erased := total_erase w.chunks id
  have other {next : δ} (among : next ∈ ids) : next ≠ id := by
    rintro rfl
    exact fresh among
  have same : ids.map (lenOf (w.chunks.erase id)) = ids.map (lenOf w.chunks) :=
    map_congr_left fun next among => lenOf_erase _ _ (other among)
  rw [map_cons, sum_cons] at counted
  refine ⟨⟨nodup, fun next among => ?_⟩, ?_, ?_⟩
  · rw [AList.lookup_erase_ne (other among)]
    exact there next (mem_cons_of_mem _ among)
  · dsimp only
    rw [same]
    omega
  · dsimp only
    omega

theorem sweep_held (keep ids : List δ) (kept : Nat) :
    (counting setup).Spec me (Held me (Sweeping ids kept)) (sweep keep ids kept : Call ι δ μ Nat).run fun result =>
      Held me (Ends (fun kept w => total w.chunks = kept) InOrder result) := by
  induction ids generalizing kept with
  | nil =>
    refine held_ret (sweeping_lasting [] kept) fun w sweeping => ?_
    exact sweeping.2.1
  | cons id ids ih =>
    have lasting := sweeping_lasting (ι := ι) (μ := μ) (id :: ids) kept
    have known (found : Option File) : Lasting fun w : World ι δ μ =>
        found = w.chunks.lookup id ∧ Sweeping (id :: ids) kept w :=
      (Lasting.books fun chunks _ => found = chunks.lookup id).and lasting
    refine held_bind inOrder_lasting
      (held_look (fun found w => found = w.chunks.lookup id ∧ Sweeping (id :: ids) kept w)
      lasting known inOrder_lasting (fun w holds => ⟨rfl, holds⟩) fun w holds => inOrder_of_refused w holds.2.2)
        fun found => ?_
    cases found with
    | none =>
      refine held_ret (known none) fun w holds => ?_
      have there := holds.2.1.2 id (mem_cons_self ..)
      rw [← holds.1] at there
      cases there
    | some file =>
      have stays {w : World ι δ μ} (holds : some file = w.chunks.lookup id ∧ Sweeping (id :: ids) kept w) :
          Sweeping ids (kept + file.len) w := by
        have len : lenOf w.chunks id = file.len := by rw [lenOf, ← holds.1]; rfl
        rw [← len]
        exact holds.2.keep
      dsimp only
      split
      · exact .given (fun w _ held => ⟨held.1, stays held.2⟩) (ih (kept + file.len))
      -- A refused removal is no failure of the scan: the file is counted as kept.
      have removal : (counting setup).Spec me
        (Held me fun w => some file = w.chunks.lookup id ∧ Sweeping (id :: ids) kept w)
          (fileOp "remove" fun w => [((), { w with chunks := w.chunks.erase id })] : Call ι δ μ Unit).run fun result =>
          Held me (Ends (fun _ => Sweeping ids kept) (Sweeping ids (kept + file.len)) result) := by
        refine held_fileOp (fun _ => Sweeping ids kept) (known (some file)) (fun _ => sweeping_lasting ids kept)
          (sweeping_lasting ids _) ?_ fun w holds => stays holds
        intro w holds _ w' among
        cases mem_singleton.mp among
        have erased := total_erase w.chunks id
        exact ⟨rfl, .inl (by dsimp only; omega), holds.2.remove⟩
      refine .liftBind removal fun result => ?_
      cases result with
      | ok _ => exact ih kept
      | error e => exact ih (kept + file.len)

theorem recount_fair (keep : List δ) : Fair setup me (recount me keep : Call ι δ μ Unit).run := by
  refine Keeps.accounted (held_bind inOrder_lasting (held_fileOp (fun ids => Sweeping ids 0) inOrder_lasting
    (fun ids => sweeping_lasting ids 0) inOrder_lasting ?_ inOrder_refused) fun ids => ?_)
  · intro w counted ids w' among
    obtain ⟨order, member, same⟩ := mem_map.mp among
    cases same
    have perm := mem_permutations.mp member
    refine ⟨rfl, .inl le_rfl, ⟨perm.nodup_iff.mpr w.chunks.keys_nodup, fun id among => ?_⟩, ?_, counted.1⟩
    · exact AList.lookup_isSome.mpr (AList.mem_keys.mpr (perm.mem_iff.mp among))
    · rw [Nat.zero_add, total_keys]
      exact ((perm.map _).sum_eq).symm
  · refine held_bind inOrder_lasting (sweep_held keep ids 0) fun kept => ?_
    refine held_lift (fun _ => inOrder_lasting) (held_once (Lasting.books fun chunks _ => total chunks = kept)
      (fun _ => inOrder_lasting) ?_)
    intro w same _ w' among
    cases mem_singleton.mp among
    refine ⟨rfl, .inl le_rfl, le_of_eq same, fun _ => same.symm⟩

/-- The kinds of parts that the calls of a process have. -/
inductive StorePart (setup : Setup δ μ) (me : ι) : ∀ α : Type, Action ι δ μ α → Prop where
  | chunk {α : Type} {x : Action ι δ μ α} (known : ChunkPart setup me α x) : StorePart setup me α x
  | books {α : Type} {outcomes : World ι δ μ → List (α × World ι δ μ)}
    (each : ∀ w a w', (a, w') ∈ outcomes w → Idle w w') : StorePart setup me α (.once outcomes)
  | recount (keep : List δ) : StorePart setup me _ (recount me keep).run

theorem StorePart.fair (known : StorePart setup me α x) : Fair setup me x := by
  cases known with
  | chunk known =>
    cases known with
    | aside each => exact idle_fair fun w a w' among => (each w a w' among).idle
    | commit id file => exact (commit_keeps id file).accounted
    | discard id read => exact discard_fair id read
  | books each => exact idle_fair each
  | recount keep => exact recount_fair keep

abbrev Stored (setup : Setup δ μ) (me : ι) (x : Action ι δ μ α) : Prop := Prog.Made (StorePart setup me) x

theorem stored_chunk (made : Prog.Made (ChunkPart setup me) x) : Stored setup me x :=
  made.mono .chunk

theorem stored_once {f : World ι δ μ → α × World ι δ μ} (idle : ∀ w, Idle w (f w).2) :
    Stored setup me (.once fun w => [f w]) := by
  refine .part (.books fun w a w' among => ?_)
  have same := mem_singleton.mp among
  rw [← (Prod.mk.inj same).2.symm]
  exact idle w

theorem stored_fileOp {f : World ι δ μ → α × World ι δ μ} (idle : ∀ w, Idle w (f w).2) :
    Stored setup me (fileOp action fun w => [f w]).run := by
  refine .part (.books fun w result w' among => ?_)
  rcases mem_fileOp among with ⟨a, _, taken⟩ | ⟨_, rfl⟩
  · have same := mem_singleton.mp taken
    rw [← (Prod.mk.inj same).2.symm]
    exact idle w
  · exact (Aside.failed w).idle

theorem stored_locked {acquire release : Action ι δ μ Unit} (taken : Stored setup me acquire)
    (given : Stored setup me release) (inside : Stored setup me body.run) :
    Stored setup me (locked acquire release body).run :=
  .next taken fun _ => .next inside fun _ => .next given fun _ => .ret _

section Shared

variable [DecidableEq ι]

theorem stored_shared (inside : Stored setup me body.run) : Stored setup me (shared me body).run := by
  refine stored_locked (.part (.books fun w _ w' among => ?_)) (stored_once fun _ => ⟨⟨rfl, rfl, id⟩, rfl⟩) inside
  split at among
  · cases mem_singleton.mp among
    exact ⟨⟨rfl, rfl, id⟩, rfl⟩
  · cases among

end Shared

variable [DecidableEq μ] (record : Record)

theorem stored_removeRecord (id : μ) : Stored setup me (removeRecord record id).run :=
  stored_fileOp fun w => idle_setRecord w record _

theorem stored_writeRecord (id : μ) : Stored setup me (writeRecord record id).run :=
  .exceptBind (stored_chunk writeTemp_made) fun _ => stored_fileOp fun w => idle_setRecord w record _

theorem stored_loadRecord (id : μ) : Stored setup me (loadRecord record id).run := by
  refine .exceptBind (stored_chunk look_made) fun found => ?_
  cases found with
  | none => exact .ret _
  | some saved =>
    refine .exceptBind (stored_chunk look_made) fun _ => ?_
    cases saved with
    | good => exact .ret _
    | damaged => exact .ret _

theorem stored_promote (id : μ) : Stored setup me (promote id).run := by
  refine .exceptBind (stored_fileOp fun w => ?_) fun moved => ?_
  · cases w.pending.lookup id with
    | none => exact (Aside.same w).idle
    | some saved => exact ⟨⟨rfl, rfl, fun h => h⟩, rfl⟩
  · split
    · exact .ret _
    · exact stored_writeRecord .root id

theorem stored_dropClaim (id : μ) (removing : Bool) : Stored setup me (dropClaim me id removing) :=
  stored_once fun _ => ⟨⟨rfl, rfl, fun h => h⟩, rfl⟩

variable [DecidableEq ι]

theorem stored_removeLate (id : μ) : Stored setup me (removeLate me id).run := by
  refine .part (.books fun w result w' among => ?_)
  simp only [mem_cons, Prod.mk.injEq, not_mem_nil, or_false] at among
  rcases among with ⟨_, rfl⟩ | ⟨_, rfl⟩
  · exact ⟨⟨rfl, rfl, fun h => h⟩, rfl⟩
  · exact ⟨⟨rfl, rfl, fun _ => rfl⟩, rfl⟩

omit [DecidableEq ι] in
theorem stored_startSink {record : Call ι δ μ Unit} (id : μ) (removing : Bool) (recorded : Stored setup me record.run) :
    Stored setup me (startSink setup me id record removing).run := by
  have claimed : Stored setup me (claimSink me id : Action ι δ μ Bool) := by
    refine .part (.books fun w _ w' among => ?_)
    split at among
    · cases mem_singleton.mp among
      exact (Aside.same w).idle
    · cases mem_singleton.mp among
      exact ⟨⟨rfl, rfl, fun h => h⟩, rfl⟩
  refine .next claimed fun free => ?_
  split
  · refine .next (.exceptBind recorded fun _ => stored_chunk (missing_made _)) fun found => ?_
    cases found with
    | ok missing => exact .next (stored_once fun _ => ⟨⟨rfl, rfl, fun h => h⟩, rfl⟩) fun _ => .ret _
    | error error => exact .next (stored_dropClaim id _) fun _ => .ret _
  · exact .ret _

theorem stored_openSink (id : μ) : Stored setup me (openSink setup me id).run :=
  stored_startSink id false (stored_shared (stored_writeRecord .pending id))

omit [DecidableEq ι] in
theorem stored_resumeSink (id : μ) (removing : Bool) : Stored setup me (resumeSink setup me id removing).run :=
  stored_startSink id removing (stored_loadRecord .pending id)

omit [DecidableEq μ] in
theorem stored_put (sink : Sink δ μ) (chunk : δ) (frameLen : Nat) (valid : Bool) :
    Stored setup me (put setup me sink chunk frameLen valid).run := by
  unfold put
  split
  · exact .ret _
  split
  · exact .ret _
  split
  · exact .ret _
  split
  · exact .exceptBind (stored_shared (stored_chunk (writeChunk_made chunk frameLen))) fun _ => .ret _
  · exact .ret _

omit [DecidableEq μ] in
theorem stored_verifyThen {next : Call ι δ μ Unit} (id : μ) (publishes : Bool) (last : Stored setup me next.run) :
    Stored setup me (verifyThen setup me id publishes next).run := by
  have tried (action : String) : Stored setup me (attempt action).run := stored_chunk look_made
  have streamed : Stored setup me (streamFile setup me id publishes).run := stored_chunk (streamFile_made id publishes)
  refine stored_shared (.exceptBind (stored_chunk (missing_made _)) fun lacking => ?_)
  split
  · exact .ret _
  cases publishes with
  | true =>
    exact .exceptBind (tried _) fun _ => .exceptBind streamed fun _ => .exceptBind (tried _) fun _ =>
      .exceptBind last fun _ => tried _
  | false => exact .exceptBind streamed fun _ => .exceptBind last fun _ => .ret _

theorem stored_finish (sink : Sink δ μ) (publishes : Bool) : Stored setup me (finish setup me sink publishes) := by
  unfold finish
  split
  · exact .ret _
  split
  · exact .ret _
  refine .next (stored_verifyThen sink.id publishes (stored_promote sink.id)) fun result => ?_
  split
  · exact .next (stored_dropClaim _ _) fun _ => .ret _
  · exact .next (stored_dropClaim _ _) fun _ => .next (stored_removeLate _) fun _ => .ret _
  refine .next (stored_chunk (missing_made _)) fun found => ?_
  split
  · exact .ret _
  · exact .ret _

omit [DecidableEq ι] in
theorem stored_abandon (id : μ) : Stored setup me (abandon me id).run :=
  .next (stored_once fun _ => ⟨⟨rfl, rfl, fun h => h⟩, rfl⟩) fun _ =>
    .next (stored_removeRecord .pending id) fun _ => .next (stored_dropClaim id false) fun _ => .ret _

theorem stored_sinkCall (sink : Sink δ μ) (call : SinkCall δ) : Stored setup me (sinkCall setup me sink call) := by
  cases call with
  | put chunk frameLen valid =>
    refine .next (stored_put sink chunk frameLen valid) fun result => ?_
    split
    · exact .ret _
    · exact .ret _
  | finish publishes => exact stored_finish sink publishes
  | refresh =>
    refine .next (stored_chunk (missing_made _)) fun found => ?_
    split
    · exact .ret _
    · exact .ret _

theorem stored_transfer {opening : Call ι δ μ (Sink δ μ)} (calls : List (SinkCall δ)) (ending : Ending)
    (opened : Stored setup me opening.run) : Stored setup me (transfer setup me opening calls ending) := by
  have called (sink : Sink δ μ) : Stored setup me (sinkCalls setup me sink calls) := by
    induction calls generalizing sink with
    | nil => exact .ret _
    | cons call calls ih => exact .next (stored_sinkCall sink call) ih
  refine .next opened fun result => ?_
  cases result with
  | error error => exact .ret _
  | ok sink =>
    refine .next (called sink) fun sink => ?_
    split
    · exact .ret _
    · cases ending with
      | abandon => exact .next (stored_abandon sink.id) fun _ => .ret _
      | drop => exact stored_dropClaim sink.id false

theorem stored_ingest (id : μ) (frameLen : δ → Nat) : Stored setup me (ingest setup me id frameLen).run :=
  stored_shared (.exceptBind (stored_chunk (storeParts_made id frameLen)) fun _ => stored_writeRecord .root id)

omit [DecidableEq ι] in
theorem stored_keepRecords (ids : List μ) (keep : List δ) :
    Stored setup me (keepRecords setup record ids keep).run := by
  induction ids generalizing keep with
  | nil => exact .ret _
  | cons id ids ih =>
    refine .exceptBind (.lift (stored_loadRecord record id)) fun result => ?_
    split
    · exact ih _
    · exact .exceptBind (stored_removeRecord record id) fun _ => ih _
    · exact ih _
    · exact .ret _

omit [DecidableEq ι] in
theorem stored_gc (live : List μ) : Stored setup me (gc setup me live).run := by
  refine stored_locked (.part (.books fun w _ w' among => ?_)) (stored_once fun _ => ⟨⟨rfl, rfl, id⟩, rfl⟩) ?_
  · split at among
    · cases mem_singleton.mp among
      exact ⟨⟨rfl, rfl, id⟩, rfl⟩
    · cases among
  · refine .exceptBind (stored_chunk look_made) fun roots => .exceptBind
      (stored_keepRecords .root roots _) fun keep => ?_
    refine .exceptBind (stored_chunk look_made) fun pending => ?_
    refine .exceptBind (stored_keepRecords .pending pending keep) fun keep => ?_
    exact .exceptBind (.part (.recount keep)) fun _ => stored_chunk look_made

theorem stored_abandonIdle : Stored setup me (abandonIdle setup me).run := by
  refine .exceptBind (stored_chunk look_made) fun ids => forEach_made (fun id => ?_) ids
  refine .exceptBind (.lift (stored_resumeSink id true)) fun result => ?_
  split
  · exact stored_abandon id
  · exact stored_removeLate id
  · exact .ret _
  · exact .ret _

theorem stored_task (task : Task δ μ) : Stored setup me (task.prog setup me) := by
  cases task with
  | read chunk => exact .next (stored_chunk (load_made chunk)) fun _ => .ret _
  | assemble id => exact .next (stored_verifyThen id true (.ret _)) fun _ => .ret _
  | ingest id frameLen => exact .next (stored_ingest id frameLen) fun _ => .ret _
  | «open» id calls ending => exact stored_transfer calls ending (stored_openSink id)
  | resume id calls ending => exact stored_transfer calls ending (stored_resumeSink id false)
  | release id => exact .next (stored_removeRecord .root id) fun _ => .ret _
  | abandonIdle => exact .next stored_abandonIdle fun _ => .ret _
  | gc live => exact .next (stored_gc live) fun _ => .ret _

theorem stored_work (tasks : List (Task δ μ)) : Stored setup me (work setup me tasks) := by
  induction tasks with
  | nil => exact .ret _
  | cons task tasks ih => exact .next (stored_task task) fun _ => ih

/-- Whatever the threads of a process do and whatever is refused them: whenever the count can be read it
is not below the bytes on disk, it is those bytes if nothing was refused since the store was opened or
last collected, and no step makes the chunk files grow past the bound. -/
theorem used_accounts (setup : Setup δ μ) (chunks : AList fun _ : δ => File) (roots pending : AList fun _ : μ => Saved)
    (tasks : ι → List (Task δ μ)) (sys : System ι (World ι δ μ))
    (reached : System.Reaches (fun _ _ _ => True) (process setup (.opened chunks roots pending) tasks) sys) :
    (sys.state.accounting = none → total sys.state.chunks ≤ sys.state.used ∧
      (sys.state.refused = false → sys.state.used = total sys.state.chunks)) ∧
    ∀ i outcome sys', sys.advance i outcome = some sys' →
      total sys'.state.chunks ≤ total sys.state.chunks ∨ total sys'.state.chunks ≤ setup.maxBytes := by
  have start : (counting setup).inv (process setup (.opened chunks roots pending) tasks).state :=
    fun _ => opened_inOrder ..
  have safe (i : ι) : (counting setup).Safe i (work setup i (tasks i)) (fun _ _ => True)
      (World.opened chunks roots pending) := by
    have fair : Fair setup i (work setup i (tasks i)) := .made outside_stable StorePart.fair (stored_work (tasks i))
    exact (fair _ start nofun).weaken start fun _ _ _ _ => trivial
  obtain ⟨inv, safe'⟩ := Discipline.reaches_safe start safe reached
  refine ⟨inv, fun i outcome sys' next => ?_⟩
  exact (Discipline.advance_safe safe' next trivial).1.2.2

local instance twoTasks : NeZero 2 := ⟨nofun⟩

def busy : System (Fin 2) (World (Fin 2) Nat Unit) :=
  process ⟨100, false, fun _ => [0], fun _ _ => true, fun _ => true, fun _ _ => true⟩
    (.opened (AList.singleton 1 ⟨20, 0, false⟩) ∅ ∅)
    fun i => if i = 0 then [.ingest () fun _ => 5] else [.read 1]

def busySchedule : List (Fin 2 × Nat) :=
  [(1, 0), (1, 0), (1, 0)] ++ replicate 8 (0, 0) ++ [(0, 1), (0, 0), (0, 0), (0, 0)] ++ replicate 6 (1, 0)

theorem used_accounts_busy :
    ∃ sys, System.run (fun _ _ _ => True) busySchedule busy = some sys ∧ sys.state.used = 13 ∧
      (sys.state.accounting = none → total sys.state.chunks ≤ sys.state.used ∧
        (sys.state.refused = false → sys.state.used = total sys.state.chunks)) := by
  have counted : (System.run (fun _ _ _ => True) busySchedule busy).map (fun sys => sys.state.used) = some 13 := by
    decide
  obtain ⟨sys, ran, used⟩ := Option.map_eq_some_iff.mp counted
  exact ⟨sys, ran, used, (used_accounts _ _ _ _ _ sys (System.run_reaches .refl ran)).1⟩

end Tpf3Mp.Snapshot.Shared
