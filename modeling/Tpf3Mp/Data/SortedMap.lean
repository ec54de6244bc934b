import Mathlib.Algebra.Ring.Int.Defs
import Mathlib.Order.Basic
import Mathlib.Data.List.Nodup
import Mathlib.Data.List.Perm.Basic

/-!
Maps and sets as lists in ascending key order, for the iteration order of search trees.
-/

namespace Data
open List

variable {κ α : Type} [LT κ] [DecidableLT κ] [DecidableEq κ]

abbrev SortedMap (κ α : Type) := List (κ × α)

namespace SortedMap

def insert (key : κ) (value : α) : SortedMap κ α → SortedMap κ α
  | [] => [(key, value)]
  | (k, v) :: rest =>
    if key = k then (key, value) :: rest
    else if key < k then (key, value) :: (k, v) :: rest
    else (k, v) :: insert key value rest

def find (key : κ) (map : SortedMap κ α) : Option α := (map.find? fun entry => entry.1 = key).map Prod.snd

def erase (key : κ) (map : SortedMap κ α) : SortedMap κ α := map.filter fun entry => entry.1 ≠ key

theorem find_insert (key : κ) (value : α) (map : SortedMap κ α) : (map.insert key value).find key = some value := by
  induction map with
  | nil => simp [insert, find]
  | cons entry rest ih =>
    unfold insert
    split
    · simp [find]
    rename_i other
    split
    · simp [find]
    · unfold find at ih ⊢
      rw [find?_cons_of_neg (by simpa using Ne.symm other)]
      exact ih

variable {key : κ} {map : SortedMap κ α} {value : α}

theorem find_insert_other {other : κ} (apart : key ≠ other) (value : α) (map : SortedMap κ α) :
    (map.insert key value).find other = map.find other := by
  unfold find
  induction map with
  | nil => simp [insert, apart]
  | cons entry rest ih =>
    unfold insert
    split
    · next same => simp [← same, apart]
    split
    · simp [apart]
    · by_cases here : entry.1 = other
      · simp [here]
      · simpa [find?_cons_of_neg, here] using ih

theorem mem_of_insert {entry : κ × α} (among : entry ∈ map.insert key value) : entry = (key, value) ∨ entry ∈ map := by
  induction map with
  | nil => exact .inl (mem_singleton.mp among)
  | cons first rest ih =>
    unfold insert at among
    split at among
    · exact (mem_cons.mp among).imp_right (mem_cons_of_mem _)
    split at among
    · exact mem_cons.mp among
    · rcases mem_cons.mp among with rfl | later
      · exact .inr mem_cons_self
      · exact (ih later).imp_right (mem_cons_of_mem _)

section
omit [LT κ] [DecidableLT κ]

theorem mem_keys : key ∈ map.map Prod.fst ↔ (map.find key).isSome = true := by
  unfold find
  rw [Option.isSome_map, find?_isSome, mem_map]
  simp only [decide_eq_true_eq]

theorem find_mem (found : map.find key = some value) : (key, value) ∈ map := by
  obtain ⟨entry, first, rfl⟩ := Option.map_eq_some_iff.mp found
  have here := find?_some first
  rw [decide_eq_true_eq] at here
  exact here ▸ mem_of_find?_eq_some first

theorem find_erase (key other : κ) (map : SortedMap κ α) :
    (map.erase key).find other = if other = key then none else map.find other := by
  unfold find erase
  induction map with
  | nil => simp
  | cons entry rest ih =>
    rw [filter_cons]
    split
    · next kept =>
      by_cases here : entry.1 = other
      · have apart : other ≠ key := by simpa [here] using kept
        simp [here, apart]
      · simpa [find?_cons_of_neg, here] using ih
    · next dropped =>
      by_cases here : other = key
      · simp [here]
      have apart : entry.1 ≠ other := by
        rintro rfl
        exact dropped (by simpa using here)
      simpa [find?_cons_of_neg, here, apart] using ih

theorem find_map {β : Type} (change : κ × α → β) (key : κ) (map : SortedMap κ α) :
    SortedMap.find key (map.map fun entry => (entry.1, change entry)) = (map.find key).map fun value =>
      change (key, value) := by
  unfold find
  rw [find?_map, Option.map_map]
  cases found : map.find? ((fun entry : κ × β => decide (entry.1 = key)) ∘ fun entry => (entry.1, change entry)) with
  | none =>
    have none : map.find? (fun entry => decide (entry.1 = key)) = none := found
    rw [none]
    rfl
  | some entry =>
    have some_ : map.find? (fun entry => decide (entry.1 = key)) = some entry := found
    have same := find?_some some_
    rw [decide_eq_true_eq] at same
    rw [some_, ← same]
    rfl

theorem find_of_mem (distinct : (map.map Prod.fst).Nodup) (among : (key, value) ∈ map) : map.find key = some value := by
  unfold find
  induction map with
  | nil => cases among
  | cons entry rest ih =>
    rw [map_cons, nodup_cons] at distinct
    rcases mem_cons.mp among with rfl | later
    · simp
    · have apart : entry.1 ≠ key := fun same => distinct.1 (same ▸ mem_map_of_mem later)
      rw [find?_cons_of_neg (by simpa using apart)]
      exact ih distinct.2 later

end

end SortedMap

def insertSorted (key : κ) : List κ → List κ
  | [] => [key]
  | k :: rest => if key = k then k :: rest else if key < k then key :: k :: rest else k :: insertSorted key rest

def sortedSet (keys : List κ) : List κ := keys.foldl (fun set key => insertSorted key set) []

theorem mem_insertSorted {key k : κ} {set : List κ} : k ∈ insertSorted key set ↔ k = key ∨ k ∈ set := by
  induction set with
  | nil => simp [insertSorted]
  | cons first rest ih =>
    unfold insertSorted
    split
    · next same => simp [same]
    · split
      · simp
      · rw [mem_cons, ih, mem_cons, or_left_comm]

theorem mem_sortedSet {k : κ} {keys : List κ} : k ∈ sortedSet keys ↔ k ∈ keys := by
  have along (set : List κ) : k ∈ keys.foldl (fun set key => insertSorted key set) set ↔ k ∈ set ∨ k ∈ keys := by
    induction keys generalizing set with
    | nil => simp
    | cons key keys ih => rw [foldl_cons, ih, mem_insertSorted, mem_cons, or_comm (a := k = key), or_assoc]
  simpa [sortedSet] using along []

/-- Drops every element with the key of the one before it. -/
def dedupByKey {α : Type} (key : α → κ) : List α → List α
  | a :: b :: rest => if key a = key b then dedupByKey key (a :: rest) else a :: dedupByKey key (b :: rest)
  | short => short
termination_by list => list.length

/-- The first element with the least key, as `min_by_key` finds it. -/
def minByKey {α : Type} (before : α → α → Bool) : List α → Option α
  | [] => none
  | a :: rest => some (rest.foldl (fun least b => if before b least then b else least) a)

theorem minByKey_mem {α : Type} {before : α → α → Bool} {list : List α} {a : α}
    (found : minByKey before list = some a) : a ∈ list := by
  cases list with
  | nil => cases found
  | cons first rest =>
    cases found
    induction rest generalizing first with
    | nil => exact mem_singleton_self _
    | cons b rest ih =>
      rw [foldl_cons]
      rcases mem_cons.mp (ih (if before b first = true then b else first)) with here | later
      · rw [here]
        split <;> simp
      · exact mem_cons_of_mem _ (mem_cons_of_mem _ later)

theorem minByKey_least {α : Type} {before : α → α → Bool} {list : List α} {a : α}
    (asymm : ∀ a b, before a b = true → before b a = false)
    (between : ∀ a b c, before a c = true → before a b = true ∨ before b c = true)
    (found : minByKey before list = some a) : ∀ b ∈ list, before b a = false := by
  cases list with
  | nil => cases found
  | cons first rest =>
    cases found
    -- The least so far has no smaller key before it, and keeps that as it is passed on.
    have passes (least : α) (rest : List α) : ∀ b, (b ∈ rest ∨ before b least = false) →
        before b (rest.foldl (fun least b => if before b least then b else least) least) = false := by
      induction rest generalizing least with
      | nil => exact fun b early => early.resolve_left (not_mem_nil)
      | cons c rest ih =>
        intro b early
        rw [foldl_cons]
        apply ih _ b
        have irrefl (a : α) : before a a = false := by
          cases same : before a a with
          | false => rfl
          | true => exact same.symm.trans (asymm a a same)
        split
        · next smaller =>
          rcases early with among | early
          · rcases mem_cons.mp among with rfl | later
            · exact .inr (irrefl b)
            · exact .inl later
          refine .inr ?_
          cases less : before b c with
          | false => rfl
          | true =>
            rcases between b least c less with first | last
            · exact first.symm.trans early
            · exact last.symm.trans (asymm c least smaller)
        · next larger =>
          rcases early with among | early
          · rcases mem_cons.mp among with rfl | later
            · exact .inr (Bool.eq_false_iff.mpr larger)
            · exact .inl later
          · exact .inr early
    intro b among
    apply passes first rest b
    rcases mem_cons.mp among with rfl | later
    · refine .inr ?_
      cases same : before b b with
      | false => rfl
      | true => exact same.symm.trans (asymm b b same)
    · exact .inl later

section Ordered
variable [LE κ] [Std.IsLinearOrder κ] [Std.LawfulOrderLT κ]

omit [DecidableLT κ] [DecidableEq κ] in
theorem lt_of_not_lt {a b : κ} (apart : a ≠ b) (not : ¬a < b) : b < a :=
  Std.lt_of_le_of_ne (Std.not_lt.mp not) apart.symm

theorem insertSorted_ordered (key : κ) {set : List κ} (ordered : set.Pairwise (· < ·)) :
    (insertSorted key set).Pairwise (· < ·) := by
  induction set with
  | nil => exact pairwise_singleton _ _
  | cons first rest ih =>
    obtain ⟨below, tail⟩ := pairwise_cons.mp ordered
    unfold insertSorted
    split
    · exact ordered
    rename_i apart
    split
    · next less =>
      refine pairwise_cons.mpr ⟨fun k among => ?_, ordered⟩
      rcases mem_cons.mp among with rfl | later
      · exact less
      · exact Std.lt_trans less (below k later)
    · next greater =>
      refine pairwise_cons.mpr ⟨fun k among => ?_, ih tail⟩
      rcases mem_insertSorted.mp among with rfl | later
      · exact lt_of_not_lt apart greater
      · exact below k later

theorem sortedSet_ordered (keys : List κ) : (sortedSet keys).Pairwise (· < ·) := by
  have along (set : List κ) (ordered : set.Pairwise (· < ·)) :
      (keys.foldl (fun set key => insertSorted key set) set).Pairwise (· < ·) := by
    induction keys generalizing set with
    | nil => exact ordered
    | cons key keys ih => exact ih _ (insertSorted_ordered key ordered)
  exact along [] .nil

omit [DecidableLT κ] [DecidableEq κ] [Std.IsLinearOrder κ] in
theorem ordered_nodup {set : List κ} (ordered : set.Pairwise (· < ·)) : set.Nodup := by
  refine List.Pairwise.imp ?_ ordered
  rintro a _ less rfl
  exact Std.lt_irrefl less

omit [DecidableLT κ] [DecidableEq κ] in
theorem ordered_ext {a b : List κ} (left : a.Pairwise (· < ·)) (right : b.Pairwise (· < ·))
    (same : ∀ k, k ∈ a ↔ k ∈ b) : a = b := by
  have perm : a.Perm b := (perm_ext_iff_of_nodup (ordered_nodup left) (ordered_nodup right)).mpr same
  refine perm.eq_of_pairwise ?_ left right
  exact fun x y _ _ less greater => absurd (Std.lt_trans less greater) Std.lt_irrefl

namespace SortedMap

variable {map : SortedMap κ α}

theorem insert_ordered (key : κ) (value : α) (ordered : (map.map Prod.fst).Pairwise (· < ·)) :
    ((map.insert key value).map Prod.fst).Pairwise (· < ·) := by
  have keys : (map.insert key value).map Prod.fst = insertSorted key (map.map Prod.fst) := by
    clear ordered
    induction map with
    | nil => rfl
    | cons entry rest ih =>
      obtain ⟨k, v⟩ := entry
      simp only [insert, insertSorted, map_cons]
      split
      · next same => rw [same]; rfl
      · split
        · rfl
        · exact congrArg (k :: ·) ih
  rw [keys]
  exact insertSorted_ordered key ordered

theorem insert_last {key : κ} (value : α) (last : ∀ k ∈ map.map Prod.fst, k < key) :
    map.insert key value = map ++ [(key, value)] := by
  induction map with
  | nil => rfl
  | cons entry rest ih =>
    obtain ⟨before, later⟩ := forall_mem_cons.mp last
    have apart : key ≠ entry.1 := fun same => Std.lt_irrefl (same ▸ before)
    rw [insert, if_neg apart, if_neg (Std.not_lt.mpr (Std.le_of_lt before)), ih later]
    rfl

theorem inserts_ordered (ordered : (map.map Prod.fst).Pairwise (· < ·)) :
    map.foldl (fun map entry => insert entry.1 entry.2 map) [] = map := by
  have along : ∀ later early : SortedMap κ α, ((early ++ later).map Prod.fst).Pairwise (· < ·) →
      later.foldl (fun map entry => insert entry.1 entry.2 map) early = early ++ later := by
    intro later
    induction later with
    | nil => exact fun early _ => (append_nil early).symm
    | cons entry later ih =>
      intro early ordered
      have last : ∀ k ∈ early.map Prod.fst, k < entry.1 := by
        rw [map_append, pairwise_append] at ordered
        exact fun k among => ordered.2.2 k among entry.1 (mem_map_of_mem mem_cons_self)
      rw [append_cons] at ordered ⊢
      rw [foldl_cons, insert_last entry.2 last]
      exact ih _ ordered
  exact along map [] ordered

omit [DecidableLT κ] in
theorem ext_find {a b : SortedMap κ α} (left : (a.map Prod.fst).Pairwise (· < ·))
    (right : (b.map Prod.fst).Pairwise (· < ·)) (same : ∀ k, a.find k = b.find k) : a = b := by
  have distinct := ordered_nodup left
  have distinct' := ordered_nodup right
  have perm : a.Perm b := by
    refine (perm_ext_iff_of_nodup distinct.of_map distinct'.of_map).mpr fun entry => ?_
    constructor
    · intro among
      exact find_mem ((same entry.1).symm.trans (find_of_mem distinct among))
    · intro among
      exact find_mem ((same entry.1).trans (find_of_mem distinct' among))
  refine perm.eq_of_pairwise ?_ (pairwise_map.mp left) (pairwise_map.mp right)
  exact fun x y _ _ less greater => absurd (Std.lt_trans less greater) Std.lt_irrefl

theorem sum_insert (key : κ) (value : Int) {map : SortedMap κ Int} (ordered : (map.map Prod.fst).Pairwise (· < ·)) :
    ((map.insert key value).map Prod.snd).sum + (map.find key).getD 0 = (map.map Prod.snd).sum + value := by
  induction map with
  | nil => simp [insert, find]
  | cons entry rest ih =>
    obtain ⟨first, later⟩ := pairwise_cons.mp ordered
    unfold insert
    split
    · next same =>
      simp [find, same]
      omega
    rename_i other
    split
    · next before =>
      have absent : SortedMap.find key (entry :: rest) = none := by
        rw [← Option.not_isSome_iff_eq_none, ← mem_keys, map_cons, mem_cons]
        rintro (same | among)
        · exact other same
        · exact Std.lt_irrefl (Std.lt_trans before (first _ among))
      rw [absent]
      simp
      omega
    · have found : SortedMap.find key (entry :: rest) = SortedMap.find key rest := by
        unfold find
        rw [find?_cons_of_neg (by simpa using Ne.symm other)]
      rw [found, map_cons, sum_cons, map_cons, sum_cons]
      have rest := ih later
      omega

theorem insert_map (key : κ) (value : α) (change : α → α) (ordered : (map.map Prod.fst).Pairwise (· < ·)) :
    ((map.insert key value).map fun entry => (entry.1, if entry.1 = key then change entry.2 else entry.2)) =
      map.insert key (change value) := by
  refine ext_find ?_ (insert_ordered key _ ordered) fun other => ?_
  · rw [map_map]
    exact insert_ordered key value ordered
  rw [find_map]
  by_cases same : key = other
  · subst same
    simp [find_insert]
  · rw [find_insert_other same, find_insert_other same]
    simp [Ne.symm same]

omit [LT κ] [DecidableLT κ] [LE κ] [Std.IsLinearOrder κ] [Std.LawfulOrderLT κ] in
theorem filter_key {key : κ} {value : α} (distinct : (map.map Prod.fst).Nodup)
    (found : map.find key = some value) : (map.filter fun entry => entry.1 = key) = [(key, value)] := by
  induction map with
  | nil => cases found
  | cons entry rest ih =>
    rw [map_cons, nodup_cons] at distinct
    by_cases here : entry.1 = key
    · have same : entry = (key, value) := by
        subst here
        simpa [find, Prod.ext_iff] using found
      have absent : (rest.filter fun entry => entry.1 = key) = [] := by
        refine filter_eq_nil_iff.mpr fun other among alike => distinct.1 ?_
        rw [here, ← of_decide_eq_true alike]
        exact mem_map_of_mem among
      rw [filter_cons_of_pos (by simpa using here), absent, same]
    · have later : SortedMap.find key rest = some value := by simpa [find, here] using found
      rw [filter_cons_of_neg (by simpa using here)]
      exact ih distinct.2 later

def collect (keys : List κ) (value : κ → Option α) : SortedMap κ α :=
  keys.foldl (fun map key =>
    match value key with
    | some found => insert key found map
    | none => map) []

theorem collect_ordered (keys : List κ) (value : κ → Option α) :
    ((collect keys value).map Prod.fst).Pairwise (· < ·) := by
  have along (map : SortedMap κ α) (ordered : (map.map Prod.fst).Pairwise (· < ·)) : ((keys.foldl (fun map key =>
      match value key with
      | some found => insert key found map
      | none => map) map).map Prod.fst).Pairwise (· < ·) := by
    induction keys generalizing map with
    | nil => exact ordered
    | cons key keys ih =>
      rw [foldl_cons]
      apply ih _
      split
      · exact insert_ordered key _ ordered
      · exact ordered
  exact along [] .nil

omit [LE κ] [Std.IsLinearOrder κ] [Std.LawfulOrderLT κ] in
theorem find_collect (keys : List κ) (value : κ → Option α) (key : κ) :
    (collect keys value).find key = if key ∈ keys then value key else none := by
  have along (map : SortedMap κ α) : SortedMap.find key (keys.foldl (fun map key =>
      match value key with
      | some found => insert key found map
      | none => map) map) = if key ∈ keys then (value key).or (map.find key) else map.find key := by
    induction keys generalizing map with
    | nil => rfl
    | cons first keys ih =>
      rw [foldl_cons, ih]
      by_cases here : key = first
      · subst here
        cases found : value key with
        | none => simp
        | some chosen => simp [find_insert]
      · have same : SortedMap.find key (match value first with
            | some found => insert first found map
            | none => map) = map.find key := by
          split
          · exact find_insert_other (Ne.symm here) _ map
          · rfl
        rw [same]
        simp [here]
  have whole := along []
  simpa [collect, find] using whole

end SortedMap

end Ordered

end Data
