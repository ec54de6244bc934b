import Mathlib.Algebra.GroupWithZero.Nat
import Mathlib.Logic.Equiv.Basic
import Mathlib.Tactic.Common

/-!
Self-delimiting binary formats over byte lists. A format encodes every value, and decodes exactly those
that fit its integer widths and bounds. The combinators follow a non self-describing serializer: products
are written field by field, sums as a varint tag and the variant's fields, sequences as a varint length
and the elements.
-/

namespace Codec
open List

abbrev Bytes := List UInt8

structure Format (α : Type) where
  Fits : α → Prop
  encode : α → Bytes
  decode : Bytes → Option (α × Bytes)
  decode_encode : ∀ {a : α}, Fits a → ∀ rest, decode (encode a ++ rest) = some (a, rest)
  decode_overflow : ∀ {a : α}, ¬ Fits a → ∀ rest, decode (encode a ++ rest) = none
  decode_fits : ∀ {bytes : Bytes} {a : α} {rest : Bytes}, decode bytes = some (a, rest) → Fits a

def le32 (n : Nat) : Bytes :=
  [UInt8.ofNat n, UInt8.ofNat (n / 256), UInt8.ofNat (n / 256 ^ 2), UInt8.ofNat (n / 256 ^ 3)]

def ofLe32 (a b c d : UInt8) : Nat := a.toNat + 256 * b.toNat + 256 ^ 2 * c.toNat + 256 ^ 3 * d.toNat

@[simp] theorem length_le32 (n : Nat) : (le32 n).length = 4 := rfl

theorem ofLe32_le32 {n : Nat} (small : n < 2 ^ 32) :
    ofLe32 (UInt8.ofNat n) (UInt8.ofNat (n / 256)) (UInt8.ofNat (n / 256 ^ 2)) (UInt8.ofNat (n / 256 ^ 3)) = n := by
  simp only [ofLe32, UInt8.toNat_ofNat']
  omega

namespace Format

variable {α β : Type}

def byte : Format UInt8 where
  Fits _ := True
  encode b := [b]
  decode
    | [] => none
    | b :: rest => some (b, rest)
  decode_encode _ _ := rfl
  decode_overflow large := absurd trivial large
  decode_fits _ := trivial

def unit : Format Unit where
  Fits _ := True
  encode _ := []
  decode bytes := some ((), bytes)
  decode_encode _ _ := rfl
  decode_overflow large := absurd trivial large
  decode_fits _ := trivial

def varintFuel : Nat → Nat → Bytes
  | 0, _ => []
  | fuel + 1, n =>
    if n < 128 then [UInt8.ofNat n] else UInt8.ofNat (n % 128 + 128) :: varintFuel fuel (n / 128)

/-- Seven bits a byte, low bits first; every byte but the last has its high bit set. -/
def varint (n : Nat) : Bytes := varintFuel (n + 1) n

/-- Reads a varint of at most `limit` bytes. -/
def takeVarint : Nat → Bytes → Option (Nat × Bytes)
  | 0, _ => none
  | _ + 1, [] => none
  | limit + 1, b :: rest =>
    if b.toNat < 128 then some (b.toNat, rest)
    else (takeVarint limit rest).map fun (high, rest) => (b.toNat - 128 + 128 * high, rest)

theorem takeVarint_varintFuel (limit fuel n : Nat) (enough : n < fuel) (rest : Bytes) :
    takeVarint (limit + 1) (varintFuel fuel n ++ rest) =
      if n < 128 ^ (limit + 1) then some (n, rest) else none := by
  induction limit generalizing fuel n with
  | zero =>
    obtain ⟨fuel, rfl⟩ : ∃ k, fuel = k + 1 := ⟨fuel - 1, by omega⟩
    by_cases small : n < 128
    · have same : n % 256 = n := Nat.mod_eq_of_lt (by omega)
      simp [varintFuel, takeVarint, small, same]
    · have high : (n % 128 + 128) % 256 = n % 128 + 128 := Nat.mod_eq_of_lt (by omega)
      simp [varintFuel, takeVarint, small, high]
  | succ limit ih =>
    obtain ⟨fuel, rfl⟩ : ∃ k, fuel = k + 1 := ⟨fuel - 1, by omega⟩
    have split : 128 ^ (limit + 1 + 1) = 128 ^ (limit + 1) * 128 := Nat.pow_succ ..
    have positive : 0 < 128 ^ (limit + 1) := Nat.pow_pos (by decide)
    by_cases small : n < 128
    · have same : n % 256 = n := Nat.mod_eq_of_lt (by omega)
      have below : n < 128 ^ (limit + 1 + 1) := by omega
      rw [if_pos below]
      simp [varintFuel, takeVarint, small, same]
    · have high : (n % 128 + 128) % 256 = n % 128 + 128 := Nat.mod_eq_of_lt (by omega)
      have quotient : n / 128 < 128 ^ (limit + 1) ↔ n < 128 ^ (limit + 1 + 1) := by
        rw [split]; exact Nat.div_lt_iff_lt_mul (by decide)
      have tail := ih fuel (n / 128) (by omega)
      rw [varintFuel, if_neg small, cons_append, takeVarint]
      simp only [UInt8.toNat_ofNat', Nat.reducePow, high, tail, quotient]
      rw [if_neg (by omega)]
      split
      · simp only [Option.map_some, Option.some.injEq, Prod.mk.injEq, and_true]
        omega
      · rfl

theorem width_bytes (width : Nat) : 2 ^ width ≤ 128 ^ ((width - 1) / 7 + 1) := by
  have power : (128 : Nat) = 2 ^ 7 := rfl
  rw [power, ← Nat.pow_mul]
  exact Nat.pow_le_pow_right (by decide) (by omega)

variable {as : List α} {limit n : Nat}

theorem varintFuel_length (fuel : Nat) (small : n < 128 ^ (limit + 1)) : (varintFuel fuel n).length ≤ limit + 1 := by
  induction fuel generalizing limit n with
  | zero => exact Nat.zero_le _
  | succ fuel ih =>
    unfold varintFuel
    split
    · exact Nat.le_add_left 1 limit
    cases limit with
    | zero => omega
    | succ limit =>
      have quotient : n / 128 < 128 ^ (limit + 1) := Nat.div_lt_of_lt_mul (by rwa [Nat.pow_succ, Nat.mul_comm] at small)
      exact Nat.succ_le_succ (ih quotient)

theorem varint_length (small : n < 128 ^ (limit + 1)) : (varint n).length ≤ limit + 1 :=
  varintFuel_length _ small

/-- An unsigned integer of `width` bits, as a varint of at most the bytes the width needs. -/
def uint (width : Nat) : Format Nat where
  Fits n := n < 2 ^ width
  encode := varint
  decode bytes := (takeVarint ((width - 1) / 7 + 1) bytes).filter fun (n, _) => n < 2 ^ width
  decode_encode := by
    intro n fits rest
    have bound := width_bytes width
    rw [varint, takeVarint_varintFuel _ _ _ (Nat.lt_succ_self n), if_pos (by omega)]
    simp [Option.filter, fits]
  decode_overflow := by
    intro n large rest
    rw [varint, takeVarint_varintFuel _ _ _ (Nat.lt_succ_self n)]
    split
    · simp [Option.filter, large]
    · rfl
  decode_fits := by
    intro bytes n rest read
    simpa using (Option.filter_eq_some_iff.mp read).2

def pair (f : Format α) (g : Format β) : Format (α × β) where
  Fits p := f.Fits p.1 ∧ g.Fits p.2
  encode p := f.encode p.1 ++ g.encode p.2
  decode bytes := (f.decode bytes).bind fun (a, rest) => (g.decode rest).map fun (b, rest) => ((a, b), rest)
  decode_encode := by
    rintro ⟨a, b⟩ ⟨left, right⟩ rest
    simp [f.decode_encode left, g.decode_encode right]
  decode_overflow := by
    rintro ⟨a, b⟩ large rest
    by_cases left : f.Fits a
    · have right : ¬ g.Fits b := fun right => large ⟨left, right⟩
      simp [f.decode_encode left, g.decode_overflow right]
    · simp [f.decode_overflow left]
  decode_fits := by
    rintro bytes ⟨a, b⟩ rest read
    obtain ⟨⟨a', middle⟩, first, read⟩ := Option.bind_eq_some_iff.mp read
    obtain ⟨⟨b', _⟩, second, same⟩ := Option.map_eq_some_iff.mp read
    cases same
    exact ⟨f.decode_fits first, g.decode_fits second⟩

def iso (f : Format α) (e : α ≃ β) : Format β where
  Fits b := f.Fits (e.symm b)
  encode b := f.encode (e.symm b)
  decode bytes := (f.decode bytes).map fun (a, rest) => (e a, rest)
  decode_encode := by
    intro b fits rest
    simp [f.decode_encode fits]
  decode_overflow := by
    intro b large rest
    simp [f.decode_overflow large]
  decode_fits := by
    intro bytes b rest read
    obtain ⟨⟨a, _⟩, first, same⟩ := Option.map_eq_some_iff.mp read
    cases same
    simpa using f.decode_fits first

def checked (f : Format α) (p : α → Prop) [DecidablePred p] : Format {a // p a} where
  Fits a := f.Fits a.1
  encode a := f.encode a.1
  decode bytes := (f.decode bytes).bind fun (a, rest) => if good : p a then some (⟨a, good⟩, rest) else none
  decode_encode := by
    rintro ⟨a, good⟩ fits rest
    simp [f.decode_encode fits, good]
  decode_overflow := by
    rintro ⟨a, good⟩ large rest
    simp [f.decode_overflow large]
  decode_fits := by
    rintro bytes ⟨a, good⟩ rest read
    obtain ⟨⟨a', _⟩, first, read⟩ := Option.bind_eq_some_iff.mp read
    dsimp only at read
    split at read
    · cases read; exact f.decode_fits first
    · cases read

def u16 : Format UInt16 := ((uint 16).checked (· < 2 ^ 16)).iso
  { toFun := fun n => .ofNatLT n.1 n.2
    invFun := fun n => ⟨n.toNat, n.toNat_lt⟩
    left_inv := fun _ => rfl
    right_inv := fun _ => rfl }

def u32 : Format UInt32 := ((uint 32).checked (· < 2 ^ 32)).iso
  { toFun := fun n => .ofNatLT n.1 n.2
    invFun := fun n => ⟨n.toNat, n.toNat_lt⟩
    left_inv := fun _ => rfl
    right_inv := fun _ => rfl }

def u64 : Format UInt64 := ((uint 64).checked (· < 2 ^ 64)).iso
  { toFun := fun n => .ofNatLT n.1 n.2
    invFun := fun n => ⟨n.toNat, n.toNat_lt⟩
    left_inv := fun _ => rfl
    right_inv := fun _ => rfl }

@[simp] theorem u16_fits (n : UInt16) : u16.Fits n := n.toNat_lt

@[simp] theorem u32_fits (n : UInt32) : u32.Fits n := n.toNat_lt

@[simp] theorem u64_fits (n : UInt64) : u64.Fits n := n.toNat_lt

theorem u32_length {n : UInt32} (small : n.toNat < 128 ^ (limit + 1)) : (u32.encode n).length ≤ limit + 1 :=
  varint_length small

theorem u64_length {n : UInt64} (small : n.toNat < 128 ^ (limit + 1)) : (u64.encode n).length ≤ limit + 1 :=
  varint_length small

/-- One of `n` variants: the variant's index as a 32-bit tag, then its fields. -/
def choice {n : Nat} (small : n ≤ 2 ^ 32) {α : Fin n → Type} (f : (i : Fin n) → Format (α i)) :
    Format ((i : Fin n) × α i) where
  Fits v := (f v.1).Fits v.2
  encode v := (uint 32).encode v.1 ++ (f v.1).encode v.2
  decode bytes := ((uint 32).decode bytes).bind fun (tag, rest) =>
    if known : tag < n then ((f ⟨tag, known⟩).decode rest).map fun (a, rest) => (⟨⟨tag, known⟩, a⟩, rest)
    else none
  decode_encode := by
    rintro ⟨i, a⟩ fits rest
    have tag : (uint 32).Fits i.1 := Nat.lt_of_lt_of_le i.2 small
    simp [(uint 32).decode_encode tag, (f i).decode_encode fits]
  decode_overflow := by
    rintro ⟨i, a⟩ large rest
    have tag : (uint 32).Fits i.1 := Nat.lt_of_lt_of_le i.2 small
    simp [(uint 32).decode_encode tag, (f i).decode_overflow large]
  decode_fits := by
    rintro bytes ⟨i, a⟩ rest read
    obtain ⟨⟨tag, middle⟩, _, read⟩ := Option.bind_eq_some_iff.mp read
    dsimp only at read
    split at read
    · obtain ⟨⟨b, _⟩, second, same⟩ := Option.map_eq_some_iff.mp read
      cases same
      exact (f _).decode_fits second
    · cases read

def decodeMany (f : Format α) : Nat → Bytes → Option (List α × Bytes)
  | 0, bytes => some ([], bytes)
  | count + 1, bytes => (f.decode bytes).bind fun (a, rest) =>
    (decodeMany f count rest).map fun (as, rest) => (a :: as, rest)

variable (f : Format α)

theorem decodeMany_encode (fits : ∀ a ∈ as, f.Fits a) (rest : Bytes) :
    f.decodeMany as.length (as.flatMap f.encode ++ rest) = some (as, rest) := by
  induction as with
  | nil => rfl
  | cons a as ih =>
    have tail := ih (fun b member => fits b (mem_cons_of_mem a member))
    simp [decodeMany, f.decode_encode (fits a mem_cons_self), tail]

theorem decodeMany_overflow (large : ¬ ∀ a ∈ as, f.Fits a) (rest : Bytes) :
    f.decodeMany as.length (as.flatMap f.encode ++ rest) = none := by
  induction as with
  | nil => exact absurd (by simp) large
  | cons a as ih =>
    by_cases head : f.Fits a
    · have tail : ¬ ∀ b ∈ as, f.Fits b := fun all => large (by simpa using ⟨head, all⟩)
      simp [decodeMany, f.decode_encode head, ih tail]
    · simp [decodeMany, f.decode_overflow head]

theorem decodeMany_fits {count : Nat} {bytes rest : Bytes}
    (read : f.decodeMany count bytes = some (as, rest)) : as.length = count ∧ ∀ a ∈ as, f.Fits a := by
  induction count generalizing bytes as with
  | zero => cases read; simp
  | succ count ih =>
    obtain ⟨⟨a, middle⟩, first, read⟩ := Option.bind_eq_some_iff.mp read
    obtain ⟨⟨as', _⟩, others, same⟩ := Option.map_eq_some_iff.mp read
    cases same
    have tail := ih others
    refine ⟨by simp [tail.1], ?_⟩
    intro b member
    rcases mem_cons.mp member with rfl | member
    · exact f.decode_fits first
    · exact tail.2 b member

def list (f : Format α) : Format (List α) where
  Fits as := as.length < 2 ^ 64 ∧ ∀ a ∈ as, f.Fits a
  encode as := (uint 64).encode as.length ++ as.flatMap f.encode
  decode bytes := ((uint 64).decode bytes).bind fun (count, rest) => f.decodeMany count rest
  decode_encode := by
    rintro as ⟨short, fits⟩ rest
    rw [append_assoc, (uint 64).decode_encode short]
    exact f.decodeMany_encode fits rest
  decode_overflow := by
    intro as large rest
    by_cases short : (uint 64).Fits as.length
    · rw [append_assoc, (uint 64).decode_encode short]
      exact f.decodeMany_overflow (fun all => large ⟨short, all⟩) rest
    · rw [append_assoc, (uint 64).decode_overflow short]
      rfl
  decode_fits := by
    intro bytes as rest read
    obtain ⟨⟨count, middle⟩, first, read⟩ := Option.bind_eq_some_iff.mp read
    have many := f.decodeMany_fits read
    refine ⟨?_, many.2⟩
    rw [many.1]
    exact (uint 64).decode_fits first

def vector (f : Format α) (n : Nat) : Format {as : List α // as.length = n} where
  Fits as := ∀ a ∈ as.1, f.Fits a
  encode as := as.1.flatMap f.encode
  decode bytes := (f.decodeMany n bytes).bind fun (as, rest) =>
    if size : as.length = n then some (⟨as, size⟩, rest) else none
  decode_encode := by
    rintro ⟨as, rfl⟩ fits rest
    simp [f.decodeMany_encode fits]
  decode_overflow := by
    rintro ⟨as, rfl⟩ large rest
    simp [f.decodeMany_overflow large]
  decode_fits := by
    rintro bytes ⟨as, size⟩ rest read
    obtain ⟨⟨as', middle⟩, many, read⟩ := Option.bind_eq_some_iff.mp read
    dsimp only at read
    split at read
    · cases read; exact (f.decodeMany_fits many).2
    · cases read

def bool : Format Bool where
  Fits _ := True
  encode b := [if b then 1 else 0]
  decode
    | 0 :: rest => some (false, rest)
    | 1 :: rest => some (true, rest)
    | _ => none
  decode_encode := by
    intro b _ rest
    cases b <;> rfl
  decode_overflow large := absurd trivial large
  decode_fits _ := trivial

def option (f : Format α) : Format (Option α) where
  Fits o := ∀ a ∈ o, f.Fits a
  encode
    | none => bool.encode false
    | some a => bool.encode true ++ f.encode a
  decode bytes := (bool.decode bytes).bind fun (present, rest) =>
    if present then (f.decode rest).map fun (a, rest) => (some a, rest) else some (none, rest)
  decode_encode := by
    rintro (_ | a) fits rest
    · rw [bool.decode_encode trivial]; rfl
    · rw [append_assoc, bool.decode_encode trivial]
      simp [f.decode_encode (fits a rfl)]
  decode_overflow := by
    rintro (_ | a) large rest
    · exact absurd (by simp) large
    · have inner : ¬ f.Fits a := fun fits => large (by simpa using fits)
      rw [append_assoc, bool.decode_encode trivial]
      simp [f.decode_overflow inner]
  decode_fits := by
    rintro bytes o rest read
    obtain ⟨⟨present, middle⟩, _, read⟩ := Option.bind_eq_some_iff.mp read
    dsimp only at read
    split at read
    · obtain ⟨⟨a, _⟩, first, same⟩ := Option.map_eq_some_iff.mp read
      cases same
      intro b member
      cases member
      exact f.decode_fits first
    · cases read
      intro b member
      cases member

theorem length_pair (g : Format β) (p : α × β) :
    ((f.pair g).encode p).length = (f.encode p.1).length + (g.encode p.2).length :=
  length_append

theorem length_choice (small : n ≤ 2 ^ 32) {α : Fin n → Type} (f : (i : Fin n) → Format (α i))
    (v : (i : Fin n) × α i) : ((choice small f).encode v).length = (varint v.1).length + ((f v.1).encode v.2).length :=
  length_append

theorem length_list (as : List α) :
    (f.list.encode as).length = (varint as.length).length + (as.flatMap f.encode).length :=
  length_append

theorem length_bytes (bytes : Bytes) :
    (byte.list.encode bytes).length = (varint bytes.length).length + bytes.length := by
  rw [length_list]
  show _ + (bytes.flatMap fun byte => [byte]).length = _
  rw [flatMap_singleton']

theorem length_elements_le {size : α → Nat} {extra : Nat} (each : ∀ a ∈ as, (f.encode a).length ≤ size a + extra) :
    (as.flatMap f.encode).length ≤ (as.map size).sum + extra * as.length := by
  induction as with
  | nil => exact Nat.zero_le _
  | cons a as ih =>
    have head := each a mem_cons_self
    have tail := ih fun b member => each b (mem_cons_of_mem a member)
    rw [flatMap_cons, length_append, map_cons, sum_cons, length_cons, Nat.mul_succ]
    omega

theorem le_length_elements {size : Nat} (each : ∀ a ∈ as, size ≤ (f.encode a).length) :
    size * as.length ≤ (as.flatMap f.encode).length := by
  induction as with
  | nil => exact Nat.zero_le _
  | cons a as ih =>
    have head := each a mem_cons_self
    have tail := ih fun b member => each b (mem_cons_of_mem a member)
    rw [flatMap_cons, length_append, length_cons, Nat.mul_succ]
    omega

end Format
end Codec
