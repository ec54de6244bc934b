import Tpf3Mp.Agent.SaveTokens
import Tpf3Mp.Run.Basic

/-!
# The checker's fuel

The source's parser loops and recurses without a bound of its own. Every token
takes a byte of the text, so the model's fuel never stops it.
-/

namespace Tpf3Mp.Agent
open List

open Lua (Source ascii isNameByte)

namespace Parser

theorem skip_shorter (comment : Bool) (text : Source) : (skip comment text).length ≤ text.length := by
  fun_induction skip comment text <;> simp_all <;> omega

variable {p : Parser} {fuel depth : Nat} {text rest : Source}

theorem string_shorter {quote : UInt8} (read : string quote text = some rest) : rest.length < text.length := by
  fun_induction string quote text <;> simp_all <;> omega

theorem pastSign_shorter (text : Source) : (pastSign text).length ≤ text.length := by
  unfold pastSign
  split
  · rw [length_tail]
    omega
  · exact Nat.le_refl _

theorem exponent_shorter (text : Source) : (exponent text).length ≤ text.length := by
  have signed := pastSign_shorter text.tail
  rw [length_tail] at signed
  unfold exponent
  split
  · dsimp only
    split
    · rw [length_drop]
      omega
    · exact Nat.le_refl _
  · exact Nat.le_refl _

theorem fraction_shorter (text : Source) : (fraction text).length ≤ text.length := by
  unfold fraction
  split
  · rw [length_drop]
    omega
  · exact Nat.le_refl _

theorem unsigned_shorter (read : unsigned text = some rest) : rest.length < text.length := by
  have there : 0 < text.length := by
    cases text with
    | nil => cases read
    | cons byte text => exact Nat.succ_pos _
  unfold unsigned at read
  split at read
  · cases read
    rw [length_drop]
    omega
  split at read
  · cases read
    rw [length_drop]
    omega
  split at read
  · cases read
    rw [length_drop]
    omega
  split at read
  · cases read
    have exponent := exponent_shorter (fraction (text.drop (digits false text)))
    have fraction := fraction_shorter (text.drop (digits false text))
    rw [length_drop] at fraction
    omega
  split at read
  · rename_i dotted
    simp only [Bool.and_eq_true, decide_eq_true_eq] at dotted
    cases read
    have exponent := exponent_shorter (fraction text)
    rw [fraction, if_pos dotted.1, length_drop] at exponent
    rw [fraction, if_pos dotted.1]
    omega
  · cases read

theorem number_shorter (read : number text = some rest) : rest.length < text.length := by
  have := unsigned_shorter read
  split at this
  · rw [length_tail] at this
    omega
  · exact this

theorem scan_shorter {token : Token} (read : scan text = some (token, rest))
    (live : token ≠ .done) : rest.length < text.length := by
  cases text with
  | nil =>
    cases read
    exact absurd rfl live
  | cons byte text =>
    rw [scan] at read
    split at read
    · obtain ⟨after, closed, same⟩ := Option.map_eq_some_iff.mp read
      cases same
      exact Nat.lt_succ_of_lt (string_shorter closed)
    split at read
    · cases read
      exact Nat.lt_succ_self _
    split at read
    · rename_i after numeric
      cases read
      exact number_shorter numeric
    split at read
    · rename_i letter
      cases read
      rw [dropWhile_cons_of_pos (by simp [isNameByte, letter])]
      exact Nat.lt_succ_of_le (List.dropWhile_suffix _).length_le
    · cases read

/-- A run from `p` that does not end for want of fuel, but in a place nearer to the end of the text. -/
def Halts (p : Parser) (result : Except LuaDataError Parser) : Prop :=
  result ≠ .error .outOfFuel ∧ ∀ q, result = .ok q → q.Current ∧ q.start.length < p.start.length

theorem Halts.failed {reason : String} : p.Halts (p.error reason) := ⟨nofun, nofun⟩

theorem advance_ends (p : Parser) : p.advance ≠ .error .outOfFuel := by
  unfold advance
  dsimp only
  split <;> nofun

theorem Halts.advance (current : p.Current) (live : p.token ≠ .done) : p.Halts p.advance := by
  refine ⟨p.advance_ends, fun q moved => ?_⟩
  obtain ⟨standing, start⟩ := advance_ok moved
  have shorter := scan_shorter current live
  have skipped := skip_shorter false p.position
  rw [← start] at skipped
  exact ⟨standing, by omega⟩

theorem Halts.expectPunct {punct : Char} {reason : String} (current : p.Current) :
    p.Halts (p.expectPunct punct reason) := by
  unfold Parser.expectPunct
  split
  · rename_i found
    exact .advance current (by simp [found])
  · exact .failed

theorem Halts.expectWord {word : String} (current : p.Current) : p.Halts (p.expectWord word) := by
  unfold Parser.expectWord
  split
  · rename_i found
    exact .advance current (by simp [found])
  · exact .failed

theorem Halts.onward {α : Type} {result : Except LuaDataError Parser} {next : Parser → Except LuaDataError α}
    (halts : p.Halts result)
    (later : ∀ q : Parser, q.Current → q.start.length < p.start.length → next q ≠ .error .outOfFuel) :
    result >>= next ≠ .error .outOfFuel := by
  cases moved : result with
  | error error => exact fun out => halts.1 (by rw [moved, Except.error.inj out])
  | ok q =>
    obtain ⟨standing, shorter⟩ := halts.2 q moved
    exact later q standing shorter

theorem Halts.bind {result : Except LuaDataError Parser} {next : Parser → Except LuaDataError Parser}
    (halts : p.Halts result)
    (later : ∀ q : Parser, q.Current → q.start.length < p.start.length → q.Halts (next q)) :
    p.Halts (result >>= next) := by
  refine ⟨halts.onward fun q standing shorter => (later q standing shorter).1, fun r parsed => ?_⟩
  obtain ⟨q, moved, parsed⟩ := Run.bind_ok.mp parsed
  obtain ⟨standing, shorter⟩ := halts.2 q moved
  obtain ⟨next, _⟩ := (later q standing shorter).2 r parsed
  exact ⟨next, by omega⟩

/-- Enough fuel for the four calls. -/
structure Enough (fuel : Nat) : Prop where
  table : ∀ {depth p}, Current p → 4 * p.start.length + 1 ≤ fuel → p.Halts (table fuel depth p)
  fields : ∀ {depth p}, Current p → 4 * p.start.length + 4 ≤ fuel → p.Halts (fields fuel depth p)
  field : ∀ {depth p}, Current p → 4 * p.start.length + 3 ≤ fuel → p.Halts (field fuel depth p)
  literal : ∀ {depth p}, Current p → 4 * p.start.length + 2 ≤ fuel → p.Halts (literal fuel depth p)

section
variable (ih : Enough fuel)
include ih

theorem Enough.succ_table (current : p.Current) (enough : 4 * p.start.length + 1 ≤ fuel + 1) :
    p.Halts (Parser.table (fuel + 1) depth p) := by
  rw [Parser.table]
  split
  · exact .failed
  · exact .bind (.expectPunct current) fun inside standing _ => ih.fields standing (by omega)

theorem Enough.succ_literal (current : p.Current) (enough : 4 * p.start.length + 2 ≤ fuel + 1) :
    p.Halts (Parser.literal (fuel + 1) depth p) := by
  rw [Parser.literal]
  split
  · exact ih.table current (by omega)
  split
  · rename_i literal
    exact .advance current (literal_live literal)
  · exact .failed

theorem Enough.assigned (current : p.Current) (enough : 4 * p.start.length + 2 ≤ fuel) :
    p.Halts (p.expectPunct '=' "expected =" >>= fun q => Parser.literal fuel depth q) :=
  .bind (.expectPunct current) fun atValue standing _ => ih.literal standing (by omega)

theorem Enough.succ_field (current : p.Current) (enough : 4 * p.start.length + 3 ≤ fuel + 1) :
    p.Halts (Parser.field (fuel + 1) depth p) := by
  rw [Parser.field]
  split
  · rename_i bracket
    refine .bind (.advance current (by simp [bracket])) fun atKey standing _ => ?_
    split
    · rename_i key
      refine .bind (.advance standing (literal_live (by simp [isLiteral, key]))) ?_
      intro atClose standing _
      exact .bind (.expectPunct standing) fun atEquals standing _ => ih.assigned standing (by omega)
    · exact .failed
  split
  · rename_i name found
    split
    · exact ih.literal current (by omega)
    · exact .bind (.advance current (by simp [found])) fun atEquals standing _ =>
        ih.assigned standing (by omega)
  · exact ih.literal current (by omega)

theorem Enough.succ_fields (current : p.Current) (enough : 4 * p.start.length + 4 ≤ fuel + 1) :
    p.Halts (Parser.fields (fuel + 1) depth p) := by
  rw [Parser.fields]
  split
  · rename_i close
    exact .advance current (by simp [close])
  refine .bind (ih.field current (by omega)) fun after standing _ => ?_
  split
  · rename_i comma
    exact .bind (.advance standing (by grind)) fun beyond standing _ =>
      ih.fields standing (by omega)
  split
  · exact ih.fields standing (by omega)
  · exact .failed

end

theorem enough (fuel : Nat) : Enough fuel := by
  induction fuel with
  | zero =>
    constructor <;>
    · intro depth p _ impossible
      omega
  | succ fuel ih => exact ⟨ih.succ_table, ih.succ_fields, ih.succ_field, ih.succ_literal⟩

theorem parse_ends (current : p.Current) : p.parse ≠ .error .outOfFuel := by
  refine (Halts.expectWord current).onward fun _ current _ => ?_
  refine (Halts.expectWord current).onward fun _ current _ => ?_
  refine (Halts.expectPunct current).onward fun _ current _ => ?_
  refine (Halts.expectPunct current).onward fun _ current _ => ?_
  refine (Halts.expectWord current).onward fun atTable current _ => ?_
  refine ((enough _).table current (Nat.le_refl _)).onward fun _ current _ => ?_
  refine (Halts.expectWord current).onward fun after _ _ => ?_
  have ended (p : Parser) : (if p.token = .done then pure () else
      p.error "unexpected content after the saved data function") ≠ .error .outOfFuel := by
    split <;> nofun
  split
  · cases moved : after.advance with
    | error error => exact fun out => after.advance_ends (by rw [moved, Except.error.inj out])
    | ok last => exact ended last
  · exact ended after

end Parser

end Tpf3Mp.Agent
