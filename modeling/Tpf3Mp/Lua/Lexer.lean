import Mathlib.Algebra.Group.Nat.Defs
import Mathlib.Data.List.Basic

/-!
# Lua's lexical rules

The lexer of Lua 5.2 over the bytes of a program text. It splits a text into
words, numerals, strings and symbols, passing over blanks and comments. A
numeral or an escape that Lua would refuse to convert is read all the same: what
is refused here, Lua refuses too.

The rule for comments is a parameter, because a reader that takes every comment
to the end of its line differs from Lua in nothing else.
-/

namespace Tpf3Mp.Lua
open List

abbrev Source := List UInt8

def ascii (word : String) : Source := word.toList.map Char.toUInt8

def isBreak (byte : UInt8) : Bool := byte == '\n'.toUInt8 || byte == '\r'.toUInt8

def isSpace (byte : UInt8) : Bool :=
  byte == ' '.toUInt8 || byte == '\t'.toUInt8 || byte == 0x0b || byte == 0x0c || isBreak byte

def isDigit (byte : UInt8) : Bool := '0'.toUInt8 ≤ byte && byte ≤ '9'.toUInt8

def isHexDigit (byte : UInt8) : Bool :=
  isDigit byte || ('a'.toUInt8 ≤ byte && byte ≤ 'f'.toUInt8) ||
    ('A'.toUInt8 ≤ byte && byte ≤ 'F'.toUInt8)

def isLetter (byte : UInt8) : Bool :=
  ('a'.toUInt8 ≤ byte && byte ≤ 'z'.toUInt8) || ('A'.toUInt8 ≤ byte && byte ≤ 'Z'.toUInt8) ||
    byte == '_'.toUInt8

def isNameByte (byte : UInt8) : Bool := isLetter byte || isDigit byte

theorem forall_byte {property : UInt8 → Prop} (all : ∀ value : Fin 256, property (UInt8.ofFin value))
    (byte : UInt8) : property byte := all byte.toFin

/-- What a numeral or a string holds is left out: no rule of the grammar reads it. -/
inductive Token where
  | word (text : Source)
  | number
  | string
  | symbol (text : Source)
deriving DecidableEq, Repr

/-- After a `[`: the level of the long bracket it opens, and the text inside. -/
def openLong : Nat → Source → Option (Nat × Source)
  | _, [] => none
  | level, byte :: rest =>
    if byte = '='.toUInt8 then openLong (level + 1) rest
    else if byte = '['.toUInt8 then some (level, rest)
    else none

def closing (level : Nat) : Source :=
  ']'.toUInt8 :: (replicate level '='.toUInt8 ++ [']'.toUInt8])

def closeLong (level : Nat) : Source → Option Source
  | [] => none
  | byte :: rest =>
    if (closing level).isPrefixOf (byte :: rest) then some ((byte :: rest).drop (level + 2))
    else closeLong level rest

def lineComment (body : Source) : Option Source :=
  some (body.dropWhile fun byte => !isBreak byte)

def comment (body : Source) : Option Source :=
  match body with
  | [] => lineComment body
  | byte :: rest =>
    if byte = '['.toUInt8 then
      match openLong 0 rest with
      | some (level, inner) => closeLong level inner
      | none => lineComment body
    else lineComment body

/-- The rest of a quoted string after its opening quote. While `zap` is set, the blanks
after a `\z` are passed over. -/
def shortString (quote : UInt8) : Bool → Source → Option Source
  | _, [] => none
  | zap, byte :: rest =>
    if zap && isSpace byte then shortString quote true rest
    else if byte = quote then some rest
    else if isBreak byte then none
    else if byte = '\\'.toUInt8 then
      match rest with
      | [] => none
      | escaped :: after =>
        if isBreak escaped then
          match after with
          | [] => none
          | pair :: others =>
            -- a line break of two bytes is escaped as one
            if isBreak pair && pair != escaped then shortString quote false others
            else shortString quote false (pair :: others)
        else shortString quote (escaped == 'z'.toUInt8) after
    else shortString quote false rest

theorem shortString_escape {quote : UInt8} (unquoted : '\\'.toUInt8 ≠ quote) (zap : Bool)
    (escaped next : UInt8) (after : Source) : shortString quote zap ('\\'.toUInt8 :: escaped :: next :: after) =
      if isBreak escaped then
        if isBreak next && next != escaped then shortString quote false after
        else shortString quote false (next :: after)
      else shortString quote (escaped == 'z'.toUInt8) (next :: after) := by
  rw [shortString]
  simp [unquoted, show isSpace '\\'.toUInt8 = false by decide,
    show isBreak '\\'.toUInt8 = false by decide]

inductive NumeralState where
  | plain
  | exponent
  | signed
deriving DecidableEq, Repr

def isHexExponent (byte : UInt8) : Bool := byte == 'p'.toUInt8 || byte == 'P'.toUInt8

def isExponent (byte : UInt8) : Bool := byte == 'e'.toUInt8 || byte == 'E'.toUInt8

def isSign (byte : UInt8) : Bool := byte == '+'.toUInt8 || byte == '-'.toUInt8

def numeralRest (exponent : UInt8 → Bool) : NumeralState → Source → Source
  | _, [] => []
  | state, byte :: rest =>
    if state = .plain && exponent byte then numeralRest exponent .exponent rest
    else if state = .exponent && isSign byte then numeralRest exponent .signed rest
    else if isHexDigit byte || byte = '.'.toUInt8 then numeralRest exponent .plain rest
    else byte :: rest

theorem numeralRest_dropWhile {exponent inside : UInt8 → Bool} (admitted : ∀ byte, inside byte = true →
      exponent byte = false ∧ (isHexDigit byte || byte = '.'.toUInt8) = true) (text : Source) :
    numeralRest exponent .plain (text.dropWhile inside) = numeralRest exponent .plain text := by
  induction text with
  | nil => rfl
  | cons byte text ih =>
    cases here : inside byte with
    | false => rw [dropWhile_cons_of_neg (by simp [here])]
    | true =>
      obtain ⟨power, digit⟩ := admitted byte here
      rw [dropWhile_cons_of_pos here, ih, numeralRest.eq_def exponent .plain (byte :: text)]
      simp only [power, digit]
      simp

def numeral : Source → Source
  | [] => []
  | first :: rest =>
    if first = '0'.toUInt8 && rest.head?.any fun byte => byte == 'x'.toUInt8 || byte == 'X'.toUInt8 then
      numeralRest isHexExponent .plain rest.tail
    else numeralRest isExponent .plain rest

def longSymbols : List Source := ["...", "..", "==", "~=", "<=", ">=", "::"].map ascii

def symbol (text : Source) : Token × Source :=
  match longSymbols.find? fun long => long.isPrefixOf text with
  | some long => (.symbol long, text.drop long.length)
  | none => (.symbol (text.take 1), text.drop 1)

section
variable (comment : Source → Option Source)

/-- One item at the head of a text: a token, or a blank or comment that is passed over. -/
def step : Source → Option (Option Token × Source)
  | [] => none
  | byte :: rest =>
    if isSpace byte then some (none, rest)
    else if byte = '-'.toUInt8 then
      if rest.head? = some '-'.toUInt8 then (comment rest.tail).map fun after => (none, after)
      else some (some (.symbol (ascii "-")), rest)
    else if byte = '['.toUInt8 then
      match openLong 0 rest with
      | some (level, inner) => (closeLong level inner).map fun after => (some .string, after)
      | none =>
        if rest.head? = some '='.toUInt8 then none
        else some (some (.symbol (ascii "[")), rest)
    else if byte = '"'.toUInt8 || byte = '\''.toUInt8 then
      (shortString byte false rest).map fun after => (some .string, after)
    else if byte = '.'.toUInt8 && rest.head?.any isDigit then some (some .number, numeral rest)
    else if isDigit byte then some (some .number, numeral (byte :: rest))
    else if isLetter byte then
      some (some (.word ((byte :: rest).takeWhile isNameByte)), (byte :: rest).dropWhile isNameByte)
    else
      let (token, after) := symbol (byte :: rest)
      some (some token, after)

def lexFrom : Nat → Source → Option (List Token)
  | _, [] => some []
  | 0, _ :: _ => none
  | fuel + 1, byte :: rest =>
    (step comment (byte :: rest)).bind fun (token, after) =>
      (lexFrom fuel after).map fun tokens => token.toList ++ tokens

def lexWith (text : Source) : Option (List Token) := lexFrom comment text.length text

end

def lex (text : Source) : Option (List Token) := lexWith comment text

/-! ### Every item takes a byte

so the length of the text is fuel enough, and the lexer is the iteration of `step`. -/

variable {text rest : Source} {comment : Source → Option Source}

theorem closeLong_shorter {level : Nat} (closed : closeLong level text = some rest) : rest.length ≤ text.length := by
  induction text with
  | nil => simp [closeLong] at closed
  | cons byte text ih =>
    rw [closeLong] at closed
    split at closed
    · cases closed
      rw [length_drop]
      omega
    · have := ih closed
      simp only [length_cons]
      omega

theorem openLong_shorter {level found : Nat} {inner : Source}
    (opened : openLong level text = some (found, inner)) : inner.length ≤ text.length := by
  induction text generalizing level with
  | nil => simp [openLong] at opened
  | cons byte text ih =>
    rw [openLong] at opened
    split at opened
    · have := ih opened
      simp only [length_cons]
      omega
    split at opened
    · cases opened
      simp
    · cases opened

theorem shortString_shorter {quote : UInt8} {zap : Bool}
    (closed : shortString quote zap text = some rest) : rest.length ≤ text.length := by
  fun_induction shortString quote zap text <;> simp_all <;> omega

theorem numeralRest_shorter (exponent : UInt8 → Bool) (state : NumeralState) (text : Source) :
    (numeralRest exponent state text).length ≤ text.length := by
  fun_induction numeralRest exponent state text <;> simp_all <;> omega

theorem numeral_shorter (byte : UInt8) (text : Source) : (numeral (byte :: text)).length ≤ text.length := by
  rw [numeral]
  split
  · have := numeralRest_shorter isHexExponent .plain text.tail
    rw [length_tail] at this
    omega
  · exact numeralRest_shorter _ _ _

theorem symbol_shorter (byte : UInt8) (text : Source) : (symbol (byte :: text)).2.length ≤ text.length := by
  have nonempty : ∀ long ∈ longSymbols, 1 ≤ long.length := by decide
  unfold symbol
  split
  · rename_i long found
    have := nonempty long (mem_of_find?_eq_some found)
    simp only [length_drop, length_cons]
    omega
  · simp

theorem lineComment_shorter {body : Source} (ends : lineComment body = some rest) : rest.length ≤ body.length := by
  cases ends
  exact (List.dropWhile_suffix _).length_le

section
variable (shorter : ∀ {body rest}, comment body = some rest → rest.length ≤ body.length)
include shorter

theorem step_shorter {byte : UInt8} {token : Option Token}
    (read : step comment (byte :: text) = some (token, rest)) : rest.length ≤ text.length := by
  rw [step] at read
  split at read
  · cases read
    exact Nat.le_refl _
  split at read
  · split at read
    · obtain ⟨after, ends, same⟩ := Option.map_eq_some_iff.mp read
      cases same
      have := shorter ends
      rw [length_tail] at this
      omega
    · cases read
      exact Nat.le_refl _
  split at read
  · split at read
    · rename_i level inner opened
      obtain ⟨after, ends, same⟩ := Option.map_eq_some_iff.mp read
      cases same
      have := openLong_shorter opened
      have := closeLong_shorter ends
      omega
    · split at read
      · cases read
      · cases read
        exact Nat.le_refl _
  split at read
  · obtain ⟨after, ends, same⟩ := Option.map_eq_some_iff.mp read
    cases same
    exact shortString_shorter ends
  split at read
  · rename_i dotted
    cases read
    cases text with
    | nil => simp at dotted
    | cons first others =>
      have := numeral_shorter first others
      simp only [length_cons]
      omega
  split at read
  · cases read
    exact numeral_shorter byte text
  split at read
  · rename_i letter
    cases read
    rw [dropWhile_cons_of_pos (by simp [isNameByte, letter])]
    exact (List.dropWhile_suffix _).length_le
  · cases read
    exact symbol_shorter byte text

theorem lexFrom_enough {fuel : Nat} (enough : text.length ≤ fuel) :
    lexFrom comment fuel text = lexWith comment text := by
  unfold lexWith
  induction fuel using Nat.strongRecOn generalizing text with
  | _ fuel ih =>
    cases text with
    | nil => rw [lexFrom, lexFrom]
    | cons byte text =>
      cases fuel with
      | zero => simp at enough
      | succ fuel =>
        have bound : text.length ≤ fuel := by simpa using enough
        rw [length_cons, lexFrom, lexFrom]
        cases read : step comment (byte :: text) with
        | none => rfl
        | some item =>
          obtain ⟨token, rest⟩ := item
          have fits := step_shorter shorter read
          simp only [Option.bind_some]
          rw [ih fuel (by omega) (by omega : rest.length ≤ fuel)]
          rw [ih text.length (by omega) fits]

theorem lexWith_cons (byte : UInt8) (text : Source) : lexWith comment (byte :: text) =
      (step comment (byte :: text)).bind fun (token, rest) =>
        (lexWith comment rest).map fun tokens => token.toList ++ tokens := by
  rw [lexWith, length_cons, lexFrom]
  cases read : step comment (byte :: text) with
  | none => rfl
  | some item =>
    have fits := step_shorter shorter read
    simp only [Option.bind_some]
    rw [lexFrom_enough shorter fits]

end

end Tpf3Mp.Lua
