import Tpf3Mp.Agent.SaveCheck

/-!
# The checker's tokens are Lua's

Where the checker reads a token, Lua reads the same one, if Lua too takes every
comment to the end of its line. The two lexers join bytes differently only after
a number, a `[` or a `=`. What may follow those is `Apart`.
-/

namespace Tpf3Mp.Agent
open List

open Lua (Source ascii isBreak isSpace isDigit isHexDigit isLetter isNameByte step lexWith lineComment
  forall_byte)

namespace Parser

/-- Lua's reading of a text when every comment ends with its line. -/
def reads (text : Source) : Option (List Lua.Token) := lexWith lineComment text

variable {rest text : Source} {byte : UInt8} {token : Token} {p q : Parser}

theorem digit_classes : ∀ byte, isDigit byte = true → isSpace byte = false ∧ byte ≠ '-'.toUInt8 ∧ byte ≠ '['.toUInt8 ∧
    byte ≠ '"'.toUInt8 ∧ byte ≠ '\''.toUInt8 ∧ byte ≠ '.'.toUInt8 ∧ Lua.isExponent byte = false ∧
    Lua.isSign byte = false ∧ isHexDigit byte = true := forall_byte (by decide +kernel)

theorem word_classes : ∀ byte,
    (isLetter byte = true → isSpace byte = false ∧ byte ≠ '-'.toUInt8 ∧ byte ≠ '['.toUInt8 ∧ byte ≠ '"'.toUInt8 ∧
      byte ≠ '\''.toUInt8 ∧ byte ≠ '.'.toUInt8 ∧ isDigit byte = false) ∧
    (isHexDigit byte = true ∨ Lua.isExponent byte = true → isNameByte byte = true) := forall_byte (by decide +kernel)

theorem mark_classes : ∀ byte,
    (isPunct byte = true → isSpace byte = false ∧ byte ≠ '-'.toUInt8 ∧ byte ≠ '"'.toUInt8 ∧ byte ≠ '\''.toUInt8 ∧
      byte ≠ '.'.toUInt8 ∧ isDigit byte = false ∧ isLetter byte = false) ∧
    (isNameByte byte = true ∨ byte = '.'.toUInt8 → isSpace byte = false ∧ byte ≠ '-'.toUInt8 ∧ byte ≠ '"'.toUInt8 ∧
      byte ≠ '\''.toUInt8 ∧ isPunct byte = false) := forall_byte (by decide +kernel)

theorem reads_step {token : Option Lua.Token} (read : step lineComment text = some (token, rest)) :
    reads text = (reads rest).map fun tokens => token.toList ++ tokens := by
  cases text with
  | nil => cases read
  | cons byte text =>
    rw [reads, Lua.lexWith_cons Lua.lineComment_shorter, read]
    rfl

theorem reads_blank (read : step lineComment text = some (none, rest)) : reads text = reads rest := by
  rw [reads_step read]
  simp

theorem reads_skip (comment : Bool) (text : Source) : reads (skip comment text) =
      reads (if comment then text.dropWhile fun byte => !isBreak byte else text) := by
  fun_induction skip comment text with
  | case1 comment => cases comment <;> rfl
  | case2 byte rest ih =>
    rw [ih]
    cases broken : isBreak byte with
    | false => simp [broken]
    | true =>
      have space : isSpace byte = true := by simp [isSpace, broken]
      have read : step lineComment (byte :: rest) = some (none, rest) := by simp [step, space]
      simpa [broken] using (reads_blank read).symm
  | case3 byte rest space ih =>
    have read : step lineComment (byte :: rest) = some (none, rest) := by simp [step, space]
    rw [ih]
    exact (reads_blank read).symm
  | case4 byte rest solid dashes ih =>
    simp only [Bool.and_eq_true, decide_eq_true_eq] at dashes
    obtain ⟨rfl, second⟩ := dashes
    cases rest with
    | nil => cases second
    | cons next body =>
      cases second
      have read : step lineComment ('-'.toUInt8 :: '-'.toUInt8 :: body) =
          some (none, body.dropWhile fun byte => !isBreak byte) := by
        simp [step, solid, lineComment]
      rw [ih, if_pos rfl, dropWhile_cons_of_pos (by decide)]
      exact (reads_blank read).symm
  | case5 byte rest => rfl

theorem string_starts {quote : UInt8} (solid : isSpace quote = false) (read : string quote text = some rest) :
    ∃ byte others, text = byte :: others ∧ isBreak byte = false := by
  cases text with
  | nil => simp [string] at read
  | cons byte others =>
    refine ⟨byte, others, rfl, ?_⟩
    cases broken : isBreak byte with
    | false => rfl
    | true =>
      have unquoted : byte ≠ quote := by
        intro same
        simp [isSpace, ← same, broken] at solid
      have unescaped : byte ≠ '\\'.toUInt8 := by
        intro same
        rw [same] at broken
        cases broken
      unfold string at read
      simp [unquoted, unescaped, broken] at read

theorem string_reads {quote : UInt8} (solid : isSpace quote = false)
    (read : string quote text = some rest) (zap : Bool) : Lua.shortString quote zap text = some rest := by
  fun_induction string quote text generalizing zap with
  | case1 => cases read
  | case2 text =>
    unfold Lua.shortString
    simpa [solid] using read
  | case3 => cases read
  | case4 => cases read
  | case5 others unquoted ih =>
    -- an escaped line break of two bytes
    rw [Lua.shortString_escape unquoted]
    exact ih read false
  | case6 next others single unquoted ih =>
    rw [Lua.shortString_escape unquoted, if_pos (by decide), if_neg]
    · exact ih read false
    · simp only [isBreak, Bool.and_eq_true, Bool.or_eq_true, beq_iff_eq, bne_iff_ne]
      tauto
  | case7 escaped after notReturn unquoted ih =>
    obtain ⟨next, others, rfl, unbroken⟩ := string_starts solid read
    rw [Lua.shortString_escape unquoted, unbroken]
    simp [ih read]
  | case8 => cases read
  | case9 byte text unquoted unescaped unbroken ih =>
    unfold Lua.shortString
    simp [unquoted, unescaped, unbroken, ih read]
/-- The text goes on with no byte that Lua would join to a number. -/
def Ends (text : Source) : Prop :=
  ∀ byte, text.head? = some byte → isNameByte byte = false ∧ byte ≠ '.'.toUInt8

theorem drop_digits (text : Source) : text.drop (digits false text) = text.dropWhile isDigit := by
  conv => lhs; rhs; rw [← takeWhile_append_dropWhile (p := isDigit) (l := text)]
  exact drop_left

theorem drop_hexDigits (text : Source) : text.drop (digits true text) = text.dropWhile isHexDigit := by
  conv => lhs; rhs; rw [← takeWhile_append_dropWhile (p := isHexDigit) (l := text)]
  exact drop_left

theorem digits_pos (some_digits : digits false text > 0) : ∃ byte rest, text = byte :: rest ∧ isDigit byte = true := by
  cases text with
  | nil => cases some_digits
  | cons byte rest =>
    refine ⟨byte, rest, rfl, ?_⟩
    by_contra other
    simp [digits, other] at some_digits

theorem numeralRest_ends {power : UInt8 → Bool} (letters : ∀ byte, power byte = true → isNameByte byte = true)
    (ends : Ends rest) : Lua.numeralRest power .plain rest = rest := by
  cases rest with
  | nil => rfl
  | cons byte rest =>
    obtain ⟨notName, notDot⟩ := ends byte rfl
    have notPower : power byte = false := by
      by_contra found
      rw [letters byte (by simpa using found)] at notName
      cases notName
    have notHex : isHexDigit byte = false := by
      by_contra found
      rw [(word_classes byte).2 (.inl (by simpa using found))] at notName
      cases notName
    simp [Lua.numeralRest, notPower, notHex, notDot]

theorem numeralRest_digits (text : Source) : Lua.numeralRest Lua.isExponent .plain (text.dropWhile isDigit) =
      Lua.numeralRest Lua.isExponent .plain text :=
  Lua.numeralRest_dropWhile (fun byte numeric => by simp [digit_classes byte numeric]) text

theorem numeralRest_digit {state : Lua.NumeralState} (numeric : isDigit byte = true) (rest : Source) :
    Lua.numeralRest Lua.isExponent state (byte :: rest) =
      Lua.numeralRest Lua.isExponent .plain rest := by
  obtain ⟨_, _, _, _, _, _, notPower, notSign, hex⟩ := digit_classes byte numeric
  simp [Lua.numeralRest, notPower, notSign, hex]

theorem numeralRest_signed (some_digits : digits false (pastSign rest) > 0) :
    Lua.numeralRest Lua.isExponent .exponent rest =
      Lua.numeralRest Lua.isExponent .plain
        ((pastSign rest).dropWhile isDigit) := by
  obtain ⟨digit, others, same, numeric⟩ := digits_pos some_digits
  rw [numeralRest_digits, same, numeralRest_digit numeric]
  cases rest with
  | nil => cases same
  | cons byte rest =>
    cases sign : Lua.isSign byte with
    | true =>
      have following : rest = digit :: others := by simpa [pastSign, sign] using same
      rw [Lua.numeralRest, if_neg (by simp), if_pos (by simp [sign]), following,
        numeralRest_digit numeric]
    | false =>
      have here : byte :: rest = digit :: others := by simpa [pastSign, sign] using same
      rw [here, numeralRest_digit numeric]

theorem exponent_reads (ends : Ends (exponent text)) : Lua.numeralRest Lua.isExponent .plain text = exponent text := by
  have letters (byte : UInt8) (power : Lua.isExponent byte = true) : isNameByte byte = true :=
    (word_classes byte).2 (.inr power)
  cases text with
  | nil => rfl
  | cons byte rest =>
    cases power : Lua.isExponent byte with
    | false =>
      rw [exponent, if_neg (by simp [power])] at ends ⊢
      exact numeralRest_ends letters ends
    | true =>
      unfold exponent at ends ⊢
      rw [if_pos (by simp [power])] at ends ⊢
      by_cases some_digits : digits false (pastSign (byte :: rest).tail) > 0
      · rw [if_pos some_digits, drop_digits] at ends ⊢
        rw [tail_cons] at some_digits ends ⊢
        rw [Lua.numeralRest, if_pos (by simp [power]), numeralRest_signed some_digits]
        exact numeralRest_ends letters ends
      · -- the letter would be joined to the number
        rw [if_neg some_digits] at ends
        have joined := (ends byte rfl).1
        rw [letters byte power] at joined
        cases joined

theorem takeWhile_word {word : Source} (inside : ∀ byte ∈ word, isNameByte byte = true)
    (ends : ∀ byte, rest.head? = some byte → isNameByte byte = false) :
    (word ++ rest).takeWhile isNameByte = word ∧ (word ++ rest).dropWhile isNameByte = rest := by
  rw [takeWhile_append_of_pos inside, dropWhile_append_of_pos inside]
  cases rest with
  | nil => simp
  | cons byte rest => simp [ends byte rfl]

theorem step_word (letter : isLetter byte = true) (rest : Source) : step lineComment (byte :: rest) =
      some (some (.word ((byte :: rest).takeWhile isNameByte)), (byte :: rest).dropWhile isNameByte) := by
  obtain ⟨space, dash, bracket, double, single, dot, digit⟩ := (word_classes byte).1 letter
  rw [step]
  simp [space, dash, bracket, double, single, dot, digit, letter]

theorem step_number (numeric : isDigit byte = true) (rest : Source) :
    step lineComment (byte :: rest) = some (some .number, Lua.numeral (byte :: rest)) := by
  obtain ⟨space, dash, bracket, double, single, dot, _⟩ := digit_classes byte numeric
  rw [step]
  simp [space, dash, bracket, double, single, dot, numeric]

theorem step_fraction (numeric : rest.head?.any isDigit = true) :
    step lineComment ('.'.toUInt8 :: rest) = some (some .number, Lua.numeral rest) := by
  rw [step]
  rw [if_neg (by decide), if_neg (by decide), if_neg (by decide), if_neg (by decide),
    if_pos (by simpa using numeric)]

theorem bounded_reads {word : String} (found : bounded word text = true)
    (starts : (ascii word).head?.any isLetter = true) (inside : ∀ byte ∈ ascii word, isNameByte byte = true) :
    step lineComment text = some (some (.word (ascii word)), text.drop (ascii word).length) := by
  simp only [bounded, Bool.and_eq_true, List.isPrefixOf_iff_prefix] at found
  obtain ⟨⟨rest, rfl⟩, stops⟩ := found
  have ends : ∀ byte, rest.head? = some byte → isNameByte byte = false := by
    intro byte first
    rw [getElem?_append_right (Nat.le_refl _), Nat.sub_self, ← head?_eq_getElem?,
      first] at stops
    simpa using stops
  obtain ⟨taken, dropped⟩ := takeWhile_word inside ends
  cases spelled : ascii word with
  | nil => simp [spelled] at starts
  | cons byte others =>
    have letter : isLetter byte = true := by simpa [spelled] using starts
    rw [spelled] at taken dropped
    rw [cons_append, step_word letter, ← cons_append, taken, dropped, drop_left]

theorem fraction_reads (text : Source) : Lua.numeralRest Lua.isExponent .plain (fraction text) =
      Lua.numeralRest Lua.isExponent .plain text := by
  unfold fraction
  split
  · rename_i dotted
    cases text with
    | nil => cases dotted
    | cons byte others =>
      cases dotted
      rw [← drop_drop, drop_one, tail_cons, drop_digits, numeralRest_digits]
      rfl
  · rfl

theorem fraction_ends (ends : Ends (exponent text)) : fraction text = text := by
  unfold fraction
  split
  · rename_i dotted
    cases text with
    | nil => cases dotted
    | cons point after =>
      cases dotted
      exact absurd rfl (ends _ rfl).2
  · rfl

theorem numeral_decimal {others : Source} (numeric : isDigit byte = true)
    (ends : Ends (exponent (fraction ((byte :: others).dropWhile isDigit)))) :
    Lua.numeral (byte :: others) = exponent (fraction ((byte :: others).dropWhile isDigit)) := by
  have plain := exponent_reads ends
  rw [fraction_reads, numeralRest_digits, numeralRest_digit numeric] at plain
  rw [Lua.numeral, if_neg, plain]
  intro hex
  simp only [Bool.and_eq_true, decide_eq_true_eq, Option.any_eq_true] at hex
  obtain ⟨rfl, mark, first, marked⟩ := hex
  cases others with
  | nil => cases first
  | cons next others =>
    cases first
    -- the checker would stop before the mark, and Lua would join it to the number
    have classes : ∀ byte, (byte == 'x'.toUInt8 || byte == 'X'.toUInt8) = true →
        isDigit byte = false ∧ byte ≠ '.'.toUInt8 ∧ Lua.isExponent byte = false ∧
          isNameByte byte = true := forall_byte (by decide +kernel)
    obtain ⟨digit, dot, power, name⟩ := classes mark marked
    rw [dropWhile_cons_of_pos (by decide), dropWhile_cons_of_neg (by simp [digit]),
      fraction, if_neg (by simpa using dot), exponent, if_neg (by simp [power])] at ends
    rw [(ends mark rfl).1] at name
    cases name

theorem numeral_hex {mark : UInt8} {others : Source} (marked : (mark == 'x'.toUInt8 || mark == 'X'.toUInt8) = true)
    (ends : Ends (others.dropWhile isHexDigit)) :
    Lua.numeral ('0'.toUInt8 :: mark :: others) = others.dropWhile isHexDigit := by
  rw [Lua.numeral, if_pos (by simpa using marked), tail_cons,
    ← Lua.numeralRest_dropWhile (forall_byte (by decide +kernel) :
      ∀ byte, isHexDigit byte = true → Lua.isHexExponent byte = false ∧
        (isHexDigit byte || byte = '.'.toUInt8) = true)]
  exact numeralRest_ends (forall_byte (by decide +kernel)) ends

theorem unsigned_reads (read : unsigned text = some rest) (ends : Ends rest) :
    ∃ token ∈ [Lua.Token.number, .word (ascii "inf"), .word (ascii "nan")],
      step lineComment text = some (some token, rest) := by
  unfold unsigned at read
  split at read
  · rename_i found
    cases read
    exact ⟨_, by simp, bounded_reads found (by decide) (by decide +kernel)⟩
  split at read
  · rename_i found
    cases read
    exact ⟨_, by simp, bounded_reads found (by decide) (by decide +kernel)⟩
  split at read
  · rename_i hex
    simp only [Bool.and_eq_true, decide_eq_true_eq, Option.any_eq_true] at hex
    obtain ⟨⟨zero, mark, second, marked⟩, _⟩ := hex
    rw [← drop_drop, drop_hexDigits] at read
    match text with
    | [] => cases zero
    | [_] => cases second
    | first :: next :: others =>
      cases zero
      cases second
      cases read
      change Ends (others.dropWhile isHexDigit) at ends
      refine ⟨.number, by simp, ?_⟩
      rw [step_number (by decide), numeral_hex marked ends]
      rfl
  split at read
  · rename_i whole
    obtain ⟨byte, others, rfl, numeric⟩ := digits_pos whole
    rw [drop_digits] at read
    cases read
    exact ⟨.number, by simp, by rw [step_number numeric, numeral_decimal numeric ends]⟩
  split at read
  · rename_i dotted
    simp only [Bool.and_eq_true, decide_eq_true_eq] at dotted
    obtain ⟨dot, some_digits⟩ := dotted
    obtain ⟨byte, others, following, numeric⟩ := digits_pos some_digits
    rw [fraction, if_pos dot, ← drop_drop, following, drop_digits] at read
    cases text with
    | nil => cases dot
    | cons first text =>
      cases dot
      cases following
      cases read
      -- a second point would be joined to the number
      have single : fraction ((byte :: others).dropWhile isDigit) =
          (byte :: others).dropWhile isDigit := fraction_ends ends
      rw [← single] at ends ⊢
      refine ⟨.number, by simp, ?_⟩
      rw [step_fraction (by simpa using numeric), numeral_decimal numeric ends]
  · cases read
/-- The tokens of Lua that a token of the checker stands for. -/
inductive Means : Token → List Lua.Token → Prop where
  | string : Means .string [.string]
  | name (text : Source) : Means (.name text) [.word text]
  | punct (byte : UInt8) : Means (.punct byte) [.symbol [byte]]
  | number {token : Lua.Token}
      (listed : token ∈ [Lua.Token.number, .word (ascii "inf"), .word (ascii "nan")]) :
      Means .number [token]
  | negative {token : Lua.Token}
      (listed : token ∈ [Lua.Token.number, .word (ascii "inf"), .word (ascii "nan")]) :
      Means .number [.symbol (ascii "-"), token]

def Apart : Token → Source → Prop
  | .number, rest => Ends rest
  | .punct byte, rest =>
    (byte = '['.toUInt8 → rest.head? ≠ some '['.toUInt8 ∧ rest.head? ≠ some '='.toUInt8) ∧
      (byte = '='.toUInt8 → rest.head? ≠ some '='.toUInt8)
  | _, _ => True

theorem symbol_single (listed : isPunct byte = true) (apart : byte = '='.toUInt8 → rest.head? ≠ some '='.toUInt8) :
    Lua.symbol (byte :: rest) = (.symbol [byte], rest) := by
  have none_long : Lua.longSymbols.find? (fun long => long.isPrefixOf (byte :: rest)) = none := by
    rw [find?_eq_none]
    have heads : ∀ long ∈ Lua.longSymbols, long = ascii "==" ∨
        ∀ byte ∈ ascii "\x7b\x7d[](),;=", long.head? ≠ some byte := by decide +kernel
    intro long member starts
    rw [List.isPrefixOf_iff_prefix] at starts
    obtain ⟨others, same⟩ := starts
    rcases heads long member with rfl | foreign
    · cases same
      exact apart rfl rfl
    cases long with
    | nil => exact absurd member (by decide)
    | cons first long =>
      cases same
      exact foreign byte (by simpa [isPunct] using listed) rfl
  rw [Lua.symbol, none_long]
  rfl

theorem step_punct (listed : isPunct byte = true) (apart : Apart (.punct byte) rest) :
    step lineComment (byte :: rest) = some (some (.symbol [byte]), rest) := by
  obtain ⟨space, dash, double, single, dot, digit, letter⟩ := (mark_classes byte).1 listed
  rw [step, if_neg (by simp [space]), if_neg dash]
  split
  · rename_i bracket
    obtain ⟨notOpen, notLevel⟩ := apart.1 bracket
    have closed : Lua.openLong 0 rest = none := by
      cases rest with
      | nil => rfl
      | cons next rest => simp_all [Lua.openLong]
    rw [closed, if_neg notLevel, bracket]
    rfl
  · rw [if_neg (by simp [double, single]), if_neg (by simp [dot]), if_neg (by simp [digit]),
      if_neg (by simp [letter]), symbol_single listed apart.2]

theorem number_reads (read : number text = some rest) (ends : Ends rest) :
    ∃ tokens, Means .number tokens ∧ reads text = (reads rest).map (tokens ++ ·) := by
  unfold number at read
  split at read
  · rename_i negative
    obtain ⟨token, listed, next⟩ := unsigned_reads read ends
    cases text with
    | nil => cases negative
    | cons dash text =>
      cases negative
      rw [tail_cons] at next
      have single : text.head? ≠ some '-'.toUInt8 := by
        intro second
        cases text with
        | nil => cases second
        | cons dash text =>
          cases second
          rw [step, if_neg (by decide), if_pos rfl] at next
          split at next
          · cases next
          · cases next
            exact absurd listed (by decide)
      have first : step lineComment ('-'.toUInt8 :: text) =
          some (some (.symbol (ascii "-")), text) := by
        simp [step, single, show isSpace '-'.toUInt8 = false by decide]
      refine ⟨_, .negative listed, ?_⟩
      rw [reads_step first, reads_step next, Option.map_map]
      rfl
  · obtain ⟨token, listed, next⟩ := unsigned_reads read ends
    exact ⟨_, .number listed, reads_step next⟩

theorem scan_reads (read : scan text = some (token, rest)) (live : token ≠ .done) (apart : Apart token rest) :
    ∃ tokens, Means token tokens ∧ reads text = (reads rest).map (tokens ++ ·) := by
  cases text with
  | nil =>
    cases read
    exact absurd rfl live
  | cons byte text =>
    rw [scan] at read
    split at read
    · rename_i quote
      obtain ⟨after, closed, same⟩ := Option.map_eq_some_iff.mp read
      cases same
      have classes : ∀ byte, (byte = '"'.toUInt8 || byte = '\''.toUInt8) = true →
          isSpace byte = false ∧ byte ≠ '-'.toUInt8 ∧ byte ≠ '['.toUInt8 :=
        forall_byte (by decide +kernel)
      obtain ⟨space, dash, bracket⟩ := classes byte quote
      have next : step lineComment (byte :: text) = some (some .string, rest) := by
        rw [step, if_neg (by simp [space]), if_neg dash, if_neg bracket, if_pos quote,
          string_reads space closed false]
        rfl
      exact ⟨_, .string, reads_step next⟩
    split at read
    · rename_i unquoted listed
      cases read
      exact ⟨_, .punct byte, reads_step (step_punct listed apart)⟩
    split at read
    · rename_i after numeric
      cases read
      exact number_reads numeric apart
    split at read
    · rename_i letter
      cases read
      exact ⟨_, .name _, reads_step (step_word letter text)⟩
    · cases read

/-- The second token can follow the first without Lua joining the two. -/
def Follows : Token → Token → Prop
  | .number, next => next ≠ .number ∧ ∀ name, next ≠ .name name
  | .punct byte, next =>
    (byte = '['.toUInt8 → next ≠ .punct '['.toUInt8 ∧ next ≠ .punct '='.toUInt8) ∧
      (byte = '='.toUInt8 → next ≠ .punct '='.toUInt8)
  | _, _ => True

theorem scan_punct (listed : isPunct byte = true) : scan (skip false (byte :: text)) = some (.punct byte, text) := by
  obtain ⟨space, dash, double, single, _⟩ := (mark_classes byte).1 listed
  rw [skip, if_neg (by simp [space]), if_neg (by simp [dash]), scan,
    if_neg (by simp [double, single]), if_pos listed]

theorem scan_joined {after : Source} (joined : isNameByte byte = true ∨ byte = '.'.toUInt8)
    (read : scan (skip false (byte :: text)) = some (token, after)) : token = .number ∨ ∃ name, token = .name name := by
  obtain ⟨space, dash, double, single, punct⟩ := (mark_classes byte).2 joined
  rw [skip, if_neg (by simp [space]), if_neg (by simp [dash]), scan,
    if_neg (by simp [double, single]), if_neg (by simp [punct])] at read
  split at read
  · cases read
    exact .inl rfl
  split at read
  · cases read
    exact .inr ⟨_, rfl⟩
  · cases read

theorem Follows.apart {next : Token} {after : Source} (follows : Follows token next)
    (read : scan (skip false rest) = some (next, after)) : Apart token rest := by
  -- a punctuation byte at the head of the rest is the next token
  have punct : ∀ byte, isPunct byte = true → next ≠ .punct byte → rest.head? ≠ some byte := by
    intro byte listed other first
    cases rest with
    | nil => cases first
    | cons head rest =>
      cases first
      rw [scan_punct listed] at read
      cases read
      exact other rfl
  cases token with
  | string => trivial
  | name text => trivial
  | done => trivial
  | number =>
    intro byte first
    cases rest with
    | nil => cases first
    | cons head rest =>
      cases first
      by_contra joined
      have := scan_joined (by grind) read
      obtain ⟨notNumber, notName⟩ := follows
      grind
  | punct byte =>
    obtain ⟨bracket, equals⟩ := follows
    refine ⟨fun same => ⟨?_, ?_⟩, fun same => ?_⟩
    · exact punct _ (by decide) (bracket same).1
    · exact punct _ (by decide) (bracket same).2
    · exact punct _ (by decide) (equals same)

def Current (p : Parser) : Prop := scan p.start = some (p.token, p.position)

/-- From where `p` stands to where `q` does, Lua reads the tokens. -/
def Passes (p q : Parser) (tokens : List Lua.Token) : Prop :=
  reads p.start = (reads q.start).map (tokens ++ ·)

theorem Passes.trans {r : Parser} {first second : List Lua.Token} (left : Passes p q first)
    (right : Passes q r second) : Passes p r (first ++ second) := by
  unfold Passes at *
  rw [left, right, Option.map_map]
  congr 1
  funext tokens
  exact (append_assoc first second tokens).symm

theorem advance_ok (moved : p.advance = .ok q) : q.Current ∧ q.start = skip false p.position := by
  unfold advance at moved
  dsimp only at moved
  split at moved
  · rename_i token after read
    cases moved
    exact ⟨read, rfl⟩
  · cases moved

theorem advance_passes (current : p.Current) (moved : p.advance = .ok q)
    (live : p.token ≠ .done) (follows : Follows p.token q.token) :
    ∃ tokens, Means p.token tokens ∧ Passes p q tokens := by
  obtain ⟨next, start⟩ := advance_ok moved
  have read : scan (skip false p.position) = some (q.token, q.position) := start ▸ next
  obtain ⟨tokens, means, same⟩ := scan_reads current live (follows.apart read)
  refine ⟨tokens, means, ?_⟩
  rw [Passes, same, start, reads_skip]
  rfl

theorem expectPunct_ok {punct : Char} {reason : String} (moved : p.expectPunct punct reason = .ok q) :
    p.token = .punct punct.toUInt8 ∧ p.advance = .ok q := by
  unfold expectPunct at moved
  split at moved
  · rename_i found
    exact ⟨found, moved⟩
  · cases moved

theorem literal_live (literal : isLiteral token = true) : token ≠ .done := by
  intro done
  rw [done] at literal
  cases literal

end Parser

end Tpf3Mp.Agent
