import Tpf3Mp.Lua.Grammar

/-!
# The check of a received world's script data

A world from another player may carry a Lua file that the game runs when it
loads the save. The agent admits it only when the file is one function that
returns a table of literals, which a small lexer and parser decide without
running anything.

The source's parser keeps indices into the text. Here `position` and `start` are
the bytes of the text from those indices on.
-/

namespace Tpf3Mp.Agent

open Lua (Source ascii isBreak isSpace isDigit isHexDigit isLetter isNameByte isExponent
  isSign)

def maxLuaData : Nat := 32 * 2 ^ 20

def maxDepth : Nat := 128

def keywords : List Source :=
  ["and", "break", "do", "else", "elseif", "end", "false", "for", "function", "if", "in", "local",
    "nil", "not", "or", "repeat", "return", "then", "true", "until", "while", "goto"].map ascii

inductive LuaDataError where
  | tooLarge
  | notText
  | badSyntax (line : Nat) (reason : String)
  /-- Not an error of the source: the bound on the parser's calls and rounds is used up. -/
  | outOfFuel
deriving DecidableEq, Repr

inductive Token where
  | string
  | number
  | name (text : Source)
  | punct (byte : UInt8)
  | done
deriving DecidableEq, Repr

structure Parser where
  text : Source
  position : Source
  start : Source
  token : Token
deriving DecidableEq, Repr

def invalidData : String := "invalid or incomplete native Lua data"

namespace Parser

def error {α : Type} (p : Parser) (reason : String) : Except LuaDataError α :=
  let before := p.text.take (p.text.length - p.start.length)
  .error (.badSyntax (before.count '\n'.toUInt8 + 1) reason)

/-- Past whitespace and, while `comment` is set, past the rest of a comment's line. -/
def skip : Bool → Source → Source
  | _, [] => []
  | true, byte :: rest => skip (!isBreak byte) rest
  | false, byte :: rest =>
    if isSpace byte then skip false rest
    else if byte = '-'.toUInt8 && rest.head? = some '-'.toUInt8 then skip true rest
    else byte :: rest

/-- A quoted string on one line, after its opening quote: a backslash escapes the next
byte, or a line break. -/
def string (quote : UInt8) : Source → Option Source
  | [] => none
  | byte :: rest =>
    if byte = quote then some rest
    else if byte = '\\'.toUInt8 then
      match rest with
      | [] => none
      | escaped :: after =>
        if escaped = '\r'.toUInt8 then
          match after with
          | [] => none
          | next :: others =>
            if next = '\n'.toUInt8 then string quote others else string quote (next :: others)
        else string quote after
    else if isBreak byte then none
    else string quote rest

def digits (hex : Bool) (text : Source) : Nat :=
  (text.takeWhile fun byte => if hex then isHexDigit byte else isDigit byte).length

/-- The text starts with the word and the word ends there. -/
def bounded (word : String) (text : Source) : Bool :=
  (ascii word).isPrefixOf text && !(text[(ascii word).length]?).any isNameByte

def fraction (text : Source) : Source :=
  if text.head? = some '.'.toUInt8 then text.drop (1 + digits false (text.drop 1)) else text

def pastSign (text : Source) : Source := if text.head?.any isSign then text.tail else text

def exponent (text : Source) : Source :=
  if text.head?.any isExponent then
    let power := pastSign text.tail
    if digits false power > 0 then power.drop (digits false power) else text
  else text

/-- The rest after a number without its sign: `inf`, `nan`, hexadecimal or decimal. -/
def unsigned (text : Source) : Option Source :=
  if bounded "inf" text then some (text.drop 3)
  else if bounded "nan" text then some (text.drop 3)
  else if text.head? = some '0'.toUInt8 &&
      (text[1]?).any (fun byte => byte == 'x'.toUInt8 || byte == 'X'.toUInt8) &&
      digits true (text.drop 2) > 0 then
    some (text.drop (2 + digits true (text.drop 2)))
  else if digits false text > 0 then some (exponent (fraction (text.drop (digits false text))))
  else if text.head? = some '.'.toUInt8 && digits false (text.drop 1) > 0 then
    some (exponent (fraction text))
  else none

def number (text : Source) : Option Source :=
  unsigned (if text.head? = some '-'.toUInt8 then text.tail else text)

def isPunct (byte : UInt8) : Bool := (ascii "\x7b\x7d[](),;=").contains byte

def scan : Source → Option (Token × Source)
  | [] => some (.done, [])
  | byte :: rest =>
    if byte = '"'.toUInt8 || byte = '\''.toUInt8 then
      (string byte rest).map fun after => (.string, after)
    else if isPunct byte then some (.punct byte, rest)
    else match number (byte :: rest) with
      | some after => some (.number, after)
      | none =>
        if isLetter byte then
          some (.name ((byte :: rest).takeWhile isNameByte), (byte :: rest).dropWhile isNameByte)
        else none

def advance (p : Parser) : Except LuaDataError Parser :=
  let start := skip false p.position
  match scan start with
  | some (token, after) => .ok { p with position := after, start, token }
  | none => error { p with start } invalidData

def new (text : Source) : Except LuaDataError Parser :=
  advance { text, position := text, start := text, token := .done }

def expectWord (p : Parser) (word : String) : Except LuaDataError Parser :=
  if p.token = .name (ascii word) then p.advance else p.error "expected the saved data function"

def expectPunct (p : Parser) (punct : Char) (reason : String) : Except LuaDataError Parser :=
  if p.token = .punct punct.toUInt8 then p.advance else p.error reason

def isKey (token : Token) : Bool :=
  [.string, .number, .name (ascii "true"), .name (ascii "false")].contains token

def isLiteral (token : Token) : Bool := isKey token || token == .name (ascii "nil")

mutual

/-- `fuel` bounds the calls and rounds left. -/
def table (fuel depth : Nat) (p : Parser) : Except LuaDataError Parser :=
  match fuel with
  | 0 => .error .outOfFuel
  | fuel + 1 => do
    if depth > maxDepth then p.error "native Lua data exceeds the nesting limit"
    else
      let p ← p.expectPunct '\x7b' "expected a table"
      fields fuel depth p

/-- The rounds of the loop over a table's fields, up to its closing brace. -/
def fields (fuel depth : Nat) (p : Parser) : Except LuaDataError Parser :=
  match fuel with
  | 0 => .error .outOfFuel
  | fuel + 1 =>
    if p.token = .punct '\x7d'.toUInt8 then p.advance
    else do
      let p ← field fuel depth p
      if p.token = .punct ','.toUInt8 || p.token = .punct ';'.toUInt8 then
        let p ← p.advance
        fields fuel depth p
      else if p.token = .punct '\x7d'.toUInt8 then fields fuel depth p
      else p.error "expected a table separator or closing brace"

def field (fuel depth : Nat) (p : Parser) : Except LuaDataError Parser :=
  match fuel with
  | 0 => .error .outOfFuel
  | fuel + 1 =>
    if p.token = .punct '['.toUInt8 then do
      let p ← p.advance
      if isKey p.token then
        let p ← p.advance
        let p ← p.expectPunct ']' "expected ]"
        let p ← p.expectPunct '=' "expected ="
        literal fuel depth p
      else p.error "expected a literal table key"
    else match p.token with
      | .name name =>
        if keywords.contains name then literal fuel depth p
        else do
          let p ← p.advance
          let p ← p.expectPunct '=' "expected ="
          literal fuel depth p
      | _ => literal fuel depth p

def literal (fuel depth : Nat) (p : Parser) : Except LuaDataError Parser :=
  match fuel with
  | 0 => .error .outOfFuel
  | fuel + 1 =>
    if p.token = .punct '\x7b'.toUInt8 then table fuel (depth + 1) p
    else if isLiteral p.token then p.advance
    else p.error "expected a serialized value (expressions are not accepted)"

end

def parse (p : Parser) : Except LuaDataError Unit := do
  let p ← p.expectWord "function"
  let p ← p.expectWord "data"
  let p ← p.expectPunct '(' "expected the saved data function"
  let p ← p.expectPunct ')' "expected the saved data function"
  let p ← p.expectWord "return"
  let p ← table (4 * p.start.length + 1) 0 p
  let p ← p.expectWord "end"
  let p ← (if p.token = .punct ';'.toUInt8 then p.advance else .ok p)
  if p.token = .done then pure ()
  else p.error "unexpected content after the saved data function"

end Parser

def stripBom (bytes : Source) : Source :=
  if [0xef, 0xbb, 0xbf].isPrefixOf bytes then bytes.drop 3 else bytes

def checkLuaData (bytes : Source) : Except LuaDataError Unit :=
  if bytes.length > maxLuaData then .error .tooLarge
  else
    let text := stripBom bytes
    if ByteArray.validateUTF8 ⟨text.toArray⟩ then do
      let p ← Parser.new text
      p.parse
    else .error .notText

end Tpf3Mp.Agent
