import Tpf3Mp.Agent.SaveTokens
import Tpf3Mp.Run.Basic

/-!
# What an admitted file says in Lua

The data grammar derives exactly one function that returns a table of literals.
The checker follows that grammar token by token, so what it admits is data to a
Lua that takes every comment to the end of its line. Lua itself ends a comment
that opens a long bracket at the closing bracket. There the checker passes over
text that Lua runs.
-/

namespace Tpf3Mp.Agent
open List

open Lua (Source ascii keyword sign Derives Rules)

inductive DataSymbol where
  | chunk | table | items | separator | field | key | number | value
deriving DecidableEq, Repr

open DataSymbol in
def dataRules : Rules DataSymbol
  | chunk =>
    [[keyword "function", keyword "data", sign "(", sign ")", keyword "return", .node table,
        keyword "end"],
      [keyword "function", keyword "data", sign "(", sign ")", keyword "return", .node table,
        keyword "end", sign ";"]]
  | table => [[sign "\x7b", .node items]]
  | items =>
    [[sign "\x7d"], [.node field, sign "\x7d"], [.node field, .node separator, .node items]]
  | separator => [[sign ","], [sign ";"]]
  | field =>
    [[.node value], [.token .name, sign "=", .node value],
      [sign "[", .node key, sign "]", sign "=", .node value]]
  | key => [[.token .string], [.node number], [keyword "true"], [keyword "false"]]
  | number =>
    [[.token .number], [keyword "inf"], [keyword "nan"], [sign "-", .token .number],
      [sign "-", keyword "inf"], [sign "-", keyword "nan"]]
  | value => [[.node key], [keyword "nil"], [.node table]]

/-- The tokens are one function `data` that returns a table of literals, and nothing else. -/
def DataChunk (tokens : List Lua.Token) : Prop := Derives dataRules [.node .chunk] tokens

/-- Lua either refuses the text or finds data in it. -/
def ReadsAsData (text : Source) : Prop :=
  ∀ tokens, Lua.lex text = some tokens → Lua.Chunk tokens → DataChunk tokens

namespace Parser

variable {p q r : Parser} {fuel depth : Nat} {token : Token} {tokens : List Lua.Token} {byte : UInt8}

theorem number_derives (means : Means .number tokens) : Derives dataRules [.node .number] tokens := by
  cases means with
  | number listed =>
    simp only [mem_cons, not_mem_nil, or_false] at listed
    rcases listed with rfl | rfl | rfl
    · exact .single [.token .number] (by decide) (.token rfl .nil)
    · exact .single [keyword "inf"] (by decide) (.keyword "inf")
    · exact .single [keyword "nan"] (by decide) (.keyword "nan")
  | negative listed =>
    simp only [mem_cons, not_mem_nil, or_false] at listed
    rcases listed with rfl | rfl | rfl
    · exact .single [sign "-", .token .number] (by decide) (.token rfl (.token rfl .nil))
    · exact .single [sign "-", keyword "inf"] (by decide) (.token rfl (.keyword "inf"))
    · exact .single [sign "-", keyword "nan"] (by decide) (.token rfl (.keyword "nan"))

theorem key_derives (literal : isKey token = true)
    (means : Means token tokens) : Derives dataRules [.node .key] tokens := by
  simp only [isKey, contains_eq_mem, mem_cons, not_mem_nil, or_false,
    decide_eq_true_eq] at literal
  rcases literal with rfl | rfl | rfl | rfl
  · cases means
    exact .single [.token .string] (by decide) (.token rfl .nil)
  · exact .single [.node .number] (by decide) (number_derives means)
  · cases means
    exact .single [keyword "true"] (by decide) (.keyword "true")
  · cases means
    exact .single [keyword "false"] (by decide) (.keyword "false")

theorem literal_derives (literal : isLiteral token = true)
    (means : Means token tokens) : Derives dataRules [.node .value] tokens := by
  rw [isLiteral, Bool.or_eq_true] at literal
  rcases literal with key | absent
  · exact .single [.node .key] (by decide) (key_derives key means)
  rw [beq_iff_eq] at absent
  subst absent
  cases means
  exact .single [keyword "nil"] (by decide) (.keyword "nil")

/-- From where `p` stands to where `q` does, Lua reads what the parts derive. -/
def Parses (parts : List (Lua.Part DataSymbol)) (p q : Parser) : Prop :=
  q.Current ∧ ∃ tokens, Derives dataRules parts tokens ∧ Passes p q tokens

theorem Parses.append {first second : List (Lua.Part DataSymbol)}
    (left : Parses first p q) (right : Parses second q r) : Parses (first ++ second) p r := by
  obtain ⟨_, tokens, derived, passes⟩ := left
  obtain ⟨standing, others, derivedOthers, passesOthers⟩ := right
  exact ⟨standing, _, derived.append derivedOthers, passes.trans passesOthers⟩

theorem Parses.single {symbol : DataSymbol} (production : List (Lua.Part DataSymbol))
    (listed : production ∈ dataRules symbol) (parses : Parses production p q) : Parses [.node symbol] p q := by
  obtain ⟨standing, tokens, derived, passes⟩ := parses
  exact ⟨standing, tokens, .single production listed derived, passes⟩

theorem follows_punct (bracket : byte ≠ '['.toUInt8) (equals : byte ≠ '='.toUInt8)
    (next : Token) : Follows (.punct byte) next :=
  ⟨fun same => absurd same bracket, fun same => absurd same equals⟩

theorem advance_parses {text : String} (current : p.Current)
    (here : p.token = .punct byte) (moved : p.advance = .ok q) (spelled : ascii text = [byte])
    (follows : Follows (.punct byte) q.token) : Parses [sign text] p q := by
  obtain ⟨tokens, means, passes⟩ := advance_passes current moved (by simp [here]) (here ▸ follows)
  rw [here] at means
  cases means
  rw [← spelled] at passes
  exact ⟨(advance_ok moved).1, _, .sign text, passes⟩

theorem expectPunct_parses {punct : Char} {reason text : String} (current : p.Current)
    (moved : p.expectPunct punct reason = .ok q) (spelled : ascii text = [punct.toUInt8])
    (follows : Follows (.punct punct.toUInt8) q.token) : Parses [sign text] p q := by
  obtain ⟨found, moved⟩ := expectPunct_ok moved
  exact advance_parses current found moved spelled follows

theorem expectWord_parses {word : String} (current : p.Current)
    (moved : p.expectWord word = .ok q) : Parses [keyword word] p q := by
  unfold expectWord at moved
  split at moved
  · rename_i found
    obtain ⟨tokens, means, passes⟩ :=
      advance_passes current moved (by simp [found]) (by rw [found]; trivial)
    rw [found] at means
    cases means
    exact ⟨(advance_ok moved).1, _, .keyword word, passes⟩
  · cases moved

def Separated (token : Token) : Prop :=
  token = .punct ','.toUInt8 ∨ token = .punct ';'.toUInt8 ∨ token = .punct '\x7d'.toUInt8

theorem literal_follows (literal : isLiteral token = true) : Follows token (.punct byte) := by
  cases token with
  | number => exact ⟨nofun, nofun⟩
  | punct byte => cases literal
  | _ => trivial

theorem Separated.follows {next : Token} (separated : Separated next)
    (literal : isLiteral token = true) : Follows token next := by
  rcases separated with same | same | same <;> rw [same] <;> exact literal_follows literal

structure Parsed (fuel : Nat) : Prop where
  table : ∀ {depth p q}, table fuel depth p = .ok q → Current p → Parses [.node .table] p q
  fields : ∀ {depth p q}, fields fuel depth p = .ok q → Current p → Parses [.node .items] p q
  field : ∀ {depth p q}, field fuel depth p = .ok q → Current p → Separated q.token →
    Parses [.node .field] p q
  literal : ∀ {depth p q}, literal fuel depth p = .ok q → Current p → Separated q.token →
    Parses [.node .value] p q

theorem parsed_zero : Parsed 0 where
  table parsed := by
    rw [Parser.table] at parsed
    cases parsed
  fields parsed := by
    rw [Parser.fields] at parsed
    cases parsed
  field parsed := by
    rw [Parser.field] at parsed
    cases parsed
  literal parsed := by
    rw [Parser.literal] at parsed
    cases parsed

theorem Parsed.succ_literal (ih : Parsed fuel)
    (parsed : Parser.literal (fuel + 1) depth p = .ok q) (current : p.Current)
    (separated : Separated q.token) : Parses [.node .value] p q := by
  rw [Parser.literal] at parsed
  split at parsed
  · exact .single [.node .table] (by decide) (ih.table parsed current)
  split at parsed
  · rename_i literal
    obtain ⟨tokens, means, passes⟩ :=
      advance_passes current parsed (literal_live literal) (separated.follows literal)
    exact ⟨(advance_ok parsed).1, tokens, literal_derives literal means, passes⟩
  · cases parsed

theorem literal_starts (parsed : literal fuel depth p = .ok q) : Follows (.punct '='.toUInt8) p.token := by
  have plain : p.token ≠ .punct '='.toUInt8 := by
    intro equals
    cases fuel with
    | zero =>
      rw [literal] at parsed
      cases parsed
    | succ fuel =>
      rw [literal, equals, if_neg (by decide), if_neg (by decide)] at parsed
      cases parsed
  exact ⟨fun other => absurd other (by decide), fun _ => plain⟩

theorem Parsed.assigned (ih : Parsed fuel) (current : p.Current)
    (moved : p.expectPunct '=' "expected =" = .ok q) (parsed : Parser.literal fuel depth q = .ok r)
    (separated : Separated r.token) : Parses [sign "=", .node .value] p r := by
  have equals : Parses [sign "="] p q :=
    expectPunct_parses current moved (by decide) (literal_starts parsed)
  exact equals.append (ih.literal parsed equals.1 separated)

theorem name_admitted {name : Source} (free : ¬ keywords.contains name = true) :
    Lua.Terminal.name.admits (.word name) = true := by
  have same : ∀ word ∈ Lua.keywords, word ∈ keywords := by decide
  simp only [Lua.Terminal.admits, Bool.not_eq_true', contains_eq_mem, decide_eq_false_iff_not]
  intro reserved
  exact free (by simpa using same name reserved)

/-- A key in brackets: the checker refuses the second `[` of a long string. -/
theorem bracketed_parses {s : Parser} (current : p.Current)
    (bracket : p.token = .punct '['.toUInt8) (first : p.advance = .ok q) (key : isKey q.token = true)
    (second : q.advance = .ok r) (third : r.expectPunct ']' "expected ]" = .ok s) :
    Parses [sign "[", .node .key, sign "]"] p s := by
  have literal : isLiteral q.token = true := by simp [isLiteral, key]
  have opens : Follows (.punct '['.toUInt8) q.token := by
    refine ⟨fun _ => ⟨?_, ?_⟩, fun other => absurd other (by decide)⟩ <;>
    · intro same
      rw [same] at key
      cases key
  have opened : Parses [sign "["] p q := advance_parses current bracket first (by decide) opens
  have inside : Parses [.node .key] q r := by
    have closes := (expectPunct_ok third).1
    obtain ⟨tokens, means, passes⟩ :=
      advance_passes opened.1 second (literal_live literal) (closes ▸ literal_follows literal)
    exact ⟨(advance_ok second).1, tokens, key_derives key means, passes⟩
  have closed : Parses [sign "]"] r s :=
    expectPunct_parses inside.1 third (by decide) (follows_punct (by decide) (by decide) _)
  exact opened.append (inside.append closed)

theorem Parsed.succ_field (ih : Parsed fuel) (parsed : Parser.field (fuel + 1) depth p = .ok q) (current : p.Current)
    (separated : Separated q.token) : Parses [.node .field] p q := by
  rw [Parser.field] at parsed
  split at parsed
  · rename_i bracket
    obtain ⟨atKey, first, parsed⟩ := Run.bind_ok.mp parsed
    split at parsed
    · rename_i key
      obtain ⟨atClose, second, parsed⟩ := Run.bind_ok.mp parsed
      obtain ⟨atEquals, third, parsed⟩ := Run.bind_ok.mp parsed
      obtain ⟨atValue, fourth, parsed⟩ := Run.bind_ok.mp parsed
      have keyed := bracketed_parses current bracket first key second third
      exact .single [sign "[", .node .key, sign "]", sign "=", .node .value] (by decide)
        (keyed.append (ih.assigned keyed.1 fourth parsed separated))
    · cases parsed
  split at parsed
  · rename_i name found
    split at parsed
    · exact .single [.node .value] (by decide) (ih.literal parsed current separated)
    rename_i free
    obtain ⟨atEquals, first, parsed⟩ := Run.bind_ok.mp parsed
    obtain ⟨atValue, second, parsed⟩ := Run.bind_ok.mp parsed
    obtain ⟨tokens, means, passes⟩ :=
      advance_passes current first (by simp [found]) (by rw [found]; trivial)
    rw [found] at means
    cases means
    have named : Parses [.token .name] p atEquals :=
      ⟨(advance_ok first).1, _, .token (name_admitted free) .nil, passes⟩
    exact .single [.token .name, sign "=", .node .value] (by decide)
      (named.append (ih.assigned named.1 second parsed separated))
  · exact .single [.node .value] (by decide) (ih.literal parsed current separated)

theorem separator_parses (current : p.Current)
    (comma : p.token = .punct ','.toUInt8 ∨ p.token = .punct ';'.toUInt8) (moved : p.advance = .ok q) :
    Parses [.node .separator] p q := by
  rcases comma with here | here
  · exact .single [sign ","] (by decide) (advance_parses current here moved (by decide)
      (follows_punct (by decide) (by decide) _))
  · exact .single [sign ";"] (by decide) (advance_parses current here moved (by decide)
      (follows_punct (by decide) (by decide) _))

theorem Parsed.succ_fields (ih : Parsed fuel)
    (parsed : Parser.fields (fuel + 1) depth p = .ok q) (current : p.Current) : Parses [.node .items] p q := by
  have closing : ∀ {p q}, Current p → p.token = .punct '\x7d'.toUInt8 → p.advance = .ok q →
      Parses [sign "\x7d"] p q := fun current close moved =>
    advance_parses current close moved (by decide) (follows_punct (by decide) (by decide) _)
  rw [Parser.fields] at parsed
  split at parsed
  · rename_i close
    exact .single [sign "\x7d"] (by decide) (closing current close parsed)
  obtain ⟨after, first, parsed⟩ := Run.bind_ok.mp parsed
  split at parsed
  · rename_i comma
    rw [Bool.or_eq_true, decide_eq_true_eq, decide_eq_true_eq] at comma
    have field := ih.field first current (comma.elim .inl fun semicolon => .inr (.inl semicolon))
    obtain ⟨beyond, second, parsed⟩ := Run.bind_ok.mp parsed
    have separator := separator_parses field.1 comma second
    exact .single [.node .field, .node .separator, .node .items] (by decide)
      (field.append (separator.append (ih.fields parsed separator.1)))
  split at parsed
  · rename_i close
    have field := ih.field first current (.inr (.inr close))
    cases fuel with
    | zero =>
      rw [Parser.fields] at parsed
      cases parsed
    | succ fuel =>
      rw [Parser.fields, if_pos close] at parsed
      exact .single [.node .field, sign "\x7d"] (by decide)
        (field.append (closing field.1 close parsed))
  · cases parsed

theorem Parsed.succ_table (ih : Parsed fuel)
    (parsed : Parser.table (fuel + 1) depth p = .ok q) (current : p.Current) : Parses [.node .table] p q := by
  rw [Parser.table] at parsed
  split at parsed
  · cases parsed
  obtain ⟨inside, first, parsed⟩ := Run.bind_ok.mp parsed
  have opened : Parses [sign "\x7b"] p inside :=
    expectPunct_parses current first (by decide) (follows_punct (by decide) (by decide) _)
  exact .single [sign "\x7b", .node .items] (by decide)
    (opened.append (ih.fields parsed opened.1))

theorem parsed (fuel : Nat) : Parsed fuel := by
  induction fuel with
  | zero => exact parsed_zero
  | succ fuel ih => exact ⟨ih.succ_table, ih.succ_fields, ih.succ_field, ih.succ_literal⟩

theorem parse_parses (accepted : p.parse = .ok ()) (current : p.Current) :
    ∃ q, Parses [.node .chunk] p q ∧ q.token = .done := by
  obtain ⟨atName, first, accepted⟩ := Run.bind_ok.mp accepted
  obtain ⟨atOpen, second, accepted⟩ := Run.bind_ok.mp accepted
  obtain ⟨atClose, third, accepted⟩ := Run.bind_ok.mp accepted
  obtain ⟨atReturn, fourth, accepted⟩ := Run.bind_ok.mp accepted
  obtain ⟨atTable, fifth, accepted⟩ := Run.bind_ok.mp accepted
  obtain ⟨atEnd, sixth, accepted⟩ := Run.bind_ok.mp accepted
  obtain ⟨after, seventh, accepted⟩ := Run.bind_ok.mp accepted
  obtain ⟨last, semicolon, accepted⟩ := Run.bind_ok.mp accepted
  have function := expectWord_parses current first
  have name := expectWord_parses function.1 second
  have opened : Parses [sign "("] atOpen atClose :=
    expectPunct_parses name.1 third (by decide) (follows_punct (by decide) (by decide) _)
  have closed : Parses [sign ")"] atClose atReturn :=
    expectPunct_parses opened.1 fourth (by decide) (follows_punct (by decide) (by decide) _)
  have returned := expectWord_parses closed.1 fifth
  have table := (parsed _).table sixth returned.1
  have ended := expectWord_parses table.1 seventh
  have whole := function.append (name.append (opened.append (closed.append (returned.append
    (table.append ended)))))
  have done : last.token = .done := by
    split at accepted
    · assumption
    · cases accepted
  refine ⟨last, ?_, done⟩
  split at semicolon
  · rename_i here
    have mark : Parses [sign ";"] after last :=
      advance_parses ended.1 here semicolon (by decide) (follows_punct (by decide) (by decide) _)
    exact .single _ (by decide) (whole.append mark)
  · cases semicolon
    exact .single _ (by decide) whole

theorem scan_done {text rest : Source} (read : scan text = some (.done, rest)) : text = [] := by
  cases text with
  | nil => rfl
  | cons byte text =>
    rw [scan] at read
    split at read
    · obtain ⟨_, _, same⟩ := Option.map_eq_some_iff.mp read
      cases same
    split at read
    · cases read
    split at read
    · cases read
    split at read <;> cases read

end Parser

theorem checkLuaData_reads {bytes : Source} (accepted : checkLuaData bytes = .ok ()) :
    ∃ tokens, Parser.reads (stripBom bytes) = some tokens ∧ DataChunk tokens := by
  unfold checkLuaData at accepted
  split at accepted
  · cases accepted
  dsimp only at accepted
  split at accepted
  · obtain ⟨p, started, parsed⟩ := Run.bind_ok.mp accepted
    obtain ⟨current, start⟩ := Parser.advance_ok started
    obtain ⟨q, ⟨standing, tokens, derived, passes⟩, done⟩ := Parser.parse_parses parsed current
    have finished : q.start = [] := by
      unfold Parser.Current at standing
      rw [done] at standing
      exact Parser.scan_done standing
    refine ⟨tokens, ?_, derived⟩
    rw [Parser.Passes, finished, start, Parser.reads_skip] at passes
    simpa [show Parser.reads [] = some [] from rfl] using passes
  · cases accepted

/-- Admitted script data is data to Lua whenever Lua finds the same tokens in it with every
comment read to the end of its line. -/
theorem checkLuaData_data {bytes : Source} (accepted : checkLuaData bytes = .ok ())
    (line : Lua.lexWith Lua.lineComment (stripBom bytes) = Lua.lex (stripBom bytes)) :
    ReadsAsData (stripBom bytes) := by
  obtain ⟨tokens, read, data⟩ := checkLuaData_reads accepted
  intro found lexed _
  have same : some tokens = some found := read.symm.trans (line.trans lexed)
  cases same
  exact data

def plainSave : Source := ascii "function data() return \x7b count=-2, [\"a\"]=0x1F \x7d end -- kept\n"

theorem checkLuaData_data_plain : checkLuaData plainSave = .ok () ∧ ReadsAsData (stripBom plainSave) :=
  have accepted : checkLuaData plainSave = .ok () := by decide +kernel
  ⟨accepted, checkLuaData_data accepted (by decide +kernel)⟩

def hiddenCall : Source := ascii "function data() return \x7b\x7d end --[[ ]] os.execute(\"bad\")"

def hiddenTokens : List Lua.Token :=
  [.word (ascii "function"), .word (ascii "data"), .symbol (ascii "("), .symbol (ascii ")"),
    .word (ascii "return"), .symbol (ascii "\x7b"), .symbol (ascii "\x7d"), .word (ascii "end"),
    .word (ascii "os"), .symbol (ascii "."), .word (ascii "execute"), .symbol (ascii "("), .string,
    .symbol (ascii ")")]

theorem hiddenTokens_chunk : Lua.Chunk hiddenTokens := by
  have named : ∀ word, Lua.Terminal.name.admits (.word (ascii word)) = true →
      Derives Lua.luaRules [.token .name] [.word (ascii word)] := fun _ free => .token free .nil
  have empty : Derives Lua.luaRules [.node .stats] [] := .single [] (by decide) .nil
  have table : Derives Lua.luaRules [.node .exp] _ :=
    .single [.node .tableconstructor] (by decide)
      (.single [sign "\x7b", sign "\x7d"] (by decide) ((Derives.sign _).append (.sign _)))
  have returned : Derives Lua.luaRules [.node .block] _ :=
    .single [.node .stats, .node .retstat] (by decide) (empty.append
      (.single [keyword "return", .node .explist] (by decide)
        ((Derives.keyword _).append (.single [.node .exp] (by decide) table))))
  have body : Derives Lua.luaRules [.node .funcbody] _ :=
    .single [sign "(", sign ")", .node .block, keyword "end"] (by decide)
      ((Derives.sign _).append ((Derives.sign _).append (returned.append (.keyword _))))
  have function : Derives Lua.luaRules [.node .stat] _ :=
    .single [keyword "function", .node .funcname, .node .funcbody] (by decide)
      ((Derives.keyword _).append
        ((Derives.single [.token .name] (by decide) (named "data" (by decide))).append body))
  have library : Derives Lua.luaRules [.node .prefixexp] _ :=
    .single [.node .var] (by decide) (.single [.token .name] (by decide) (named "os" (by decide)))
  have callee : Derives Lua.luaRules [.node .prefixexp] _ :=
    .single [.node .var] (by decide)
      (.single [.node .prefixexp, sign ".", .token .name] (by decide)
        (library.append ((Derives.sign _).append (named "execute" (by decide)))))
  have text : Derives Lua.luaRules [.node .exp] [.string] :=
    .single [.token .string] (by decide) (.token rfl .nil)
  have given : Derives Lua.luaRules [.node .args] _ :=
    .single [sign "(", .node .explist, sign ")"] (by decide)
      ((Derives.sign _).append ((Derives.single [.node .exp] (by decide) text).append (.sign _)))
  have call : Derives Lua.luaRules [.node .stat] _ :=
    .single [.node .functioncall] (by decide)
      (.single [.node .prefixexp, .node .args] (by decide) (callee.append given))
  have statements : Derives Lua.luaRules [.node .stats] _ :=
    .single [.node .stat, .node .stats] (by decide) (function.append
      (.single [.node .stat, .node .stats] (by decide) (call.append empty)))
  exact .single [.node .stats] (by decide) statements

theorem checkLuaData_hides_call : checkLuaData hiddenCall = .ok () ∧ ¬ ReadsAsData (stripBom hiddenCall) := by
  have lexed : Lua.lex (stripBom hiddenCall) = some hiddenTokens := by decide +kernel
  refine ⟨by decide +kernel, ?_⟩
  intro data
  have derived : DataChunk hiddenTokens := data hiddenTokens lexed hiddenTokens_chunk
  -- no production of the data grammar has a point, and the call has one
  have foreign : .symbol (ascii ".") ∉ hiddenTokens := by
    refine Derives.not_mem ?_ derived (by decide)
    intro symbol
    cases symbol <;> decide
  exact foreign (by decide)

end Tpf3Mp.Agent
