import Tpf3Mp.Lua.Lexer

/-!
# Grammars over Lua's tokens

A grammar is a table of productions, and `Derives` says which tokens a list of
its parts stands for. The grammar of Lua itself is the table of the reference
manual of version 5.2.
-/

namespace Tpf3Mp.Lua
open List

def keywords : List Source :=
  ["and", "break", "do", "else", "elseif", "end", "false", "for", "function", "goto", "if", "in",
    "local", "nil", "not", "or", "repeat", "return", "then", "true", "until", "while"].map ascii

inductive Terminal where
  | word (text : Source)
  | name
  | number
  | string
  | symbol (text : Source)
deriving DecidableEq, Repr

def Terminal.admits : Terminal → Token → Bool
  | .word text, .word found => text == found
  | .name, .word found => !keywords.contains found
  | .number, .number => true
  | .string, .string => true
  | .symbol text, .symbol found => text == found
  | _, _ => false

inductive Part (ν : Type) where
  | token (terminal : Terminal)
  | node (symbol : ν)
deriving DecidableEq, Repr

abbrev Rules (ν : Type) := ν → List (List (Part ν))

variable {ν : Type}

inductive Derives (rules : Rules ν) : List (Part ν) → List Token → Prop where
  | nil : Derives rules [] []
  | token {terminal : Terminal} {token : Token} {parts : List (Part ν)} {tokens : List Token}
      (admitted : terminal.admits token = true) (others : Derives rules parts tokens) :
      Derives rules (.token terminal :: parts) (token :: tokens)
  | node {symbol : ν} {production parts : List (Part ν)} {inner tokens : List Token}
      (listed : production ∈ rules symbol) (derived : Derives rules production inner)
      (others : Derives rules parts tokens) :
      Derives rules (.node symbol :: parts) (inner ++ tokens)

variable {rules : Rules ν}

theorem Derives.append {first second : List (Part ν)} {left right : List Token}
    (derived : Derives rules first left) (others : Derives rules second right) :
    Derives rules (first ++ second) (left ++ right) := by
  induction derived with
  | nil => exact others
  | token admitted _ ih => exact .token admitted ih
  | node listed derived _ _ ih =>
    rw [cons_append, append_assoc]
    exact .node listed derived ih

theorem Derives.single {symbol : ν} {tokens : List Token}
    (production : List (Part ν)) (listed : production ∈ rules symbol) (derived : Derives rules production tokens) :
    Derives rules [.node symbol] tokens := by
  have := Derives.node listed derived (@Derives.nil _ rules)
  rwa [append_nil] at this

def Part.foreign (token : Token) : Part ν → Bool
  | .token terminal => !terminal.admits token
  | .node _ => true

theorem Derives.not_mem {token : Token}
    (unlisted : ∀ symbol, ∀ production ∈ rules symbol, ∀ part ∈ production, part.foreign token = true)
    {parts : List (Part ν)} {tokens : List Token} (derived : Derives rules parts tokens)
    (outer : ∀ part ∈ parts, part.foreign token = true) : token ∉ tokens := by
  induction derived with
  | nil => exact not_mem_nil
  | token admitted _ ih =>
    intro found
    rcases mem_cons.mp found with same | later
    · have refused := outer _ mem_cons_self
      rw [Part.foreign, same, admitted] at refused
      cases refused
    · exact ih (fun part listed => outer part (mem_cons_of_mem _ listed)) later
  | node listed _ _ ihInner ihOthers =>
    intro found
    rcases mem_append.mp found with inside | later
    · exact ihInner (unlisted _ _ listed) inside
    · exact ihOthers (fun part listed => outer part (mem_cons_of_mem _ listed)) later

def keyword (text : String) : Part ν := .token (.word (ascii text))

def sign (text : String) : Part ν := .token (.symbol (ascii text))

theorem Derives.keyword (text : String) : Derives rules [Lua.keyword text] [.word (ascii text)] :=
  .token (by simp [Terminal.admits]) .nil

theorem Derives.sign (text : String) : Derives rules [Lua.sign text] [.symbol (ascii text)] :=
  .token (by simp [Terminal.admits]) .nil

inductive Nonterminal where
  | block | stats | stat | retstat | elses | funcname | varlist | var | namelist | explist | exp
  | prefixexp | functioncall | args | funcbody | parlist | tableconstructor | fieldlist | field
  | fieldsep | binop | unop
deriving DecidableEq, Repr

open Nonterminal in
def luaRules : Rules Nonterminal
  | block => [[.node stats], [.node stats, .node retstat]]
  | stats => [[], [.node stat, .node stats]]
  | stat =>
    [[sign ";"],
      [.node varlist, sign "=", .node explist],
      [.node functioncall],
      [sign "::", .token .name, sign "::"],
      [keyword "break"],
      [keyword "goto", .token .name],
      [keyword "do", .node block, keyword "end"],
      [keyword "while", .node exp, keyword "do", .node block, keyword "end"],
      [keyword "repeat", .node block, keyword "until", .node exp],
      [keyword "if", .node exp, keyword "then", .node block, .node elses, keyword "end"],
      [keyword "for", .token .name, sign "=", .node exp, sign ",", .node explist, keyword "do",
        .node block, keyword "end"],
      [keyword "for", .node namelist, keyword "in", .node explist, keyword "do", .node block,
        keyword "end"],
      [keyword "function", .node funcname, .node funcbody],
      [keyword "local", keyword "function", .token .name, .node funcbody],
      [keyword "local", .node namelist],
      [keyword "local", .node namelist, sign "=", .node explist]]
  | retstat =>
    [[keyword "return"], [keyword "return", .node explist], [keyword "return", sign ";"],
      [keyword "return", .node explist, sign ";"]]
  | elses =>
    [[], [keyword "else", .node block],
      [keyword "elseif", .node exp, keyword "then", .node block, .node elses]]
  | funcname =>
    [[.token .name], [.token .name, sign ".", .node funcname],
      [.token .name, sign ":", .token .name]]
  | varlist => [[.node var], [.node var, sign ",", .node varlist]]
  | var =>
    [[.token .name], [.node prefixexp, sign "[", .node exp, sign "]"],
      [.node prefixexp, sign ".", .token .name]]
  | namelist => [[.token .name], [.token .name, sign ",", .node namelist]]
  | explist => [[.node exp], [.node exp, sign ",", .node explist]]
  | exp =>
    [[keyword "nil"], [keyword "false"], [keyword "true"], [.token .number], [.token .string],
      [sign "..."], [keyword "function", .node funcbody], [.node prefixexp],
      [.node tableconstructor], [.node exp, .node binop, .node exp], [.node unop, .node exp]]
  | prefixexp => [[.node var], [.node functioncall], [sign "(", .node exp, sign ")"]]
  | functioncall =>
    [[.node prefixexp, .node args], [.node prefixexp, sign ":", .token .name, .node args]]
  | args =>
    [[sign "(", sign ")"], [sign "(", .node explist, sign ")"], [.node tableconstructor],
      [.token .string]]
  | funcbody =>
    [[sign "(", sign ")", .node block, keyword "end"],
      [sign "(", .node parlist, sign ")", .node block, keyword "end"]]
  | parlist => [[.node namelist], [.node namelist, sign ",", sign "..."], [sign "..."]]
  | tableconstructor => [[sign "\x7b", sign "\x7d"], [sign "\x7b", .node fieldlist, sign "\x7d"]]
  | fieldlist =>
    [[.node field], [.node field, .node fieldsep], [.node field, .node fieldsep, .node fieldlist]]
  | field =>
    [[sign "[", .node exp, sign "]", sign "=", .node exp], [.token .name, sign "=", .node exp],
      [.node exp]]
  | fieldsep => [[sign ","], [sign ";"]]
  | binop =>
    [[sign "+"], [sign "-"], [sign "*"], [sign "/"], [sign "^"], [sign "%"], [sign ".."],
      [sign "<"], [sign "<="], [sign ">"], [sign ">="], [sign "=="], [sign "~="], [keyword "and"],
      [keyword "or"]]
  | unop => [[sign "-"], [keyword "not"], [sign "#"]]

def Chunk (tokens : List Token) : Prop := Derives luaRules [.node .block] tokens

end Tpf3Mp.Lua
