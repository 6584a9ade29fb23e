import CommandShell.Script.Basic

/-! Cutting the text of a script into words and operators. -/
namespace CommandShell.Script

inductive Token where
  | word (line : Nat) (pieces : Pieces)
  | operator (line : Nat) (text : String)
  | redirect (line : Nat) (descriptor : Nat) (direction : Direction)
  deriving DecidableEq, Repr

def isNameStart (c : Char) : Bool :=
  c.isAlpha || c == '_'

def isNameChar (c : Char) : Bool :=
  c.isAlphanum || c == '_'

def isSpecial (c : Char) : Bool :=
  c ∈ ['@', '*', '#', '?', '$', '!', '-']

def takeParameter : Raw → Option (Raw × Raw)
  | '{' :: rest =>
    match rest.span (· ≠ '}') with
    | (name, _ :: rest) => some (name, rest)
    | (_, []) => none
  | c :: rest =>
    if isNameStart c then
      let (more, rest) := rest.span isNameChar
      some (c :: more, rest)
    else if c.isDigit || isSpecial c then some ([c], rest)
    else none
  | [] => none

/-- A word under construction: its pieces newest first, and the text of the last one. -/
structure WordState where
  pieces : Pieces := []
  text : Raw := []
  quoted : Bool := false
  started : Bool := false

namespace WordState

def flush (w : WordState) : WordState :=
  if w.text = [] && !w.quoted then w
  else { w with pieces := .literal w.text.reverse w.quoted :: w.pieces, text := [], quoted := false }

def push (w : WordState) (quoted : Bool) (c : Char) : WordState :=
  let w := if w.quoted = quoted then w else w.flush
  { w with text := c :: w.text, quoted, started := true }

/-- Quotes make a piece even when nothing stands between them; a parameter alone is
piece enough. -/
def openQuote (w : WordState) : WordState :=
  { w.flush with quoted := true, started := true }

def parameter (w : WordState) (quoted : Bool) (name : Raw) : WordState :=
  let w := if w.text = [] then { w with quoted := false } else w.flush
  { w with pieces := .parameter name quoted :: w.pieces, started := true }

def finish (w : WordState) : Pieces :=
  w.flush.pieces.reverse

def number? (w : WordState) : Option Nat :=
  if w.pieces = [] && !w.quoted && w.text ≠ [] && w.text.all Char.isDigit then
    some (w.text.reverse.foldl (fun n c => 10 * n + (c.toNat - '0'.toNat)) 0)
  else none

end WordState

inductive LexMode where
  | plain
  | single
  | double
  | comment
  deriving DecidableEq, Repr

structure LexState where
  line : Nat := 1
  mode : LexMode := .plain
  word : WordState := {}
  tokens : List Token := []

namespace LexState

def endWord (s : LexState) : LexState :=
  if s.word.started then
    { s with tokens := .word s.line s.word.finish :: s.tokens, word := {} }
  else s

def operator (s : LexState) (text : String) : LexState :=
  let s := s.endWord
  { s with tokens := .operator s.line text :: s.tokens }

/-- Digits directly before a redirection name its descriptor. -/
def redirect (s : LexState) (default : Nat) (direction : Direction) : LexState :=
  match s.word.number? with
  | some descriptor =>
    { s with word := {}, tokens := .redirect s.line descriptor direction :: s.tokens }
  | none =>
    let s := s.endWord
    { s with tokens := .redirect s.line default direction :: s.tokens }

def push (s : LexState) (quoted : Bool) (c : Char) : LexState :=
  { s with word := s.word.push quoted c }

def newline (s : LexState) : LexState :=
  { s with line := s.line + 1 }

end LexState

/-- One lexical step, and what is left of the text. -/
def lexStep (s : LexState) (c : Char) (rest : Raw) : LexState × Raw :=
  match s.mode with
  | .comment => if c = '\n' then ({ s with mode := .plain }, c :: rest) else (s, rest)
  | .single =>
    if c = '\'' then ({ s with mode := .plain, word := s.word.flush }, rest)
    else ((if c = '\n' then s.newline else s).push true c, rest)
  | .double =>
    match c, rest with
    | '"', _ => ({ s with mode := .plain, word := s.word.flush }, rest)
    | '\\', d :: after =>
      if d = '\n' then (s.newline, after)
      else if d ∈ ['$', '"', '\\', '\x60'] then (s.push true d, after)
      else (s.push true c, rest)
    | '$', _ =>
      match takeParameter rest with
      | some (name, after) => ({ s with word := s.word.parameter true name }, after)
      | none => (s.push true c, rest)
    | _, _ => ((if c = '\n' then s.newline else s).push true c, rest)
  | .plain =>
    match c, rest with
    | ' ', _ | '\t', _ => (s.endWord, rest)
    | '\n', _ => ((s.operator "\n").newline, rest)
    | '\'', _ => ({ s with mode := .single, word := s.word.openQuote }, rest)
    | '"', _ => ({ s with mode := .double, word := s.word.openQuote }, rest)
    | '\\', '\n' :: after => (s.newline, after)
    | '\\', d :: after => (s.push true d, after)
    | '#', _ => if s.word.started then (s.push false c, rest) else ({ s with mode := .comment }, rest)
    | '$', _ =>
      match takeParameter rest with
      | some (name, after) => ({ s with word := s.word.parameter false name }, after)
      | none => (s.push false c, rest)
    | ';', ';' :: after => (s.operator ";;", after)
    | ';', _ => (s.operator ";", rest)
    | '&', '&' :: after => (s.operator "&&", after)
    | '&', _ => (s.operator "&", rest)
    | '|', '|' :: after => (s.operator "||", after)
    | '|', _ => (s.operator "|", rest)
    | '(', _ => (s.operator "(", rest)
    | ')', _ => (s.operator ")", rest)
    | '>', '>' :: after => (s.redirect 1 .append, after)
    | '>', '&' :: after => (s.redirect 1 .duplicate, after)
    | '>', _ => (s.redirect 1 .write, rest)
    | '<', _ => (s.redirect 0 .read, rest)
    | _, _ => (s.push false c, rest)

/-- The tokens of a script. Each step takes at least one character or leaves a comment,
so twice the length is enough fuel. -/
def lex (fuel : Nat) (s : LexState) (text : Raw) : Option (List Token) :=
  match text with
  | [] =>
    match s.mode with
    | .plain | .comment => some s.endWord.tokens.reverse
    | .single | .double => none
  | c :: rest =>
    match fuel with
    | 0 => none
    | fuel + 1 =>
      let (s, rest) := lexStep s c rest
      lex fuel s rest

def tokens? (text : Raw) : Option (List Token) :=
  lex (2 * text.length + 1) {} text

end CommandShell.Script
