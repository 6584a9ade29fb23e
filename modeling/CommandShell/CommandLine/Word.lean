import CommandShell.Text.Blank

/-! A command line is scanned character by character into segments of words.
Quotes never become part of a word. An open quote ends with the line, and a
backslash that ends the line stands for itself. -/
namespace CommandShell

/-- A scanned word; `quoted` says that some part of it was quoted or escaped. -/
structure Word where
  text : String
  quoted : Bool
  deriving DecidableEq, Repr, Inhabited

inductive Quote where
  | none
  | single
  | double
  deriving DecidableEq, Repr

/-- The characters before which a backslash disappears inside double quotes. -/
def isDoubleQuoteEscape (c : Char) : Bool :=
  c == '$' || c == '`' || c == '"' || c == '\\' || c == '\n'

/-- The scanner between two characters. All lists are newest first. -/
structure Scanner where
  segments : List (List Word) := []
  words : List Word := []
  letters : List Char := []
  quoted : Bool := false
  quote : Quote := .none
  escaped : Bool := false
  deriving DecidableEq, Repr

namespace Scanner

def push (s : Scanner) (c : Char) : Scanner :=
  { s with letters := c :: s.letters }

/-- Ends the current word. Without letters there is no word, even after a pair of
empty quotes. -/
def endWord (s : Scanner) : Scanner :=
  match s.letters with
  | [] => { s with quoted := false }
  | letters =>
    { s with
      words := ⟨String.ofList letters.reverse, s.quoted⟩ :: s.words
      letters := []
      quoted := false }

def endSegment (s : Scanner) : Scanner :=
  let s := s.endWord
  match s.words with
  | [] => s
  | words => { s with segments := words.reverse :: s.segments, words := [] }

def pushEscaped (s : Scanner) (c : Char) : Scanner :=
  let keepsBackslash :=
    match s.quote with
    | .none => false
    | .single => true
    | .double => !isDoubleQuoteEscape c
  let s := if keepsBackslash then s.push '\\' else s
  { s.push c with quoted := true, escaped := false }

def step (splitPipes : Bool) (s : Scanner) (c : Char) : Scanner :=
  if s.escaped then s.pushEscaped c
  else if c == '\\' then { s with escaped := true }
  else
    match s.quote with
    | .single => if c == '\'' then { s with quote := .none, quoted := true } else s.push c
    | .double => if c == '"' then { s with quote := .none, quoted := true } else s.push c
    | .none =>
      if c == '\'' then { s with quote := .single, quoted := true }
      else if c == '"' then { s with quote := .double, quoted := true }
      else if Text.isBlank c then s.endWord
      else if c == '|' && splitPipes then s.endSegment
      else s.push c

def finish (s : Scanner) : List (List Word) :=
  let s := if s.escaped then s.push '\\' else s
  s.endSegment.segments.reverse

end Scanner

/-- The segments of a line, none of them empty. Without `splitPipes` a bar is an
ordinary character and there is at most one segment. -/
def scan (splitPipes : Bool) (line : String) : List (List Word) :=
  (line.toList.foldl (Scanner.step splitPipes) {}).finish

def tokenize (line : String) : List String :=
  (scan false line).flatten.map Word.text

def splitPipeline (line : String) : List (List String) :=
  (scan true line).map fun segment => segment.map Word.text

end CommandShell
