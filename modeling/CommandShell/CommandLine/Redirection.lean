import CommandShell.CommandLine.Word

/-! Redirections inside a segment. A bare operator takes the word after it as the
path, whatever that word is; everything else is an argument. -/
namespace CommandShell

inductive OutputStream where
  | out
  | err
  deriving DecidableEq, Repr

structure Redirection where
  path : String
  stream : OutputStream := .out
  append : Bool := false
  deriving DecidableEq, Repr

inductive LineError where
  | missingTarget
  | redirectionInPipeline
  | missingCommand
  deriving DecidableEq, Repr

def LineError.message : LineError → String
  | .missingTarget => "syntax error near unexpected token `newline'"
  | .redirectionInPipeline => "redirection is not supported inside pipelines"
  | .missingCommand => "syntax error: missing command before redirection"

def operator? (text : String) : Option (OutputStream × Bool) :=
  match text with
  | ">" | "1>" => some (.out, false)
  | ">>" | "1>>" => some (.out, true)
  | "2>" => some (.err, false)
  | "2>>" => some (.err, true)
  | _ => none

/-- Only a word without any quoting acts as an operator. -/
def Word.operator? (word : Word) : Option (OutputStream × Bool) :=
  if word.quoted then none else CommandShell.operator? word.text

def hasRedirection (words : List Word) : Bool :=
  words.any fun word => word.operator?.isSome

/-- A later redirection of a stream takes the place of the earlier one. -/
def putRedirection (new : Redirection) : List Redirection → List Redirection
  | [] => [new]
  | old :: rest =>
    if old.stream = new.stream then new :: rest else old :: putRedirection new rest

/-- Takes the words from left to right; `arguments` are newest first. -/
def takeRedirections (arguments : List String) (targets : List Redirection) :
    List Word → Except LineError (List String × List Redirection)
  | [] => .ok (arguments.reverse, targets)
  | word :: rest =>
    match word.operator?, rest with
    | none, rest => takeRedirections (word.text :: arguments) targets rest
    | some _, [] => .error .missingTarget
    | some (stream, append), target :: rest =>
      takeRedirections arguments (putRedirection ⟨target.text, stream, append⟩ targets) rest

/-- The arguments of a segment, and at most one redirection for each stream in the
order of their first mention. -/
def parseRedirections (words : List Word) : Except LineError (List String × List Redirection) :=
  takeRedirections [] [] words

end CommandShell
