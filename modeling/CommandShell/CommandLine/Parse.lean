import CommandShell.CommandLine.Redirection

/-! The meaning of a whole line: one argument list for each pipeline segment, and
the redirections of a line that is no pipeline. -/
namespace CommandShell

structure CommandLine where
  segments : List (List String) := []
  redirections : List Redirection := []
  deriving DecidableEq, Repr

def CommandLine.isPipeline (line : CommandLine) : Bool :=
  1 < line.segments.length

/-- A blank line has no segments. -/
def CommandLine.parse (line : String) : Except LineError CommandLine :=
  match scan true line with
  | [] => .ok {}
  | [words] =>
    match parseRedirections words with
    | .error e => .error e
    | .ok ([], _) => .error .missingCommand
    | .ok (arguments, redirections) => .ok ⟨[arguments], redirections⟩
  | segments =>
    if segments.any hasRedirection then .error .redirectionInPipeline
    else .ok ⟨segments.map fun words => words.map Word.text, []⟩

end CommandShell
