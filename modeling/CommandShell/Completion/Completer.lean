import CommandShell.Completion.NameIndex
import CommandShell.Session
import CommandShell.Text.Blank

/-! Completion of the command word from the built-in commands and the programs on the
search path. -/
namespace CommandShell

/-- The programs in one directory; a directory that cannot be listed has none. -/
def programsIn (machine : Machine) (directory : String) : List String :=
  match machine.list? directory with
  | none => []
  | some names => names.filter fun name =>
      let path := Path.join directory name
      machine.isFile path && machine.isExecutable path

/-- The programs on a search path. Empty entries are passed over. -/
def programsOn (machine : Machine) (path : String) : Except Fault (List String) :=
  let directories := (Session.searchPath path).filter (· ≠ "")
  if directories.any Path.hasNul then .error .nulByte
  else .ok (directories.flatMap (programsIn machine))

inductive Completion where
  | none
  | unique (insertion : String) (name : String)
  | extended (insertion : String) (names : List String)
  | ambiguous (names : List String)
  deriving DecidableEq, Repr

/-- The built-in names are always known; `index` is as of the last refresh. -/
structure Completer where
  builtins : List String
  index : NameIndex

namespace Completer

def ofBuiltins (builtins : List String) : Completer :=
  ⟨builtins, NameIndex.ofNames builtins⟩

/-- Builds the index anew from the programs that are there now. -/
def refresh (completer : Completer) (machine : Machine) (path : String) :
    Except Fault Completer :=
  match programsOn machine path with
  | .error fault => .error fault
  | .ok names => .ok { completer with index := NameIndex.ofNames (names ++ completer.builtins) }

def complete (completer : Completer) (buffer : String) : Completion :=
  if buffer = "" || buffer.toList.any Text.isBlank then .none
  else
    let (suffix, names) := completer.index.extension buffer
    match names with
    | [] => .none
    | [name] => .unique (suffix ++ " ") name
    | names => if suffix = "" then .ambiguous names else .extended suffix names

end Completer

end CommandShell
