import CommandShell.Builtin.Basic
import CommandShell.Text.Integer

/-! The commands of every shell. -/
namespace CommandShell.Builtin

open CommandM

def helpText : String :=
  "pipeshell help:
 Built-in commands:
  cd [dir]          : change directory
  echo [args...]    : print arguments
  exit [n]          : exit shell with status n
  help              : print this help
  history [n]       : show command history (last n entries)
  history -r|-w|-a f: read, write or append history file f
  pwd               : print working directory
  type name         : tell how a name would be run

Features:
  Quoting with '...', \"...\" and backslash escapes
  Pipes using |
  Redirection using > >> 1> 1>> 2> 2>>
  Tab completion of command names, Up/Down history
"

def help : Command := fun _ => do
  write helpText
  return some 0

def echo : Command := fun arguments => do
  write (" ".intercalate arguments ++ "\n")
  return some 0

/-- An argument that is no number counts as zero. -/
def exitCode (arguments : List String) : Int :=
  match arguments with
  | [] => 0
  | argument :: _ => (Text.readInteger? argument).getD 0

def exit : Command := fun arguments => do
  let code := exitCode arguments
  modifySession (·.stop code)
  return some code

def pwd : Command := fun _ => do
  write ((← get).session.cwd ++ "\n")
  return some 0

def cd : Command := fun arguments => do
  let frame ← get
  let target := arguments.head?.getD "~"
  let path := frame.session.resolve frame.machine target
  if frame.machine.isDirectory path then
    let cwd := frame.machine.canonical path
    modifySession fun session =>
      { session with cwd, environment := session.environment.set "PWD" cwd }
    return some 0
  else
    error ("cd: " ++ target ++ ": No such file or directory\n")
    return some 1

/-- Tells how one name would be run, and whether it would be. -/
def typeOne (isBuiltin : String → Bool) (name : String) : CommandM Bool := do
  let frame ← get
  if isBuiltin name then
    write (name ++ " is a shell builtin\n")
    return true
  else
    match frame.session.which frame.machine name with
    | some path =>
      write (name ++ " is " ++ path ++ "\n")
      return true
    | none =>
      error (name ++ ": not found\n")
      return false

def typeAll (isBuiltin : String → Bool) : List String → CommandM Bool
  | [] => return true
  | name :: names => do
    let found ← typeOne isBuiltin name
    let others ← typeAll isBuiltin names
    return found && others

def type (isBuiltin : String → Bool) : Command := fun arguments => do
  if arguments.isEmpty then
    error "type: missing argument\n"
    return some 1
  else
    let found ← typeAll isBuiltin arguments
    return some (if found then 0 else 1)

inductive HistoryTransfer where
  | read
  | write
  | append
  deriving DecidableEq, Repr

def historyTransfer? : String → Option HistoryTransfer
  | "-r" => some .read
  | "-w" => some .write
  | "-a" => some .append
  | _ => none

/-- The history after a transfer, and the machine, also when the transfer fails. -/
def HistoryTransfer.run (transfer : HistoryTransfer) (history : History) (machine : Machine)
    (path : String) : Except Fault History × Machine :=
  match transfer with
  | .read => (history.load machine path, machine)
  | .write => history.save machine path 0
  | .append =>
    let (appended, machine) := history.appendTo machine path
    (appended.map (·.2), machine)

def transferHistory (transfer : HistoryTransfer) (target : String) : CommandM (Option Int) := do
  let frame ← get
  let (result, machine) := transfer.run frame.session.history frame.machine
    (frame.session.resolve frame.machine target)
  set { frame with machine }
  match result with
  | .ok history =>
    modifySession ({ · with history })
    return some 0
  | .error (.shell (.historyFile _ reason)) =>
    error ("history: " ++ target ++ ": " ++ reason ++ "\n")
    return some 1
  | .error fault => throw fault

def showHistory (count : Option Int) : CommandM (Option Int) := do
  write ((← get).session.history.format count)
  return some 0

def history : Command
  | [] => showHistory none
  | first :: rest => do
    match historyTransfer? first with
    | some transfer =>
      match rest with
      | [] =>
        error ("history: " ++ first ++ ": option requires an argument\n")
        return some 2
      | target :: _ => transferHistory transfer target
    | none =>
      match Text.readInteger? first with
      | some count => showHistory (some count)
      | none =>
        error ("history: " ++ first ++ ": numeric argument required\n")
        return some 2

/-- The commands of every shell. `type` has to know all the names there are. -/
def standard (isBuiltin : String → Bool) : CommandTable :=
  [("cd", cd), ("echo", echo), ("exit", exit), ("help", help), ("history", history),
    ("pwd", pwd), ("type", type isBuiltin)]

def standardNames : List String :=
  (standard fun _ => false).names

def table (extra : CommandTable) : CommandTable :=
  standard (fun name => name ∈ standardNames ++ extra.names) ++ extra

end CommandShell.Builtin
