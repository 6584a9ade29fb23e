import CommandShell.Stream

/-! Programs of the machine, as the shell meets them: it asks for one to be started and
waits for its end. -/
namespace CommandShell

inductive Ending where
  | exited (code : Nat)
  | killed (signal : Nat)
  deriving DecidableEq, Repr

/-- The code the machine reports: a signal is negative. -/
def Ending.code : Ending → Int
  | .exited code => code
  | .killed signal => -signal

/-- The status a shell shows for a code; a signal is shown above 128. -/
def exitStatus : Option Int → Int
  | none => 0
  | some code => if code < 0 then 128 - code else code

def Ending.status (ending : Ending) : Int :=
  exitStatus (some ending.code)

/-- What to run and how. An executable without a slash is searched on the search path of
the environment. -/
structure Invocation where
  executable : String
  arguments : List String
  directory : String
  environment : Environment
  deriving DecidableEq, Repr

/-- What surrounds a running program. `asleep` is the time it has slept, in
milliseconds. -/
structure Process where
  machine : Machine
  input : Bytes := []
  out : Sink := .empty
  err : Sink := .empty
  ignored : List Nat := []
  asleep : Nat := 0
  deriving Repr

/-- Starts a program and runs it to its end, or tells why it cannot be started. -/
abbrev Spawn := Invocation → Process → Except SystemError (Ending × Process)

namespace Invocation

/-- A NUL cannot be handed to the machine. -/
def hasNul (invocation : Invocation) : Bool :=
  Path.hasNul invocation.executable || Path.hasNul invocation.directory ||
    invocation.arguments.any Path.hasNul ||
    invocation.environment.any fun (name, value) => Path.hasNul name || Path.hasNul value

/-- Why an invocation never reaches the machine: a name in the environment ends at the
first equals sign, and a NUL ends every text. -/
def refusal? (invocation : Invocation) : Option Fault :=
  if invocation.environment.any fun (name, _) => name.toList.contains '=' then
    some (.value "illegal environment variable name")
  else if invocation.hasNul then some .nulByte
  else none

end Invocation

/-- How a refusal to start a program is told to the user. -/
def spawnError (name : String) : SystemError → ShellError
  | .accessDenied => .spawn (name ++ ": permission denied") 126
  | .noEntry => .spawn (name ++ ": command not found") 127
  | e => .spawn (name ++ ": failed to execute: " ++ e.text) 126

end CommandShell
