import CommandShell.Execution.Basic

/-! One command of a pipeline, which may be built in or a program: either way it is
given its whole input and leaves its whole output. -/
namespace CommandShell

def failingCommand (error : ShellError) : Command := fun _ => do
  CommandM.error (error.message ++ "\n")
  return some error.status

namespace Handle

def name : Handle → String
  | .builtin name _ _ _ => name
  | .external invocation _ => invocation.arguments.head?.getD ""

def label (handle : Handle) : String :=
  let kind := match handle with
    | .builtin .. => "BuiltinProcess"
    | .external .. => "ExternalProcess"
  "<" ++ kind ++ " " ++ handle.name ++ ">"

/-- The ends of its streams that a handle offers for pumps. -/
structure Offer where
  input : Bool
  output : Bool
  errors : Bool
  deriving DecidableEq, Repr

/-- A program offers nothing before it is started, and never an input that it inherits. -/
def offer (started : Bool) : Handle → Offer
  | .builtin .. => ⟨true, true, true⟩
  | .external _ inheritsInput => ⟨started && !inheritsInput, started, started⟩

def failing (name : String) (error : ShellError) : Handle :=
  .builtin name (failingCommand error) [] none

/-- Built-in commands of a pipeline work on a fork of the session. -/
def make (toolbox : Toolbox) (machine : Machine) (session : Session) (inheritsInput : Bool)
    (name : String) (arguments : List String) : Handle :=
  match toolbox.dispatch machine session name with
  | .builtin command => .builtin name command arguments (some session.fork)
  | .program path => .external (invocationFor session path (name :: arguments)) inheritsInput
  | .unknown => failing name (.commandNotFound name)

/-- A handle at its end. `session` is the live one. -/
structure Finished where
  machine : Machine
  session : Session
  unread : Bytes
  out : Sink
  err : Sink
  status : Int

def interruptedStatus : Int := 1

/-- Runs a command on its input, beside the session `live`. A program that cannot be started
is a fault. -/
def run (spawn : Spawn) (handle : Handle) (live : Session) (machine : Machine) (input : Bytes)
    (out err : Sink) : Except Fault Finished :=
  match handle with
  | .builtin name command arguments copy =>
    let (status, frame) := runBuiltin name command arguments
      { machine, session := copy.getD live, input := ⟨input, false⟩, out, err }
    .ok {
      machine := frame.machine
      session := if copy.isSome then live else frame.session
      unread := frame.input.rest
      out := frame.out
      err := frame.err
      status := match status with
        | .ok status => status
        | .error _ => interruptedStatus }
  | .external invocation _ =>
    match invocation.refusal? with
    | some fault => .error fault
    | none =>
      match spawn invocation { machine, input, out, err } with
      | .error e => .error (.shell (spawnError handle.name e))
      | .ok (ending, process) =>
        .ok {
          machine := process.machine
          session := live
          unread := process.input
          out := process.out
          err := process.err
          status := ending.status }

end Handle

end CommandShell
