import CommandShell.Builtin.Basic
import CommandShell.CommandLine.Parse
import CommandShell.Program.Basic
import CommandShell.Program.Children

/-! What a shell can run, and how it decides what a name stands for. -/
namespace CommandShell

structure ShellState where
  machine : Machine
  session : Session
  streams : Streams
  deriving Repr

/-- Whether the line runs `exit` in the live session. -/
def CommandLine.isExit (line : CommandLine) : Bool :=
  match line.segments with
  | [name :: _] => name = "exit"
  | _ => false

/-- One command of a pipeline. A built-in one works on a copy of the session, or else on
the live session itself. -/
inductive Handle where
  | builtin (name : String) (command : Command) (arguments : List String) (copy : Option Session)
  | external (invocation : Invocation) (inheritsInput : Bool)

/-- An interrupt that arrives while a line runs, with the shell as it finds it. `late` is
whether the line has by then stopped the session, if it does. -/
structure Interruption where
  left : ShellState
  late : Bool

/-- What a shell can run, and what happens around it: `pumpSize` is the size of the pieces in
which it copies streams, `interruption?` the interrupt that cuts a line short, `abandoned` what
the commands still do that a pipeline has started and then gives up, and `children` the
programs that are left in the end, where they can be listed. -/
structure Toolbox where
  commands : CommandTable
  spawn : Spawn
  pumpSize : Int := 8192
  interruption? : CommandLine → ShellState → Option Interruption := fun _ _ => none
  abandoned : List Handle → Machine × Stdin → Machine × Stdin := fun _ world => world
  children : Option (List Child) := some []

inductive Dispatch where
  | builtin (command : Command)
  | program (path : String)
  | unknown

def Toolbox.isBuiltin (toolbox : Toolbox) (name : String) : Bool :=
  (toolbox.commands.lookup name).isSome

/-- Built-in commands come before programs. -/
def Toolbox.dispatch (toolbox : Toolbox) (machine : Machine) (session : Session) (name : String) :
    Dispatch :=
  match toolbox.commands.lookup name with
  | some command => .builtin command
  | none =>
    match session.which machine name with
    | some path => .program path
    | none => .unknown

namespace ShellState

/-- Writes to a stream of the shell; one that cannot take the bytes is passed over. -/
def deliver (state : ShellState) (stream : OutputStream) (data : Bytes) : ShellState :=
  let sink := match stream with
    | .out => state.streams.out
    | .err => state.streams.err
  match sink.write data state.machine.files with
  | .error _ => state
  | .ok (sink, files) =>
    let streams := match stream with
      | .out => { state.streams with out := sink }
      | .err => { state.streams with err := sink }
    { state with machine := { state.machine with files }, streams }

def report (state : ShellState) (message : String) : ShellState :=
  state.deliver .err (Text.encodeText (message ++ "\n"))

end ShellState

def invocationFor (session : Session) (executable : String) (arguments : List String) :
    Invocation :=
  { executable, arguments, directory := session.cwd, environment := session.environment }

end CommandShell
