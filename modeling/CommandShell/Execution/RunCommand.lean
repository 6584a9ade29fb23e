import CommandShell.Execution.Basic
import CommandShell.Pump

/-! A command line with a single command: its redirections are opened, and it runs in
the live session. -/
namespace CommandShell

/-- Where the output of one command goes instead of the streams of the shell. -/
structure Rerouting where
  out : Option Sink := none
  err : Option Sink := none

def Rerouting.set (rerouting : Rerouting) (stream : OutputStream) (sink : Sink) : Rerouting :=
  match stream with
  | .out => { rerouting with out := some sink }
  | .err => { rerouting with err := some sink }

/-- A refusal by the machine becomes an error of the redirection. -/
def Redirection.fault (redirection : Redirection) : Fault → Fault
  | .system e => .shell (.redirection (redirection.path ++ ": " ++ e.text))
  | fault => fault

def openRedirection (session : Session) (machine : Machine) (redirection : Redirection) :
    Except Fault Sink × Machine :=
  match machine.openBelow (session.resolve machine redirection.path) redirection.append with
  | (.error fault, machine) => (.error (redirection.fault fault), machine)
  | (.ok file, machine) => (.ok (.file file), machine)

/-- Opens the targets in order, up to the first that cannot be opened. -/
def openRedirections (session : Session) (machine : Machine) (rerouting : Rerouting) :
    List Redirection → Except Fault Rerouting × Machine
  | [] => (.ok rerouting, machine)
  | redirection :: rest =>
    match openRedirection session machine redirection with
    | (.error fault, machine) => (.error fault, machine)
    | (.ok sink, machine) =>
      openRedirections session machine (rerouting.set redirection.stream sink) rest

/-- The files that are open when the targets have been opened in order, or the first of them
that cannot be opened was tried. -/
def openedFiles (session : Session) (machine : Machine) : List Redirection → List OpenFile
  | [] => []
  | redirection :: rest =>
    match machine.openBelow (session.resolve machine redirection.path) redirection.append with
    | (.error _, _) => []
    | (.ok file, machine) => file :: openedFiles session machine rest

namespace ShellState

def frame (state : ShellState) (rerouting : Rerouting) : Frame :=
  { machine := state.machine
    session := state.session
    input := state.streams.stdin.source
    out := rerouting.out.getD state.streams.out
    err := rerouting.err.getD state.streams.err }

/-- The state after a command left `frame`, without the files that took the place of its
streams. -/
def after (state : ShellState) (rerouting : Rerouting) (frame : Frame) : ShellState :=
  { machine := frame.machine
    session := frame.session
    streams :=
      { stdin := state.streams.stdin.leave frame.input
        out := if rerouting.out.isSome then state.streams.out else frame.out
        err := if rerouting.err.isSome then state.streams.err else frame.err
        held := state.streams.held } }

end ShellState

/-- What a program reads of the input of the shell, and the input after it ran. A given
stream is pumped to its end and closed; the terminal is inherited. -/
def programInput (toolbox : Toolbox) (source : Source) : Stdin → Bytes × (Bytes → Source)
  | .terminal _ => (source.rest, fun unread => ⟨unread, false⟩)
  | .given _ =>
    (if source.closed then [] else Pump.delivered toolbox.pumpSize source.rest,
      fun _ => { source with closed := true })

/-- The sink that a program gets in place of `sink`: only memory has to be pumped to. -/
def programSink : Sink → Sink
  | .memory _ => .empty
  | sink => sink

/-- What `sink` is after a program ended with `written` in its place. -/
def collect (toolbox : Toolbox) (sink written : Sink) : Sink :=
  match sink with
  | .memory pieces => .memory (Pump.delivered toolbox.pumpSize written.bytes :: pieces)
  | _ => written

def runProgram (toolbox : Toolbox) (stdin : Stdin) (path : String) (name : String)
    (arguments : List String) (frame : Frame) : Except Fault Int × Frame :=
  let invocation := invocationFor frame.session path (name :: arguments)
  match invocation.refusal? with
  | some fault => (.error fault, frame)
  | none =>
    let (input, leave) := programInput toolbox frame.input stdin
    match toolbox.spawn invocation
      { machine := frame.machine, input
        out := programSink frame.out
        err := programSink frame.err } with
    | .error e =>
      let error := spawnError name e
      (.ok error.status, frame.report (error.message ++ "\n"))
    | .ok (ending, process) =>
      (.ok ending.status,
        { frame with
          machine := process.machine
          input := leave process.input
          out := collect toolbox frame.out process.out
          err := collect toolbox frame.err process.err })

/-- Runs what the first of the words stands for. -/
def runWords (toolbox : Toolbox) (stdin : Stdin) (words : List String) (frame : Frame) :
    Except Fault Int × Frame :=
  match words with
  | [] => (.error .outOfRange, frame)
  | name :: arguments =>
    match toolbox.dispatch frame.machine frame.session name with
    | .builtin command => runBuiltin name command arguments frame
    | .program path => runProgram toolbox stdin path name arguments frame
    | .unknown =>
      let error := ShellError.commandNotFound name
      (.ok error.status, frame.report (error.message ++ "\n"))

/-- Runs one command with its redirections. Whatever comes of it, the files that were opened for
it are closed. -/
def runCommand (toolbox : Toolbox) (words : List String) (redirections : List Redirection)
    (state : ShellState) : Except Fault Int × ShellState :=
  let files := openedFiles state.session state.machine redirections
  let holding := { state with streams := state.streams.hold files }
  let (status, left) : Except Fault Int × ShellState :=
    match openRedirections state.session state.machine {} redirections with
    | (.error fault, machine) => (.error fault, { holding with machine })
    | (.ok rerouting, machine) =>
      let state := { holding with machine }
      let (status, frame) :=
        runWords toolbox state.streams.stdin words (state.frame rerouting)
      (status, state.after rerouting frame)
  (status, { left with streams := left.streams.close files })

end CommandShell
