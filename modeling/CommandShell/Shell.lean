import CommandShell.Builtin.Standard
import CommandShell.Editor.ReadLine
import CommandShell.Execution.RunLine
import CommandShell.Program.Launch
import CommandShell.Settings

/-! The read loop: a line is read, recorded and run, until `exit` or the end of the
input. What the shell writes is kept in order, with the stream it goes to. -/
namespace CommandShell

inductive Channel where
  | prompt
  | out
  | err
  | warning
  deriving DecidableEq, Repr

structure Emission where
  channel : Channel
  bytes : Bytes
  deriving DecidableEq, Repr

/-- A shell at work. `written` is newest first; the output streams of `state` are empty
between two lines. -/
structure Shell where
  state : ShellState
  editor : Editor
  input : LineInput
  written : List Emission := []

namespace Shell

def emit (shell : Shell) (channel : Channel) (bytes : Bytes) : Shell :=
  if bytes = [] then shell else { shell with written := ⟨channel, bytes⟩ :: shell.written }

/-- The stream of a channel is assumed to take all that the shell itself writes to it; a prompt or
a warning that cannot be written is not modelled. -/
def emitText (shell : Shell) (channel : Channel) (text : String) : Shell :=
  shell.emit channel (Text.encodeText text)

def output (shell : Shell) (channels : List Channel) : Bytes :=
  ((shell.written.filter (·.channel ∈ channels)).reverse.map Emission.bytes).flatten

def session (shell : Shell) : Session :=
  shell.state.session

def setSession (shell : Shell) (session : Session) : Shell :=
  { shell with state := { shell.state with session } }

def warn (shell : Shell) (action : String) (error : ShellError) : Shell :=
  shell.emitText .warning ("Warning: Could not " ++ action ++ " history: " ++ error.message ++ "\n")

def takeHistory (shell : Shell) (action : String) (history : History)
    (warning? : Option ShellError) : Shell :=
  let shell := shell.setSession { shell.session with history }
  match warning? with
  | none => shell
  | some error => shell.warn action error

def setMachine (shell : Shell) (machine : Machine) : Shell :=
  { shell with state := { shell.state with machine } }

def loadHistory (shell : Shell) (file : Option String) : Except Fault Shell :=
  match shell.session.history.loadAtStart shell.state.machine file with
  | .ok (history, warning?) => .ok (shell.takeHistory "load" history warning?)
  | .error fault => .error fault

def saveHistory (shell : Shell) (limit : Int) (file : Option String) :
    Except Fault Unit × Shell :=
  let (saved, machine) := shell.session.history.saveAtEnd shell.state.machine limit file
  let shell := shell.setMachine machine
  match saved with
  | .ok (history, warning?) => (.ok (), shell.takeHistory "save" history warning?)
  | .error fault => (.error fault, shell)

def interruptedStatus : Int := 130

/-- Moves what a line wrote from the streams to the transcript. -/
def collectOutput (shell : Shell) (empty : Sink) : Shell :=
  let streams := shell.state.streams
  let shell := (shell.emit .out streams.out.bytes).emit .err streams.err.bytes
  let streams := { streams with out := empty, err := empty }
  { shell with state := { shell.state with streams } }

/-- Commands read on where the shell stopped reading an input that they share. -/
def lend (shell : Shell) : ShellState :=
  match shell.input with
  | .shared _ rest =>
    { shell.state with streams := { shell.state.streams with stdin := .terminal rest } }
  | _ => shell.state

/-- The shell after a command, with what it left of an input that they share. -/
def takeBack (shell : Shell) (state : ShellState) : Shell :=
  match shell.input with
  | .shared ready _ =>
    { shell with state, input := .shared ready state.streams.stdin.source.rest }
  | _ => { shell with state }

/-- Runs a line and remembers its status. An interrupt ends only the line. -/
def runLine (toolbox : Toolbox) (empty : Sink) (line : String) (shell : Shell) :
    Except Fault Unit × Shell :=
  let (status, state) := CommandShell.runLine toolbox line shell.lend
  let shell := collectOutput (shell.takeBack state) empty
  match status with
  | .ok status => (.ok (), shell.setSession { shell.session with lastStatus := status })
  | .error (.interrupt _) =>
    (.ok (), (shell.setSession { shell.session with lastStatus := interruptedStatus }).emitText
      .prompt "\n")
  | .error fault => (.error fault, shell)

def record (shell : Shell) (line : String) : Shell :=
  shell.setSession { shell.session with history := shell.session.history.add line }

/-- Acts on what was read. The flag says whether there is more to do. -/
def act (toolbox : Toolbox) (empty : Sink) (shell : Shell) :
    ReadResult → Except Fault Bool × Shell
  | .interrupted => (.ok true, shell.emitText .prompt "\n")
  | .endOfInput => (.ok false, shell)
  | .line line =>
    if Text.isBlankText line then (.ok true, shell)
    else
      match (shell.record line).runLine toolbox empty line with
      | (.ok (), shell) => (.ok true, shell)
      | (.error fault, shell) => (.error fault, shell)

def step (toolbox : Toolbox) (empty : Sink) (prompt : String) (shell : Shell) :
    Except Fault Bool × Shell :=
  match shell.editor.refresh shell.state.machine shell.session.path shell.input with
  | .error fault => (.error fault, shell)
  | .ok editor =>
    let (result, editor, input, text) :=
      editor.readLine shell.session.history.lines prompt shell.input
    ({ shell with editor, input }.emitText .prompt text).act toolbox empty result

/-- Steps until the session ends. A step uses up some of the input or is the last one,
so its size bounds their number. -/
def loop (toolbox : Toolbox) (empty : Sink) (prompt : String) (fuel : Nat) (shell : Shell) :
    Except Fault Unit × Shell :=
  match fuel with
  | 0 => (.ok (), shell)
  | fuel + 1 =>
    if shell.session.running then
      match shell.step toolbox empty prompt with
      | (.error fault, shell) => (.error fault, shell)
      | (.ok false, shell) => (.ok (), shell)
      | (.ok true, shell) => shell.loop toolbox empty prompt fuel
    else (.ok (), shell)

def prepare (settings : Settings) (file : Option String) (shell : Shell) :
    Except Fault Unit × Shell :=
  let (logging, machine) := Logging.setup settings shell.state.machine none none
  let shell := shell.setMachine machine
  match logging with
  | .error fault => (.error fault, shell)
  | .ok _ =>
    match shell.loadHistory file with
    | .error fault => (.error fault, shell)
    | .ok shell => (.ok (), shell)

/-- How long the children have to end when they are asked to, in milliseconds. -/
def cleanupTimeout : Nat := 1000

/-- Saves the history and ends the children, also after a fault, and gives the exit code. A
fault on the way takes the place of the one before it. -/
def finish (toolbox : Toolbox) (settings : Settings) (file : Option String)
    (ended : Except Fault Unit) (shell : Shell) : Except Fault Int × Shell :=
  match shell.saveHistory settings.historyLimit file with
  | (.error fault, shell) => (.error fault, shell)
  | (.ok (), shell) =>
    match cleanUp cleanupTimeout toolbox.children, ended with
    | .error fault, _ => (.error fault, shell)
    | .ok _, .error fault => (.error fault, shell)
    | .ok _, .ok () => (.ok shell.session.exitCode, shell)

/-- The history file that is given goes before the one in the settings. -/
def historyPath (settings : Settings) (historyFile : Option String) : Option String :=
  (Settings.nonEmpty historyFile).or settings.historyFile

def run (toolbox : Toolbox) (empty : Sink) (settings : Settings) (historyFile : Option String)
    (shell : Shell) : Except Fault Int × Shell :=
  let file := historyPath settings historyFile
  match shell.prepare settings file with
  | (.error fault, shell) => (.error fault, shell)
  | (.ok (), shell) =>
    let (ended, shell) := shell.loop toolbox empty settings.prompt (shell.input.size + 2)
    shell.finish toolbox settings file ended

def new (toolbox : Toolbox) (machine : Machine) (session : Session) (streams : Streams)
    (input : LineInput) : Shell :=
  { state := { machine, session, streams }
    editor := Editor.new session.history.length (some (Completer.ofBuiltins toolbox.commands.names))
    input }

end Shell

/-- What a shell with `extra` commands can run on a machine. -/
def toolboxFor (settings : Settings) (extra : CommandTable) : Toolbox :=
  { commands := Builtin.table extra, spawn := Program.launch, pumpSize := settings.pumpSize }

/-- The whole program: a session of the process itself that reads its commands from
`input`, which it shares with them. -/
def runProcess (machine : Machine) (extra : CommandTable) (input : Bytes) :
    Except Fault Int × Shell :=
  let machine := { machine with directory := machine.canonical machine.directory }
  let settings := Settings.ofEnvironment machine.environment
  let toolbox := toolboxFor settings extra
  (Shell.new toolbox machine (Session.ofMachine machine)
    { stdin := .terminal [], out := .terminal [], err := .terminal [] }
    (.shared [] input)).run toolbox (.terminal []) settings none

end CommandShell
