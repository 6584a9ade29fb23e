import CommandShell.Execution.Pipeline
import CommandShell.Execution.RunCommand

/-! Running a line as it was typed. -/
namespace CommandShell

def programName : String := "pipeshell"

def runParsed (toolbox : Toolbox) (line : CommandLine) (state : ShellState) :
    Except Fault Int × ShellState :=
  match line.segments with
  | [] => (.ok 0, state)
  | [words] => runCommand toolbox words line.redirections state
  | segments => runPipeline toolbox segments state

/-- The shell that an interrupt leaves. A line stops the session at one moment, before which
the session goes on as it did. -/
def Interruption.state (interruption : Interruption) (toolbox : Toolbox) (line : CommandLine)
    (before : ShellState) : ShellState :=
  let reached := if interruption.late then (runParsed toolbox line before).2 else before
  let session := { interruption.left.session with running := reached.session.running }
  { interruption.left with session }

/-- Runs a line unless an interrupt cuts it short. -/
def runInterruptibly (toolbox : Toolbox) (line : CommandLine) (state : ShellState) :
    Except Fault Int × ShellState :=
  match toolbox.interruption? line state with
  | some interruption => (.error (.interrupt ""), interruption.state toolbox line state)
  | none => runParsed toolbox line state

def runText (toolbox : Toolbox) (text : String) (state : ShellState) :
    Except Fault Int × ShellState :=
  match CommandLine.parse text with
  | .error e => (.error (.shell (.badLine e.message)), state)
  | .ok line => runInterruptibly toolbox line state

/-- Runs a line. Errors of the shell are reported on its own error stream. -/
def runLine (toolbox : Toolbox) (text : String) (state : ShellState) :
    Except Fault Int × ShellState :=
  match runText toolbox text state with
  | (.error (.shell error), state) =>
    (.ok error.status, state.report (programName ++ ": " ++ error.message))
  | result => result

end CommandShell
