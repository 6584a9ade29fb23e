import CommandShell.CommandLine.Redirection
import CommandShell.Session
import CommandShell.Stream

/-! Commands that run inside the shell. -/
namespace CommandShell

/-- What a running command sees and may change. -/
structure Frame where
  machine : Machine
  session : Session
  input : Source := {}
  out : Sink := .empty
  err : Sink := .empty
  deriving Repr

abbrev CommandM := ExceptT Fault (StateM Frame)

/-- A command without a status of its own succeeds. -/
abbrev Command := List String → CommandM (Option Int)

abbrev CommandTable := List (String × Command)

def CommandTable.names (table : CommandTable) : List String :=
  table.map (·.1)

namespace Frame

def sink (frame : Frame) : OutputStream → Sink
  | .out => frame.out
  | .err => frame.err

def setSink (frame : Frame) (stream : OutputStream) (sink : Sink) : Frame :=
  match stream with
  | .out => { frame with out := sink }
  | .err => { frame with err := sink }

def write (frame : Frame) (stream : OutputStream) (data : Bytes) : Except Fault Frame :=
  match (frame.sink stream).write data frame.machine.files with
  | .ok (sink, files) => .ok ({ frame with machine := { frame.machine with files } }.setSink stream sink)
  | .error fault => .error fault

/-- Writes a report; a stream that cannot take it is passed over. -/
def report (frame : Frame) (text : String) : Frame :=
  match frame.write .err (Text.encodeText text) with
  | .ok frame => frame
  | .error _ => frame

end Frame

namespace CommandM

def emit (stream : OutputStream) (text : String) : CommandM Unit := do
  match (← get).write stream (Text.encodeText text) with
  | .ok frame => set frame
  | .error fault => throw fault

def write (text : String) : CommandM Unit :=
  emit .out text

def error (text : String) : CommandM Unit :=
  emit .err text

/-- Runs `act` on the lines one by one. A line is taken from the input just before it is
acted on, so a failure leaves the later ones unread. -/
def forPieces (act : Nat → String → CommandM Unit) (number : Nat) :
    List (Bytes × Bytes) → CommandM Unit
  | [] => pure ()
  | (line, rest) :: pieces => do
    modify fun frame => { frame with input := { frame.input with rest } }
    act number (String.ofList (Text.decodeReplacing line))
    forPieces act (number + 1) pieces

def forLines (act : Nat → String → CommandM Unit) : CommandM Unit := do
  let input := (← get).input
  if input.closed then throw .closedStream
  forPieces act 1 (cutInput [] [] input.rest)

def modifySession (change : Session → Session) : CommandM Unit :=
  modify fun frame => { frame with session := change frame.session }

end CommandM

def brokenPipeStatus : Int := 141

/-- Runs a command and turns a failure into a line on its error stream and a status.
Only an interrupt gets through. -/
def runBuiltin (name : String) (command : Command) (arguments : List String) (frame : Frame) :
    Except Fault Int × Frame :=
  match (command arguments).run frame with
  | (.ok status, frame) => (.ok (status.getD 0), frame)
  | (.error (.brokenPipe _), frame) => (.ok brokenPipeStatus, frame)
  | (.error (.shell e), frame) => (.ok e.status, frame.report (e.message ++ "\n"))
  | (.error (.interrupt message), frame) => (.error (.interrupt message), frame)
  | (.error fault, frame) => (.ok 1, frame.report (name ++ ": " ++ fault.message ++ "\n"))

end CommandShell
