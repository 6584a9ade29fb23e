import CommandShell.Execution.Handle
import CommandShell.Pump

/-! Pipelines. Every command reads what the one before it wrote; the streams between
them are copied by pumps. -/
namespace CommandShell

namespace Pipeline

/-- Runs a segment beside the live session; one that cannot be started reports that instead. -/
def runSegment (toolbox : Toolbox) (live : Session) (handle : Handle) (machine : Machine)
    (input : Bytes) : Except Fault Handle.Finished :=
  match handle.run toolbox.spawn live machine input .empty .empty with
  | .error (.shell error) =>
    (Handle.failing handle.name error).run toolbox.spawn live machine input .empty .empty
  | result => result

/-- A pipeline that has run up to some segment: what that segment left unread and wrote,
and its status. -/
structure Progress where
  state : ShellState
  unread : Bytes := []
  output : Bytes
  status : Int := 0

def advance (toolbox : Toolbox) (progress : Progress) (handle : Handle) :
    Except Fault Progress :=
  let state := progress.state
  match runSegment toolbox state.session handle state.machine progress.output with
  | .error fault => .error fault
  | .ok finished =>
    .ok {
      state := { state with machine := finished.machine, session := finished.session }.deliver
        .err (Pump.delivered toolbox.pumpSize finished.err.bytes)
      unread := finished.unread
      output := Pump.delivered toolbox.pumpSize finished.out.bytes
      status := finished.status }

def advanceAll (toolbox : Toolbox) (progress : Progress) : List Handle → Except Fault Progress
  | [] => .ok progress
  | handle :: rest =>
    match advance toolbox progress handle with
    | .error fault => .error fault
    | .ok progress => advanceAll toolbox progress rest

/-- Only a program at the head of a pipeline reads the terminal. -/
def inheritsTerminal (handle : Handle) : Bool :=
  !(handle.offer true).input

def firstInput (toolbox : Toolbox) (first : Handle) : Stdin → Bytes
  | .terminal rest => if inheritsTerminal first then rest else []
  | .given source => if source.closed then [] else Pump.delivered toolbox.pumpSize source.rest

/-- The input after the first segment: a stream that is given is copied to its end and
closed, the terminal keeps what a program left unread. -/
def leftInput (first : Handle) (unread : Bytes) : Stdin → Stdin
  | .terminal rest => .terminal (if inheritsTerminal first then unread else rest)
  | .given source => .given { source with closed := true }

def isTerminal : Stdin → Bool
  | .terminal _ => true
  | .given _ => false

/-- The handles of the segments; nothing when one of them has no words. -/
def handles? (toolbox : Toolbox) (state : ShellState) (inheritsInput : Bool) :
    List (List String) → Option (List Handle)
  | [] => some []
  | [] :: _ => none
  | (name :: arguments) :: rest =>
    (handles? toolbox state false rest).map fun handles =>
      Handle.make toolbox state.machine state.session inheritsInput name arguments :: handles

def refusal? : Handle → Option Fault
  | .external invocation _ => invocation.refusal?
  | .builtin .. => none

/-- The segments that are started before the first that never reaches the machine. -/
def started (handles : List Handle) : List Handle :=
  handles.takeWhile fun handle => (refusal? handle).isNone

/-- The shell when a pipeline is given up after some of its segments were started. -/
def abandon (toolbox : Toolbox) (started : List Handle) (state : ShellState) : ShellState :=
  let (machine, stdin) := toolbox.abandoned started (state.machine, state.streams.stdin)
  { state with machine, streams := { state.streams with stdin } }

end Pipeline

/-- Runs a pipeline, whose status is that of its last command. A segment that cannot be
handed to the machine stops it before any pump runs. -/
def runPipeline (toolbox : Toolbox) (segments : List (List String)) (state : ShellState) :
    Except Fault Int × ShellState :=
  match Pipeline.handles? toolbox state (Pipeline.isTerminal state.streams.stdin) segments with
  | none | some [] => (.error .outOfRange, state)
  | some (first :: rest) =>
    match (first :: rest).findSome? Pipeline.refusal? with
    | some fault =>
      (.error fault, Pipeline.abandon toolbox (Pipeline.started (first :: rest)) state)
    | none =>
      let stdin := state.streams.stdin
      let input := Pipeline.firstInput toolbox first stdin
      match Pipeline.advance toolbox { state, output := input } first with
      | .error fault => (.error fault, state)
      | .ok progress =>
        let streams :=
          { progress.state.streams with stdin := Pipeline.leftInput first progress.unread stdin }
        let progress := { progress with state := { progress.state with streams } }
        match Pipeline.advanceAll toolbox progress rest with
        | .error fault => (.error fault, progress.state)
        | .ok progress => (.ok progress.status, progress.state.deliver .out progress.output)

end CommandShell
