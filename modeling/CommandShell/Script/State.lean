import CommandShell.Program.Basic
import CommandShell.Script.Basic

/-! The state of a running script and the values of its parameters. -/
namespace CommandShell.Script

/-- A script between two commands; `name` is what it was called as. The sinks are
numbered, and `outAt` and `errAt` say which ones the output streams are. -/
structure State where
  name : Raw
  arguments : List Raw
  bindings : List (Raw × Raw) := []
  environment : Environment := []
  directory : String
  machine : Machine
  input : Bytes := []
  sinks : List Sink
  outAt : Nat := 0
  errAt : Nat := 1
  status : Nat := 0
  ending : Option Ending := none
  ignored : List Nat := []
  asleep : Nat := 0

namespace State

/-- The number that stands for the process itself. -/
def processNumber : Raw := ['4', '2']

def environmentValue? (s : State) (name : Raw) : Option Raw :=
  (s.environment.get? (toText name)).map ofText

def value? (s : State) (name : Raw) : Option Raw :=
  (s.bindings.lookup name).or (s.environmentValue? name)

/-- A variable that came from the environment stays in it. -/
def setVariable (s : State) (name value : Raw) : State :=
  let bindings := (name, value) :: s.bindings.filter (·.1 ≠ name)
  match s.environmentValue? name with
  | some _ => { s with bindings, environment := s.environment.set (toText name) (toText value) }
  | none => { s with bindings }

def decimal (n : Nat) : Raw :=
  (toString n).toList

def number? (raw : Raw) : Option Nat :=
  if raw ≠ [] && raw.all Char.isDigit then
    some (raw.foldl (fun n c => 10 * n + (c.toNat - '0'.toNat)) 0)
  else none

def parameter (s : State) (name : Raw) : Raw :=
  match name with
  | ['#'] => decimal s.arguments.length
  | ['?'] => decimal s.status
  | ['$'] => processNumber
  | ['@'] | ['*'] => [' '].intercalate s.arguments
  | ['0'] => s.name
  | _ =>
    match number? name with
    | some index => (s.arguments[index - 1]?).getD []
    | none => (s.value? name).getD []

def separators (s : State) : Raw :=
  (s.value? "IFS".toList).getD [' ', '\t', '\n']

/-- Fields as they are put together: those finished, newest first, and the open one. -/
structure Fields where
  finished : List Raw := []
  current : Option Raw := none

namespace Fields

def add (f : Fields) (text : Raw) : Fields :=
  { f with current := some (f.current.getD [] ++ text) }

def close (f : Fields) : Fields :=
  match f.current with
  | some field => ⟨field :: f.finished, none⟩
  | none => f

def split (f : Fields) (separators : Raw) (text : Raw) : Fields :=
  text.foldl (fun f c => if c ∈ separators then f.close else f.add [c]) f

/-- Each item is a field of its own, the first joined to what stands before it. -/
def addEach (f : Fields) : List Raw → Fields
  | [] => f
  | [item] => f.add item
  | item :: items => (f.add item).close.addEach items

def all (f : Fields) : List Raw :=
  f.close.finished.reverse

end Fields

def expandPiece (s : State) (fields : Fields) : Piece → Fields
  | .literal text _ => fields.add text
  | .parameter ['@'] true => fields.addEach s.arguments
  | .parameter name true => fields.add (s.parameter name)
  | .parameter name false => fields.split s.separators (s.parameter name)

def expand (s : State) (pieces : Pieces) : List Raw :=
  (pieces.foldl s.expandPiece {}).all

def expandAll (s : State) (words : List Pieces) : List Raw :=
  words.flatMap s.expand

def expandWhole (s : State) (pieces : Pieces) : Raw :=
  pieces.flatMap fun
    | .literal text _ => text
    | .parameter name _ => s.parameter name

def sinkIndex (s : State) (descriptor : Nat) : Option Nat :=
  match descriptor with
  | 1 => some s.outAt
  | 2 => some s.errAt
  | _ => none

/-- Writes to a descriptor and tells whether it took the text. -/
def emit (s : State) (descriptor : Nat) (text : Raw) : Bool × State :=
  match (s.sinkIndex descriptor).bind fun index => (s.sinks[index]?).map (index, ·) with
  | none => (false, s)
  | some (index, sink) =>
    match sink.write (toBytes text) s.machine.files with
    | .ok (sink, files) =>
      (true, { s with sinks := s.sinks.set index sink, machine := { s.machine with files } })
    | .error _ => (false, s)

/-- A line on the error stream that says where it comes from. -/
def complain (s : State) (line : Nat) (message : Raw) : State :=
  (s.emit 2 (s.name ++ ": ".toList ++ decimal line ++ ": ".toList ++ message ++ ['\n'])).2

def finish (s : State) (status : Nat) : State :=
  { s with status }

def stop (s : State) (ending : Ending) : State :=
  { s with ending := some ending }

/-- Writes the result of a command; one that cannot be written is an error. -/
def output (s : State) (line : Nat) (command : Raw) (text : Raw) (status : Nat) : State :=
  if text = [] then s.finish status
  else
    match s.emit 1 text with
    | (true, s) => s.finish status
    | (false, s) =>
      (s.complain line (command ++ ": ".toList ++ command ++ ": I/O error".toList)).finish 1

def process (s : State) : Process :=
  { machine := s.machine
    input := s.input
    out := (s.sinks[s.outAt]?).getD .closed
    err := (s.sinks[s.errAt]?).getD .closed
    ignored := s.ignored
    asleep := s.asleep }

def resume (s : State) (process : Process) : State :=
  { s with
    machine := process.machine
    input := process.input
    sinks := (s.sinks.set s.outAt process.out).set s.errAt process.err
    asleep := process.asleep }

end State

end CommandShell.Script
