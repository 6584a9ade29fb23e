import CommandShell.Program.Signal
import CommandShell.Script.Parse
import CommandShell.Script.Print
import CommandShell.Script.State

/-! Running a script. The programs that it starts are run by the `spawn` it is given. -/
namespace CommandShell.Script

open State

/-- Statuses are kept modulo 256. -/
def exitWith (s : State) (line : Nat) (arguments : List Raw) : State :=
  match arguments with
  | [] => s.stop (.exited s.status)
  | argument :: _ =>
    match number? argument with
    | some code =>
      if code < 0x80000000 then s.stop (.exited (code % 256))
      else (s.complain line ("exit: Illegal number: ".toList ++ argument)).stop (.exited 2)
    | none => (s.complain line ("exit: Illegal number: ".toList ++ argument)).stop (.exited 2)

/-- The next line of the input, NUL bytes left out, whether it was ended, and the rest.
Unless `raw`, a backslash stands before a character to be taken as it is, and before a
line end that does not count. -/
def takeLine (raw : Bool) (line : Raw) : Bytes → Raw × Bool × Bytes
  | [] => (line.reverse, false, [])
  | b :: rest =>
    if b = 0x0a then (line.reverse, true, rest)
    else if b = 0 then takeLine raw line rest
    else if b = 0x5c && !raw then
      match rest with
      | [] => (line.reverse, false, [])
      | c :: rest =>
        if c = 0x0a then takeLine raw line rest
        else takeLine raw (Char.ofNat c.toNat :: line) rest
    else takeLine raw (Char.ofNat b.toNat :: line) rest

def trim (separators text : Raw) : Raw :=
  ((text.dropWhile (· ∈ separators)).reverse.dropWhile (· ∈ separators)).reverse

/-- The last name takes all that is left. -/
def assignFields (s : State) (separators : Raw) : List Raw → Raw → State
  | [], _ => s
  | [name], text => s.setVariable name (trim separators text)
  | name :: names, text =>
    let (field, rest) := (text.dropWhile (· ∈ separators)).span (fun c => !(c ∈ separators))
    assignFields (s.setVariable name field) separators names rest

def read (s : State) (arguments : List Raw) : State :=
  let names := arguments.filter (· ≠ ['-', 'r'])
  let (text, ended, rest) := takeLine (['-', 'r'] ∈ arguments) [] s.input
  let s := assignFields { s with input := rest } s.separators names text
  s.finish (if ended then 0 else 1)

def sendSignal (s : State) (signal : Nat) (target : Raw) : State :=
  if target ≠ processNumber then s.finish 1
  else if Signal.isHarmless signal || (signal ∈ s.ignored && signal ≠ Signal.kill) then s.finish 0
  else s.stop (.killed signal)

def kill (s : State) (line : Nat) (arguments : List Raw) : State :=
  let (name, targets) :=
    match arguments with
    | ['-', 's'] :: name :: targets => (name, targets)
    | ('-' :: name) :: targets => (name, targets)
    | targets => ("TERM".toList, targets)
  match Signal.ofText? (toText name) with
  | some signal => targets.foldl (fun s target => sendSignal s signal target) s
  | none =>
    (s.complain line ("kill: invalid signal number or name: ".toList ++ name)).finish 2

/-- An empty action makes the script ignore the signals. -/
def trap (s : State) (arguments : List Raw) : State :=
  match arguments with
  | [] :: signals =>
    { s with ignored := signals.filterMap (fun name => Signal.ofText? (toText name)) ++ s.ignored,
             status := 0 }
  | _ :: signals =>
    let named := signals.filterMap fun name => Signal.ofText? (toText name)
    { s with ignored := s.ignored.filter (fun signal => !(signal ∈ named)), status := 0 }
  | [] => s.finish 0

/-- The path of the working directory: the one in the environment if it leads there and
`physical` is not asked for. -/
def workingDirectory (s : State) (physical : Bool) : String :=
  let actual := s.machine.canonical s.directory
  match s.value? "PWD".toList with
  | some named =>
    let named := toText named
    if !physical && Path.isAbsolute named && s.machine.isDirectory named &&
        s.machine.canonical named = actual then named
    else actual
  | none => actual

def changeDirectory (s : State) (line : Nat) (arguments : List Raw) : State :=
  let target := toText (arguments.head?.getD (s.parameter "HOME".toList))
  let path := Path.normalize (Path.join (workingDirectory s false) target)
  if s.machine.isDirectory path then
    ({ s with directory := path }.setVariable "PWD".toList (ofText path)).finish 0
  else (s.complain line ("cd: can't cd to ".toList ++ ofText target)).finish 2

def shift (s : State) (line : Nat) (arguments : List Raw) : State :=
  let count := (arguments.head?.bind number?).getD 1
  if count ≤ s.arguments.length then { s with arguments := s.arguments.drop count, status := 0 }
  else (s.complain line "shift: can't shift that many".toList).stop (.exited 2)

def fullPath (s : State) (raw : Raw) : String :=
  Path.join s.directory (toText raw)

def holds (s : State) : List Raw → Bool
  | [] => false
  | [text] => text ≠ []
  | [['!'], text] => text = []
  | [['-', 'n'], text] => text ≠ []
  | [['-', 'z'], text] => text = []
  | [['-', 'e'], path] => s.machine.pathExists (fullPath s path)
  | [['-', 'f'], path] => s.machine.isFile (fullPath s path)
  | [['-', 'd'], path] => s.machine.isDirectory (fullPath s path)
  | [['-', 'x'], path] => s.machine.isExecutable (fullPath s path)
  | [left, ['='], right] => left = right
  | [left, ['!', '='], right] => left ≠ right
  | [left, '-' :: operator, right] =>
    match number? left, number? right with
    | some left, some right =>
      match String.ofList operator with
      | "eq" => left = right
      | "ne" => left ≠ right
      | "lt" => left < right
      | "le" => left ≤ right
      | "gt" => right < left
      | "ge" => right ≤ left
      | _ => false
    | _, _ => false
  | _ => false

def test (s : State) (arguments : List Raw) : State :=
  s.finish (if holds s arguments then 0 else 1)

def childEnvironment (s : State) (assignments : List (Raw × Raw)) : Environment :=
  assignments.foldl (fun environment (name, value) =>
    Environment.set environment (toText name) (toText value)) s.environment

/-- The file that a name stands for: a path, or found on the search path. -/
def findProgram (s : State) (name : Raw) : String :=
  let text := toText name
  if text.toList.contains '/' then text
  else
    let path := toText ((s.value? "PATH".toList).getD (ofText "/usr/local/bin:/usr/bin:/bin"))
    let candidates := (Text.cutText ':' path).map fun directory => Path.join directory text
    (candidates.find? fun candidate =>
      s.machine.isExecutable (Path.join s.directory candidate) &&
        s.machine.isFile (Path.join s.directory candidate)).getD (Path.join "/nonexistent" text)

def startFailure (s : State) (line : Nat) (name : Raw) : SystemError → State
  | .noEntry => (s.complain line (name ++ ": not found".toList)).finish 127
  | e => (s.complain line (name ++ ": ".toList ++ ofText e.text)).finish 126

/-- Runs a program to its end. Complaints name the program after `context`. -/
def runProgram (spawn : Spawn) (s : State) (line : Nat) (context : Raw)
    (assignments : List (Raw × Raw)) (words : List Raw) : Option Ending × State :=
  let name := words.head?.getD []
  let invocation : Invocation :=
    { executable := findProgram s name
      arguments := words.map toText
      directory := s.directory
      environment := childEnvironment s assignments }
  match spawn invocation s.process with
  | .ok (ending, process) => (some ending, s.resume process)
  | .error e => (none, startFailure s line (context ++ name) e)

def openTarget (s : State) (path : String) (append : Bool) : Except Fault (Sink × Machine) :=
  match s.machine.openFile path append with
  | .ok (file, machine) => .ok (.file file, machine)
  | .error fault => .error fault

/-- Points a descriptor elsewhere; nothing when it cannot be done. -/
def applyRedirect (s : State) (line : Nat) (redirect : Redirect) : Bool × State :=
  let target := s.expandWhole redirect.target
  let point (s : State) (index : Nat) : State :=
    if redirect.descriptor = 2 then { s with errAt := index } else { s with outAt := index }
  match redirect.direction with
  | .duplicate =>
    match (number? target).bind s.sinkIndex with
    | some index => (true, point s index)
    | none => (false, s.complain line (target ++ ": bad file descriptor".toList))
  | .read =>
    match s.machine.readFile (fullPath s target) with
    | .ok bytes => (true, { s with input := bytes })
    | .error _ =>
      (false, s.complain line ("cannot open ".toList ++ target ++ ": No such file".toList))
  | .write | .append =>
    match openTarget s (fullPath s target) (redirect.direction = .append) with
    | .ok (sink, machine) =>
      (true, point { s with machine, sinks := s.sinks ++ [sink] } s.sinks.length)
    | .error _ =>
      (false, s.complain line
        ("cannot create ".toList ++ target ++ ": Directory nonexistent".toList))

def applyRedirects (s : State) (line : Nat) : List Redirect → Bool × State
  | [] => (true, s)
  | redirect :: rest =>
    match applyRedirect s line redirect with
    | (true, s) => applyRedirects s line rest
    | (false, s) => (false, s)

/-- Replaces the script by a program, or ends it when there is no such program. -/
def exec (spawn : Spawn) (s : State) (line : Nat) (words : List Raw) : State :=
  match words with
  | [] => s.finish 0
  | _ :: _ =>
    match runProgram spawn s line "exec: ".toList [] words with
    | (some ending, s) => s.stop ending
    | (none, s) => s.stop (.exited s.status)

def runWords (spawn : Spawn) (s : State) (line : Nat) (assignments : List (Raw × Raw))
    (words : List Raw) : State :=
  match words with
  | [] => s.finish 0
  | name :: arguments =>
    match String.ofList name with
    | "echo" => s.output line name (echo arguments) 0
    | "printf" => s.output line name (printf (arguments.head?.getD []) arguments.tail) 0
    | "exit" => exitWith s line arguments
    | "read" => read s arguments
    | "kill" => kill s line arguments
    | "trap" => trap s arguments
    | "exec" => exec spawn s line arguments
    | "pwd" =>
      s.output line name (ofText (workingDirectory s (['-', 'P'] ∈ arguments)) ++ ['\n']) 0
    | "cd" => changeDirectory s line arguments
    | "shift" => shift s line arguments
    | "test" => test s arguments
    | "[" => test s (arguments.filter (· ≠ [']']))
    | "true" | ":" => s.finish 0
    | "false" => s.finish 1
    | _ =>
      match runProgram spawn s line [] assignments words with
      | (some ending, s) => s.finish (ending.status.toNat)
      | (none, s) => s

def assign (s : State) (assignments : List (Raw × Raw)) : State :=
  assignments.foldl (fun s (name, value) => s.setVariable name value) s

def restore (s before : State) (assignments : List (Raw × Raw)) : State :=
  let names := assignments.map (·.1)
  { s with
    bindings := before.bindings.filter (·.1 ∈ names) ++
      s.bindings.filter fun (name, _) => !(name ∈ names)
    environment := before.environment }

/-- Runs one command. Its redirections and, unless it has no words, its assignments hold
for this command only. -/
def runSimple (spawn : Spawn) (s : State) (command : SimpleCommand) : State :=
  let words := s.expandAll command.words
  let assignments := command.assignments.map fun (name, value) => (name, s.expandWhole value)
  if words = [] && command.redirects = [] then (assign s assignments).finish 0
  else
    match applyRedirects s command.line command.redirects with
    | (false, s) => s.finish 2
    | (true, redirected) =>
      let after := runWords spawn (assign redirected assignments) command.line assignments words
      if words.head? = some "exec".toList then after
      else
        let after := if assignments = [] then after else restore after s assignments
        let input :=
          if command.redirects.any (·.direction = .read) then s.input else after.input
        { after with outAt := s.outAt, errAt := s.errAt, input }

/-- Runs a statement. The fuel bounds the steps of a script that would run forever. -/
def run (spawn : Spawn) (fuel : Nat) (statement : Statement) (s : State) : State :=
  match fuel with
  | 0 => s.stop (.killed Signal.kill)
  | fuel + 1 =>
    if s.ending.isSome then s
    else
      match statement with
      | .skip => s
      | .simple command => runSimple spawn s command
      | .sequence first second => run spawn fuel second (run spawn fuel first s)
      | .both first second =>
        let s := run spawn fuel first s
        if s.status = 0 then run spawn fuel second s else s
      | .either first second =>
        let s := run spawn fuel first s
        if s.status = 0 then s else run spawn fuel second s
      | .negated body =>
        let s := run spawn fuel body s
        if s.ending.isSome then s else s.finish (if s.status = 0 then 1 else 0)
      | .branch condition body otherwise =>
        let s := run spawn fuel condition s
        if s.status = 0 then run spawn fuel body s
        else run spawn fuel otherwise (s.finish 0)
      | .loop wanted condition body =>
        let s := run spawn fuel condition s
        if s.ending.isSome then s
        else if (s.status = 0) = wanted then
          run spawn fuel (.loop wanted condition body) (run spawn fuel body s)
        else s.finish 0
      | .forEach name words body =>
        runEach spawn fuel name body (s.expandAll words) s
where
  runEach (spawn : Spawn) (fuel : Nat) (name : Raw) (body : Statement) (items : List Raw)
      (s : State) : State :=
    items.foldl (fun s item =>
      if s.ending.isSome then s else run spawn fuel body (s.setVariable name item)) s

def runText (spawn : Spawn) (text : Raw) (s : State) : State :=
  match parse? text with
  | none => (s.complain 1 "Syntax error".toList).stop (.exited 2)
  | some statement => run spawn (s.input.length + 100000) statement s

end CommandShell.Script
