import CommandShell.Script.Run
import CommandShell.Session

/-! Starting programs: finding the file, following interpreter lines, and the few
programs that a machine comes with. -/
namespace CommandShell.Program

open Script (Raw)

/-- No argument and no entry of the environment may be longer. -/
def maxArgumentBytes : Nat := 131071

def isTooLong (invocation : Invocation) : Bool :=
  invocation.arguments.any (fun argument => maxArgumentBytes < argument.utf8ByteSize) ||
    invocation.environment.any fun (name, value) =>
      maxArgumentBytes < name.utf8ByteSize + 1 + value.utf8ByteSize

/-- A script may name another script as its interpreter, but not much deeper. -/
def maxInterpreters : Nat := 5

/-- Programs may start programs, to this depth. -/
def maxDepth : Nat := 20

def isGap (c : Char) : Bool :=
  c == ' ' || c == '\t'

/-- The interpreter that the first line of a script names, and its argument. -/
def interpreter? (content : Bytes) : Option (Raw × Option Raw) :=
  match Script.ofBytes (content.take 256) with
  | '#' :: '!' :: rest =>
    let line := Script.trim [' ', '\t'] (rest.takeWhile (· ≠ '\n'))
    match line.span (fun c => !isGap c) with
    | ([], _) => none
    | (path, argument) =>
      let argument := argument.dropWhile isGap
      some (path, if argument = [] then none else some argument)
  | _ => none

def cat (name : String) (directory : String) (arguments : List String) (process : Process) :
    Ending × Process :=
  let write (status : Nat) (process : Process) (data : Bytes) : Nat × Process :=
    match process.out.write data process.machine.files with
    | .ok (out, files) => (status, { process with out, machine := { process.machine with files } })
    | .error _ => (1, process)
  let complain (process : Process) (text : String) : Nat × Process :=
    match process.err.write (Text.encodeText text) process.machine.files with
    | .ok (err, files) => (1, { process with err, machine := { process.machine with files } })
    | .error _ => (1, process)
  let (status, process) :=
    (if arguments = [] then ["-"] else arguments).foldl (fun (status, process) argument =>
      if argument = "-" then write status { process with input := [] } process.input
      else
        match process.machine.readFile (Path.join directory argument) with
        | .ok content => write status process content
        | .error (.system e) => complain process (name ++ ": " ++ argument ++ ": " ++ e.text ++ "\n")
        | .error _ => (1, process)) (0, process)
  (.exited status, process)

def sleep (arguments : List String) (process : Process) : Ending × Process :=
  match arguments.head?.bind fun text => Script.State.number? text.toList with
  | some seconds => (.exited 0, { process with asleep := process.asleep + 1000 * seconds })
  | none => (.exited 1, process)

def interpret (spawn : Spawn) (name : Raw) (text : Raw) (arguments : List Raw)
    (directory : String) (environment : Environment) (process : Process) : Ending × Process :=
  let s := Script.runText spawn text
    { name, arguments, environment, directory
      machine := process.machine
      input := process.input
      sinks := [process.out, process.err]
      ignored := process.ignored
      asleep := process.asleep }
  (s.ending.getD (.exited s.status),
    { process with
      machine := s.machine
      input := s.input
      out := (s.sinks[0]?).getD process.out
      err := (s.sinks[1]?).getD process.err
      ignored := s.ignored
      asleep := s.asleep })

def shell (spawn : Spawn) (name : String) (directory : String) (environment : Environment)
    (arguments : List String) (process : Process) : Ending × Process :=
  match arguments with
  | "-c" :: text :: rest =>
    interpret spawn (Script.ofText (rest.head?.getD name)) (Script.ofText text)
      (rest.tail.map Script.ofText) directory environment process
  | path :: rest =>
    match process.machine.readFile (Path.join directory path) with
    | .ok content =>
      interpret spawn (Script.ofText path) (Script.ofBytes content) (rest.map Script.ofText)
        directory environment process
    | .error _ => (.exited 2, process)
  | [] =>
    interpret spawn (Script.ofText name) (Script.ofBytes process.input) [] directory environment
      { process with input := [] }

def runNamed (spawn : Spawn) (program : String) (directory : String)
    (environment : Environment) (arguments : List String) (process : Process) :
    Ending × Process :=
  let name := arguments.head?.getD program
  match program with
  | "sh" => shell spawn name directory environment arguments.tail process
  | "cat" => cat name directory arguments.tail process
  | "sleep" => sleep arguments.tail process
  | "false" => (.exited 1, process)
  | _ => (.exited 0, process)

def runFile (spawn : Spawn) (interpreters : Nat) (base : Location) (environment : Environment)
    (path : String) (arguments : List String) (process : Process) :
    Except SystemError (Ending × Process) :=
  match process.machine.lookupFrom base .reach path with
  | .error e => .error e
  | .ok ⟨_, none⟩ | .ok ⟨_, some (.link _)⟩ => .error .noEntry
  | .ok ⟨_, some .directory⟩ | .ok ⟨_, some (.device _)⟩
  | .ok ⟨_, some (.file _ false)⟩ => .error .accessDenied
  | .ok ⟨_, some (.program name)⟩ =>
    .ok (runNamed spawn name (Path.ofNames 1 base) environment arguments process)
  | .ok ⟨_, some (.file content true)⟩ =>
    match interpreter? content with
    | none => .error .badFormat
    | some (program, argument) =>
      match interpreters with
      | 0 => .error .tooManyLinks
      | interpreters + 1 =>
        let program := Script.toText program
        runFile spawn interpreters base environment program
          (program :: (argument.map Script.toText).toList ++ path :: arguments.tail) process

/-- Tries the candidates in turn. What counts is the first refusal that says more than
that nothing is there, else the last one. -/
def runFirst (run : String → Except SystemError (Ending × Process)) (refusal : Option SystemError) :
    SystemError → List String → Except SystemError (Ending × Process)
  | last, [] => .error (refusal.getD last)
  | _, candidate :: rest =>
    match run candidate with
    | .ok result => .ok result
    | .error e =>
      if e = .noEntry || e = .notDirectory then runFirst run refusal e rest
      else runFirst run (refusal.or (some e)) e rest

def candidates (invocation : Invocation) : List String :=
  if invocation.executable.toList.contains '/' then [invocation.executable]
  else
    let path := (invocation.environment.get? "PATH").getD Session.defaultPath
    (Session.searchPath path).map fun directory => Path.join directory invocation.executable

/-- The directory is entered first, then the executable is looked for. -/
def launchWith (spawn : Spawn) (invocation : Invocation) (process : Process) :
    Except SystemError (Ending × Process) :=
  match process.machine.lookup .reach invocation.directory with
  | .error e => .error e
  | .ok ⟨base, some .directory⟩ =>
    if isTooLong invocation then .error .argumentsTooLong
    else
      runFirst (fun path =>
        runFile spawn maxInterpreters base invocation.environment path invocation.arguments process)
        none .noEntry (candidates invocation)
  | .ok ⟨_, none⟩ => .error .noEntry
  | .ok ⟨_, some _⟩ => .error .notDirectory

def launchAt : Nat → Spawn
  | 0 => fun _ _ => .error .tooManyLinks
  | depth + 1 => launchWith (launchAt depth)

def launch : Spawn := launchAt maxDepth

end CommandShell.Program
