import CommandShell.History

/-! What the commands of one shell share: the working directory, the environment and
the history. Commands of a pipeline work on a fork of it. -/
namespace CommandShell

structure Session where
  cwd : String
  environment : Environment := []
  history : History := {}
  running : Bool := true
  exitCode : Int := 0
  lastStatus : Int := 0
  deriving DecidableEq, Repr

namespace Session

def ofMachine (machine : Machine) : Session :=
  { cwd := machine.directory, environment := machine.environment }

def fork (session : Session) : Session :=
  { session with running := true, exitCode := 0 }

def defaultPath : String := "/bin:/usr/bin"

def path (session : Session) : String :=
  (session.environment.get? "PATH").getD defaultPath

/-- The home directory of the process; a tilde where there is none. -/
def processHome (machine : Machine) : String :=
  match (machine.environment.get? "HOME").or machine.accountHome with
  | none => "~"
  | some home =>
    let trimmed := String.ofList (home.toList.reverse.dropWhile (· = '/')).reverse
    if trimmed = "" then "/" else trimmed

def home (session : Session) (machine : Machine) : String :=
  match session.environment.get? "HOME" with
  | none | some "" => processHome machine
  | some home => home

/-- A tilde alone or before a slash stands for the home directory. -/
def expand (session : Session) (machine : Machine) (path : String) : String :=
  match path.toList with
  | ['~'] => session.home machine
  | '~' :: '/' :: rest => session.home machine ++ String.ofList ('/' :: rest)
  | _ => path

/-- The normalised path, seen from the working directory of the session. -/
def resolve (session : Session) (machine : Machine) (path : String) : String :=
  Path.normalize (Path.join session.cwd (session.expand machine path))

def searchPath (path : String) : List String :=
  Text.cutText ':' path

/-- The file that runs under `name`. A name with a slash is a path; any other name is
searched on the search path, whose relative directories are seen from the process. -/
def which (session : Session) (machine : Machine) (name : String) : Option String :=
  if name.toList.contains '/' then
    let candidate := session.resolve machine name
    if machine.isFile candidate && machine.isExecutable candidate then some candidate else none
  else if session.path = "" then none
  else
    ((searchPath session.path).map fun directory => Path.join directory name).find? fun candidate =>
      machine.isExecutable candidate && !machine.isDirectory candidate

def stop (session : Session) (code : Int) : Session :=
  { session with running := false, exitCode := code }

end Session

end CommandShell
