import CommandShell.Machine
import CommandShell.Text.Integer
import CommandShell.Text.Upper

/-! What the environment of the process says about how the shell should behave. -/
namespace CommandShell

/-- A history limit of zero keeps everything. The level is as it was set, in capitals or
not. -/
structure Settings where
  prompt : String := "$ "
  historyFile : Option String := none
  historyLimit : Int := 0
  pumpSize : Int := 8192
  logLevel : String := "WARNING"
  logFile : Option String := none
  deriving DecidableEq, Repr

namespace Settings

/-- An empty value counts as none. -/
def nonEmpty (value : Option String) : Option String :=
  value.filter (· ≠ "")

/-- A value that is no number counts as not set. -/
def integer (environment : Environment) (name : String) (default : Int) : Int :=
  ((environment.get? name).bind Text.readInteger?).getD default

def ofEnvironment (environment : Environment) : Settings where
  prompt := (environment.get? "PIPESHELL_PROMPT").getD "$ "
  historyFile :=
    (nonEmpty (environment.get? "PIPESHELL_HISTFILE")).or (nonEmpty (environment.get? "HISTFILE"))
  historyLimit := integer environment "PIPESHELL_HISTSIZE" 0
  pumpSize := integer environment "PIPESHELL_PUMP_BUFFER" 8192
  logLevel := (environment.get? "PIPESHELL_LOG_LEVEL").getD "WARNING"
  logFile := nonEmpty (environment.get? "PIPESHELL_LOG_FILE")

/-- The level by the name in capitals under which it is looked up. -/
def levelName (settings : Settings) : String :=
  Text.upper settings.logLevel

end Settings

inductive LogTarget where
  | file
  | errorStream
  deriving DecidableEq, Repr

/-- The log of a process: where its records go, from which level on, and whether they are
passed on to the logs above. -/
structure Logging where
  targets : List LogTarget := []
  level : Nat := 0
  propagates : Bool := true
  deriving DecidableEq, Repr

namespace Logging

def warning : Nat := 30

def levels : List (String × Nat) :=
  [("CRITICAL", 50), ("FATAL", 50), ("ERROR", 40), ("WARNING", warning), ("WARN", warning),
    ("INFO", 20), ("DEBUG", 10), ("NOTSET", 0)]

def format : String := "%(levelname)s:%(name)s:%(message)s"

def styles : String :=
  "\x7b'%': (<class 'logging.PercentStyle'>, '" ++ format ++ "'), " ++
    "'\x7b': (<class 'logging.StrFormatStyle'>, " ++
    "'\x7blevelname\x7d:\x7bname\x7d:\x7bmessage\x7d'), " ++
    "'$': (<class 'logging.StringTemplateStyle'>, " ++
    "'$\x7blevelname\x7d:$\x7bname\x7d:$\x7bmessage\x7d')\x7d"

/-- The names in capitals that are known but are no levels. -/
def misnomers : List (String × Fault) :=
  [("BASIC_FORMAT", .value ("Unknown level: '" ++ format ++ "'")),
    ("_STYLES", .wrongType ("Level not an integer or a valid string: " ++ styles))]

/-- The level of a name in capitals. Unknown names mean warnings. -/
def levelNamed (name : String) : Except Fault Nat :=
  match misnomers.lookup name with
  | some fault => .error fault
  | none => .ok ((levels.lookup name).getD warning)

def fullPath (machine : Machine) (path : String) : String :=
  Path.normalize (Path.join machine.directory path)

/-- Opens the log, unless it is open: a file that is given goes before the one in the
settings. -/
def setup (settings : Settings) (machine : Machine) (level file : Option String)
    (logging : Logging := {}) : Except Fault Logging × Machine :=
  if logging.targets ≠ [] then (.ok logging, machine) else
  let (opened, machine) : Except Fault LogTarget × Machine :=
    match (Settings.nonEmpty file).or settings.logFile with
    | none => (.ok .errorStream, machine)
    | some path =>
      let path := fullPath machine path
      match machine.openFile path true with
      | .ok (_, machine) => (.ok .file, machine)
      | .error (.system e) => (.error (.systemAt e path), machine)
      | .error fault => (.error fault, machine)
  match opened with
  | .error fault => (.error fault, machine)
  | .ok target =>
    match levelNamed ((Settings.nonEmpty level).getD settings.levelName) with
    | .error fault => (.error fault, machine)
    | .ok level =>
      (.ok { targets := target :: logging.targets, level, propagates := false }, machine)

end Logging

end CommandShell
