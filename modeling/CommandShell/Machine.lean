import CommandShell.FileTree.Basic

/-! The machine the shell runs on: its files, and the working directory, the
environment and the user of the shell's own process. -/
namespace CommandShell

abbrev Environment := List (String × String)

namespace Environment

def get? (environment : Environment) (name : String) : Option String :=
  environment.lookup name

def set (environment : Environment) (name value : String) : Environment :=
  match environment with
  | [] => [(name, value)]
  | (key, old) :: rest =>
    if key = name then (name, value) :: rest else (key, old) :: set rest name value

def erase (environment : Environment) (name : String) : Environment :=
  environment.filter fun (key, _) => key ≠ name

end Environment

/-- `accountHome` is the home directory of the user, where the machine knows the user. -/
structure Machine where
  files : FileTree
  directory : String
  environment : Environment := []
  accountHome : Option String := some "/root"
  deriving DecidableEq, Repr

namespace Machine

open FileTree (Place Purpose)

def lookupFrom (machine : Machine) (base : Location) (purpose : Purpose) (path : String) :
    Except SystemError Place :=
  if path = "" then .error .noEntry
  else if FileTree.maxPathBytes ≤ path.utf8ByteSize then .error .nameTooLong
  else
    machine.files.walk purpose FileTree.maxLinks (if Path.isAbsolute path then [] else base)
      (FileTree.steps path)

/-- Relative paths start at the working directory of the process. -/
def lookup (machine : Machine) (purpose : Purpose) (path : String) : Except SystemError Place :=
  machine.lookupFrom (Path.components machine.directory) purpose path

/-- The node at the end of a path, all links followed. A path that holds a NUL leads
nowhere. -/
def find? (machine : Machine) (path : String) : Option Node :=
  if Path.hasNul path then none
  else
    match machine.lookup .reach path with
    | .ok place => place.node
    | .error _ => none

def pathExists (machine : Machine) (path : String) : Bool :=
  (machine.find? path).isSome

def isDirectory (machine : Machine) (path : String) : Bool :=
  machine.find? path == some .directory

def isFile (machine : Machine) (path : String) : Bool :=
  match machine.find? path with
  | some (.file _ _) | some (.program _) => true
  | _ => false

def isExecutable (machine : Machine) (path : String) : Bool :=
  match machine.find? path with
  | some (.file _ executable) => executable
  | some .directory | some (.program _) => true
  | _ => false

/-- The link-free path of an existing directory. -/
def canonical (machine : Machine) (path : String) : String :=
  match machine.lookup .reach path with
  | .ok place => Path.ofNames 1 place.location
  | .error _ => path

def list? (machine : Machine) (path : String) : Option (List String) :=
  match machine.lookup .reach path with
  | .ok ⟨location, some .directory⟩ => some (machine.files.namesIn location)
  | _ => none

def readFile (machine : Machine) (path : String) : Except Fault Bytes :=
  if Path.hasNul path then .error .nulByte
  else
    match machine.lookup .reach path with
    | .error e => .error (.system e)
    | .ok ⟨_, none⟩ => .error (.system .noEntry)
    | .ok ⟨_, some .directory⟩ => .error (.system .isDirectory)
    | .ok ⟨_, some (.file content _)⟩ => .ok content
    | .ok ⟨_, some (.program _)⟩ => .ok [0x7f, 0x45, 0x4c, 0x46, 0xff]
    | .ok ⟨_, some (.link _)⟩ | .ok ⟨_, some (.device _)⟩ => .ok []

def makeDirectory (machine : Machine) (path : String) : Except Fault Machine :=
  if Path.hasNul path then .error .nulByte
  else
    match machine.lookup .name path with
    | .error e => .error (.system e)
    | .ok ⟨_, some _⟩ => .error (.system .alreadyExists)
    | .ok ⟨location, none⟩ => .ok { machine with files := machine.files.set location .directory }

def ensureDirectory (machine : Machine) (path : String) : Except Fault Unit × Machine :=
  match machine.makeDirectory path with
  | .ok machine => (.ok (), machine)
  | .error (.system e) =>
    if machine.isDirectory path then (.ok (), machine) else (.error (.system e), machine)
  | .error fault => (.error fault, machine)

/-- Makes the directory that `names`, innermost first, lead to, and those above it that
are missing. A failure leaves behind what was made before it. -/
def makeNames (leading : Nat) (machine : Machine) : List String → Except Fault Unit × Machine
  | [] => (.ok (), machine)
  | name :: above =>
    let upper := Path.ofNames leading above.reverse
    let entered :=
      if (leading = 0 && above = []) || machine.pathExists upper then (.ok (), machine)
      else makeNames leading machine above
    match entered with
    | (.ok (), machine) | (.error (.system .alreadyExists), machine) =>
      machine.ensureDirectory (Path.ofNames leading (name :: above).reverse)
    | (.error fault, machine) => (.error fault, machine)

def makeDirectories (machine : Machine) (path : String) : Except Fault Unit × Machine :=
  if path = "" then (.error (.system .noEntry), machine)
  else makeNames (Path.leadingSlashes path) machine (Path.components path).reverse

end Machine

inductive OpenFile where
  | regular (location : Location) (offset : Nat) (append : Bool)
  | device (device : Device)
  deriving DecidableEq, Repr

namespace Machine

/-- Opens a file for writing, and makes it when it is missing. An existing file is
emptied unless `append`. -/
def openFile (machine : Machine) (path : String) (append : Bool) :
    Except Fault (OpenFile × Machine) :=
  if Path.hasNul path then .error .nulByte
  else
    match machine.lookup .write path with
    | .error e => .error (.system e)
    | .ok ⟨_, some .directory⟩ => .error (.system .isDirectory)
    | .ok ⟨_, some (.device device)⟩ => .ok (.device device, machine)
    | .ok ⟨location, some (.file content executable)⟩ =>
      let content := if append then content else []
      .ok (.regular location 0 append,
        { machine with files := machine.files.set location (.file content executable) })
    | .ok ⟨location, some (.program _)⟩ | .ok ⟨location, some (.link _)⟩
    | .ok ⟨location, none⟩ =>
      .ok (.regular location 0 append,
        { machine with files := machine.files.set location (.file [] false) })

def openBelow (machine : Machine) (path : String) (append : Bool) :
    Except Fault OpenFile × Machine :=
  match machine.makeDirectories (Path.parent path) with
  | (.error fault, machine) => (.error fault, machine)
  | (.ok (), machine) =>
    match machine.openFile path append with
    | .error fault => (.error fault, machine)
    | .ok (file, machine) => (.ok file, machine)

end Machine

/-- The content with `data` laid over it from `offset` on; a gap is filled with zero
bytes. -/
def overwrite (content : Bytes) (offset : Nat) (data : Bytes) : Bytes :=
  content.take offset ++ List.replicate (offset - content.length) 0 ++ data ++
    content.drop (offset + data.length)

/-- Writes at the end of a file opened for appending, else where the last write ended. -/
def OpenFile.write (file : OpenFile) (data : Bytes) (files : FileTree) :
    Except SystemError (OpenFile × FileTree) :=
  match file with
  | .device .null => .ok (file, files)
  | .device .full => if data = [] then .ok (file, files) else .error .noSpace
  | .regular location offset append =>
    match files.get? location with
    | some (.file content executable) =>
      let content := if append then content ++ data else overwrite content offset data
      .ok (.regular location (offset + data.length) append,
        files.set location (.file content executable))
    | _ => .ok (file, files)

end CommandShell
