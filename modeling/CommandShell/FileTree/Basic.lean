import CommandShell.Fault
import CommandShell.Path
import CommandShell.Text.Utf8

/-! The files of the machine. A node is found by its location, the names from the
root down; the root is always a directory. -/
namespace CommandShell

abbrev Location := List String

inductive Device where
  | null
  | full
  deriving DecidableEq, Repr

inductive Node where
  | directory
  | file (content : Bytes) (executable : Bool)
  | link (target : String)
  | device (device : Device)
  | program (name : String)
  deriving DecidableEq, Repr

structure FileTree where
  nodes : List (Location × Node) := []
  deriving DecidableEq, Repr

namespace FileTree

def get? (tree : FileTree) (location : Location) : Option Node :=
  if location = [] then some .directory else tree.nodes.lookup location

def put (location : Location) (node : Node) : List (Location × Node) → List (Location × Node)
  | [] => [(location, node)]
  | (place, old) :: rest =>
    if place = location then (location, node) :: rest
    else (place, old) :: put location node rest

def set (tree : FileTree) (location : Location) (node : Node) : FileTree :=
  ⟨put location node tree.nodes⟩

def remove (tree : FileTree) (location : Location) : FileTree :=
  ⟨tree.nodes.filter fun (place, _) => !location.isPrefixOf place⟩

def namesIn (tree : FileTree) (location : Location) : List String :=
  tree.nodes.filterMap fun (place, _) =>
    match place.getLast? with
    | some name => if place.dropLast = location then some name else none
    | none => none

/-- Where a path leads. Without a node there is nothing yet, but the directory that
would hold it exists. -/
structure Place where
  location : Location
  node : Option Node
  deriving DecidableEq, Repr

def maxLinks : Nat := 40

def maxNameBytes : Nat := 255

def maxPathBytes : Nat := 4096

/-- The steps a path takes. A slash at the end asks for a directory, by a last step
without a name. -/
def steps (path : String) : List String :=
  let names := Path.components path
  if names ≠ [] && path.toList.getLast? == some '/' then names ++ [""] else names

inductive Purpose where
  /-- To reach the node, through a link at the end. -/
  | reach
  /-- To name the node itself, though it be a link. -/
  | name
  /-- To open a file for writing, which no path with a slash at its end can name. -/
  | write
  deriving DecidableEq, Repr

/-- Takes the steps from the directory `here`. At a link `follow` goes on, from the
directory of the link, its target and the steps left. -/
def walkFollowing (tree : FileTree) (purpose : Purpose)
    (follow : Location → String → List String → Except SystemError Place) (here : Location) :
    List String → Except SystemError Place
  | [] => .ok ⟨here, tree.get? here⟩
  | name :: rest =>
    if name = "" || name = "." then tree.walkFollowing purpose follow here rest
    else if name = ".." then tree.walkFollowing purpose follow here.dropLast rest
    else if purpose = .write && rest = [""] then .error .isDirectory
    else if maxNameBytes < name.utf8ByteSize then .error .nameTooLong
    else
      match tree.get? (here ++ [name]) with
      | none => if rest = [] then .ok ⟨here ++ [name], none⟩ else .error .noEntry
      | some .directory => tree.walkFollowing purpose follow (here ++ [name]) rest
      | some (.link target) =>
        if rest = [] && purpose = .name then .ok ⟨here ++ [name], some (.link target)⟩
        else follow here target rest
      | some node =>
        if rest = [] then .ok ⟨here ++ [name], some node⟩ else .error .notDirectory

/-- Takes the steps from the directory `here`, following at most `links` links. -/
def walk (tree : FileTree) (purpose : Purpose) (links : Nat) (here : Location)
    (todo : List String) : Except SystemError Place :=
  match links with
  | 0 => tree.walkFollowing purpose (fun _ _ _ => .error .tooManyLinks) here todo
  | links + 1 =>
    tree.walkFollowing purpose (fun here target rest =>
      if target = "" then .error .noEntry
      else
        tree.walk purpose links (if Path.isAbsolute target then [] else here)
          (steps target ++ rest)) here todo

end FileTree

end CommandShell
