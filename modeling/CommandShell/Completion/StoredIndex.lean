import CommandShell.Completion.NameIndex

/-! The index of names as it is kept in memory. A node keeps its branches in the order in which
they were added, the names below it are collected with a stack, and they are sorted in the end. -/
namespace CommandShell

mutual

/-- Adds a name; a new branch comes after the old ones. -/
def NameTree.store (name : List Char) : NameTree → NameTree
  | .node isName branches =>
    match name with
    | [] => .node true branches
    | c :: rest => .node isName (branches.store c rest)

def Branches.store (c : Char) (name : List Char) : Branches → Branches
  | .nil => .cons c (NameTree.single name) .nil
  | .cons letter child rest =>
    if c = letter then .cons letter (child.store name) rest
    else .cons letter child (rest.store c name)

end

mutual

def NameTree.nodes : NameTree → Nat
  | .node _ branches => branches.nodes + 1

def Branches.nodes : Branches → Nat
  | .nil => 0
  | .cons _ child rest => child.nodes + rest.nodes

end

/-- The branches of a node that the text leads to, each on top of the one before it. -/
def Branches.push (text : List Char) :
    Branches → List (NameTree × List Char) → List (NameTree × List Char)
  | .nil, stack => stack
  | .cons letter child rest, stack => rest.push text ((child, text ++ [letter]) :: stack)

def stackNodes : List (NameTree × List Char) → Nat
  | [] => 0
  | (tree, _) :: rest => tree.nodes + stackNodes rest

theorem Branches.stackNodes_push (branches : Branches) (text : List Char)
    (stack : List (NameTree × List Char)) :
    stackNodes (branches.push text stack) = branches.nodes + stackNodes stack := by
  cases branches with
  | nil => simp [push, nodes]
  | cons letter child rest =>
    rw [push, stackNodes_push rest, stackNodes, nodes]
    omega

/-- Adds to `found` the names below the nodes on the stack. -/
def collectNames (found : List (List Char)) : List (NameTree × List Char) → List (List Char)
  | [] => found
  | (.node isName branches, text) :: stack =>
    collectNames (if isName then found ++ [text] else found) (branches.push text stack)
termination_by stack => stackNodes stack
decreasing_by
  rw [Branches.stackNodes_push, stackNodes, NameTree.nodes]
  omega

structure StoredIndex where
  tree : NameTree
  size : Nat

namespace StoredIndex

def empty : StoredIndex := ⟨.node false .nil, 0⟩

def contains (index : StoredIndex) (name : String) : Bool :=
  match index.tree.below? name.toList with
  | some tree => tree.isName
  | none => false

def insert (index : StoredIndex) (name : String) : StoredIndex :=
  ⟨index.tree.store name.toList,
    if index.contains name then index.size else index.size + 1⟩

def ofNames (names : List String) : StoredIndex :=
  names.foldl insert empty

def matching (index : StoredIndex) (start : String) : List String :=
  match index.tree.below? start.toList with
  | some tree =>
    ((collectNames [] [(tree, start.toList)]).map String.ofList).mergeSort fun a b => a ≤ b
  | none => []

def extension (index : StoredIndex) (start : String) : String × List String :=
  match index.tree.below? start.toList with
  | some tree => (String.ofList tree.onlyWay, index.matching start)
  | none => ("", [])

end StoredIndex

end CommandShell
