/-! An index of names by their characters. Every branch leads to some name, and the
branches of a node are in code point order, so a walk meets the names sorted. -/
namespace CommandShell

mutual

/-- A place reached by some letters; `isName` says that a name ends here. -/
inductive NameTree where
  | node (isName : Bool) (branches : Branches)

inductive Branches where
  | nil
  | cons (letter : Char) (child : NameTree) (rest : Branches)

end

def NameTree.isName : NameTree → Bool
  | .node isName _ => isName

def NameTree.branches : NameTree → Branches
  | .node _ branches => branches

def NameTree.single : List Char → NameTree
  | [] => .node true .nil
  | c :: rest => .node false (.cons c (single rest) .nil)

mutual

def NameTree.insert (name : List Char) : NameTree → NameTree
  | .node isName branches =>
    match name with
    | [] => .node true branches
    | c :: rest => .node isName (branches.insert c rest)

def Branches.insert (c : Char) (name : List Char) : Branches → Branches
  | .nil => .cons c (NameTree.single name) .nil
  | .cons letter child rest =>
    if c = letter then .cons letter (child.insert name) rest
    else if c.toNat < letter.toNat then
      .cons c (NameTree.single name) (.cons letter child rest)
    else .cons letter child (rest.insert c name)

end

def Branches.find? (c : Char) : Branches → Option NameTree
  | .nil => none
  | .cons letter child rest => if c = letter then some child else rest.find? c

def NameTree.below? (tree : NameTree) : List Char → Option NameTree
  | [] => some tree
  | c :: rest =>
    match tree.branches.find? c with
    | some child => child.below? rest
    | none => none

mutual

/-- The names in the tree, each after the letters that lead here, which are newest
first. -/
def NameTree.names (letters : List Char) : NameTree → List (List Char)
  | .node isName branches =>
    if isName then letters.reverse :: branches.names letters else branches.names letters

def Branches.names (letters : List Char) : Branches → List (List Char)
  | .nil => []
  | .cons letter child rest => child.names (letter :: letters) ++ rest.names letters

end

/-- The letters that all names in the tree share: the only way down, up to the end of a
name or a fork. -/
def NameTree.onlyWay : NameTree → List Char
  | .node false (.cons letter child .nil) => letter :: child.onlyWay
  | .node _ _ => []

structure NameIndex where
  tree : NameTree
  size : Nat

namespace NameIndex

def empty : NameIndex := ⟨.node false .nil, 0⟩

def contains (index : NameIndex) (name : String) : Bool :=
  match index.tree.below? name.toList with
  | some tree => tree.isName
  | none => false

def insert (index : NameIndex) (name : String) : NameIndex :=
  ⟨index.tree.insert name.toList,
    if index.contains name then index.size else index.size + 1⟩

def ofNames (names : List String) : NameIndex :=
  names.foldl insert empty

def matching (index : NameIndex) (start : String) : List String :=
  match index.tree.below? start.toList with
  | some tree => (tree.names start.toList.reverse).map String.ofList
  | none => []

/-- What can be added to `start` without a choice, and the names that start with it. -/
def extension (index : NameIndex) (start : String) : String × List String :=
  match index.tree.below? start.toList with
  | some tree => (String.ofList tree.onlyWay, index.matching start)
  | none => ("", [])

def names (index : NameIndex) : List String :=
  index.matching ""

end NameIndex

end CommandShell
