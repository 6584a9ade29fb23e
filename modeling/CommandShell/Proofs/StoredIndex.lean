import Mathlib.Data.List.Sort
import Mathlib.Data.String.Basic
import CommandShell.Completion.StoredIndex
import CommandShell.Proofs.NameExtension

/-! The index that is kept in memory answers as the sorted one does. Sorting the branches of every
node takes the one to the other. -/
namespace CommandShell

def Branches.place (c : Char) (child : NameTree) : Branches → Branches
  | .nil => .cons c child .nil
  | .cons letter other rest =>
    if c.toNat < letter.toNat then .cons c child (.cons letter other rest)
    else .cons letter other (rest.place c child)

mutual

/-- The tree with the branches of every node sorted. -/
def NameTree.arranged : NameTree → NameTree
  | .node isName branches => .node isName branches.arranged

def Branches.arranged : Branches → Branches
  | .nil => .nil
  | .cons letter child rest => rest.arranged.place letter child.arranged

end

mutual

/-- No node has two branches for a letter. -/
def NameTree.Distinct : NameTree → Prop
  | .node _ branches => branches.Distinct

def Branches.Distinct : Branches → Prop
  | .nil => True
  | .cons letter child rest => letter ∉ rest.letters ∧ child.Distinct ∧ rest.Distinct

end

namespace Branches

theorem mem_letters_place (branches : Branches) (c : Char) (child : NameTree) (d : Char) :
    d ∈ (branches.place c child).letters ↔ d = c ∨ d ∈ branches.letters := by
  cases branches with
  | nil => simp [place, letters]
  | cons letter other rest =>
    have later := mem_letters_place rest c child d
    rw [place]
    split
    · simp [letters]
    · simp only [letters, List.mem_cons, later]
      exact or_left_comm

theorem mem_letters_arranged (branches : Branches) (d : Char) :
    d ∈ branches.arranged.letters ↔ d ∈ branches.letters := by
  cases branches with
  | nil => rfl
  | cons letter child rest =>
    rw [arranged, mem_letters_place, mem_letters_arranged rest, letters, List.mem_cons]

theorem mem_letters_store (branches : Branches) (c : Char) (name : List Char) (d : Char) :
    d ∈ (branches.store c name).letters ↔ d = c ∨ d ∈ branches.letters := by
  cases branches with
  | nil => simp [store, letters]
  | cons letter child rest =>
    have later := mem_letters_store rest c name d
    rw [store]
    split
    next same => simp [letters, same]
    · simp only [letters, List.mem_cons, later]
      exact or_left_comm

theorem find?_place (branches : Branches) {c : Char} (absent : c ∉ branches.letters)
    (child : NameTree) (d : Char) :
    (branches.place c child).find? d = if d = c then some child else branches.find? d := by
  cases branches with
  | nil => rfl
  | cons letter other rest =>
    simp only [letters, List.mem_cons, not_or] at absent
    have later := find?_place rest absent.2 child d
    rw [place]
    split
    · rfl
    · simp only [find?, later]
      by_cases here : d = letter
      · subst here
        simp [Ne.symm absent.1]
      · simp [here]

/-- Adding a name below a branch that has been put in its place. -/
theorem insert_place_same (branches : Branches) {c : Char} (absent : c ∉ branches.letters)
    (child : NameTree) (name : List Char) :
    (branches.place c child).insert c name = branches.place c (child.insert name) := by
  cases branches with
  | nil => simp [place, insert]
  | cons letter other rest =>
    simp only [letters, List.mem_cons, not_or] at absent
    have later := insert_place_same rest absent.2 child name
    simp only [place]
    split
    · simp [insert]
    next notBefore => rw [insert, if_neg absent.1, if_neg notBefore, later]

theorem insert_place_other (branches : Branches) {c letter : Char} (other : c ≠ letter)
    (child : NameTree) (name : List Char) :
    (branches.place letter child).insert c name = (branches.insert c name).place letter child := by
  have apart : c.toNat ≠ letter.toNat := fun same => other (Char.toNat_inj.mp same)
  cases branches with
  | nil =>
    simp only [place, insert, if_neg other]
    split <;> split <;> first | rfl | omega
  | cons first sibling rest =>
    have later := insert_place_other rest other child name
    grind [place, insert]

end Branches

theorem NameTree.single_arranged (name : List Char) : (single name).arranged = single name := by
  induction name with
  | nil => rfl
  | cons c rest ih => rw [single, arranged, Branches.arranged, ih]; rfl

theorem NameTree.single_distinct (name : List Char) : (single name).Distinct := by
  induction name with
  | nil => trivial
  | cons c rest ih => exact ⟨by simp [Branches.letters], ih, trivial⟩

mutual

theorem NameTree.store_distinct (tree : NameTree) (distinct : tree.Distinct) (name : List Char) :
    (tree.store name).Distinct := by
  cases tree with
  | node isName branches =>
    cases name with
    | nil => exact distinct
    | cons c rest => exact Branches.store_distinct branches distinct c rest

theorem Branches.store_distinct (branches : Branches) (distinct : branches.Distinct) (c : Char)
    (name : List Char) : (branches.store c name).Distinct := by
  cases branches with
  | nil => exact ⟨by simp [Branches.letters], NameTree.single_distinct name, trivial⟩
  | cons letter child rest =>
    obtain ⟨absent, below, others⟩ := distinct
    rw [Branches.store]
    split
    · exact ⟨absent, NameTree.store_distinct child below name, others⟩
    next other =>
      refine ⟨fun member => ?_, below, Branches.store_distinct rest others c name⟩
      rcases (rest.mem_letters_store c name letter).mp member with same | old
      · exact other same.symm
      · exact absent old

end

mutual

theorem NameTree.arranged_store (tree : NameTree) (distinct : tree.Distinct) (name : List Char) :
    (tree.store name).arranged = tree.arranged.insert name := by
  cases tree with
  | node isName branches =>
    cases name with
    | nil => rfl
    | cons c rest =>
      have deeper := Branches.arranged_store branches distinct c rest
      rw [NameTree.store, NameTree.arranged, deeper]
      rfl

theorem Branches.arranged_store (branches : Branches) (distinct : branches.Distinct) (c : Char)
    (name : List Char) : (branches.store c name).arranged = branches.arranged.insert c name := by
  cases branches with
  | nil =>
    simp [Branches.store, Branches.arranged, NameTree.single_arranged, Branches.place,
      Branches.insert]
  | cons letter child rest =>
    obtain ⟨absent, below, others⟩ := distinct
    rw [Branches.store, Branches.arranged]
    split
    next same =>
      subst same
      rw [Branches.arranged, NameTree.arranged_store child below name,
        Branches.insert_place_same _ (mt (rest.mem_letters_arranged c).mp absent)]
    next other =>
      rw [Branches.arranged, Branches.arranged_store rest others c name,
        Branches.insert_place_other _ other]

end

theorem Branches.find?_distinct (branches : Branches) (distinct : branches.Distinct) {c : Char}
    {child : NameTree} (found : branches.find? c = some child) : child.Distinct := by
  cases branches with
  | nil => cases found
  | cons letter other rest =>
    obtain ⟨-, below, others⟩ := distinct
    rw [find?] at found
    split at found
    · cases found
      exact below
    · exact find?_distinct rest others found

theorem Branches.find?_arranged (branches : Branches) (distinct : branches.Distinct) (c : Char) :
    branches.arranged.find? c = (branches.find? c).map NameTree.arranged := by
  cases branches with
  | nil => rfl
  | cons letter child rest =>
    obtain ⟨absent, -, others⟩ := distinct
    rw [arranged, find?_place _ (mt (rest.mem_letters_arranged letter).mp absent),
      find?_arranged rest others, find?]
    split <;> rfl

theorem NameTree.below?_arranged (tree : NameTree) (distinct : tree.Distinct) (start : List Char) :
    tree.arranged.below? start = (tree.below? start).map arranged := by
  induction start generalizing tree with
  | nil => rfl
  | cons c rest ih =>
    cases tree with
    | node isName branches =>
      rw [arranged, below?_cons, below?_cons, NameTree.branches, NameTree.branches,
        branches.find?_arranged distinct]
      cases found : branches.find? c with
      | none => rfl
      | some child => exact ih child (branches.find?_distinct distinct found)

theorem Branches.length_letters_place (branches : Branches) (c : Char) (child : NameTree) :
    (branches.place c child).letters.length = branches.letters.length + 1 := by
  cases branches with
  | nil => rfl
  | cons letter other rest =>
    have later := length_letters_place rest c child
    rw [place]
    split <;> simp [letters, later]

theorem Branches.length_letters_arranged (branches : Branches) :
    branches.arranged.letters.length = branches.letters.length := by
  cases branches with
  | nil => rfl
  | cons letter child rest =>
    rw [arranged, length_letters_place, length_letters_arranged rest]
    rfl

namespace NameTree

theorem onlyWay_fork {isName : Bool} {branches : Branches} (fork : 2 ≤ branches.letters.length) :
    (node isName branches).onlyWay = [] := by
  cases isName with
  | true => simp [onlyWay]
  | false =>
    cases branches with
    | nil => rfl
    | cons letter child rest =>
      cases rest with
      | nil => simp [Branches.letters] at fork
      | cons second sibling more => simp [onlyWay]

theorem onlyWay_arranged (tree : NameTree) : tree.arranged.onlyWay = tree.onlyWay := by
  cases tree with
  | node isName branches =>
    cases isName with
    | true => simp [arranged, onlyWay]
    | false =>
      cases branches with
      | nil => rfl
      | cons letter child rest =>
        cases rest with
        | nil => exact congrArg (letter :: ·) (onlyWay_arranged child)
        | cons second sibling more =>
          have fork : 2 ≤ (Branches.cons letter child (.cons second sibling more)).letters.length :=
            by simp [Branches.letters]
          rw [arranged, onlyWay_fork fork, onlyWay_fork (by rwa [Branches.length_letters_arranged])]

end NameTree

theorem Branches.names_place (branches : Branches) (c : Char) (child : NameTree)
    (letters : List Char) :
    ((branches.place c child).names letters).Perm
      (child.names (c :: letters) ++ branches.names letters) := by
  cases branches with
  | nil => simp [place, names]
  | cons letter other rest =>
    have later := names_place rest c child letters
    rw [place]
    split
    · simp [names]
    · rw [names, names]
      exact (later.append_left _).trans (List.perm_append_comm_assoc _ _ _)

mutual

/-- Sorting the branches changes only the order in which a walk meets the names. -/
theorem NameTree.names_arranged (tree : NameTree) (letters : List Char) :
    (tree.arranged.names letters).Perm (tree.names letters) := by
  cases tree with
  | node isName branches =>
    have deeper := Branches.names_arranged branches letters
    rw [NameTree.arranged, NameTree.names, NameTree.names]
    split
    · exact deeper.cons _
    · exact deeper

theorem Branches.names_arranged (branches : Branches) (letters : List Char) :
    (branches.arranged.names letters).Perm (branches.names letters) := by
  cases branches with
  | nil => rfl
  | cons letter child rest =>
    have here := NameTree.names_arranged child (letter :: letters)
    have there := Branches.names_arranged rest letters
    rw [Branches.arranged, Branches.names]
    exact (Branches.names_place _ _ _ _).trans (here.append there)

end

def stackNames (stack : List (NameTree × List Char)) : List (List Char) :=
  stack.flatMap fun entry => entry.1.names entry.2.reverse

theorem Branches.stackNames_push (branches : Branches) (text : List Char)
    (stack : List (NameTree × List Char)) :
    (stackNames (branches.push text stack)).Perm
      (branches.names text.reverse ++ stackNames stack) := by
  cases branches with
  | nil => simp [push, names]
  | cons letter child rest =>
    have later := stackNames_push rest text ((child, text ++ [letter]) :: stack)
    rw [push, names]
    refine later.trans ?_
    simp only [stackNames, List.flatMap_cons, List.reverse_append, List.reverse_singleton,
      List.singleton_append, List.append_assoc]
    exact List.perm_append_comm_assoc _ _ _

/-- The loop over the stack finds what a walk meets. -/
theorem collectNames_perm (found : List (List Char)) (stack : List (NameTree × List Char)) :
    (collectNames found stack).Perm (found ++ stackNames stack) := by
  fun_induction collectNames found stack with
  | case1 found => simp [stackNames]
  | case2 found isName branches text stack ih =>
    refine ih.trans ?_
    refine ((branches.stackNames_push text stack).append_left _).trans ?_
    cases isName <;> simp [stackNames, NameTree.names]

namespace StoredIndex

def arranged (index : StoredIndex) : NameIndex :=
  ⟨index.tree.arranged, index.size⟩

section

variable (index : StoredIndex) (distinct : index.tree.Distinct)

include distinct

theorem contains_arranged (name : String) : index.arranged.contains name = index.contains name := by
  rw [NameIndex.contains, arranged, index.tree.below?_arranged distinct, contains]
  cases index.tree.below? name.toList with
  | none => rfl
  | some part => cases part; rfl

theorem arranged_insert (name : String) :
    (index.insert name).arranged = index.arranged.insert name := by
  rw [NameIndex.insert, index.contains_arranged distinct, insert, arranged,
    index.tree.arranged_store distinct]
  rfl

end

theorem arranged_from (names : List String) (index : StoredIndex)
    (distinct : index.tree.Distinct) :
    (names.foldl insert index).tree.Distinct ∧
      (names.foldl insert index).arranged = names.foldl NameIndex.insert index.arranged := by
  induction names generalizing index with
  | nil => exact ⟨distinct, rfl⟩
  | cons name rest ih =>
    have next := ih (index.insert name) (index.tree.store_distinct distinct name.toList)
    rwa [index.arranged_insert distinct] at next

theorem ofNames_distinct (names : List String) : (ofNames names).tree.Distinct :=
  (arranged_from names empty trivial).1

theorem arranged_ofNames (names : List String) :
    (ofNames names).arranged = NameIndex.ofNames names :=
  (arranged_from names empty trivial).2

theorem below?_ofNames (names : List String) (start : List Char) :
    (NameIndex.ofNames names).tree.below? start =
      ((ofNames names).tree.below? start).map NameTree.arranged := by
  rw [← arranged_ofNames]
  exact (ofNames names).tree.below?_arranged (ofNames_distinct names) start

theorem le_of_precedes {first second : String} (before : Precedes first.toList second.toList) :
    first ≤ second := by
  refine le_of_lt (String.lt_iff_toList_lt.mpr ?_)
  exact List.Lex.imp (fun c d lower => lower) _ _ before

/-- What was collected and sorted is what a walk through the sorted branches meets. -/
theorem matching_ofNames (names : List String) (start : String) :
    (ofNames names).matching start = (NameIndex.ofNames names).matching start := by
  have below := below?_ofNames names start.toList
  rw [matching]
  cases found : (ofNames names).tree.below? start.toList with
  | none => simp [NameIndex.matching, below, found]
  | some part =>
    have walk : (NameIndex.ofNames names).matching start =
        (part.arranged.names start.toList.reverse).map String.ofList := by
      simp [NameIndex.matching, below, found]
    have sorted := NameIndex.matching_sorted names start
    rw [walk] at sorted ⊢
    have same : ((collectNames [] [(part, start.toList)]).map String.ofList).Perm
        ((part.arranged.names start.toList.reverse).map String.ofList) := by
      refine List.Perm.map _ ((collectNames_perm _ _).trans ?_)
      simpa [stackNames] using (part.names_arranged start.toList.reverse).symm
    refine ((List.mergeSort_perm _ _).trans same).eq_of_pairwise' ?_ (sorted.imp le_of_precedes)
    exact List.pairwise_mergeSort' (· ≤ ·) _

/-- Whatever names are put in, the index that is kept answers every question as the sorted one
does. -/
theorem ofNames_agrees (names : List String) :
    (ofNames names).size = (NameIndex.ofNames names).size ∧
    (∀ name, (ofNames names).contains name = (NameIndex.ofNames names).contains name) ∧
    (∀ start, (ofNames names).matching start = (NameIndex.ofNames names).matching start) ∧
    ∀ start, (ofNames names).extension start = (NameIndex.ofNames names).extension start := by
  refine ⟨?_, fun name => ?_, matching_ofNames names, fun start => ?_⟩
  · exact congrArg NameIndex.size (arranged_ofNames names)
  · rw [← (ofNames names).contains_arranged (ofNames_distinct names), arranged_ofNames]
  · rw [extension, NameIndex.extension, below?_ofNames, matching_ofNames]
    cases (ofNames names).tree.below? start.toList with
    | none => rfl
    | some part => simp [part.onlyWay_arranged]

end StoredIndex

end CommandShell
