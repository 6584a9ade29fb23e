import CommandShell.Completion.Completer

/-! Where the letters of a completion come from: every letter of a name, of an extension
and of a list of candidates is one that was typed or one that stands in the index. -/
namespace CommandShell

variable (p : Char → Prop)

mutual

def NameTree.All : NameTree → Prop
  | .node _ branches => branches.All

def Branches.All : Branches → Prop
  | .nil => True
  | .cons letter child rest => p letter ∧ child.All ∧ rest.All

end

variable {p}

theorem NameTree.single_all (name : List Char) (letters : ∀ c ∈ name, p c) :
    (NameTree.single name).All p := by
  induction name with
  | nil => simp [single, All, Branches.All]
  | cons c rest ih =>
    have below := ih (fun d inside => letters d (by simp [inside]))
    simp [single, All, Branches.All, letters c (by simp), below]

mutual

theorem NameTree.insert_all (tree : NameTree) (name : List Char) (letters : ∀ c ∈ name, p c)
    (all : tree.All p) : (tree.insert name).All p := by
  cases tree with
  | node isName branches =>
    cases name with
    | nil => simpa [NameTree.insert, NameTree.All] using all
    | cons c rest =>
      simp only [NameTree.insert, NameTree.All] at all ⊢
      exact Branches.insert_all branches c rest (letters c (by simp))
        (fun d inside => letters d (by simp [inside])) all

theorem Branches.insert_all (branches : Branches) (c : Char) (name : List Char) (first : p c)
    (letters : ∀ d ∈ name, p d) (all : branches.All p) : (branches.insert c name).All p := by
  cases branches with
  | nil => simp [Branches.insert, Branches.All, first, NameTree.single_all name letters]
  | cons letter child rest =>
    obtain ⟨here, below, others⟩ := all
    simp only [Branches.insert]
    split
    · exact ⟨here, NameTree.insert_all child name letters below, others⟩
    · split
      · exact ⟨first, NameTree.single_all name letters, here, below, others⟩
      · exact ⟨here, below, Branches.insert_all rest c name first letters others⟩

end

theorem Branches.find_all {c : Char} {child : NameTree} (branches : Branches)
    (all : branches.All p) (found : branches.find? c = some child) : child.All p := by
  cases branches with
  | nil => simp [find?] at found
  | cons letter other rest =>
    obtain ⟨-, below, others⟩ := all
    simp only [find?] at found
    split at found
    · cases found
      exact below
    · exact find_all rest others found

theorem NameTree.below_all {tree part : NameTree} (start : List Char) (all : tree.All p)
    (found : tree.below? start = some part) : part.All p := by
  induction start generalizing tree with
  | nil =>
    cases found
    exact all
  | cons c rest ih =>
    have here : tree.branches.All p := by cases tree; exact all
    simp only [below?] at found
    split at found
    next child reached => exact ih (Branches.find_all _ here reached) found
    · cases found

mutual

theorem NameTree.names_all (tree : NameTree) (letters : List Char) (typed : ∀ c ∈ letters, p c)
    (all : tree.All p) : ∀ name ∈ tree.names letters, ∀ c ∈ name, p c := by
  cases tree with
  | node isName branches =>
    have below := Branches.names_all branches letters typed all
    intro name member
    simp only [NameTree.names] at member
    split at member
    · rcases List.mem_cons.mp member with rfl | deeper
      · simpa using typed
      · exact below name deeper
    · exact below name member

theorem Branches.names_all (branches : Branches) (letters : List Char)
    (typed : ∀ c ∈ letters, p c) (all : branches.All p) :
    ∀ name ∈ branches.names letters, ∀ c ∈ name, p c := by
  cases branches with
  | nil => simp [Branches.names]
  | cons letter child rest =>
    obtain ⟨here, below, others⟩ := all
    intro name member
    simp only [Branches.names, List.mem_append] at member
    rcases member with inside | later
    · exact NameTree.names_all child (letter :: letters) (by simpa using ⟨here, typed⟩) below
        name inside
    · exact Branches.names_all rest letters typed others name later

end

theorem NameTree.onlyWay_all (tree : NameTree) (all : tree.All p) : ∀ c ∈ tree.onlyWay, p c := by
  fun_induction onlyWay tree with
  | case1 letter child ih =>
    obtain ⟨here, below, -⟩ := all
    simpa using ⟨here, ih below⟩
  | case2 => simp

namespace NameIndex

theorem ofNames_all (names : List String) (letters : ∀ name ∈ names, ∀ c ∈ name.toList, p c) :
    (ofNames names).tree.All p := by
  have run (index : NameIndex) (all : index.tree.All p) :
      (names.foldl insert index).tree.All p := by
    induction names generalizing index with
    | nil => exact all
    | cons name rest ih =>
      exact ih (fun other inside => letters other (by simp [inside])) _
        (NameTree.insert_all _ _ (letters name (by simp)) all)
  exact run empty (by simp [empty, NameTree.All, Branches.All])

theorem extension_all {index : NameIndex} {start suffix : String} {names : List String}
    (all : index.tree.All p) (typed : ∀ c ∈ start.toList, p c)
    (extended : index.extension start = (suffix, names)) :
    (∀ c ∈ suffix.toList, p c) ∧ ∀ name ∈ names, ∀ c ∈ name.toList, p c := by
  simp only [extension, matching] at extended
  split at extended
  next part found =>
    have below := NameTree.below_all _ all found
    obtain ⟨rfl, rfl⟩ := Prod.mk.inj extended
    refine ⟨by simpa using NameTree.onlyWay_all part below, fun name member => ?_⟩
    obtain ⟨letters, inside, rfl⟩ := List.mem_map.mp member
    simpa using NameTree.names_all part _ (by simpa using typed) below letters inside
  · obtain ⟨rfl, rfl⟩ := Prod.mk.inj extended
    simp

end NameIndex

namespace Completion

def All (p : Char → Prop) : Completion → Prop
  | .none => True
  | .unique insertion _ | .extended insertion _ => ∀ c ∈ insertion.toList, p c
  | .ambiguous names => ∀ name ∈ names, ∀ c ∈ name.toList, p c

end Completion

theorem Completer.complete_all (completer : Completer) (buffer : String) (blank : p ' ')
    (all : completer.index.tree.All p) (typed : ∀ c ∈ buffer.toList, p c) :
    (completer.complete buffer).All p := by
  unfold complete
  split
  · trivial
  · cases extended : completer.index.extension buffer with
    | mk suffix names =>
      obtain ⟨added, listed⟩ := NameIndex.extension_all all typed extended
      have space : " ".toList = [' '] := by decide
      match names with
      | [] => trivial
      | [name] =>
        intro c member
        rcases List.mem_append.mp (String.toList_append ▸ member) with inside | last
        · exact added c inside
        · rw [space] at last
          obtain rfl := List.mem_singleton.mp last
          exact blank
      | first :: second :: rest =>
        simp only
        split
        · exact listed
        · exact added

end CommandShell
