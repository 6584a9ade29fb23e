import CommandShell.Completion.Completer

/-! What the index of names answers: it holds exactly the names that were put into it, whatever
their order, and the only way on from some letters leads to the one name that starts with them. -/
namespace CommandShell

namespace NameTree

def holds (tree : NameTree) (name : List Char) : Bool :=
  match tree.below? name with
  | some part => part.isName
  | none => false

def Fruitful (tree : NameTree) : Prop :=
  tree.isName = true ∨ tree.branches ≠ .nil

end NameTree

def Branches.letters : Branches → List Char
  | .nil => []
  | .cons letter _ rest => letter :: rest.letters

mutual

/-- Everywhere in the tree the branches are in order, and none of them is a dead end. -/
def NameTree.Grown : NameTree → Prop
  | .node _ branches => branches.Grown

def Branches.Grown : Branches → Prop
  | .nil => True
  | .cons letter child rest =>
    (∀ later ∈ rest.letters, letter.toNat < later.toNat) ∧ child.Fruitful ∧ child.Grown ∧ rest.Grown

end

namespace NameTree

theorem single_fruitful (name : List Char) : (single name).Fruitful := by
  cases name with
  | nil => exact .inl rfl
  | cons c rest => exact .inr (by simp [single, branches])

theorem single_grown (name : List Char) : (single name).Grown := by
  induction name with
  | nil => trivial
  | cons c rest ih => exact ⟨by simp [Branches.letters], single_fruitful rest, ih, trivial⟩

theorem single_holds (name other : List Char) :
    (single name).holds other = decide (other = name) := by
  induction name generalizing other with
  | nil =>
    cases other with
    | nil => rfl
    | cons d more => rfl
  | cons c rest ih =>
    cases other with
    | nil => rfl
    | cons d more =>
      have later := ih more
      by_cases same : d = c
      · simpa [holds, single, below?, branches, Branches.find?, same] using later
      · simp [holds, single, below?, branches, Branches.find?, same]

end NameTree

namespace Branches

theorem find?_none (branches : Branches) {c : Char} (absent : c ∉ branches.letters) :
    branches.find? c = none := by
  cases branches with
  | nil => rfl
  | cons letter child rest =>
    simp only [letters, List.mem_cons, not_or] at absent
    rw [find?, if_neg absent.1]
    exact find?_none rest absent.2

theorem mem_letters_insert (branches : Branches) (c : Char) (name : List Char) (d : Char) :
    d ∈ (branches.insert c name).letters ↔ d = c ∨ d ∈ branches.letters := by
  cases branches with
  | nil => simp [insert, letters]
  | cons letter child rest =>
    have later := mem_letters_insert rest c name d
    rw [insert]
    split
    next same => simp [letters, same]
    · split
      · simp [letters]
      · simp only [letters, List.mem_cons, later]
        exact or_left_comm

/-- Putting a name in changes the branch of its first letter and no other. -/
theorem find?_insert (branches : Branches) (grown : branches.Grown) (c : Char) (name : List Char)
    (d : Char) :
    (branches.insert c name).find? d =
      if d = c then some ((branches.find? c).elim (NameTree.single name) (NameTree.insert name))
      else branches.find? d := by
  cases branches with
  | nil => rfl
  | cons letter child rest =>
    obtain ⟨ordered, -, -, others⟩ := grown
    have later := find?_insert rest others c name d
    rw [insert]
    split
    next same =>
      subst same
      by_cases here : d = c <;> simp [find?, here]
    next other =>
      split
      next before =>
        have absent : c ∉ (cons letter child rest).letters := by
          simp only [letters, List.mem_cons, not_or]
          refine ⟨other, fun member => ?_⟩
          have := ordered c member
          omega
        rw [find?_none _ absent]
        rfl
      · by_cases here : d = letter
        · subst here
          simp [find?, Ne.symm other]
        · simp only [find?, here, other, if_false, later]

end Branches

theorem NameTree.insert_fruitful (tree : NameTree) (name : List Char) :
    (tree.insert name).Fruitful := by
  cases tree with
  | node isName branches =>
    cases name with
    | nil => exact .inl rfl
    | cons c rest =>
      refine .inr ?_
      cases branches with
      | nil => simp [insert, NameTree.branches, Branches.insert]
      | cons letter child others =>
        simp only [insert, NameTree.branches, Branches.insert]
        split
        · simp
        · split <;> simp

mutual

theorem NameTree.insert_grown (tree : NameTree) (grown : tree.Grown) (name : List Char) :
    (tree.insert name).Grown := by
  cases tree with
  | node isName branches =>
    cases name with
    | nil => exact grown
    | cons c rest => exact Branches.insert_grown branches grown c rest

theorem Branches.insert_grown (branches : Branches) (grown : branches.Grown) (c : Char)
    (name : List Char) : (branches.insert c name).Grown := by
  cases branches with
  | nil =>
    exact ⟨by simp [Branches.letters], NameTree.single_fruitful name, NameTree.single_grown name,
      trivial⟩
  | cons letter child rest =>
    obtain ⟨ordered, fruitful, below, others⟩ := grown
    rw [Branches.insert]
    split
    · exact ⟨ordered, NameTree.insert_fruitful child name, NameTree.insert_grown child below name,
        others⟩
    next other =>
      split
      next before =>
        refine ⟨fun later member => ?_, NameTree.single_fruitful name, NameTree.single_grown name,
          ordered, fruitful, below, others⟩
        rcases List.mem_cons.mp member with rfl | deeper
        · exact before
        · exact Nat.lt_trans before (ordered later deeper)
      next notBefore =>
        refine ⟨fun later member => ?_, fruitful, below, Branches.insert_grown rest others c name⟩
        rcases (rest.mem_letters_insert c name later).mp member with rfl | old
        · have apart : later.toNat ≠ letter.toNat := fun same => other (Char.toNat_inj.mp same)
          omega
        · exact ordered later old

end

theorem Branches.find?_grown (branches : Branches) (grown : branches.Grown) {c : Char}
    {child : NameTree} (found : branches.find? c = some child) : child.Fruitful ∧ child.Grown := by
  cases branches with
  | nil => cases found
  | cons letter other rest =>
    obtain ⟨-, fruitful, below, others⟩ := grown
    rw [find?] at found
    split at found
    · cases found
      exact ⟨fruitful, below⟩
    · exact find?_grown rest others found

namespace NameTree

theorem below?_cons (tree : NameTree) (c : Char) (rest : List Char) :
    tree.below? (c :: rest) = (tree.branches.find? c).bind (below? · rest) := by
  rw [below?]
  cases tree.branches.find? c <;> rfl

theorem below?_append (tree : NameTree) (first second : List Char) :
    tree.below? (first ++ second) = (tree.below? first).bind (below? · second) := by
  induction first generalizing tree with
  | nil => rfl
  | cons c rest ih =>
    rw [List.cons_append, below?_cons, below?_cons]
    cases tree.branches.find? c with
    | none => rfl
    | some child => exact ih child

theorem holds_cons (tree : NameTree) (c : Char) (rest : List Char) :
    tree.holds (c :: rest) = (tree.branches.find? c).elim false (holds · rest) := by
  rw [holds, below?_cons]
  cases tree.branches.find? c <;> rfl

theorem holds_append {tree part : NameTree} {start : List Char}
    (found : tree.below? start = some part) (rest : List Char) :
    tree.holds (start ++ rest) = part.holds rest := by
  rw [holds, below?_append, found]
  rfl

theorem grown_branches {tree : NameTree} (grown : tree.Grown) : tree.branches.Grown := by
  cases tree
  exact grown

/-- Below the first letter there is no dead end. -/
theorem below?_grown {tree part : NameTree} {start : List Char} (grown : tree.Grown)
    (nonempty : start ≠ []) (found : tree.below? start = some part) :
    part.Fruitful ∧ part.Grown := by
  induction start generalizing tree with
  | nil => contradiction
  | cons c rest ih =>
    rw [below?_cons] at found
    obtain ⟨child, branch, deeper⟩ := Option.bind_eq_some_iff.mp found
    have below := tree.branches.find?_grown (grown_branches grown) branch
    cases rest with
    | nil =>
      cases deeper
      exact below
    | cons d rest => exact ih below.2 (by simp) deeper

/-- Putting a name in adds that name to what the tree holds. -/
theorem holds_insert (tree : NameTree) (grown : tree.Grown) (name other : List Char) :
    (tree.insert name).holds other = (decide (other = name) || tree.holds other) := by
  induction name generalizing tree other with
  | nil =>
    cases tree with
    | node isName branches =>
      cases other with
      | nil => simp [insert, holds, below?, NameTree.isName]
      | cons d more => simp [insert, holds_cons, NameTree.branches]
  | cons c rest ih =>
    cases tree with
    | node isName branches =>
      cases other with
      | nil => simp [insert, holds, below?, NameTree.isName]
      | cons d more =>
        simp only [insert, holds_cons, NameTree.branches, branches.find?_insert grown]
        by_cases same : d = c
        · subst same
          cases found : branches.find? d with
          | none => simp [single_holds]
          | some child => simp [ih child (branches.find?_grown grown found).2]
        · simp [same]

end NameTree

mutual

/-- A walk through the tree meets each name that it holds, after the letters that lead there. -/
theorem NameTree.mem_names (tree : NameTree) (grown : tree.Grown) (letters name : List Char) :
    name ∈ tree.names letters ↔
      ∃ rest, tree.holds rest = true ∧ name = letters.reverse ++ rest := by
  cases tree with
  | node isName branches =>
    have deeper : name ∈ branches.names letters ↔
        ∃ c more, (NameTree.node isName branches).holds (c :: more) = true ∧
          name = letters.reverse ++ c :: more := by
      rw [Branches.mem_names branches grown letters name]
      constructor
      · rintro ⟨c, child, more, found, held, rfl⟩
        exact ⟨c, more, by rw [NameTree.holds_cons, NameTree.branches, found]; exact held, rfl⟩
      · rintro ⟨c, more, held, rfl⟩
        rw [NameTree.holds_cons, NameTree.branches] at held
        cases found : branches.find? c with
        | none => simp [found] at held
        | some child => exact ⟨c, child, more, found, by simpa [found] using held, rfl⟩
    have ends : (NameTree.node isName branches).holds [] = isName := rfl
    have here : name ∈ (NameTree.node isName branches).names letters ↔
        isName = true ∧ name = letters.reverse ∨ name ∈ branches.names letters := by
      rw [NameTree.names]
      cases isName <;> simp
    rw [here, deeper]
    constructor
    · rintro (⟨named, rfl⟩ | ⟨c, more, held, rfl⟩)
      · exact ⟨[], ends.trans named, by simp⟩
      · exact ⟨c :: more, held, rfl⟩
    · rintro ⟨rest, held, rfl⟩
      cases rest with
      | nil => exact .inl ⟨ends.symm.trans held, by simp⟩
      | cons c more => exact .inr ⟨c, more, held, rfl⟩

theorem Branches.mem_names (branches : Branches) (grown : branches.Grown)
    (letters name : List Char) :
    name ∈ branches.names letters ↔ ∃ c child rest, branches.find? c = some child ∧
      child.holds rest = true ∧ name = letters.reverse ++ c :: rest := by
  cases branches with
  | nil => simp [Branches.names, Branches.find?]
  | cons letter child others =>
    obtain ⟨ordered, -, below, later⟩ := grown
    have here := NameTree.mem_names child below (letter :: letters) name
    have there := Branches.mem_names others later letters name
    rw [Branches.names, List.mem_append, here, there]
    constructor
    · rintro (⟨rest, held, rfl⟩ | ⟨c, other, rest, found, held, rfl⟩)
      · exact ⟨letter, child, rest, by simp [Branches.find?], held, by simp⟩
      · refine ⟨c, other, rest, ?_, held, rfl⟩
        have apart : c ≠ letter := by
          rintro rfl
          have absent : c ∉ others.letters := fun member => Nat.lt_irrefl _ (ordered c member)
          rw [Branches.find?_none others absent] at found
          cases found
        rw [Branches.find?, if_neg apart, found]
    · rintro ⟨c, other, rest, found, held, rfl⟩
      rw [Branches.find?] at found
      split at found
      next same =>
        subst same
        cases found
        exact .inl ⟨rest, held, by simp⟩
      · exact .inr ⟨c, other, rest, found, held, rfl⟩

end

namespace NameTree

theorem names_ne_nil (tree : NameTree) (fruitful : tree.Fruitful) (grown : tree.Grown)
    (letters : List Char) : tree.names letters ≠ [] := by
  cases tree with
  | node isName branches =>
    cases isName with
    | true => simp [names]
    | false =>
      cases branches with
      | nil => simp [Fruitful, NameTree.isName, NameTree.branches] at fruitful
      | cons letter child rest =>
        obtain ⟨-, below, deeper, -⟩ := grown
        have more := names_ne_nil child below deeper (letter :: letters)
        simp [names, Branches.names, more]

/-- Where one name is left, the only way on leads to its end. -/
theorem onlyWay_of_single (tree : NameTree) {letters name : List Char} (fruitful : tree.Fruitful)
    (grown : tree.Grown) (single : tree.names letters = [name]) :
    name = letters.reverse ++ tree.onlyWay := by
  match tree with
  | .node true branches =>
    simp only [names, if_true, List.cons.injEq] at single
    simp [onlyWay, single.1]
  | .node false .nil => simp [Fruitful, NameTree.isName, NameTree.branches] at fruitful
  | .node false (.cons letter child .nil) =>
    obtain ⟨-, below, deeper, -⟩ := grown
    have rest : child.names (letter :: letters) = [name] := by
      simpa [names, Branches.names] using single
    rw [onlyWay, onlyWay_of_single child below deeper rest]
    simp
  | .node false (.cons letter child (.cons second other more)) =>
    obtain ⟨-, below, deeper, -, otherBelow, otherDeeper, -⟩ := grown
    have first := List.length_pos_iff.mpr (names_ne_nil child below deeper (letter :: letters))
    have next := List.length_pos_iff.mpr
      (names_ne_nil other otherBelow otherDeeper (second :: letters))
    have total := congrArg List.length single
    simp only [names, Branches.names, Bool.false_eq_true, if_false, List.length_append,
      List.length_singleton] at total
    omega

end NameTree

namespace NameIndex

theorem ofNames_from (names : List String) (index : NameIndex) (grown : index.tree.Grown) :
    (names.foldl insert index).tree.Grown ∧ ∀ name : List Char,
      ((names.foldl insert index).tree.holds name = true ↔
        index.tree.holds name = true ∨ String.ofList name ∈ names) := by
  induction names generalizing index with
  | nil => simpa using grown
  | cons first rest ih =>
    obtain ⟨after, held⟩ := ih (index.insert first) (index.tree.insert_grown grown first.toList)
    refine ⟨after, fun name => ?_⟩
    have same : name = first.toList ↔ String.ofList name = first := by
      constructor
      · rintro rfl
        simp
      · rintro rfl
        simp
    rw [List.foldl_cons, held, insert, NameTree.holds_insert _ grown]
    simp only [Bool.or_eq_true, decide_eq_true_eq, same, List.mem_cons, or_assoc]
    exact or_left_comm

theorem ofNames_grown (names : List String) : (ofNames names).tree.Grown :=
  (ofNames_from names empty trivial).1

theorem holds_ofNames (names : List String) (name : List Char) :
    (ofNames names).tree.holds name = true ↔ String.ofList name ∈ names := by
  have nothing : empty.tree.holds name = false := by cases name <;> rfl
  rw [ofNames, (ofNames_from names empty trivial).2, nothing]
  simp

/-- The index holds exactly the names that were put into it. -/
theorem contains_ofNames (names : List String) (name : String) :
    (ofNames names).contains name = true ↔ name ∈ names := by
  have held := holds_ofNames names name.toList
  rwa [String.ofList_toList] at held

/-- The names that start with some letters are found below those letters. -/
theorem mem_matching (names : List String) (start name : String) :
    name ∈ (ofNames names).matching start ↔ name ∈ names ∧ start.toList <+: name.toList := by
  have grown := ofNames_grown names
  have held (rest : List Char) := holds_ofNames names (start.toList ++ rest)
  rw [matching]
  cases found : (ofNames names).tree.below? start.toList with
  | none =>
    simp only [List.not_mem_nil, false_iff, not_and]
    rintro member ⟨rest, whole⟩
    have present := (held rest).mpr (by rwa [whole, String.ofList_toList])
    rw [NameTree.holds, NameTree.below?_append, found] at present
    cases present
  | some part =>
    have deeper : part.Grown := by
      by_cases empty : start.toList = []
      · rw [empty] at found
        cases found
        exact grown
      · exact (NameTree.below?_grown grown empty found).2
    simp only [List.mem_map, part.mem_names deeper, List.reverse_reverse]
    constructor
    · rintro ⟨_, ⟨rest, below, rfl⟩, rfl⟩
      rw [← NameTree.holds_append found, held] at below
      exact ⟨below, rest, by simp⟩
    · rintro ⟨member, rest, whole⟩
      refine ⟨name.toList, ⟨rest, ?_, whole.symm⟩, by simp⟩
      rw [← NameTree.holds_append found, held, whole, String.ofList_toList]
      exact member

end NameIndex

def Completion.names : Completion → List String
  | .none => []
  | .unique _ name => [name]
  | .extended _ names | .ambiguous names => names

namespace Completer

theorem extension_names (index : NameIndex) (start : String) :
    (index.extension start).2 = index.matching start := by
  rw [NameIndex.extension, NameIndex.matching]
  cases index.tree.below? start.toList <;> rfl

/-- Only names that start with the buffer are offered. -/
theorem complete_names (completer : Completer) (buffer : String) :
    (completer.complete buffer).names ⊆ completer.index.matching buffer := by
  rw [complete]
  split
  · simp [Completion.names]
  · rw [← extension_names]
    cases completer.index.extension buffer with
    | mk suffix names =>
      match names with
      | [] => simp [Completion.names]
      | [name] => simp [Completion.names]
      | first :: second :: rest =>
        simp only
        split <;> simp [Completion.names]

/-- The one name that starts with the buffer is what the buffer becomes, with a blank after it. -/
theorem complete_unique {names builtins : List String} {buffer insertion name : String}
    (unique : (⟨builtins, .ofNames names⟩ : Completer).complete buffer =
      .unique insertion name) :
    buffer.toList ≠ [] ∧ (∀ c ∈ buffer.toList, Text.isBlank c = false) ∧
      buffer ++ insertion = name ++ " " := by
  rw [complete] at unique
  split at unique
  · cases unique
  next shown =>
    simp only [Bool.or_eq_true, decide_eq_true_eq, List.any_eq_true, not_or, not_exists,
      not_and, Bool.not_eq_true] at shown
    obtain ⟨nonempty, plain⟩ := shown
    have letters : buffer.toList ≠ [] := by simpa using nonempty
    refine ⟨letters, plain, ?_⟩
    rw [NameIndex.extension, NameIndex.matching] at unique
    cases found : (NameIndex.ofNames names).tree.below? buffer.toList with
    | none => simp [found] at unique
    | some part =>
      obtain ⟨fruitful, grown⟩ :=
        NameTree.below?_grown (NameIndex.ofNames_grown names) letters found
      simp only [found] at unique
      split at unique
      · cases unique
      next single =>
        cases unique
        obtain ⟨whole, only, rfl⟩ := List.map_eq_singleton_iff.mp single
        rw [part.onlyWay_of_single fruitful grown only]
        simp [String.append_assoc]
      · split at unique <;> cases unique

end Completer

end CommandShell
