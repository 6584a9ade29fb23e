import Mathlib.Data.List.Lex
import CommandShell.Proofs.NameIndex

/-! What the index offers for some letters: the names that start with them, sorted and each of
them once, and the longest text that all of these names start with. -/
namespace CommandShell

/-- Before, in the order of code points: at the first letter that differs, or as a part that
ends sooner. -/
def Precedes (first second : List Char) : Prop :=
  List.Lex (fun c d => c.toNat < d.toNat) first second

structure LongestShared (names : List String) (text : String) : Prop where
  shared : ∀ name ∈ names, text.toList <+: name.toList
  longest : ∀ other : String, (∀ name ∈ names, other.toList <+: name.toList) →
    other.toList <+: text.toList

theorem Branches.mem_letters_of_find? (branches : Branches) {c : Char} {child : NameTree}
    (found : branches.find? c = some child) : c ∈ branches.letters := by
  by_contra absent
  rw [branches.find?_none absent] at found
  cases found

mutual

/-- A walk through the tree meets the names in order. -/
theorem NameTree.names_sorted (tree : NameTree) (grown : tree.Grown) (letters : List Char) :
    (tree.names letters).Pairwise Precedes := by
  cases tree with
  | node isName branches =>
    have deeper := Branches.names_sorted branches grown letters
    rw [NameTree.names]
    split
    · refine List.pairwise_cons.mpr ⟨fun name member => ?_, deeper⟩
      obtain ⟨c, child, rest, -, -, rfl⟩ := (branches.mem_names grown letters name).mp member
      have longer : Precedes (letters.reverse ++ []) (letters.reverse ++ c :: rest) :=
        List.Lex.append_left _ .nil _
      rwa [List.append_nil] at longer
    · exact deeper

theorem Branches.names_sorted (branches : Branches) (grown : branches.Grown)
    (letters : List Char) : (branches.names letters).Pairwise Precedes := by
  cases branches with
  | nil => exact .nil
  | cons letter child rest =>
    obtain ⟨ordered, -, below, others⟩ := grown
    refine List.pairwise_append.mpr ⟨NameTree.names_sorted child below (letter :: letters),
      Branches.names_sorted rest others letters, fun first here second there => ?_⟩
    obtain ⟨more, -, rfl⟩ := (child.mem_names below (letter :: letters) first).mp here
    obtain ⟨c, branch, other, found, -, rfl⟩ :=
      (rest.mem_names others letters second).mp there
    have later : letter.toNat < c.toNat := ordered c (rest.mem_letters_of_find? found)
    have parting : Precedes (letter :: more) (c :: other) := .rel later
    rw [List.reverse_cons, List.append_assoc, List.singleton_append]
    exact List.Lex.append_left _ parting _

end

namespace NameTree

theorem exists_holds {tree : NameTree} (fruitful : tree.Fruitful) (grown : tree.Grown) :
    ∃ rest, tree.holds rest = true := by
  obtain ⟨name, member⟩ := List.exists_mem_of_ne_nil _ (tree.names_ne_nil fruitful grown [])
  obtain ⟨rest, held, -⟩ := (tree.mem_names grown [] name).mp member
  exact ⟨rest, held⟩

theorem fruitful_of_holds {tree : NameTree} {rest : List Char} (held : tree.holds rest = true) :
    tree.Fruitful := by
  cases rest with
  | nil => exact .inl held
  | cons c more =>
    refine .inr fun barren => ?_
    rw [holds_cons, barren] at held
    cases held

/-- Where there is no name there is no way on. -/
theorem onlyWay_of_not_fruitful (tree : NameTree) (barren : ¬ tree.Fruitful) :
    tree.onlyWay = [] := by
  match tree with
  | .node true _ | .node false .nil => rfl
  | .node false (.cons _ _ _) => exact absurd (.inr (by simp [branches])) barren

/-- Every name of the tree takes the only way. -/
theorem onlyWay_shared (tree : NameTree) {rest : List Char} (held : tree.holds rest = true) :
    tree.onlyWay <+: rest := by
  match tree with
  | .node true _ => exact List.nil_prefix
  | .node false .nil => exact List.nil_prefix
  | .node false (.cons _ _ (.cons _ _ _)) => exact List.nil_prefix
  | .node false (.cons letter child .nil) =>
    cases rest with
    | nil => cases held
    | cons c more =>
      rw [holds_cons, branches, Branches.find?] at held
      split at held
      next same =>
        subst same
        exact List.cons_prefix_cons.mpr ⟨rfl, onlyWay_shared child held⟩
      next => cases held

/-- Letters that every name of the tree starts with stay on the only way: it stops only where a
name ends or where two names part. -/
theorem onlyWay_longest (tree : NameTree) (fruitful : tree.Fruitful) (grown : tree.Grown)
    {other : List Char} (shared : ∀ rest, tree.holds rest = true → other <+: rest) :
    other <+: tree.onlyWay := by
  match tree with
  | .node true _ => exact shared [] rfl
  | .node false .nil => simp [Fruitful, isName, branches] at fruitful
  | .node false (.cons letter child .nil) =>
    obtain ⟨-, below, deeper, -⟩ := grown
    cases other with
    | nil => exact List.nil_prefix
    | cons c more =>
      have under (rest : List Char) (held : child.holds rest = true) :
          c :: more <+: letter :: rest :=
        shared (letter :: rest) (by simpa [holds_cons, branches, Branches.find?] using held)
      obtain ⟨rest, held⟩ := exists_holds below deeper
      obtain ⟨rfl, -⟩ := List.cons_prefix_cons.mp (under rest held)
      refine List.cons_prefix_cons.mpr ⟨rfl, onlyWay_longest child below deeper ?_⟩
      intro rest held
      exact (List.cons_prefix_cons.mp (under rest held)).2
  | .node false (.cons letter child (.cons second sibling more)) =>
    obtain ⟨ordered, below, deeper, -, otherBelow, otherDeeper, -⟩ := grown
    have apart : second ≠ letter := by
      rintro rfl
      exact Nat.lt_irrefl _ (ordered second (by simp [Branches.letters]))
    obtain ⟨rest, held⟩ := exists_holds below deeper
    obtain ⟨others, otherHeld⟩ := exists_holds otherBelow otherDeeper
    have first : other <+: letter :: rest :=
      shared _ (by simpa [holds_cons, branches, Branches.find?] using held)
    have next : other <+: second :: others :=
      shared _ (by simpa [holds_cons, branches, Branches.find?, apart] using otherHeld)
    cases other with
    | nil => exact List.nil_prefix
    | cons c tail =>
      obtain ⟨rfl, -⟩ := List.cons_prefix_cons.mp first
      obtain ⟨rfl, -⟩ := List.cons_prefix_cons.mp next
      exact absurd rfl apart

end NameTree

namespace NameIndex

theorem below?_ofNames_grown {names : List String} {start : List Char} {part : NameTree}
    (found : (ofNames names).tree.below? start = some part) : part.Grown := by
  cases start with
  | nil =>
    cases found
    exact ofNames_grown names
  | cons c rest => exact (NameTree.below?_grown (ofNames_grown names) (by simp) found).2

/-- The names that start with some letters come sorted, each of them once. -/
theorem matching_sorted (names : List String) (start : String) :
    ((ofNames names).matching start).Pairwise fun first second =>
      Precedes first.toList second.toList := by
  rw [matching]
  split
  next part found =>
    rw [List.pairwise_map]
    simpa using part.names_sorted (below?_ofNames_grown found) start.toList.reverse
  next => exact .nil

/-- The names that start with some letters are what the tree holds below them. -/
theorem mem_matching_iff_holds {names : List String} {start : String} {part : NameTree}
    (found : (ofNames names).tree.below? start.toList = some part) (name : String) :
    name ∈ (ofNames names).matching start ↔
      ∃ rest, part.holds rest = true ∧ name.toList = start.toList ++ rest := by
  rw [mem_matching]
  constructor
  · rintro ⟨member, rest, whole⟩
    refine ⟨rest, ?_, whole.symm⟩
    rw [← NameTree.holds_append found, holds_ofNames, whole, String.ofList_toList]
    exact member
  · rintro ⟨rest, held, whole⟩
    rw [← NameTree.holds_append found, holds_ofNames, ← whole, String.ofList_toList] at held
    exact ⟨held, rest, whole.symm⟩

/-- The only way below some letters leads to the longest text that the names there share. -/
theorem longestShared_below {names : List String} {start : String} {part : NameTree}
    (found : (ofNames names).tree.below? start.toList = some part) (fruitful : part.Fruitful) :
    LongestShared ((ofNames names).matching start) (start ++ String.ofList part.onlyWay) := by
  have member := mem_matching_iff_holds found
  constructor
  · intro name offered
    obtain ⟨rest, held, whole⟩ := (member name).mp offered
    rw [String.toList_append, String.toList_ofList, whole]
    exact (List.prefix_append_right_inj _).mpr (part.onlyWay_shared held)
  · intro other shared
    rw [String.toList_append, String.toList_ofList]
    have starts (rest : List Char) (held : part.holds rest = true) :
        other.toList <+: start.toList ++ rest := by
      have named := shared (String.ofList (start.toList ++ rest))
        ((member _).mpr ⟨rest, held, String.toList_ofList⟩)
      rwa [String.toList_ofList] at named
    obtain ⟨rest, held⟩ := NameTree.exists_holds fruitful (below?_ofNames_grown found)
    -- a shared text ends within the given letters or goes on below them
    rcases List.prefix_or_prefix_of_prefix (starts rest held) (List.prefix_append _ rest) with
      within | ⟨more, beyond⟩
    · exact within.trans (List.prefix_append _ _)
    · rw [← beyond] at starts ⊢
      refine (List.prefix_append_right_inj _).mpr
        (part.onlyWay_longest fruitful (below?_ofNames_grown found) ?_)
      intro rest held
      exact (List.prefix_append_right_inj _).mp (starts rest held)

/-- Whatever names were put in, in whatever order and however often: for some letters the index
gives the names that start with them, sorted and each once, and adds just what takes the letters
to the longest text that all of these names share. -/
theorem extension_reaches_longest_shared (names : List String) (start : String) :
    let added := ((ofNames names).extension start).1
    let found := ((ofNames names).extension start).2
    (∀ name, name ∈ found ↔ name ∈ names ∧ start.toList <+: name.toList) ∧
    (found.Pairwise fun first second => Precedes first.toList second.toList) ∧
    (found = [] → added = "") ∧
    (found ≠ [] → LongestShared found (start ++ added)) := by
  intro added found
  have offered : found = (ofNames names).matching start := Completer.extension_names _ start
  rw [offered]
  refine ⟨mem_matching names start, matching_sorted names start, ?_⟩
  cases below : (ofNames names).tree.below? start.toList with
  | none =>
    have nothing : (ofNames names).extension start = ("", []) := by rw [extension, below]
    refine ⟨fun _ => congrArg Prod.fst nothing, fun some => absurd ?_ some⟩
    rw [← offered]
    exact congrArg Prod.snd nothing
  | some part =>
    have way : added = String.ofList part.onlyWay := by simp only [added, extension, below]
    rw [way]
    by_cases fruitful : part.Fruitful
    · refine ⟨fun none => ?_, fun _ => longestShared_below below fruitful⟩
      obtain ⟨rest, held⟩ := NameTree.exists_holds fruitful (below?_ofNames_grown below)
      have member := (mem_matching_iff_holds below (String.ofList (start.toList ++ rest))).mpr
        ⟨rest, held, String.toList_ofList⟩
      rw [none] at member
      cases member
    · refine ⟨fun _ => by rw [part.onlyWay_of_not_fruitful fruitful], fun some => ?_⟩
      obtain ⟨name, member⟩ := List.exists_mem_of_ne_nil _ some
      obtain ⟨rest, held, -⟩ := (mem_matching_iff_holds below name).mp member
      exact absurd (NameTree.fruitful_of_holds held) fruitful

/-- Names that were put in twice, are part of one another, or are empty. -/
theorem extension_reaches_longest_shared_nested :
    (ofNames ["echoes", "exit", "echo", "", "echoes"]).extension "ec" =
        ("ho", ["echo", "echoes"]) ∧
      LongestShared ["echo", "echoes"] "echo" := by
  have offered : (ofNames ["echoes", "exit", "echo", "", "echoes"]).extension "ec" =
      ("ho", ["echo", "echoes"]) := by decide +kernel
  have reached := (extension_reaches_longest_shared
    ["echoes", "exit", "echo", "", "echoes"] "ec").2.2.2
  rw [offered] at reached
  exact ⟨offered, reached (by simp)⟩

end NameIndex

end CommandShell
