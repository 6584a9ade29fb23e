import Mathlib.Data.Finset.Card
import CommandShell.Proofs.NameExtension

/-! The index of names is a set of names. Its tree is a canonical form: branches in order without a
dead end leave one tree for each set of names, so neither the order in which names were put in nor
how often can be seen afterwards. -/
namespace CommandShell

namespace Branches

def holdsAt (branches : Branches) (c : Char) (rest : List Char) : Bool :=
  (branches.find? c).elim false (NameTree.holds · rest)

theorem holdsAt_head (letter : Char) (child : NameTree) (others : Branches) (rest : List Char) :
    (cons letter child others).holdsAt letter rest = child.holds rest := by
  simp [holdsAt, find?]

theorem holdsAt_tail {c letter : Char} (other : c ≠ letter) (child : NameTree) (others : Branches)
    (rest : List Char) : (cons letter child others).holdsAt c rest = others.holdsAt c rest := by
  simp [holdsAt, find?, other]

theorem holdsAt_absent {branches : Branches} {c : Char} (absent : c ∉ branches.letters)
    (rest : List Char) : branches.holdsAt c rest = false := by
  rw [holdsAt, branches.find?_none absent]
  rfl

/-- The first letter of ordered branches is not repeated. -/
theorem head_absent {letter : Char} {child : NameTree} {others : Branches}
    (grown : (cons letter child others).Grown) : letter ∉ others.letters := by
  intro member
  exact Nat.lt_irrefl _ (grown.1 letter member)

/-- A letter that comes before the first one is on no branch. -/
theorem before_absent {c letter : Char} {child : NameTree} {others : Branches}
    (grown : (cons letter child others).Grown) (before : c.toNat < letter.toNat) :
    c ∉ (cons letter child others).letters := by
  intro member
  rcases List.mem_cons.mp member with rfl | later
  · exact Nat.lt_irrefl _ before
  · have after := grown.1 c later
    omega

theorem exists_holdsAt_head {letter : Char} {child : NameTree} {others : Branches}
    (grown : (cons letter child others).Grown) :
    ∃ rest, (cons letter child others).holdsAt letter rest = true := by
  obtain ⟨-, fruitful, below, -⟩ := grown
  obtain ⟨rest, held⟩ := NameTree.exists_holds fruitful below
  exact ⟨rest, by rw [holdsAt_head, held]⟩

/-- Branches that lead to the same names do not start later than each other. -/
theorem head_le {letter second : Char} {child sibling : NameTree} {others more : Branches}
    (grown : (cons letter child others).Grown) (other : (cons second sibling more).Grown)
    (same : ∀ c rest, (cons letter child others).holdsAt c rest =
      (cons second sibling more).holdsAt c rest) : second.toNat ≤ letter.toNat := by
  by_contra later
  obtain ⟨rest, held⟩ := exists_holdsAt_head grown
  rw [same, holdsAt_absent (before_absent other (by omega))] at held
  cases held

end Branches

mutual

/-- Trees that hold the same names are the same tree. -/
theorem NameTree.eq_of_holds (first second : NameTree) (grown : first.Grown) (other : second.Grown)
    (same : ∀ name, first.holds name = second.holds name) : first = second := by
  cases first with
  | node isName branches =>
    cases second with
    | node isName' branches' =>
      have here : isName = isName' := same []
      have below (c : Char) (rest : List Char) :
          branches.holdsAt c rest = branches'.holdsAt c rest := by
        have next := same (c :: rest)
        rwa [NameTree.holds_cons, NameTree.holds_cons] at next
      rw [here, Branches.eq_of_holdsAt branches branches' grown other below]

theorem Branches.eq_of_holdsAt (first second : Branches) (grown : first.Grown)
    (other : second.Grown) (same : ∀ c rest, first.holdsAt c rest = second.holdsAt c rest) :
    first = second := by
  cases first with
  | nil =>
    cases second with
    | nil => rfl
    | cons letter child rest =>
      obtain ⟨name, held⟩ := Branches.exists_holdsAt_head other
      rw [← same] at held
      cases held
  | cons letter child rest =>
    cases second with
    | nil =>
      obtain ⟨name, held⟩ := Branches.exists_holdsAt_head grown
      rw [same] at held
      cases held
    | cons second sibling more =>
      have least : letter.toNat = second.toNat :=
        Nat.le_antisymm (Branches.head_le other grown fun c name => (same c name).symm)
          (Branches.head_le grown other same)
      obtain rfl : letter = second := Char.toNat_inj.mp least
      have children (name : List Char) : child.holds name = sibling.holds name := by
        simpa only [Branches.holdsAt_head] using same letter name
      have others (c : Char) (name : List Char) : rest.holdsAt c name = more.holdsAt c name := by
        by_cases first : c = letter
        · subst first
          rw [Branches.holdsAt_absent (Branches.head_absent grown),
            Branches.holdsAt_absent (Branches.head_absent other)]
        · simpa only [Branches.holdsAt_tail first] using same c name
      obtain ⟨-, -, below, later⟩ := grown
      obtain ⟨-, -, below', later'⟩ := other
      rw [NameTree.eq_of_holds child sibling below below' children,
        Branches.eq_of_holdsAt rest more later later' others]

end

namespace NameIndex

theorem ofNames_snoc (names : List String) (name : String) :
    ofNames (names ++ [name]) = (ofNames names).insert name := by
  rw [ofNames, List.foldl_append]
  rfl

/-- A name counts when it is put in for the first time. -/
theorem size_ofNames (names : List String) : (ofNames names).size = names.toFinset.card := by
  induction names using List.reverseRecOn with
  | nil => rfl
  | append_singleton names name ih =>
    have union : (names ++ [name]).toFinset = Insert.insert name names.toFinset := by
      ext other
      simp
    rw [ofNames_snoc, insert, union]
    by_cases known : name ∈ names
    · rw [if_pos ((contains_ofNames names name).mpr known), ih,
        Finset.insert_eq_of_mem (List.mem_toFinset.mpr known)]
    · rw [if_neg (mt (contains_ofNames names name).mp known), ih,
        Finset.card_insert_of_notMem (mt List.mem_toFinset.mp known)]

/-- The whole index depends only on which names were put in. -/
theorem ofNames_congr {names other : List String} (same : ∀ name, name ∈ other ↔ name ∈ names) :
    ofNames other = ofNames names := by
  have tree : (ofNames other).tree = (ofNames names).tree := by
    apply NameTree.eq_of_holds _ _ (ofNames_grown other) (ofNames_grown names)
    intro name
    rw [Bool.eq_iff_iff, holds_ofNames, holds_ofNames, same]
  have size : (ofNames other).size = (ofNames names).size := by
    have distinct : other.toFinset = names.toFinset := by
      ext name
      simp [same]
    rw [size_ofNames, size_ofNames, distinct]
  calc ofNames other = ⟨(ofNames other).tree, (ofNames other).size⟩ := rfl
    _ = ⟨(ofNames names).tree, (ofNames names).size⟩ := by rw [tree, size]

/-- Whatever names are put in, one after the other, the index is the set of them: it knows exactly
these names, counts each once and lists those that start with some letters in order, each once.
The same names in another order, or put in more often, make the same index. -/
theorem ofNames_is_set_of_names (names : List String) :
    (∀ name, (ofNames names).contains name = true ↔ name ∈ names) ∧
    (ofNames names).size = names.toFinset.card ∧
    (∀ start, ((ofNames names).matching start).Pairwise (fun first second =>
        Precedes first.toList second.toList) ∧
      ∀ name, name ∈ (ofNames names).matching start ↔
        name ∈ names ∧ start.toList <+: name.toList) ∧
    ∀ other : List String, (∀ name, name ∈ other ↔ name ∈ names) →
      ofNames other = ofNames names := by
  refine ⟨contains_ofNames names, size_ofNames names, ?_, ?_⟩
  · intro start
    exact ⟨matching_sorted names start, mem_matching names start⟩
  · intro other same
    exact ofNames_congr same

/-- A name that is part of another one, the empty name, and a name that is put in again. -/
theorem ofNames_is_set_of_names_repeated :
    (∀ name, name ∈ ["echo", "", "echoes", "", "cd"] ↔ name ∈ ["echoes", "cd", "echo", ""]) ∧
      ofNames ["echo", "", "echoes", "", "cd"] = ofNames ["echoes", "cd", "echo", ""] ∧
      (ofNames ["echo", "", "echoes", "", "cd"]).size = 4 ∧
      (ofNames ["echo", "", "echoes", "", "cd"]).matching "" = ["", "cd", "echo", "echoes"] := by
  have same : ∀ name, name ∈ ["echo", "", "echoes", "", "cd"] ↔
      name ∈ ["echoes", "cd", "echo", ""] := by
    intro name
    simp only [List.mem_cons, List.not_mem_nil, or_false]
    tauto
  obtain ⟨-, -, -, independent⟩ := ofNames_is_set_of_names ["echoes", "cd", "echo", ""]
  exact ⟨same, independent _ same, by decide +kernel, by decide +kernel⟩

end NameIndex

end CommandShell
