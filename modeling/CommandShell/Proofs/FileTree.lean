import CommandShell.Machine

/-! What storing a regular file does to a file tree: it changes the node at one location,
and no path leads anywhere else than before. -/
namespace CommandShell

theorem lookup_cons_if [DecidableEq α] [BEq α] [LawfulBEq α] (key other : α) (value : β)
    (rest : List (α × β)) :
    ((key, value) :: rest).lookup other =
      if other = key then some value else rest.lookup other := by
  by_cases same : other = key
  · simp [same]
  · simp [List.lookup_cons, beq_eq_false_iff_ne.mpr same, same]

namespace FileTree

theorem lookup_put (location : Location) (node : Node) (nodes : List (Location × Node))
    (other : Location) :
    (put location node nodes).lookup other =
      if other = location then some node else nodes.lookup other := by
  induction nodes with
  | nil => rw [put, lookup_cons_if]
  | cons entry rest ih =>
    obtain ⟨place, old⟩ := entry
    by_cases here : place = location
    · subst here
      rw [put, if_pos rfl, lookup_cons_if, lookup_cons_if]
      split <;> simp_all
    · rw [put, if_neg here, lookup_cons_if, lookup_cons_if, ih]
      split <;> simp_all

theorem get_set (tree : FileTree) (location : Location) (node : Node) (other : Location)
    (proper : location ≠ []) :
    (tree.set location node).get? other =
      if other = location then some node else tree.get? other := by
  by_cases root : other = []
  · simp [get?, root, Ne.symm proper]
  · simp [get?, set, root, lookup_put]

theorem put_put (location : Location) (old node : Node) (nodes : List (Location × Node)) :
    put location node (put location old nodes) = put location node nodes := by
  induction nodes with
  | nil => simp [put]
  | cons entry rest ih =>
    obtain ⟨place, present⟩ := entry
    by_cases here : place = location
    · simp [put, here]
    · simp [put, here, ih]

theorem set_set (tree : FileTree) (location : Location) (old node : Node) :
    (tree.set location old).set location node = tree.set location node := by
  simp [set, put_put]

def contentAt (tree : FileTree) (location : Location) : Bytes :=
  match tree.get? location with
  | some (.file content _) => content
  | _ => []

theorem contentAt_set (tree : FileTree) {location : Location} (content : Bytes)
    (executable : Bool) (other : Location) (proper : location ≠ []) :
    (tree.set location (.file content executable)).contentAt other =
      if other = location then content else tree.contentAt other := by
  by_cases same : other = location
  · simp [contentAt, get_set _ _ _ _ proper, same]
  · simp [contentAt, get_set _ _ _ _ proper, same]

def HoldsFile (tree : FileTree) (location : Location) : Prop :=
  tree.get? location = none ∨
    ∃ content executable, tree.get? location = some (.file content executable)

instance (tree : FileTree) (location : Location) : Decidable (tree.HoldsFile location) :=
  match found : tree.get? location with
  | none => .isTrue (.inl found)
  | some (.file content executable) => .isTrue (.inr ⟨content, executable, found⟩)
  | some .directory | some (.link _) | some (.device _) | some (.program _) =>
    .isFalse (by simp [HoldsFile, found])

theorem HoldsFile.proper {tree : FileTree} {location : Location} (file : tree.HoldsFile location) :
    location ≠ [] := by
  rintro rfl
  rcases file with absent | ⟨content, executable, present⟩
  · simp [get?] at absent
  · simp [get?] at present

theorem set_holdsFile {tree : FileTree} {location : Location} (content : Bytes) (executable : Bool)
    (proper : location ≠ []) : (tree.set location (.file content executable)).HoldsFile location :=
  .inr ⟨content, executable, by rw [get_set _ _ _ _ proper, if_pos rfl]⟩

/-- No way leads on from the location: there is no directory and no link. -/
def HoldsLeaf (tree : FileTree) (location : Location) : Prop :=
  ∀ node, tree.get? location = some node → node ≠ .directory ∧ ∀ target, node ≠ .link target

theorem HoldsLeaf.proper {tree : FileTree} {location : Location} (leaf : tree.HoldsLeaf location) :
    location ≠ [] := by
  rintro rfl
  exact (leaf .directory (by simp [get?])).1 rfl

theorem HoldsFile.leaf {tree : FileTree} {location : Location} (file : tree.HoldsFile location) :
    tree.HoldsLeaf location := by
  intro node found
  rcases file with absent | ⟨content, executable, present⟩
  · cases absent.symm.trans found
  · cases present.symm.trans found
    exact ⟨nofun, nofun⟩

theorem walkFollowing_node {tree : FileTree} {purpose : Purpose}
    {follow : Location → String → List String → Except SystemError Place} {here : Location}
    {todo : List String} {place : Place}
    (followed : ∀ here target rest, follow here target rest = .ok place →
      place.node = tree.get? place.location)
    (reached : tree.walkFollowing purpose follow here todo = .ok place) :
    place.node = tree.get? place.location := by
  fun_induction walkFollowing tree purpose follow here todo with
  | case1 => cases reached; rfl
  | case2 _ _ _ _ ih => exact ih reached
  | case3 _ _ _ ih => exact ih reached
  | case4 => cases reached
  | case5 => cases reached
  | case6 => cases reached; simp_all
  | case7 => cases reached
  | case8 _ _ _ _ _ _ _ _ ih => exact ih reached
  | case9 => cases reached; simp_all
  | case10 => exact followed _ _ _ reached
  | case11 => cases reached; simp_all
  | case12 => cases reached

/-- A walk tells the node at the location where it ends. -/
theorem walk_node {tree : FileTree} {purpose : Purpose} {links : Nat} {here : Location}
    {todo : List String} {place : Place} (reached : tree.walk purpose links here todo = .ok place) :
    place.node = tree.get? place.location := by
  induction links generalizing here todo with
  | zero => exact walkFollowing_node (fun _ _ _ refused => by cases refused) reached
  | succ links ih =>
    refine walkFollowing_node (fun here target rest followed => ?_) reached
    split at followed
    · cases followed
    · exact ih followed

/-- The trees differ at most at one place, and no way leads through it in either. -/
structure Alike (first second : FileTree) (place : Location) : Prop where
  before : first.HoldsLeaf place
  after : second.HoldsLeaf place
  elsewhere : ∀ other, other ≠ place → second.get? other = first.get? other

theorem Alike.symm {first second : FileTree} {place : Location}
    (alike : Alike first second place) : Alike second first place :=
  ⟨alike.after, alike.before, fun other apart => (alike.elsewhere other apart).symm⟩

theorem alike_set {tree : FileTree} {place : Location} (leaf : tree.HoldsLeaf place)
    (content : Bytes) (executable : Bool) :
    Alike tree (tree.set place (.file content executable)) place :=
  ⟨leaf, (set_holdsFile content executable leaf.proper).leaf,
    fun other apart => by rw [get_set _ _ _ _ leaf.proper, if_neg apart]⟩

/-- The other tree has the same ways. -/
theorem Alike.kept {first second : FileTree} {place other : Location} {node : Node}
    (alike : Alike first second place)
    (way : node = .directory ∨ ∃ target, node = .link target)
    (found : first.get? other = some node) : second.get? other = some node := by
  rw [alike.elsewhere]
  · exact found
  · rintro rfl
    obtain ⟨notDirectory, notLink⟩ := alike.before node found
    rcases way with directory | ⟨target, link⟩
    · exact notDirectory directory
    · exact notLink target link

/-- A last step to where no way leads on goes there in the other tree too. -/
theorem Alike.arrives {first second : FileTree} {place : Location}
    (alike : Alike first second place) {other : Location}
    (leaf : first.HoldsLeaf other) : second.HoldsLeaf other := by
  by_cases same : other = place
  · rw [same]
    exact alike.after
  · rwa [HoldsLeaf, alike.elsewhere other same]

theorem walkFollowing_leaf {tree : FileTree} {purpose : Purpose}
    {follow : Location → String → List String → Except SystemError Place} {here : Location}
    {name : String} (named : ¬ (name = "" || name = ".") = true) (proper : ¬ name = "..")
    (short : ¬ maxNameBytes < name.utf8ByteSize) (leaf : tree.HoldsLeaf (here ++ [name])) :
    tree.walkFollowing purpose follow here [name] =
      .ok ⟨here ++ [name], tree.get? (here ++ [name])⟩ := by
  rw [FileTree.walkFollowing, if_neg named, if_neg proper, if_neg (by simp), if_neg short]
  cases found : tree.get? (here ++ [name]) with
  | none => rfl
  | some node =>
    obtain ⟨notDirectory, notLink⟩ := leaf node found
    cases node with
    | directory => exact absurd rfl notDirectory
    | link target => exact absurd rfl (notLink target)
    | file | device | program => rfl

theorem Alike.walkFollowing {first second : FileTree} {place : Location}
    (alike : Alike first second place) {purpose : Purpose}
    {follow later : Location → String → List String → Except SystemError Place}
    {here : Location} {todo : List String} {reached : Place}
    (followed : ∀ here target rest, follow here target rest = .ok reached →
      ∃ node, later here target rest = .ok ⟨reached.location, node⟩)
    (walked : first.walkFollowing purpose follow here todo = .ok reached) :
    ∃ node, second.walkFollowing purpose later here todo = .ok ⟨reached.location, node⟩ := by
  fun_induction FileTree.walkFollowing first purpose follow here todo with
  | case1 here =>
    cases walked
    exact ⟨_, by rw [FileTree.walkFollowing]⟩
  | case2 here name rest skipped ih =>
    rw [FileTree.walkFollowing, if_pos skipped]
    exact ih walked
  | case3 here rest named ih =>
    rw [FileTree.walkFollowing, if_neg named, if_pos rfl]
    exact ih walked
  | case4 => cases walked
  | case5 => cases walked
  | case6 here name named proper short absent =>
    cases walked
    have free : first.HoldsLeaf (here ++ [name]) := fun _ found => by cases absent.symm.trans found
    exact ⟨_, walkFollowing_leaf named proper short (alike.arrives free)⟩
  | case7 => cases walked
  | case8 here name rest named proper slash short directory ih =>
    rw [FileTree.walkFollowing, if_neg named, if_neg proper, if_neg slash, if_neg short,
      alike.kept (.inl rfl) directory]
    exact ih walked
  | case9 here name rest named proper slash short target link final =>
    cases walked
    rw [FileTree.walkFollowing, if_neg named, if_neg proper, if_neg slash, if_neg short,
      alike.kept (.inr ⟨target, rfl⟩) link]
    exact ⟨some (.link target), if_pos final⟩
  | case10 here name rest named proper slash short target link final =>
    obtain ⟨node, arrived⟩ := followed here target rest walked
    rw [FileTree.walkFollowing, if_neg named, if_neg proper, if_neg slash, if_neg short,
      alike.kept (.inr ⟨target, rfl⟩) link]
    exact ⟨node, (if_neg final).trans arrived⟩
  | case11 here name named proper short node notDirectory notLink found =>
    cases walked
    have free : first.HoldsLeaf (here ++ [name]) := by
      intro other present
      cases found.symm.trans present
      exact ⟨notDirectory, notLink⟩
    exact ⟨_, walkFollowing_leaf named proper short (alike.arrives free)⟩
  | case12 => cases walked

/-- Storing a file opens no way and closes none: a path leads where it leads without it. -/
theorem Alike.walk {first second : FileTree} {place : Location}
    (alike : Alike first second place) {purpose : Purpose} {links : Nat} {here : Location}
    {todo : List String} {reached : Place}
    (walked : first.walk purpose links here todo = .ok reached) :
    ∃ node, second.walk purpose links here todo = .ok ⟨reached.location, node⟩ := by
  induction links generalizing here todo with
  | zero => exact alike.walkFollowing (fun _ _ _ refused => by cases refused) walked
  | succ links ih =>
    refine alike.walkFollowing (fun here target rest followed => ?_) walked
    split at followed
    · cases followed
    case isFalse named =>
      rw [if_neg named]
      exact ih followed

theorem walkFollowing_reach {tree : FileTree}
    {follow reader : Location → String → List String → Except SystemError Place} {here : Location}
    {todo : List String} {reached : Place}
    (followed : ∀ here target rest, follow here target rest = .ok reached →
      reader here target rest = .ok reached)
    (walked : tree.walkFollowing .write follow here todo = .ok reached) :
    tree.walkFollowing .reach reader here todo = .ok reached := by
  generalize asked : Purpose.write = purpose at walked
  fun_induction FileTree.walkFollowing tree purpose follow here todo with
  | case1 => exact walked
  | case2 here name rest skipped ih =>
    rw [FileTree.walkFollowing, if_pos skipped]
    exact ih walked
  | case3 here rest named ih =>
    rw [FileTree.walkFollowing, if_neg named, if_pos rfl]
    exact ih walked
  | case4 => cases walked
  | case5 => cases walked
  | case6 here name named proper short absent =>
    rw [FileTree.walkFollowing, if_neg named, if_neg proper, if_neg (by simp), if_neg short, absent]
    exact walked
  | case7 => cases walked
  | case8 here name rest named proper slash short directory ih =>
    rw [FileTree.walkFollowing, if_neg named, if_neg proper, if_neg (by simp), if_neg short,
      directory]
    exact ih walked
  | case9 here name rest named proper slash short target link final =>
    subst asked
    simp at final
  | case10 here name rest named proper slash short target link final =>
    rw [FileTree.walkFollowing, if_neg named, if_neg proper, if_neg (by simp), if_neg short, link]
    exact (if_neg (by simp)).trans (followed here target rest walked)
  | case11 here name named proper short node notDirectory notLink found =>
    rw [FileTree.walkFollowing, if_neg named, if_neg proper, if_neg (by simp), if_neg short, found]
    cases node with
    | directory => exact absurd rfl notDirectory
    | link target => exact absurd rfl (notLink target)
    | file | device | program => exact walked
  | case12 => cases walked

/-- What can be opened for writing can be reached for reading. -/
theorem walk_reach {tree : FileTree} {links : Nat} {here : Location} {todo : List String}
    {reached : Place} (walked : tree.walk .write links here todo = .ok reached) :
    tree.walk .reach links here todo = .ok reached := by
  induction links generalizing here todo with
  | zero => exact walkFollowing_reach (fun _ _ _ refused => by cases refused) walked
  | succ links ih =>
    refine walkFollowing_reach (fun here target rest followed => ?_) walked
    split at followed
    · cases followed
    case isFalse named =>
      rw [if_neg named]
      exact ih followed

end FileTree

end CommandShell
