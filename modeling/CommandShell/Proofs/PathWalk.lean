import CommandShell.Proofs.Cutting
import CommandShell.Proofs.FileTree

/-! Walking a path in two parts. What lies inside a directory is reached by way of the directory,
and it is one of the names that the directory lists. -/
namespace CommandShell

namespace Path

theorem components_separated (first rest : String) :
    components (first ++ "/" ++ rest) = components first ++ components rest := by
  have slash : "/".toList = ['/'] := by decide
  simp only [components, pieces, Text.cutText, String.toList_append, slash, List.append_assoc,
    List.cons_append, List.nil_append, Text.cut_separated, List.map_append, List.filter_append]

theorem components_ended (first rest : String) (ends : first.toList.getLast? = some '/') :
    components (first ++ rest) = components first ++ components rest := by
  obtain ⟨before, text⟩ := List.getLast?_eq_some_iff.mp ends
  have whole : first = String.ofList before ++ "/" ++ "" := by
    rw [← String.toList_inj, text]
    simp
  have again : first ++ rest = String.ofList before ++ "/" ++ rest := by
    rw [whole, String.append_empty]
  have nothing : components "" = [] := by decide
  rw [again, components_separated, whole, components_separated, nothing, List.append_nil]

/-- A path below a directory names what is on the way to the directory, then the rest. -/
theorem components_join {base path : String} (given : base ≠ "")
    (relative : isAbsolute path = false) :
    components (join base path) = components base ++ components path := by
  rw [join, if_neg (by simp [relative])]
  by_cases ends : base.toList.getLast? = some '/'
  · rw [if_pos (by simp [ends])]
    exact components_ended base path ends
  · rw [if_neg (by simp [given, ends])]
    exact components_separated base path

theorem components_name {name : String} (free : '/' ∉ name.toList) :
    components name = if name = "" then [] else [name] := by
  rw [components, pieces, Text.cutText, Text.cut_whole free]
  by_cases empty : name = "" <;> simp [empty]

theorem isAbsolute_name {name : String} (free : '/' ∉ name.toList) : isAbsolute name = false := by
  rw [isAbsolute, beq_eq_false_iff_ne]
  intro head
  exact free (List.mem_of_head? head)

theorem isAbsolute_join {base path : String} (given : base ≠ "")
    (relative : isAbsolute path = false) : isAbsolute (join base path) = isAbsolute base := by
  have letters : base.toList ≠ [] := by simpa using given
  obtain ⟨first, rest, text⟩ := List.exists_cons_of_ne_nil letters
  rw [join, if_neg (by simp [relative])]
  split <;> simp [isAbsolute, String.toList_append, text]

theorem utf8ByteSize_join (base : String) {path : String} (relative : isAbsolute path = false) :
    base.utf8ByteSize ≤ (join base path).utf8ByteSize := by
  rw [join, if_neg (by simp [relative])]
  split <;> simp only [String.utf8ByteSize_append] <;> omega

theorem getLast_join {base name : String} (free : '/' ∉ name.toList) (given : base ≠ "") :
    (join base name).toList.getLast? = some '/' ↔ name = "" := by
  have slash : "/".toList = ['/'] := by decide
  by_cases empty : name = ""
  · subst empty
    simp only [iff_true]
    rw [join, isAbsolute_name free, if_neg Bool.false_ne_true]
    by_cases ends : base.toList.getLast? = some '/'
    · rw [if_pos (by simp [ends]), String.append_empty]
      exact ends
    · rw [if_neg (by simp [given, ends]), String.append_empty, String.toList_append, slash]
      simp
  · have letters : name.toList ≠ [] := by simpa using empty
    have last : ∀ before : List Char, (before ++ name.toList).getLast? = some '/' → False := by
      intro before ends
      rw [List.getLast?_append, List.getLast?_eq_some_getLast letters] at ends
      exact free (Option.some.inj ends ▸ List.getLast_mem letters)
    simp only [empty, iff_false]
    intro ends
    rw [join, isAbsolute_name free, if_neg Bool.false_ne_true] at ends
    split at ends
    · exact last _ (by rwa [← String.toList_append])
    · exact last _ (by rwa [← String.toList_append])

end Path

namespace FileTree

/-- One step of a walk that follows a link at the end too. -/
theorem walkFollowing_reach_cons (tree : FileTree)
    (follow : Location → String → List String → Except SystemError Place) (here : Location)
    (name : String) (rest : List String) :
    tree.walkFollowing .reach follow here (name :: rest) =
      if name = "" || name = "." then tree.walkFollowing .reach follow here rest
      else if name = ".." then tree.walkFollowing .reach follow here.dropLast rest
      else if maxNameBytes < name.utf8ByteSize then .error .nameTooLong
      else
        match tree.get? (here ++ [name]) with
        | none => if rest = [] then .ok ⟨here ++ [name], none⟩ else .error .noEntry
        | some .directory => tree.walkFollowing .reach follow (here ++ [name]) rest
        | some (.link target) => follow here target rest
        | some node =>
          if rest = [] then .ok ⟨here ++ [name], some node⟩ else .error .notDirectory := by
  rw [walkFollowing]
  cases tree.get? (here ++ [name]) with
  | none => simp
  | some node => cases node <;> simp

theorem walkFollowing_skip {tree : FileTree}
    {follow : Location → String → List String → Except SystemError Place} {second : List String}
    (more : second ≠ [])
    (followed : ∀ here target rest,
      follow here target (rest ++ "" :: second) = follow here target (rest ++ second))
    (here : Location) (first : List String) :
    tree.walkFollowing .reach follow here (first ++ "" :: second) =
      tree.walkFollowing .reach follow here (first ++ second) := by
  induction first generalizing here with
  | nil => rw [List.nil_append, walkFollowing_reach_cons, if_pos (by simp), List.nil_append]
  | cons name first ih =>
    have longer : first ++ "" :: second ≠ [] := by simp
    have shorter : first ++ second ≠ [] := by simp [more]
    simp only [List.cons_append, walkFollowing_reach_cons, ih, followed, longer, shorter]

/-- A step without a name is passed over, unless it is the last. -/
theorem walk_skip (tree : FileTree) (links : Nat) (here : Location) (first : List String)
    {second : List String} (more : second ≠ []) :
    tree.walk .reach links here (first ++ "" :: second) =
      tree.walk .reach links here (first ++ second) := by
  induction links generalizing here first with
  | zero => exact walkFollowing_skip more (fun _ _ _ => rfl) here first
  | succ links ih =>
    refine walkFollowing_skip more (fun here target rest => ?_) here first
    simp only [← List.append_assoc, ih]

theorem walk_steps_join (tree : FileTree) (links : Nat) (here : Location) {base name : String}
    (given : base ≠ "") (free : '/' ∉ name.toList) :
    tree.walk .reach links here (steps (Path.join base name)) =
      tree.walk .reach links here (Path.components base ++ [name]) := by
  have whole := Path.components_join given (Path.isAbsolute_name free)
  have ends := Path.getLast_join free given
  rw [Path.components_name free] at whole
  by_cases empty : name = ""
  · by_cases bare : Path.components base = []
    · rw [steps, whole]
      cases links <;> simp [empty, bare, walk, walkFollowing]
    · rw [steps, whole, beq_iff_eq.mpr (ends.mpr empty)]
      simp [empty, bare]
  · rw [steps, whole, beq_eq_false_iff_ne.mpr (mt ends.mp empty)]
    simp [empty]

theorem walk_steps_append (tree : FileTree) (links : Nat) (here : Location) (path : String)
    {more : List String} (given : more ≠ []) :
    tree.walk .reach links here (steps path ++ more) =
      tree.walk .reach links here (Path.components path ++ more) := by
  rw [steps]
  split
  · rw [List.append_assoc, List.cons_append, List.nil_append]
    exact walk_skip tree links here _ given
  · rfl

/-- All that is there on the way to a location is a directory. -/
def Standing (tree : FileTree) (here : Location) : Prop :=
  ∀ place node, place <+: here → tree.get? place = some node → node = .directory

theorem Standing.parent {tree : FileTree} {here : Location} (standing : tree.Standing here) :
    tree.Standing here.dropLast := fun place node above =>
  standing place node (above.trans (List.dropLast_prefix here))

theorem standing_root (tree : FileTree) : tree.Standing [] := by
  intro place node above found
  rw [List.prefix_nil.mp above] at found
  exact (Option.some.inj found).symm

theorem Standing.enter {tree : FileTree} {here : Location} {name : String}
    (standing : tree.Standing here) (directory : tree.get? (here ++ [name]) = some .directory) :
    tree.Standing (here ++ [name]) := by
  intro place node above found
  rcases List.prefix_concat_iff.mp above with rfl | above
  · exact Option.some.inj (found.symm.trans directory)
  · exact standing place node above found

/-- Here `arrives` is what is known of a place from which the second part of the walk sets out. -/
theorem walkFollowing_split {tree : FileTree}
    {follow : Location → String → List String → Except SystemError Place} {second : List String}
    {place : Place} {arrives : Location → Prop} (more : second ≠ [])
    (followed : ∀ here target rest, tree.Standing here →
      follow here target (rest ++ second) = .ok place →
        ∃ middle, tree.Standing middle ∧ arrives middle ∧
          follow here target rest = .ok ⟨middle, tree.get? middle⟩)
    (arrived : ∀ middle, tree.walkFollowing .reach follow middle second = .ok place →
      arrives middle)
    {here : Location} (standing : tree.Standing here) {first : List String}
    (walked : tree.walkFollowing .reach follow here (first ++ second) = .ok place) :
    ∃ middle, tree.Standing middle ∧ arrives middle ∧
      tree.walkFollowing .reach follow here first = .ok ⟨middle, tree.get? middle⟩ := by
  induction first generalizing here with
  | nil => exact ⟨here, standing, arrived here walked, by rw [walkFollowing]⟩
  | cons name first ih =>
    have shorter : first ++ second ≠ [] := by simp [more]
    rw [List.cons_append, walkFollowing_reach_cons] at walked
    rw [walkFollowing_reach_cons]
    split at walked
    next unnamed =>
      rw [if_pos unnamed]
      exact ih standing walked
    next named =>
      rw [if_neg named]
      split at walked
      next up =>
        rw [if_pos up]
        exact ih standing.parent walked
      next down =>
        rw [if_neg down]
        split at walked
        · cases walked
        next short =>
          rw [if_neg short]
          split at walked
          · cases walked
          next directory =>
            exact ih (standing.enter directory) walked
          next target _ =>
            exact followed here target first standing walked
          · cases walked

/-- A walk in two parts: the first part leads to a place from which the second goes on. -/
theorem walk_split {tree : FileTree} {links : Nat} {here : Location} {first second : List String}
    {place : Place} (more : second ≠ []) (standing : tree.Standing here)
    (walked : tree.walk .reach links here (first ++ second) = .ok place) :
    ∃ middle, tree.Standing middle ∧
      (∃ left, tree.walk .reach left middle second = .ok place) ∧
      tree.walk .reach links here first = .ok ⟨middle, tree.get? middle⟩ := by
  induction links generalizing here first with
  | zero =>
    exact walkFollowing_split more (fun _ _ _ _ refused => by cases refused)
      (fun middle onward => ⟨0, onward⟩) standing walked
  | succ links ih =>
    refine walkFollowing_split more (fun here target rest standing onward => ?_)
      (fun middle onward => ⟨links + 1, onward⟩) standing walked
    split at onward
    · cases onward
    next given =>
      -- the steps of the target come before what is left of the first part
      rw [if_neg given]
      rw [← List.append_assoc] at onward
      refine ih ?_ onward
      split
      · exact standing_root tree
      · exact standing

/-- What the last step of a path reaches is in the directory where the step is taken, unless
it is itself a directory. -/
theorem walk_last {tree : FileTree} {links : Nat} {here : Location} {name : String} {place : Place}
    {node : Node} (standing : tree.Standing here)
    (walked : tree.walk .reach links here [name] = .ok place) (found : place.node = some node)
    (inner : node ≠ .directory) : (tree.get? (here ++ [name])).isSome = true := by
  obtain ⟨follow, following⟩ : ∃ follow, ∀ here todo,
      tree.walk .reach links here todo = tree.walkFollowing .reach follow here todo := by
    cases links <;> exact ⟨_, fun _ _ => rfl⟩
  have upward {above : Location} (higher : tree.Standing above)
      (stays : tree.walkFollowing .reach follow above [] = .ok place) : False := by
    rw [walkFollowing] at stays
    cases stays
    exact inner (higher above node (List.prefix_refl above) found)
  cases present : tree.get? (here ++ [name]) with
  | some _ => rfl
  | none =>
    -- the step can only have stayed or gone up, and both end at a directory
    rw [following, walkFollowing_reach_cons, present] at walked
    split at walked
    · exact (upward standing walked).elim
    · split at walked
      · exact (upward standing.parent walked).elim
      · split at walked
        · cases walked
        · cases walked
          cases found

theorem get?_isSome {tree : FileTree} {location : Location} {name : String} :
    (tree.get? (location ++ [name])).isSome = true ↔
      ∃ entry ∈ tree.nodes, entry.1 = location ++ [name] := by
  rw [get?, if_neg (by simp), List.lookup_isSome_iff]
  exact exists_congr fun entry => and_congr_right fun _ => beq_iff_eq.trans eq_comm

/-- A directory lists the names of all that is directly inside it. -/
theorem mem_namesIn {tree : FileTree} {location : Location} {name : String} :
    name ∈ tree.namesIn location ↔ (tree.get? (location ++ [name])).isSome = true := by
  rw [get?_isSome, namesIn, List.mem_filterMap]
  refine exists_congr fun entry => and_congr_right fun _ => ?_
  obtain ⟨place, node⟩ := entry
  rcases List.eq_nil_or_concat place with rfl | ⟨above, last, rfl⟩
  · simp
  · simp [and_comm]

/-- A tree as a file system keeps it: no name holds a slash, and what is above a node is a
directory. -/
structure WellFormed (tree : FileTree) : Prop where
  names : ∀ entry ∈ tree.nodes, ∀ name ∈ entry.1, '/' ∉ name.toList
  parents : ∀ entry ∈ tree.nodes, tree.get? entry.1.dropLast = some .directory

instance (tree : FileTree) : Decidable tree.WellFormed :=
  decidable_of_iff ((∀ entry ∈ tree.nodes, ∀ name ∈ entry.1, '/' ∉ name.toList) ∧
      ∀ entry ∈ tree.nodes, tree.get? entry.1.dropLast = some .directory)
    ⟨fun ⟨names, parents⟩ => ⟨names, parents⟩, fun valid => ⟨valid.names, valid.parents⟩⟩

theorem WellFormed.free {tree : FileTree} (valid : tree.WellFormed) {location : Location}
    {name : String} (present : (tree.get? (location ++ [name])).isSome = true) :
    '/' ∉ name.toList := by
  obtain ⟨entry, member, place⟩ := get?_isSome.mp present
  exact valid.names entry member name (by simp [place])

theorem WellFormed.above {tree : FileTree} (valid : tree.WellFormed) {location : Location}
    {name : String} (present : (tree.get? (location ++ [name])).isSome = true) :
    tree.get? location = some .directory := by
  obtain ⟨entry, member, place⟩ := get?_isSome.mp present
  simpa [place] using valid.parents entry member

end FileTree

namespace Machine

/-- The files are as a file system keeps them, and all that is left on the way to the working
directory of the process is directories. -/
structure WellFormed (machine : Machine) : Prop where
  files : machine.files.WellFormed
  standing : machine.files.Standing (Path.components machine.directory)

theorem find_some {machine : Machine} {path : String} {node : Node}
    (found : machine.find? path = some node) :
    Path.hasNul path = false ∧
      ∃ place, machine.lookup .reach path = .ok place ∧ place.node = some node := by
  rw [find?] at found
  split at found
  · cases found
  next clean =>
    refine ⟨by simpa using clean, ?_⟩
    split at found
    next place reached => exact ⟨place, reached, found⟩
    · cases found

/-- What a directory holds is listed there, unless it is itself a directory. -/
theorem mem_list_of_find {machine : Machine} {base name : String} {node : Node}
    (valid : machine.WellFormed) (given : base ≠ "") (free : '/' ∉ name.toList)
    (found : machine.find? (Path.join base name) = some node) (inner : node ≠ .directory) :
    ∃ names, machine.list? base = some names ∧ name ∈ names := by
  have relative := Path.isAbsolute_name free
  have larger := Path.utf8ByteSize_join base relative
  obtain ⟨-, place, reached, present⟩ := find_some found
  rw [lookup, lookupFrom] at reached
  split at reached
  · cases reached
  split at reached
  · cases reached
  next short =>
    -- the steps of the whole path are those of the directory and the name
    rw [FileTree.walk_steps_join _ _ _ given free, Path.isAbsolute_join given relative,
      ← FileTree.walk_steps_append _ _ _ _ (by simp)] at reached
    have start : machine.files.Standing
        (if Path.isAbsolute base then [] else Path.components machine.directory) := by
      split
      · exact machine.files.standing_root
      · exact valid.standing
    obtain ⟨middle, standing, ⟨left, last⟩, first⟩ := FileTree.walk_split (by simp) start reached
    have inside := FileTree.walk_last standing last present inner
    refine ⟨machine.files.namesIn middle, ?_, FileTree.mem_namesIn.mpr inside⟩
    rw [list?, lookup, lookupFrom, if_neg given, if_neg (by omega), first,
      valid.files.above inside]

end Machine

end CommandShell
