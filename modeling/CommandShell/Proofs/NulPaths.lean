import CommandShell.Execution.RunCommand

/-! Paths that hold a NUL. No file has one, and whether the machine gets to see the NUL
depends on what it makes of the path before it. -/
namespace CommandShell

namespace Path

theorem hasNul_iff (path : String) : hasNul path = true ↔ '\x00' ∈ path.toList := by
  simp [hasNul]

theorem hasNul_append (first second : String) :
    hasNul (first ++ second) = (hasNul first || hasNul second) := by
  simp [hasNul]

theorem hasNul_slashes (count : Nat) : hasNul (slashes count) = false := by
  simp [hasNul, slashes, List.mem_replicate]

theorem hasNul_intercalate (names : List String) :
    hasNul ("/".intercalate names) = names.any hasNul := by
  induction names with
  | nil => rfl
  | cons name rest ih =>
    cases rest with
    | nil => simp
    | cons next rest =>
      have slash : hasNul "/" = false := by decide
      rw [String.intercalate_cons_cons, hasNul_append, hasNul_append, ih, slash]
      simp

theorem hasNul_ofNames (leading : Nat) (names : List String) :
    hasNul (ofNames leading names) = names.any hasNul := by
  have text : hasNul (slashes leading ++ "/".intercalate names) = names.any hasNul := by
    rw [hasNul_append, hasNul_slashes, hasNul_intercalate, Bool.false_or]
  rw [ofNames]
  split
  case isTrue empty =>
    rw [← text, empty]
    decide
  case isFalse => exact text

end Path

namespace Text

theorem mem_cut {separator : Char} {c : Char} (other : c ≠ separator) {text : List Char} :
    c ∈ text ↔ ∃ piece ∈ cut separator text, c ∈ piece := by
  induction text with
  | nil => simp [cut]
  | cons first rest ih =>
    rw [cut, List.mem_cons, ih]
    cases pieces : cut separator rest with
    | nil => simp
    | cons piece more =>
      by_cases separates : first = separator
      · subst separates
        simp [other]
      · simp [separates, or_assoc]

end Text

namespace Path

theorem hasNul_cutText {separator : Char} (other : '\x00' ≠ separator) (text : String) :
    ((Text.cutText separator text).filter (· ≠ "")).any hasNul = hasNul text := by
  rw [Bool.eq_iff_iff, hasNul_iff, Text.mem_cut other, List.any_eq_true]
  constructor
  · rintro ⟨name, member, nul⟩
    simp only [Text.cutText, List.mem_filter, List.mem_map] at member
    obtain ⟨⟨piece, cut, rfl⟩, -⟩ := member
    exact ⟨piece, cut, by simpa [hasNul_iff] using nul⟩
  · rintro ⟨piece, cut, nul⟩
    refine ⟨String.ofList piece, ?_, by simpa [hasNul_iff] using nul⟩
    simp only [Text.cutText, List.mem_filter, List.mem_map]
    refine ⟨⟨piece, cut, rfl⟩, decide_eq_true fun empty => ?_⟩
    have nothing : piece = [] := by simpa using congrArg String.toList empty
    simp [nothing] at nul

theorem hasNul_components (path : String) : (components path).any hasNul = hasNul path :=
  hasNul_cutText (by decide) path

theorem hasNul_of_parent {path : String} (nul : hasNul (parent path) = true) :
    hasNul path = true := by
  rw [hasNul_iff] at nul ⊢
  simp only [parent, splitLast, String.toList_ofList, List.mem_reverse] at nul
  have head : '\x00' ∈ path.toList.reverse.dropWhile (· ≠ '/') := by
    split at nul
    · exact nul
    · exact (List.dropWhile_sublist _).subset nul
  exact List.mem_reverse.mp ((List.dropWhile_sublist _).subset head)

def cleanNames (path : String) : List String :=
  (components path).takeWhile fun name => !hasNul name

theorem cleanNames_clean (path : String) : (cleanNames path).any hasNul = false := by
  rw [cleanNames, List.any_eq_false]
  intro name member
  have clean := List.all_takeWhile (p := fun name => !hasNul name) (l := components path)
  simpa using List.all_eq_true.mp clean name member

theorem components_split {path : String} (nul : hasNul path = true) :
    ∃ name inner, hasNul name = true ∧ components path = cleanNames path ++ name :: inner := by
  rw [← hasNul_components] at nul
  rw [cleanNames]
  generalize components path = names at nul
  induction names with
  | nil => cases nul
  | cons first rest ih =>
    by_cases dirty : hasNul first = true
    · exact ⟨first, rest, dirty, by simp [dirty]⟩
    · obtain ⟨name, inner, found, split⟩ := ih (by simpa [dirty] using nul)
      refine ⟨name, inner, found, ?_⟩
      rw [List.takeWhile_cons_of_pos (by simpa using dirty), List.cons_append, ← split]

end Path

namespace Machine

theorem pathExists_nul {machine : Machine} {path : String} (nul : Path.hasNul path = true) :
    machine.pathExists path = false := by
  simp [pathExists, find?, nul]

theorem makeDirectory_nul {machine : Machine} {path : String} (nul : Path.hasNul path = true) :
    machine.makeDirectory path = .error .nulByte := by
  simp [makeDirectory, nul]

theorem makeDirectory_error {machine : Machine} {path : String} {fault : Fault}
    (clean : Path.hasNul path = false) (failed : machine.makeDirectory path = .error fault) :
    ∃ e, fault = .system e := by
  rw [makeDirectory, clean] at failed
  simp only [Bool.false_eq_true, if_false] at failed
  split at failed
  · cases failed; exact ⟨_, rfl⟩
  · cases failed; exact ⟨_, rfl⟩
  · cases failed

def enter (machine : Machine) (leading : Nat) (names : List String) : Except Fault Unit × Machine :=
  if (leading = 0 && names = []) || machine.pathExists (Path.ofNames leading names.reverse) then
    (.ok (), machine)
  else makeNames leading machine names

theorem makeNames_cons (leading : Nat) (machine : Machine) (name : String) (above : List String) :
    makeNames leading machine (name :: above) =
      match machine.enter leading above with
      | (.ok (), machine) | (.error (.system .alreadyExists), machine) =>
        machine.ensureDirectory (Path.ofNames leading (name :: above).reverse)
      | (.error fault, machine) => (.error fault, machine) :=
  rfl

theorem ensureDirectory_nul {machine : Machine} {path : String} (nul : Path.hasNul path = true) :
    machine.ensureDirectory path = (.error .nulByte, machine) := by
  simp [ensureDirectory, makeDirectory_nul nul]

theorem ensureDirectory_clean {machine : Machine} {path : String} {fault : Fault}
    (clean : Path.hasNul path = false) (failed : (machine.ensureDirectory path).1 = .error fault) :
    ∃ e, fault = .system e := by
  rw [ensureDirectory] at failed
  split at failed
  · cases failed
  · split at failed
    · cases failed
    · cases failed; exact ⟨_, rfl⟩
  case h_3 refused =>
    cases failed
    exact makeDirectory_error clean refused

/-- Directories whose names hold no NUL are made or refused by the machine. -/
theorem makeNames_clean {leading : Nat} {machine : Machine} {names : List String} {fault : Fault}
    (clean : names.any Path.hasNul = false)
    (failed : (makeNames leading machine names).1 = .error fault) : ∃ e, fault = .system e := by
  induction names generalizing machine fault with
  | nil => cases failed
  | cons name above ih =>
    have pathClean : Path.hasNul (Path.ofNames leading (name :: above).reverse) = false := by
      rw [Path.hasNul_ofNames, List.any_reverse]
      exact clean
    have aboveClean : above.any Path.hasNul = false := by
      simp only [List.any_cons, Bool.or_eq_false_iff] at clean
      exact clean.2
    rw [makeNames_cons] at failed
    split at failed
    · exact ensureDirectory_clean pathClean failed
    · exact ensureDirectory_clean pathClean failed
    case h_3 refused _ entered =>
      cases failed
      rw [enter] at entered
      split at entered
      · cases entered
      · exact ih aboveClean (congrArg Prod.fst entered)

def passes (machine : Machine) (leading : Nat) (names : List String) : Bool :=
  match (machine.enter leading names).1 with
  | .ok () | .error (.system .alreadyExists) => true
  | .error _ => false

theorem enter_clean {machine : Machine} {leading : Nat} {names : List String} {fault : Fault}
    (clean : names.any Path.hasNul = false)
    (failed : (machine.enter leading names).1 = .error fault) : ∃ e, fault = .system e := by
  rw [enter] at failed
  split at failed
  · cases failed
  · exact makeNames_clean clean failed

theorem enter_nul {machine : Machine} {leading : Nat} {names : List String}
    (nul : names.any Path.hasNul = true) :
    machine.enter leading names = makeNames leading machine names := by
  have dirty : Path.hasNul (Path.ofNames leading names.reverse) = true := by
    rw [Path.hasNul_ofNames, List.any_reverse]
    exact nul
  have named : names ≠ [] := by
    rintro rfl
    cases nul
  simp [enter, pathExists_nul dirty, named]

/-- With a NUL in a name, what decides is the directory above that name. -/
theorem makeNames_nul (leading : Nat) (machine : Machine) (inner : List String) {name : String}
    {above : List String} (nul : Path.hasNul name = true) (clean : above.any Path.hasNul = false) :
    machine.passes leading above = true ∧
        (makeNames leading machine (inner ++ name :: above)).1 = .error .nulByte ∨
      machine.passes leading above = false ∧ ∃ e, e ≠ .alreadyExists ∧
        (makeNames leading machine (inner ++ name :: above)).1 = .error (.system e) := by
  induction inner with
  | nil =>
    have dirty : Path.hasNul (Path.ofNames leading (name :: above).reverse) = true := by
      rw [Path.hasNul_ofNames]
      simp [nul]
    rw [List.nil_append, makeNames_cons, passes]
    cases entered : machine.enter leading above with
    | mk made next =>
      cases made with
      | ok => exact .inl ⟨rfl, congrArg Prod.fst (ensureDirectory_nul dirty)⟩
      | error fault =>
        obtain ⟨e, rfl⟩ := enter_clean clean (congrArg Prod.fst entered)
        by_cases known : e = .alreadyExists
        · subst known
          exact .inl ⟨rfl, congrArg Prod.fst (ensureDirectory_nul dirty)⟩
        · exact .inr ⟨by cases e <;> simp_all, e, known, by cases e <;> simp_all⟩
  | cons first inner ih =>
    have dirty : (inner ++ name :: above).any Path.hasNul = true := by simp [nul]
    rw [List.cons_append, makeNames_cons, enter_nul dirty]
    cases made : makeNames leading machine (inner ++ name :: above) with
    | mk result next =>
      rw [made] at ih
      rcases ih with ⟨passes, failed⟩ | ⟨stops, e, known, failed⟩
      · cases failed
        exact .inl ⟨passes, rfl⟩
      · cases failed
        exact .inr ⟨stops, e, known, by cases e <;> simp_all⟩

theorem makeDirectories_nul (machine : Machine) {path : String} (nul : Path.hasNul path = true) :
    machine.passes (Path.leadingSlashes path) (Path.cleanNames path).reverse = true ∧
        (machine.makeDirectories path).1 = .error .nulByte ∨
      machine.passes (Path.leadingSlashes path) (Path.cleanNames path).reverse = false ∧
        ∃ e, (machine.makeDirectories path).1 = .error (.system e) := by
  have named : path ≠ "" := by
    rintro rfl
    cases nul
  obtain ⟨name, inner, dirty, components⟩ := Path.components_split nul
  have clean : (Path.cleanNames path).reverse.any Path.hasNul = false := by
    rw [List.any_reverse, Path.cleanNames_clean]
  have made := makeNames_nul (Path.leadingSlashes path) machine inner.reverse dirty clean
  rw [makeDirectories, if_neg named, components, List.reverse_append, List.reverse_cons,
    List.append_assoc, List.singleton_append]
  rcases made with passed | ⟨stopped, e, -, failed⟩
  · exact .inl passed
  · exact .inr ⟨stopped, e, failed⟩

theorem makeDirectories_clean {machine : Machine} {path : String} {fault : Fault}
    (clean : Path.hasNul path = false) (failed : (machine.makeDirectories path).1 = .error fault) :
    ∃ e, fault = .system e := by
  rw [makeDirectories] at failed
  split at failed
  · cases failed; exact ⟨_, rfl⟩
  · refine makeNames_clean ?_ failed
    rw [List.any_reverse, Path.hasNul_components, clean]

theorem openFile_nul {machine : Machine} {path : String} {append : Bool}
    (nul : Path.hasNul path = true) : machine.openFile path append = .error .nulByte := by
  simp [openFile, nul]

theorem openFile_clean {machine : Machine} {path : String} {append : Bool} {fault : Fault}
    (clean : Path.hasNul path = false) (failed : machine.openFile path append = .error fault) :
    ∃ e, fault = .system e := by
  rw [openFile, clean] at failed
  simp only [Bool.false_eq_true, if_false] at failed
  split at failed <;> cases failed <;> exact ⟨_, rfl⟩

theorem readFile_clean {machine : Machine} {path : String} {fault : Fault}
    (clean : Path.hasNul path = false) (failed : machine.readFile path = .error fault) :
    ∃ e, fault = .system e := by
  rw [readFile, clean] at failed
  simp only [Bool.false_eq_true, if_false] at failed
  split at failed <;> cases failed <;> exact ⟨_, rfl⟩

/-- A NUL of the path gets as far as the machine when the file is opened: no part of the
path before it is refused. -/
def seesNul (machine : Machine) (path : String) : Bool :=
  Path.hasNul path &&
    if Path.hasNul (Path.parent path) then
      machine.passes (Path.leadingSlashes (Path.parent path))
        (Path.cleanNames (Path.parent path)).reverse
    else
      match (machine.makeDirectories (Path.parent path)).1 with
      | .ok () => true
      | .error _ => false

theorem openBelow_nul {machine : Machine} {path : String} {append : Bool}
    (nul : machine.seesNul path = true) : (machine.openBelow path append).1 = .error .nulByte := by
  simp only [seesNul, Bool.and_eq_true] at nul
  obtain ⟨dirty, reached⟩ := nul
  rw [openBelow]
  split at reached
  case isTrue inner =>
    rcases makeDirectories_nul machine inner with ⟨-, made⟩ | ⟨stopped, -⟩
    · cases result : machine.makeDirectories (Path.parent path) with
      | mk failed next =>
        rw [result] at made
        cases made
        rfl
    · rw [reached] at stopped
      cases stopped
  case isFalse =>
    cases result : machine.makeDirectories (Path.parent path) with
    | mk made next =>
      cases made with
      | ok => simp [openFile_nul dirty]
      | error fault => simp [result] at reached

theorem openBelow_error {machine : Machine} {path : String} {append : Bool} {fault : Fault}
    (failed : (machine.openBelow path append).1 = .error fault) :
    (machine.makeDirectories (Path.parent path)).1 = .error fault ∨
      (machine.makeDirectories (Path.parent path)).1 = .ok () ∧
        ∃ next : Machine, next.openFile path append = .error fault := by
  rw [openBelow] at failed
  split at failed
  case h_1 made =>
    cases failed
    exact .inl (congrArg Prod.fst made)
  case h_2 next made =>
    right
    rw [made]
    refine ⟨rfl, next, ?_⟩
    split at failed
    case h_1 refused =>
      cases failed
      exact refused
    case h_2 => cases failed

theorem openBelow_clean {machine : Machine} {path : String} {append : Bool} {fault : Fault}
    (hidden : machine.seesNul path = false)
    (failed : (machine.openBelow path append).1 = .error fault) : ∃ e, fault = .system e := by
  rcases openBelow_error failed with made | ⟨made, next, opened⟩
  · by_cases inner : Path.hasNul (Path.parent path) = true
    · rcases makeDirectories_nul machine inner with ⟨passed, -⟩ | ⟨-, e, refused⟩
      · simp [seesNul, inner, passed, Path.hasNul_of_parent inner] at hidden
      · rw [refused] at made
        cases made
        exact ⟨e, rfl⟩
    · exact makeDirectories_clean (Bool.eq_false_iff.mpr inner) made
  · refine openFile_clean (Bool.eq_false_iff.mpr fun dirty => ?_) opened
    by_cases inner : Path.hasNul (Path.parent path) = true
    · rcases makeDirectories_nul machine inner with ⟨-, refused⟩ | ⟨-, e, refused⟩
      · rw [refused] at made
        cases made
      · rw [refused] at made
        cases made
    · simp [seesNul, inner, dirty, made] at hidden

end Machine

/-- The machine gets to see a NUL of the target: that is no error of the shell. -/
theorem openRedirection_nul {session : Session} {machine : Machine} {redirection : Redirection}
    (nul : machine.seesNul (session.resolve machine redirection.path) = true) :
    (openRedirection session machine redirection).1 = .error .nulByte := by
  unfold openRedirection
  have failed : (machine.openBelow (session.resolve machine redirection.path)
      redirection.append).1 = .error .nulByte := Machine.openBelow_nul nul
  split
  case h_1 refused =>
    rw [refused] at failed
    cases failed
    rfl
  case h_2 opened =>
    rw [opened] at failed
    cases failed

theorem openRedirection_clean {session : Session} {machine : Machine} {redirection : Redirection}
    {fault : Fault}
    (hidden : machine.seesNul (session.resolve machine redirection.path) = false)
    (failed : (openRedirection session machine redirection).1 = .error fault) :
    ∃ error, fault = .shell error := by
  unfold openRedirection at failed
  split at failed
  case h_1 refused =>
    obtain ⟨e, rfl⟩ := Machine.openBelow_clean hidden (congrArg Prod.fst refused)
    cases failed
    exact ⟨_, rfl⟩
  case h_2 => cases failed

namespace History

theorem load_clean {history : History} {machine : Machine} {path : String} {fault : Fault}
    (clean : Path.hasNul path = false) (failed : history.load machine path = .error fault) :
    ∃ error, fault = .shell error := by
  rw [load] at failed
  split at failed
  case h_1 refused =>
    obtain ⟨e, rfl⟩ := Machine.readFile_clean clean refused
    cases failed
    exact ⟨_, rfl⟩
  case h_2 =>
    split at failed
    · cases failed; exact ⟨_, rfl⟩
    · cases failed

theorem save_clean {history : History} {machine : Machine} {path : String} {limit : Int}
    {fault : Fault} (clean : Path.hasNul path = false)
    (failed : (history.save machine path limit).1 = .error fault) :
    ∃ error, fault = .shell error := by
  rw [save, writeLines] at failed
  cases opened : machine.openFile path false with
  | error refusal =>
    obtain ⟨e, rfl⟩ := Machine.openFile_clean clean opened
    rw [opened] at failed
    cases failed
    exact ⟨_, rfl⟩
  | ok result =>
    obtain ⟨file, held⟩ := result
    simp only [opened, encodeLines_texts] at failed
    cases wrote : file.write (fileText (lastOrAll limit history.lines)) held.files with
    | error e =>
      rw [wrote] at failed
      cases failed
      exact ⟨_, rfl⟩
    | ok result =>
      rw [wrote] at failed
      cases failed

end History

end CommandShell
