import CommandShell.Proofs.HistoryFiles
import CommandShell.Proofs.NulPaths

/-! What opening the targets of a command does to the files. Directories that are missing are
made, a target that is opened for writing is made or emptied, and nothing else changes, whether or
not a later target can be opened. -/
namespace CommandShell

namespace FileTree

/-- Apart from the given places the trees differ at most by directories where nothing was. -/
def ChangedAt (places : List Location) (before after : FileTree) : Prop :=
  ∀ location, location ∉ places →
    after.get? location = before.get? location ∨
      before.get? location = none ∧ after.get? location = some .directory

theorem ChangedAt.refl (tree : FileTree) : ChangedAt [] tree tree :=
  fun _ _ => .inl rfl

theorem ChangedAt.trans {first second : List Location} {before middle after : FileTree}
    (early : ChangedAt first before middle) (late : ChangedAt second middle after) :
    ChangedAt (first ++ second) before after := by
  intro location apart
  rw [List.mem_append, not_or] at apart
  rcases late location apart.2 with same | ⟨absent, made⟩
  · rw [same]
    exact early location apart.1
  · refine .inr ⟨?_, made⟩
    rcases early location apart.1 with same | ⟨none, -⟩
    · rw [← same, absent]
    · exact none

theorem ChangedAt.mono {few more : List Location} {before after : FileTree}
    (changed : ChangedAt few before after) (among : few ⊆ more) : ChangedAt more before after :=
  fun location apart => changed location fun inside => apart (among inside)

/-- A new directory holds no bytes, as nothing did before. -/
theorem ChangedAt.contentAt {places : List Location} {before after : FileTree}
    (changed : ChangedAt places before after) {location : Location} (apart : location ∉ places) :
    after.contentAt location = before.contentAt location := by
  rcases changed location apart with same | ⟨absent, made⟩
  · rw [FileTree.contentAt, same, FileTree.contentAt]
  · rw [FileTree.contentAt, made, FileTree.contentAt, absent]

/-- What is there stays. -/
theorem ChangedAt.kept {places : List Location} {before after : FileTree}
    (changed : ChangedAt places before after) {location : Location} (apart : location ∉ places)
    {node : Node} (present : before.get? location = some node) :
    after.get? location = some node := by
  rcases changed location apart with same | ⟨absent, -⟩
  · rw [same, present]
  · cases present.symm.trans absent

theorem changedAt_set {tree : FileTree} {location : Location} (proper : location ≠ [])
    (node : Node) : ChangedAt [location] tree (tree.set location node) := by
  intro other apart
  rw [get_set _ _ _ _ proper, if_neg (by simpa using apart)]
  exact .inl rfl

theorem changedAt_directory {tree : FileTree} {location : Location}
    (absent : tree.get? location = none) : ChangedAt [] tree (tree.set location .directory) := by
  have proper : location ≠ [] := by
    rintro rfl
    cases absent
  intro other _
  rw [get_set _ _ _ _ proper]
  split
  next same => exact .inr ⟨same ▸ absent, rfl⟩
  · exact .inl rfl

end FileTree

namespace Machine

/-- The machines differ at most in their files: at the given places, and by directories where
nothing was. -/
structure ChangedAt (places : List Location) (before after : Machine) : Prop where
  directory : after.directory = before.directory
  environment : after.environment = before.environment
  account : after.accountHome = before.accountHome
  files : FileTree.ChangedAt places before.files after.files

theorem ChangedAt.refl (machine : Machine) : ChangedAt [] machine machine :=
  ⟨rfl, rfl, rfl, .refl _⟩

theorem ChangedAt.trans {first second : List Location} {before middle after : Machine}
    (early : ChangedAt first before middle) (late : ChangedAt second middle after) :
    ChangedAt (first ++ second) before after :=
  ⟨late.directory.trans early.directory, late.environment.trans early.environment,
    late.account.trans early.account, early.files.trans late.files⟩

theorem ChangedAt.mono {few more : List Location} {before after : Machine}
    (changed : ChangedAt few before after) (among : few ⊆ more) : ChangedAt more before after :=
  ⟨changed.directory, changed.environment, changed.account, changed.files.mono among⟩

theorem makeDirectory_changed {machine next : Machine} {path : String}
    (made : machine.makeDirectory path = .ok next) : ChangedAt [] machine next := by
  rw [makeDirectory] at made
  split at made
  · cases made
  · split at made
    · cases made
    · cases made
    next location found =>
      cases made
      exact ⟨rfl, rfl, rfl, FileTree.changedAt_directory (lookup_node found).symm⟩

theorem ensureDirectory_changed (machine : Machine) (path : String) :
    ChangedAt [] machine (machine.ensureDirectory path).2 := by
  rw [ensureDirectory]
  split
  next made => exact makeDirectory_changed made
  · split <;> exact .refl machine
  · exact .refl machine

theorem makeNames_changed (leading : Nat) (machine : Machine) (names : List String) :
    ChangedAt [] machine (makeNames leading machine names).2 := by
  induction names with
  | nil => exact .refl machine
  | cons name above ih =>
    have entered : ChangedAt [] machine (machine.enter leading above).2 := by
      rw [enter]
      split
      · exact .refl machine
      · exact ih
    rw [makeNames_cons]
    split
    next passed =>
      rw [passed] at entered
      exact entered.trans (ensureDirectory_changed _ _)
    next passed =>
      rw [passed] at entered
      exact entered.trans (ensureDirectory_changed _ _)
    next stopped =>
      rw [stopped] at entered
      exact entered

theorem makeDirectories_changed (machine : Machine) (path : String) :
    ChangedAt [] machine (machine.makeDirectories path).2 := by
  rw [makeDirectories]
  split
  · exact .refl machine
  · exact makeNames_changed _ _ _

end Machine

def OpenFile.places : OpenFile → List Location
  | .regular location _ _ => [location]
  | .device _ => []

namespace Machine

/-- A file that was opened is a device, or a regular file that is emptied unless it is opened for
appending. -/
theorem openFile_cases {machine next : Machine} {path : String} {append : Bool} {file : OpenFile}
    (opened : machine.openFile path append = .ok (file, next)) :
    (∃ device, file = .device device ∧ next = machine) ∨
      ∃ location executable, location ≠ [] ∧ file = .regular location 0 append ∧
        next = { machine with files := machine.files.set location (.file
          (if append then machine.files.contentAt location else []) executable) } := by
  rw [openFile] at opened
  split at opened
  · cases opened
  cases found : machine.lookup .write path with
  | error e => simp [found] at opened
  | ok reached =>
    obtain ⟨location, node⟩ := reached
    have here : node = machine.files.get? location := lookup_node found
    have proper (other : node ≠ some .directory) : location ≠ [] := by
      rintro rfl
      exact other here
    simp only [found] at opened
    cases node with
    | none =>
      cases opened
      exact .inr ⟨location, false, proper (by simp), rfl, by simp [FileTree.contentAt, ← here]⟩
    | some node =>
      cases node with
      | directory => cases opened
      | device device =>
        cases opened
        exact .inl ⟨device, rfl, rfl⟩
      | file content executable =>
        cases opened
        exact .inr ⟨location, executable, proper (by simp), rfl,
          by simp [FileTree.contentAt, ← here]⟩
      | link target | program name =>
        cases opened
        exact .inr ⟨location, false, proper (by simp), rfl, by simp [FileTree.contentAt, ← here]⟩

/-- A regular file that was opened is there, with its earlier bytes if it was opened for
appending. -/
structure HoldsOpened (before after : Machine) (append : Bool) (location : Location) : Prop where
  proper : location ≠ []
  content : ∃ executable, after.files.get? location =
    some (.file (if append then before.files.contentAt location else []) executable)

namespace HoldsOpened

variable {before middle after : Machine} {append : Bool} {location : Location}
  {places : List Location}

theorem later (holds : HoldsOpened before middle append location)
    (changed : ChangedAt places middle after) (apart : location ∉ places) :
    HoldsOpened before after append location := by
  obtain ⟨executable, content⟩ := holds.content
  exact ⟨holds.proper, executable, changed.files.kept apart content⟩

theorem earlier (holds : HoldsOpened middle after append location)
    (changed : ChangedAt places before middle) (apart : location ∉ places) :
    HoldsOpened before after append location := by
  obtain ⟨executable, content⟩ := holds.content
  rw [changed.files.contentAt apart] at content
  exact ⟨holds.proper, executable, content⟩

end HoldsOpened

theorem openBelow_opened {machine next : Machine} {path : String} {append : Bool} {file : OpenFile}
    (opened : machine.openBelow path append = (.ok file, next)) :
    ChangedAt file.places machine next ∧
      ((∃ device, file = .device device) ∨
        ∃ location, file = .regular location 0 append ∧
          HoldsOpened machine next append location) := by
  have above := makeDirectories_changed machine (Path.parent path)
  rw [openBelow] at opened
  split at opened
  · cases opened
  next middle made =>
    rw [made] at above
    split at opened
    · cases opened
    next opens =>
      cases opened
      rcases openFile_cases opens with ⟨device, rfl, rfl⟩ | ⟨location, executable, proper, rfl, rfl⟩
      · exact ⟨above, .inl ⟨device, rfl⟩⟩
      · refine ⟨above.trans ⟨rfl, rfl, rfl, FileTree.changedAt_set proper _⟩,
          .inr ⟨location, rfl, proper, executable, ?_⟩⟩
        rw [FileTree.get_set _ _ _ _ proper, if_pos rfl, above.files.contentAt (by simp)]

/-- Trying to open a file makes directories at most. -/
theorem openBelow_refused {machine next : Machine} {path : String} {append : Bool} {fault : Fault}
    (refused : machine.openBelow path append = (.error fault, next)) :
    ChangedAt [] machine next := by
  have above := makeDirectories_changed machine (Path.parent path)
  rw [openBelow] at refused
  split at refused
  next made =>
    cases refused
    rwa [made] at above
  next middle made =>
    rw [made] at above
    split at refused
    · cases refused
      exact above
    · cases refused

end Machine

/-- The targets are opened one after the other, each as the file at its place in the list, up to
the first that is refused. -/
inductive OpensInTurn (session : Session) :
    Machine → List Redirection → List OpenFile → Option (Redirection × Fault) → Machine → Prop
  | done (machine : Machine) : OpensInTurn session machine [] [] none machine
  | refused {machine left : Machine} {failing : Redirection} {later : List Redirection}
      {fault : Fault}
      (tried : machine.openBelow (session.resolve machine failing.path) failing.append =
        (.error fault, left)) :
      OpensInTurn session machine (failing :: later) [] (some (failing, fault)) left
  | opened {machine next left : Machine} {redirection : Redirection} {later : List Redirection}
      {file : OpenFile} {files : List OpenFile} {refusal? : Option (Redirection × Fault)}
      (tried : machine.openBelow (session.resolve machine redirection.path) redirection.append =
        (.ok file, next))
      (rest : OpensInTurn session next later files refusal? left) :
      OpensInTurn session machine (redirection :: later) (file :: files) refusal? left

def Rerouting.setAll (rerouting : Rerouting) : List Redirection → List OpenFile → Rerouting
  | redirection :: rest, file :: files =>
    (rerouting.set redirection.stream (.file file)).setAll rest files
  | _, _ => rerouting

def Rerouting.orRefusal (rerouting : Rerouting) : Option (Redirection × Fault) →
    Except Fault Rerouting
  | none => .ok rerouting
  | some (failing, fault) => .error (failing.fault fault)

namespace OpensInTurn

variable {session : Session} {machine left : Machine} {redirections : List Redirection}
  {files : List OpenFile} {refusal? : Option (Redirection × Fault)}

theorem exists_opening (session : Session) (machine : Machine) (redirections : List Redirection) :
    ∃ files refusal? left, OpensInTurn session machine redirections files refusal? left := by
  induction redirections generalizing machine with
  | nil => exact ⟨[], none, machine, .done machine⟩
  | cons redirection later ih =>
    cases tried : machine.openBelow (session.resolve machine redirection.path)
        redirection.append with
    | mk result next =>
      cases result with
      | error fault => exact ⟨[], _, next, .refused tried⟩
      | ok file =>
        obtain ⟨files, refusal?, left, rest⟩ := ih next
        exact ⟨file :: files, refusal?, left, .opened tried rest⟩

/-- Only the files that were opened are touched, and directories are made. -/
theorem changed (opening : OpensInTurn session machine redirections files refusal? left) :
    Machine.ChangedAt (files.flatMap OpenFile.places) machine left := by
  induction opening with
  | done machine => exact .refl machine
  | refused tried => exact Machine.openBelow_refused tried
  | opened tried _ ih => exact (Machine.openBelow_opened tried).1.trans ih

/-- When the files lie at different places, none of them disturbs what another holds. -/
theorem contents (opening : OpensInTurn session machine redirections files refusal? left)
    (distinct : (files.flatMap OpenFile.places).Nodup) {redirection : Redirection}
    {location : Location} {offset : Nat} {append : Bool}
    (member : (redirection, OpenFile.regular location offset append) ∈ redirections.zip files) :
    offset = 0 ∧ append = redirection.append ∧
      Machine.HoldsOpened machine left redirection.append location := by
  induction opening with
  | done machine => cases member
  | refused tried => cases member
  | @opened machine next left first later file files refusal? tried rest ih =>
    obtain ⟨touched, shape⟩ := Machine.openBelow_opened tried
    rw [List.flatMap_cons, List.nodup_append] at distinct
    obtain ⟨-, distinctLater, apart⟩ := distinct
    rw [List.zip_cons_cons, List.mem_cons] at member
    rcases member with here | there
    · cases here
      rcases shape with ⟨device, isDevice⟩ | ⟨place, isFile, holds⟩
      · cases isDevice
      · cases isFile
        refine ⟨rfl, rfl, holds.later rest.changed fun again => ?_⟩
        exact apart location (by simp [OpenFile.places]) location again rfl
    · obtain ⟨start, mode, holds⟩ := ih distinctLater there
      have inside : location ∈ files.flatMap OpenFile.places :=
        List.mem_flatMap.mpr ⟨_, (List.of_mem_zip there).2, by simp [OpenFile.places]⟩
      refine ⟨start, mode, holds.earlier touched fun again => ?_⟩
      exact apart location again location inside rfl

theorem openRedirections_eq
    (opening : OpensInTurn session machine redirections files refusal? left)
    (rerouting : Rerouting) :
    openRedirections session machine rerouting redirections =
      ((rerouting.setAll redirections files).orRefusal refusal?, left) := by
  induction opening generalizing rerouting with
  | done machine => rfl
  | refused tried => simp [openRedirections, openRedirection, tried, Rerouting.orRefusal]
  | opened tried _ ih => simp [openRedirections, openRedirection, tried, ih, Rerouting.setAll]

theorem openedFiles_eq
    (opening : OpensInTurn session machine redirections files refusal? left) :
    openedFiles session machine redirections = files := by
  induction opening with
  | done machine => rfl
  | refused tried => simp [openedFiles, tried]
  | opened tried _ ih => simp [openedFiles, tried, ih]

/-- What was opened can be computed. -/
theorem of_isOk (opens : (openRedirections session machine {} redirections).1.isOk = true) :
    OpensInTurn session machine redirections (openedFiles session machine redirections) none
      (openRedirections session machine {} redirections).2 := by
  obtain ⟨files, refusal?, left, opening⟩ := exists_opening session machine redirections
  rw [opening.openRedirections_eq] at opens ⊢
  rw [opening.openedFiles_eq]
  cases refusal? with
  | none => exact opening
  | some refusal => cases opens

/-- When none was refused, each target has its file. -/
theorem length_eq (opening : OpensInTurn session machine redirections files none left) :
    files.length = redirections.length := by
  generalize unrefused : none = refusal? at opening
  induction opening with
  | done machine => rfl
  | refused tried => cases unrefused
  | opened tried _ ih => simpa using ih unrefused

theorem exists_file (opening : OpensInTurn session machine redirections files none left)
    {redirection : Redirection} (member : redirection ∈ redirections) :
    ∃ file, (redirection, file) ∈ redirections.zip files := by
  rw [← List.map_fst_zip (Nat.le_of_eq opening.length_eq.symm)] at member
  obtain ⟨⟨_, file⟩, paired, rfl⟩ := List.mem_map.mp member
  exact ⟨file, paired⟩

end OpensInTurn

def Sink.collects : Sink → Bool
  | .memory _ | .terminal _ => true
  | .file _ | .broken | .closed => false

theorem Sink.write_collects {sink : Sink} (collects : sink.collects = true) (data : Bytes)
    (files : FileTree) :
    ∃ next, sink.write data files = .ok (next, files) ∧ next.collects = true ∧
      next.bytes = sink.bytes ++ data := by
  cases sink with
  | memory written | terminal written => exact ⟨_, rfl, rfl, by simp [bytes]⟩
  | file target | broken | closed => cases collects

end CommandShell
