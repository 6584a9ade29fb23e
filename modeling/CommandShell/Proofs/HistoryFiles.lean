import CommandShell.History
import CommandShell.Proofs.FileTree

/-! The history files of a session. Whatever is added, loaded, saved and appended, each file
holds what the last save put there and, after it, every line of the session once. -/
namespace CommandShell

open FileTree (Purpose)

/-- Where the path can be followed, it leads to a directory or to the regular file at
`place`, which may be missing yet. -/
def Machine.LeadsTo (machine : Machine) (path : String) (place : Location) (purpose : Purpose) :
    Prop :=
  ∀ reached, machine.lookup purpose path = .ok reached →
    reached.node = some .directory ∨ reached.location = place ∧ machine.files.HoldsFile place

instance (machine : Machine) (path : String) (place : Location) (purpose : Purpose) :
    Decidable (machine.LeadsTo path place purpose) :=
  match found : machine.lookup purpose path with
  | .error _ => .isTrue (by simp [Machine.LeadsTo, found])
  | .ok reached =>
    decidable_of_iff
      (reached.node = some .directory ∨ reached.location = place ∧ machine.files.HoldsFile place)
      (by simp [Machine.LeadsTo, found])

structure Machine.Denotes (machine : Machine) (path : String) (place : Location) : Prop where
  read : machine.LeadsTo path place .reach
  write : machine.LeadsTo path place .write

instance (machine : Machine) (path : String) (place : Location) :
    Decidable (machine.Denotes path place) :=
  decidable_of_iff (machine.LeadsTo path place .reach ∧ machine.LeadsTo path place .write)
    ⟨fun both => ⟨both.1, both.2⟩, fun denotes => ⟨denotes.read, denotes.write⟩⟩

theorem Machine.lookup_node {machine : Machine} {purpose : Purpose} {path : String}
    {reached : FileTree.Place} (found : machine.lookup purpose path = .ok reached) :
    reached.node = machine.files.get? reached.location := by
  rw [lookup, lookupFrom] at found
  split at found
  · cases found
  · split at found
    · cases found
    · exact FileTree.walk_node found

theorem Machine.lookup_alike {machine : Machine} {files : FileTree} {place : Location}
    (alike : machine.files.Alike files place) {purpose : Purpose} {path : String}
    {reached : FileTree.Place} (found : machine.lookup purpose path = .ok reached) :
    ∃ node, { machine with files }.lookup purpose path = .ok ⟨reached.location, node⟩ := by
  rw [lookup, lookupFrom] at found ⊢
  by_cases empty : path = ""
  · rw [if_pos empty] at found
    cases found
  by_cases long : FileTree.maxPathBytes ≤ path.utf8ByteSize
  · rw [if_neg empty, if_pos long] at found
    cases found
  rw [if_neg empty, if_neg long] at found ⊢
  exact alike.walk found

/-- Storing a file keeps where every path leads. -/
theorem Machine.LeadsTo.set_file {machine : Machine} {path : String} {place stored : Location}
    {purpose : Purpose} (leads : machine.LeadsTo path place purpose)
    (file : machine.files.HoldsFile stored) (content : Bytes) (executable : Bool) :
    { machine with files := machine.files.set stored (.file content executable) }.LeadsTo
      path place purpose := by
  intro reached found
  obtain ⟨node, before⟩ := lookup_alike (FileTree.alike_set file.leaf content executable).symm found
  have now := lookup_node found
  rw [FileTree.get_set _ _ _ _ file.proper] at now
  rcases leads _ before with directory | ⟨here, held⟩
  · have earlier := lookup_node before
    left
    rw [now, if_neg, ← earlier]
    · exact directory
    · intro same
      rw [directory, same] at earlier
      rcases file with absent | ⟨content, executable, present⟩
      · simp [absent] at earlier
      · simp [present] at earlier
  · right
    refine ⟨here, ?_⟩
    by_cases same : place = stored
    · subst same
      exact FileTree.set_holdsFile content executable file.proper
    · rw [FileTree.HoldsFile, FileTree.get_set _ _ _ _ file.proper, if_neg same]
      exact held

theorem Machine.Denotes.set_file {machine : Machine} {path : String} {place stored : Location}
    (denotes : machine.Denotes path place) (file : machine.files.HoldsFile stored)
    (content : Bytes) (executable : Bool) :
    { machine with files := machine.files.set stored (.file content executable) }.Denotes
      path place :=
  ⟨denotes.read.set_file file content executable, denotes.write.set_file file content executable⟩

theorem Machine.openFile_ok {machine opened : Machine} {path : String} {place : Location}
    {append : Bool} {file : OpenFile} (denotes : machine.Denotes path place)
    (success : machine.openFile path append = .ok (file, opened)) :
    machine.files.HoldsFile place ∧ file = .regular place 0 append ∧ ∃ executable,
      opened = { machine with files := machine.files.set place (.file
        (if append then machine.files.contentAt place else []) executable) } := by
  rw [openFile] at success
  split at success
  · cases success
  · cases found : machine.lookup .write path with
    | error e => simp [found] at success
    | ok reached =>
      obtain ⟨location, node⟩ := reached
      have present := lookup_node found
      rcases denotes.write _ found with directory | ⟨rfl, held⟩
      · simp only at directory
        simp [found, directory] at success
      · refine ⟨held, ?_⟩
        rcases held with absent | ⟨content, executable, stored⟩
        · obtain rfl : node = none := present.trans absent
          simp only [found] at success
          cases success
          exact ⟨rfl, false, by simp [FileTree.contentAt, absent]⟩
        · obtain rfl : node = some (.file content executable) := present.trans stored
          simp only [found] at success
          cases success
          exact ⟨rfl, executable, by simp [FileTree.contentAt, stored]⟩

theorem Machine.openFile_device {machine opened : Machine} {path : String} {append : Bool}
    {device : Device} (success : machine.openFile path append = .ok (.device device, opened)) :
    opened = machine := by
  rw [openFile] at success
  split at success
  · cases success
  · split at success <;> cases success
    rfl

/-- What a path that denotes a file can be read to hold is the content of that file. -/
theorem Machine.readFile_ok {machine : Machine} {path : String} {place : Location} {bytes : Bytes}
    (denotes : machine.Denotes path place) (success : machine.readFile path = .ok bytes) :
    bytes = machine.files.contentAt place := by
  rw [readFile] at success
  split at success
  · cases success
  · cases found : machine.lookup .reach path with
    | error e => simp [found] at success
    | ok reached =>
      obtain ⟨location, node⟩ := reached
      have present := lookup_node found
      rcases denotes.read _ found with directory | ⟨rfl, held⟩
      · simp only at directory
        simp [found, directory] at success
      · rcases held with absent | ⟨content, executable, stored⟩
        · obtain rfl : node = none := present.trans absent
          simp [found] at success
        · obtain rfl : node = some (.file content executable) := present.trans stored
          simp only [found, Except.ok.injEq] at success
          simp [FileTree.contentAt, stored, success]

theorem overwrite_nil (data : Bytes) : overwrite [] 0 data = data := by
  simp [overwrite]

namespace History

theorem fileText_append (first second : List String) :
    fileText (first ++ second) = fileText first ++ fileText second := by
  simp [fileText]

/-- Where the path can be opened, writing lines stores those that can be encoded at the place it
denotes and changes nothing else. -/
theorem writeLines_opened {Line : Type} [Recorded Line] {machine opened : Machine}
    {file : OpenFile} {path : String} {place : Location} {append : Bool}
    (denotes : machine.Denotes path place)
    (success : machine.openFile path append = .ok (file, opened)) (lines : List Line) :
    machine.files.HoldsFile place ∧ ∃ executable,
      writeLines machine path append lines = ((encodeLines lines).2,
        { machine with files := machine.files.set place (.file
          ((if append then machine.files.contentAt place else []) ++ (encodeLines lines).1)
            executable) }) := by
  obtain ⟨free, rfl, executable, rfl⟩ := Machine.openFile_ok denotes success
  refine ⟨free, executable, ?_⟩
  simp only [writeLines, success, OpenFile.write, FileTree.get_set _ _ _ _ free.proper, if_true,
    FileTree.set_set]
  cases append <;> simp [overwrite_nil]

theorem writeLines_ok {Line : Type} [Recorded Line] {machine next : Machine} {path : String}
    {place : Location} {append : Bool} {lines : List Line} (denotes : machine.Denotes path place)
    (written : writeLines machine path append lines = (.ok (), next)) :
    machine.files.HoldsFile place ∧ ∃ executable,
      next = { machine with files := machine.files.set place (.file
        ((if append then machine.files.contentAt place else []) ++ (encodeLines lines).1)
          executable) } := by
  cases opened : machine.openFile path append with
  | error fault => simp [writeLines, opened] at written
  | ok result =>
    obtain ⟨free, executable, stored⟩ := writeLines_opened denotes opened lines
    rw [stored] at written
    exact ⟨free, executable, (congrArg Prod.snd written).symm⟩

/-- Texts that cannot be written leave the machine as it was: what refuses them is the path, or
a device. -/
theorem writeLines_refused {machine : Machine} {path : String} {append : Bool} {fault : Fault}
    {lines : List String} (refused : (writeLines machine path append lines).1 = .error fault) :
    (writeLines machine path append lines).2 = machine := by
  rw [writeLines] at refused ⊢
  cases opened : machine.openFile path append with
  | error fault => rfl
  | ok result =>
    obtain ⟨file, held⟩ := result
    simp only [opened, encodeLines_texts] at refused ⊢
    cases file with
    | regular location offset append =>
      simp only [OpenFile.write] at refused
      split at refused
      next failed => split at failed <;> cases failed
      · cases refused
    | device device =>
      have kept := Machine.openFile_device opened
      cases wrote : (OpenFile.device device).write (fileText lines) held.files with
      | error e => exact kept
      | ok result => simp [wrote] at refused

theorem load_ok {history next : History} {machine : Machine} {path : String}
    (loaded : history.load machine path = .ok next) :
    ∃ lines : List String, next = history.extend (lines.map fun line => ⟨line, true⟩) := by
  rw [load] at loaded
  split at loaded
  · cases loaded
  · split at loaded
    · cases loaded
    · cases loaded
      exact ⟨_, rfl⟩

theorem lines_drop_imported (history : History) (lines : List String) :
    (history.extend (lines.map fun line => ⟨line, true⟩)).lines.drop history.length = lines := by
  simp [extend, History.lines, length, Function.comp_def]

theorem save_ok {Line : Type} [Recorded Line] {history next : History Line}
    {machine written : Machine} {path : String} {limit : Int}
    (saved : history.save machine path limit = (.ok next, written)) :
    next = history.setMark path ∧
      writeLines machine path false (lastOrAll limit history.lines) = (.ok (), written) := by
  rw [save] at saved
  cases wrote : writeLines machine path false (lastOrAll limit history.lines) with
  | mk result left =>
    rw [wrote] at saved
    cases result with
    | error fault => cases saved
    | ok =>
      cases saved
      exact ⟨rfl, rfl⟩

theorem appendTo_ok {history next : History} {machine written : Machine} {path : String}
    {count : Nat} (appended : history.appendTo machine path = (.ok (count, next), written)) :
    next = history.setMark path ∧
      writeLines machine path true (history.unwritten path) = (.ok (), written) := by
  rw [appendTo] at appended
  cases wrote : writeLines machine path true (history.unwritten path) with
  | mk result left =>
    rw [wrote] at appended
    cases result with
    | error fault => cases appended
    | ok =>
      cases appended
      exact ⟨rfl, rfl⟩

theorem save_refused {history : History} {machine : Machine} {path : String} {limit : Int}
    {fault : Fault} (refused : (history.save machine path limit).1 = .error fault) :
    (history.save machine path limit).2 = machine := by
  rw [save] at refused ⊢
  cases wrote : (writeLines machine path false (lastOrAll limit history.lines)).1 with
  | error other => exact writeLines_refused wrote
  | ok => simp [wrote, Except.map] at refused

theorem appendTo_refused {history : History} {machine : Machine} {path : String} {fault : Fault}
    (refused : (history.appendTo machine path).1 = .error fault) :
    (history.appendTo machine path).2 = machine := by
  rw [appendTo] at refused ⊢
  cases wrote : (writeLines machine path true (history.unwritten path)).1 with
  | error other => exact writeLines_refused wrote
  | ok => simp [wrote, Except.map] at refused

def sessionLines (entries : List Entry) (first last : Nat) : List String :=
  (((entries.take last).drop first).filter fun entry => !entry.imported).map Entry.line

theorem sessionLines_extend (entries new : List Entry) (first : Nat) {last : Nat}
    (bound : last ≤ entries.length) :
    sessionLines (entries ++ new) first last = sessionLines entries first last := by
  rw [sessionLines, List.take_append_of_le_length bound, sessionLines]

theorem sessionLines_empty (entries : List Entry) (position : Nat) :
    sessionLines entries position position = [] := by
  simp [sessionLines]

theorem sessionLines_join (entries : List Entry) {first middle last : Nat} (start : first ≤ middle)
    (rest : middle ≤ last) :
    sessionLines entries first middle ++ sessionLines entries middle last =
      sessionLines entries first last := by
  have split : (entries.take last).drop first =
      (entries.take middle).drop first ++ (entries.take last).drop middle := by
    rw [List.drop_take, List.drop_take, List.drop_take,
      show last - first = (middle - first) + (last - middle) by omega, List.take_add,
      List.drop_drop, show first + (middle - first) = middle by omega]
  simp [sessionLines, split]

theorem unwritten_eq (history : History) (path : String) :
    history.unwritten path =
      sessionLines history.entries (history.mark path) history.length := by
  simp [unwritten, sessionLines, length]

theorem lookup_filter_ne (marks : List (String × Nat)) {path other : String}
    (different : other ≠ path) :
    (marks.filter (·.1 ≠ path)).lookup other = marks.lookup other := by
  induction marks with
  | nil => rfl
  | cons entry rest ih =>
    obtain ⟨key, count⟩ := entry
    by_cases same : key = path
    · subst same
      rw [List.filter_cons_of_neg (by simp), ih, lookup_cons_if, if_neg different]
    · rw [List.filter_cons_of_pos (by simpa using same), lookup_cons_if, lookup_cons_if, ih]

theorem mark_setMark (history : History) (path other : String) :
    (history.setMark path).mark other =
      if other = path then history.length else history.mark other := by
  simp only [mark, setMark, length, lookup_cons_if]
  split
  · rfl
  case isFalse different => rw [lookup_filter_ne _ different]

end History

/-- What a history did with success. A save tells the lines and an append the number of
entries at that moment. -/
inductive HistoryEvent where
  | added (line : String)
  | loaded (lines : List String)
  | saved (path : String) (limit : Int) (lines : List String)
  | appended (path : String) (count : Nat)
  deriving DecidableEq, Repr

namespace HistoryEvent

def brought : HistoryEvent → List Entry
  | .added line => [⟨line, false⟩]
  | .loaded lines => lines.map fun line => ⟨line, true⟩
  | .saved _ _ _ | .appended _ _ => []

def written? : HistoryEvent → Option (String × Nat)
  | .added _ | .loaded _ => none
  | .saved path _ lines => some (path, lines.length)
  | .appended path count => some (path, count)

/-! Events are listed newest first. -/

def log (initial : List String) : List HistoryEvent → List Entry
  | [] => initial.map fun line => ⟨line, false⟩
  | event :: earlier => log initial earlier ++ event.brought

def lastSave? (path : String) : List HistoryEvent → Option (Int × List String)
  | [] => none
  | .saved other limit lines :: earlier =>
    if path = other then some (limit, lines) else lastSave? path earlier
  | _ :: earlier => lastSave? path earlier

def writtenUpTo (path : String) : List HistoryEvent → Nat
  | [] => 0
  | event :: earlier =>
    match event.written? with
    | some (other, count) => if path = other then count else writtenUpTo path earlier
    | none => writtenUpTo path earlier

theorem lastSave?_silent {event : HistoryEvent} (silent : event.written? = none) (path : String)
    (earlier : List HistoryEvent) : lastSave? path (event :: earlier) = lastSave? path earlier := by
  cases event with
  | added | loaded => rfl
  | saved | appended => cases silent

theorem lastSave?_other {event : HistoryEvent} {path other : String} {count : Nat}
    (wrote : event.written? = some (path, count)) (different : other ≠ path)
    (earlier : List HistoryEvent) :
    lastSave? other (event :: earlier) = lastSave? other earlier := by
  cases event with
  | added | loaded | appended => rfl
  | saved => cases wrote; exact if_neg different

theorem brought_of_written {event : HistoryEvent} {file : String × Nat}
    (wrote : event.written? = some file) : event.brought = [] := by
  cases event with
  | added | loaded => cases wrote
  | saved | appended => rfl

def content (before : Bytes) (initial : List String) (path : String)
    (events : List HistoryEvent) : Bytes :=
  match lastSave? path events with
  | none =>
    before ++ History.fileText
      (History.sessionLines (log initial events) 0 (writtenUpTo path events))
  | some (limit, lines) =>
    History.fileText (History.lastOrAll limit lines) ++ History.fileText
      (History.sessionLines (log initial events) lines.length (writtenUpTo path events))

end HistoryEvent

inductive HistoryStep where
  | add (line : String)
  | load (path : String)
  | save (path : String) (limit : Int)
  | append (path : String)
  /-- Others change the machine. -/
  | outside (machine : Machine)
  deriving DecidableEq, Repr

structure HistoryLedger where
  history : History
  machine : Machine
  events : List HistoryEvent := []
  deriving DecidableEq, Repr

namespace HistoryLedger

def step (ledger : HistoryLedger) : HistoryStep → HistoryLedger
  | .add line =>
    { ledger with history := ledger.history.add line, events := .added line :: ledger.events }
  | .load path =>
    match ledger.history.load ledger.machine path with
    | .error _ => ledger
    | .ok history =>
      { ledger with
        history, events := .loaded (history.lines.drop ledger.history.length) :: ledger.events }
  | .save path limit =>
    match ledger.history.save ledger.machine path limit with
    | (.error _, machine) => { ledger with machine }
    | (.ok history, machine) =>
      ⟨history, machine, .saved path limit ledger.history.lines :: ledger.events⟩
  | .append path =>
    match ledger.history.appendTo ledger.machine path with
    | (.error _, machine) => { ledger with machine }
    | (.ok (_, history), machine) =>
      ⟨history, machine, .appended path ledger.history.length :: ledger.events⟩
  | .outside machine => { ledger with machine }

def start (initial : List String) (machine : Machine) : HistoryLedger :=
  { history := .ofLines initial, machine }

def run (ledger : HistoryLedger) (steps : List HistoryStep) : HistoryLedger :=
  steps.foldl step ledger

def Fails (ledger : HistoryLedger) : HistoryStep → Prop
  | .add _ | .outside _ => False
  | .load path => ∃ fault, ledger.history.load ledger.machine path = .error fault
  | .save path limit => ∃ fault, (ledger.history.save ledger.machine path limit).1 = .error fault
  | .append path => ∃ fault, (ledger.history.appendTo ledger.machine path).1 = .error fault

theorem step_of_fails {ledger : HistoryLedger} {step : HistoryStep}
    (fails : ledger.Fails step) : ledger.step step = ledger := by
  cases step with
  | add | outside => cases fails
  | load =>
    obtain ⟨fault, refused⟩ := fails
    simp [HistoryLedger.step, refused]
  | save path limit =>
    obtain ⟨fault, refused⟩ := fails
    have kept := History.save_refused refused
    cases saved : ledger.history.save ledger.machine path limit with
    | mk result machine =>
      rw [saved] at refused kept
      cases refused
      cases kept
      simp [HistoryLedger.step, saved]
  | append path =>
    obtain ⟨fault, refused⟩ := fails
    have kept := History.appendTo_refused refused
    cases appended : ledger.history.appendTo ledger.machine path with
    | mk result machine =>
      rw [appended] at refused kept
      cases refused
      cases kept
      simp [HistoryLedger.step, appended]

theorem save_of_not_fails {ledger : HistoryLedger} {path : String} {limit : Int}
    (succeeds : ¬ ledger.Fails (.save path limit)) :
    ∃ history machine, ledger.history.save ledger.machine path limit = (.ok history, machine) := by
  cases saved : ledger.history.save ledger.machine path limit with
  | mk result machine =>
    cases result with
    | ok history => exact ⟨history, machine, rfl⟩
    | error fault => exact absurd ⟨fault, congrArg Prod.fst saved⟩ succeeds

theorem append_of_not_fails {ledger : HistoryLedger} {path : String}
    (succeeds : ¬ ledger.Fails (.append path)) :
    ∃ count history machine,
      ledger.history.appendTo ledger.machine path = (.ok (count, history), machine) := by
  cases appended : ledger.history.appendTo ledger.machine path with
  | mk result machine =>
    cases result with
    | ok new => exact ⟨new.1, new.2, machine, rfl⟩
    | error fault => exact absurd ⟨fault, congrArg Prod.fst appended⟩ succeeds

end HistoryLedger

section Files

variable (paths : List String) (place : String → Location)

/-- Only `paths` are written to, and nobody else writes to the files they denote. -/
def HistoryLedger.Admits (ledger : HistoryLedger) : HistoryStep → Prop
  | .add _ | .load _ => True
  | .save path _ | .append path => path ∈ paths
  | .outside machine => ∀ path ∈ paths, machine.Denotes path (place path) ∧
      machine.files.contentAt (place path) = ledger.machine.files.contentAt (place path)

def HistoryLedger.AdmitsAll (ledger : HistoryLedger) : List HistoryStep → Prop
  | [] => True
  | step :: rest => ledger.Admits paths place step ∧ (ledger.step step).AdmitsAll rest

instance (ledger : HistoryLedger) (step : HistoryStep) :
    Decidable (ledger.Admits paths place step) :=
  match step with
  | .add _ | .load _ => .isTrue trivial
  | .save path _ | .append path => inferInstanceAs (Decidable (path ∈ paths))
  | .outside machine =>
    inferInstanceAs (Decidable (∀ path ∈ paths, machine.Denotes path (place path) ∧
      machine.files.contentAt (place path) = ledger.machine.files.contentAt (place path)))

instance decidableAdmitsAll (ledger : HistoryLedger) :
    (steps : List HistoryStep) → Decidable (ledger.AdmitsAll paths place steps)
  | [] => .isTrue trivial
  | step :: rest =>
    have := decidableAdmitsAll (ledger.step step) rest
    inferInstanceAs (Decidable (ledger.Admits paths place step ∧
      (ledger.step step).AdmitsAll paths place rest))

/-- The history, its marks and the files agree with the events. -/
structure HistoryLedger.Accounted (initial : List String) (before : String → Bytes)
    (ledger : HistoryLedger) : Prop where
  entries : ledger.history.entries = HistoryEvent.log initial ledger.events
  mark : ∀ path, ledger.history.mark path = HistoryEvent.writtenUpTo path ledger.events
  bound : ∀ path, HistoryEvent.writtenUpTo path ledger.events ≤ ledger.history.length
  saved : ∀ path limit lines, HistoryEvent.lastSave? path ledger.events = some (limit, lines) →
    lines.length ≤ HistoryEvent.writtenUpTo path ledger.events
  denotes : ∀ path ∈ paths, ledger.machine.Denotes path (place path)
  content : ∀ path ∈ paths, ledger.machine.files.contentAt (place path) =
    HistoryEvent.content (before path) initial path ledger.events

variable {paths} {place} {initial : List String} {before : String → Bytes}
  {ledger : HistoryLedger}

namespace HistoryLedger.Accounted

/-- An event that writes to no file leaves what every file should hold. -/
theorem content_extend (accounted : ledger.Accounted paths place initial before)
    {event : HistoryEvent} (silent : event.written? = none) (path : String) (earlier : Bytes) :
    HistoryEvent.content earlier initial path (event :: ledger.events) =
      HistoryEvent.content earlier initial path ledger.events := by
  have bound : HistoryEvent.writtenUpTo path ledger.events ≤
      (HistoryEvent.log initial ledger.events).length := by
    rw [← accounted.entries]
    exact accounted.bound path
  rw [HistoryEvent.content, HistoryEvent.content, HistoryEvent.lastSave?_silent silent]
  simp only [HistoryEvent.writtenUpTo, silent, HistoryEvent.log,
    History.sessionLines_extend _ _ _ bound]

theorem extend (accounted : ledger.Accounted paths place initial before)
    {event : HistoryEvent} (silent : event.written? = none) :
    HistoryLedger.Accounted paths place initial before
      { ledger with
        history := ledger.history.extend event.brought, events := event :: ledger.events } where
  entries := by simp [History.extend, HistoryEvent.log, accounted.entries]
  mark path := by
    rw [HistoryEvent.writtenUpTo, silent]
    exact accounted.mark path
  bound path := by
    have bound := accounted.bound path
    simp only [HistoryEvent.writtenUpTo, silent, History.extend, History.length,
      List.length_append] at bound ⊢
    omega
  saved path limit lines found := by
    rw [HistoryEvent.lastSave?_silent silent] at found
    rw [HistoryEvent.writtenUpTo, silent]
    exact accounted.saved path limit lines found
  denotes := accounted.denotes
  content path member := by
    rw [accounted.content_extend silent]
    exact accounted.content path member

/-- An event that writes to one file is accounted for when that file now holds what it
should. -/
theorem write (accounted : ledger.Accounted paths place initial before)
    (distinct : ∀ path ∈ paths, ∀ other ∈ paths, place path = place other → path = other)
    {event : HistoryEvent} {path : String} (member : path ∈ paths)
    (wrote : event.written? = some (path, ledger.history.length))
    (free : ledger.machine.files.HoldsFile (place path)) (executable : Bool) :
    HistoryLedger.Accounted paths place initial before
      ⟨ledger.history.setMark path,
        { ledger.machine with
          files := ledger.machine.files.set (place path) (.file
            (HistoryEvent.content (before path) initial path (event :: ledger.events))
            executable) },
        event :: ledger.events⟩ where
  entries := by
    simp [HistoryEvent.log, HistoryEvent.brought_of_written wrote, ← accounted.entries,
      History.setMark]
  mark other := by
    simp only [History.mark_setMark, HistoryEvent.writtenUpTo, wrote, accounted.mark]
  bound other := by
    simp only [HistoryEvent.writtenUpTo, wrote]
    split
    · exact Nat.le_refl _
    · exact accounted.bound other
  saved other limit lines found := by
    simp only [HistoryEvent.writtenUpTo, wrote]
    split
    case isTrue same =>
      subst same
      cases event with
      | added | loaded => cases wrote
      | saved _ _ recorded =>
        simp only [HistoryEvent.written?, Option.some.injEq, Prod.mk.injEq] at wrote
        obtain ⟨rfl, full⟩ := wrote
        simp only [HistoryEvent.lastSave?, if_true, Option.some.injEq, Prod.mk.injEq] at found
        obtain ⟨-, rfl⟩ := found
        exact Nat.le_of_eq full
      | appended =>
        exact Nat.le_trans (accounted.saved other limit lines found) (accounted.bound other)
    case isFalse different =>
      rw [HistoryEvent.lastSave?_other wrote different] at found
      exact accounted.saved other limit lines found
  denotes other included := (accounted.denotes other included).set_file free _ executable
  content other included := by
    rw [FileTree.contentAt_set _ _ _ _ free.proper]
    split
    case isTrue same =>
      rw [distinct other included path member same]
    case isFalse apart =>
      have different : other ≠ path := fun same => apart (by rw [same])
      rw [accounted.content other included, HistoryEvent.content, HistoryEvent.content,
        HistoryEvent.lastSave?_other wrote different]
      simp only [HistoryEvent.writtenUpTo, wrote, if_neg different, HistoryEvent.log,
        HistoryEvent.brought_of_written wrote, List.append_nil]

theorem save (accounted : ledger.Accounted paths place initial before)
    (distinct : ∀ path ∈ paths, ∀ other ∈ paths, place path = place other → path = other)
    {path : String} (member : path ∈ paths) {limit : Int} {history : History} {machine : Machine}
    (success : ledger.history.save ledger.machine path limit = (.ok history, machine)) :
    HistoryLedger.Accounted paths place initial before
      ⟨history, machine, .saved path limit ledger.history.lines :: ledger.events⟩ := by
  obtain ⟨rfl, written⟩ := History.save_ok success
  obtain ⟨free, executable, rfl⟩ := History.writeLines_ok (accounted.denotes path member) written
  rw [History.encodeLines_texts]
  have counted : (HistoryEvent.saved path limit ledger.history.lines).written? =
      some (path, ledger.history.length) := by
    simp [HistoryEvent.written?, History.lines, History.length]
  have result := accounted.write distinct member counted free executable
  simpa [HistoryEvent.content, HistoryEvent.lastSave?, HistoryEvent.writtenUpTo,
    HistoryEvent.written?, History.sessionLines_empty, History.fileText] using result

theorem content_append (accounted : ledger.Accounted paths place initial before) (path : String)
    (earlier : Bytes) :
    HistoryEvent.content earlier initial path
        (.appended path ledger.history.length :: ledger.events) =
      HistoryEvent.content earlier initial path ledger.events ++
        History.fileText (ledger.history.unwritten path) := by
  have bound := accounted.bound path
  have joined (first : Nat) (start : first ≤ HistoryEvent.writtenUpTo path ledger.events) :=
    History.sessionLines_join (HistoryEvent.log initial ledger.events) start bound
  rw [History.unwritten_eq, accounted.mark, accounted.entries, HistoryEvent.content,
    HistoryEvent.content]
  cases found : HistoryEvent.lastSave? path ledger.events with
  | none =>
    simp [HistoryEvent.lastSave?, found, HistoryEvent.writtenUpTo, HistoryEvent.written?,
      HistoryEvent.log, HistoryEvent.brought, ← History.fileText_append, joined 0 (Nat.zero_le _)]
  | some saved =>
    have start := accounted.saved path saved.1 saved.2 found
    simp [HistoryEvent.lastSave?, found, HistoryEvent.writtenUpTo, HistoryEvent.written?,
      HistoryEvent.log, HistoryEvent.brought, ← History.fileText_append, joined _ start]

theorem append (accounted : ledger.Accounted paths place initial before)
    (distinct : ∀ path ∈ paths, ∀ other ∈ paths, place path = place other → path = other)
    {path : String} (member : path ∈ paths) {count : Nat} {history : History} {machine : Machine}
    (success : ledger.history.appendTo ledger.machine path = (.ok (count, history), machine)) :
    HistoryLedger.Accounted paths place initial before
      ⟨history, machine, .appended path ledger.history.length :: ledger.events⟩ := by
  obtain ⟨rfl, written⟩ := History.appendTo_ok success
  obtain ⟨free, executable, rfl⟩ := History.writeLines_ok (accounted.denotes path member) written
  rw [History.encodeLines_texts]
  have counted : (HistoryEvent.appended path ledger.history.length).written? =
      some (path, ledger.history.length) := rfl
  have result := accounted.write distinct member counted free executable
  rw [accounted.content_append] at result
  rw [if_pos rfl, accounted.content path member]
  exact result

theorem step (accounted : ledger.Accounted paths place initial before)
    (distinct : ∀ path ∈ paths, ∀ other ∈ paths, place path = place other → path = other)
    {step : HistoryStep} (admitted : ledger.Admits paths place step) :
    (ledger.step step).Accounted paths place initial before := by
  cases step with
  | add line =>
    have silent : (HistoryEvent.added line).written? = none := rfl
    exact accounted.extend silent
  | load path =>
    cases loaded : ledger.history.load ledger.machine path with
    | error fault =>
      have fails : ledger.Fails (.load path) := ⟨fault, loaded⟩
      rw [step_of_fails fails]
      exact accounted
    | ok history =>
      obtain ⟨lines, rfl⟩ := History.load_ok loaded
      have silent : (HistoryEvent.loaded lines).written? = none := rfl
      simpa [HistoryLedger.step, loaded, History.lines_drop_imported, HistoryEvent.brought]
        using accounted.extend silent
  | save path limit =>
    by_cases fails : ledger.Fails (.save path limit)
    · rw [step_of_fails fails]
      exact accounted
    · obtain ⟨history, machine, saved⟩ := save_of_not_fails fails
      simpa [HistoryLedger.step, saved] using accounted.save distinct admitted saved
  | append path =>
    by_cases fails : ledger.Fails (.append path)
    · rw [step_of_fails fails]
      exact accounted
    · obtain ⟨count, history, machine, appended⟩ := append_of_not_fails fails
      simpa [HistoryLedger.step, appended] using accounted.append distinct admitted appended
  | outside machine =>
    exact
      { accounted with
        denotes := fun path member => (admitted path member).1
        content := fun path member =>
          (admitted path member).2.trans (accounted.content path member) }

theorem run (accounted : ledger.Accounted paths place initial before)
    (distinct : ∀ path ∈ paths, ∀ other ∈ paths, place path = place other → path = other)
    {steps : List HistoryStep} (admitted : ledger.AdmitsAll paths place steps) :
    (ledger.run steps).Accounted paths place initial before := by
  induction steps generalizing ledger with
  | nil => exact accounted
  | cons step rest ih => exact ih (accounted.step distinct admitted.1) admitted.2

end HistoryLedger.Accounted

theorem HistoryLedger.start_accounted {machine : Machine} (initial : List String)
    (denotes : ∀ path ∈ paths, machine.Denotes path (place path)) :
    (start initial machine).Accounted paths place initial
      fun path => machine.files.contentAt (place path) where
  entries := rfl
  mark _ := rfl
  bound _ := Nat.zero_le _
  saved _ _ _ found := by cases found
  denotes := denotes
  content path _ := by
    simp [HistoryEvent.content, start, HistoryEvent.lastSave?, HistoryEvent.writtenUpTo,
      History.sessionLines_empty, History.fileText]

theorem HistoryLedger.entries_step (ledger : HistoryLedger) (step : HistoryStep) :
    ledger.history.entries <+: (ledger.step step).history.entries := by
  cases step with
  | add line => exact List.prefix_append _ _
  | load path =>
    cases loaded : ledger.history.load ledger.machine path with
    | error fault =>
      have fails : ledger.Fails (.load path) := ⟨fault, loaded⟩
      simp [step_of_fails fails]
    | ok history =>
      obtain ⟨lines, rfl⟩ := History.load_ok loaded
      simp [HistoryLedger.step, loaded, History.extend]
  | save path limit =>
    by_cases fails : ledger.Fails (.save path limit)
    · simp [step_of_fails fails]
    · obtain ⟨history, machine, saved⟩ := save_of_not_fails fails
      simp [HistoryLedger.step, saved, (History.save_ok saved).1, History.setMark]
  | append path =>
    by_cases fails : ledger.Fails (.append path)
    · simp [step_of_fails fails]
    · obtain ⟨count, history, machine, appended⟩ := append_of_not_fails fails
      simp [HistoryLedger.step, appended, (History.appendTo_ok appended).1, History.setMark]
  | outside machine => exact List.prefix_refl _

/-- No line is lost and none is written twice. -/
theorem HistoryLedger.run_writes_each_line_once (initial : List String) (machine : Machine)
    (steps : List HistoryStep)
    (distinct : ∀ path ∈ paths, ∀ other ∈ paths, place path = place other → path = other)
    (denotes : ∀ path ∈ paths, machine.Denotes path (place path))
    (admitted : (start initial machine).AdmitsAll paths place steps) :
    let ledger := (start initial machine).run steps
    ledger.history.entries = HistoryEvent.log initial ledger.events ∧
    (∀ path, ledger.history.mark path = HistoryEvent.writtenUpTo path ledger.events) ∧
    (∀ path limit lines, HistoryEvent.lastSave? path ledger.events = some (limit, lines) →
      lines.length ≤ HistoryEvent.writtenUpTo path ledger.events) ∧
    (∀ path ∈ paths,
      ledger.machine.files.contentAt (place path) =
        HistoryEvent.content (machine.files.contentAt (place path)) initial path ledger.events ∧
      ∀ bytes, ledger.machine.readFile path = .ok bytes →
        bytes = ledger.machine.files.contentAt (place path)) ∧
    (∀ step, ledger.history.entries <+: (ledger.step step).history.entries) ∧
    ∀ step, ledger.Fails step → ledger.step step = ledger := by
  intro ledger
  have accounted := (start_accounted initial denotes).run distinct admitted
  exact ⟨accounted.entries, accounted.mark, accounted.saved,
    fun path member => ⟨accounted.content path member,
      fun _ => Machine.readFile_ok (accounted.denotes path member)⟩,
    ledger.entries_step, fun _ => step_of_fails⟩

end Files

namespace HistoryLedger

def home (inner : List (Location × Node)) : Machine :=
  { files := ⟨(["home"], .directory) :: (["home", "log"], .file (History.fileText ["before"]) false)
      :: inner⟩
    directory := "/home" }

/-- The first append fails for want of a directory and is tried again; what was appended
is loaded back before the files are written once more. -/
def retried : List HistoryStep :=
  [.add "one", .append "new/log", .outside (home [(["home", "new"], .directory)]),
    .append "new/log", .load "new/log", .add "two", .save "log" 2, .add "three", .append "log",
    .append "new/log", .append "new/log"]

def homePlace (path : String) : Location :=
  "home" :: Path.components path

theorem retried_writes_each_line_once :
    (start ["zero"] (home [])).AdmitsAll ["log", "new/log"] homePlace retried ∧
    ((start ["zero"] (home [])).run retried).history.lines =
      ["zero", "one", "zero", "one", "two", "three"] ∧
    ((start ["zero"] (home [])).run retried).machine.files.contentAt ["home", "log"] =
      History.fileText ["one", "two", "three"] ∧
    ((start ["zero"] (home [])).run retried).machine.files.contentAt ["home", "new", "log"] =
      History.fileText ["zero", "one", "two", "three"] := by
  have admitted : (start ["zero"] (home [])).AdmitsAll ["log", "new/log"] homePlace retried := by
    decide +kernel
  have accounted := run_writes_each_line_once ["zero"] (home []) retried (by decide +kernel)
    (by decide +kernel) admitted
  refine ⟨admitted, by decide +kernel, ?_, ?_⟩
  · exact (accounted.2.2.2.1 "log" (by decide)).1.trans (by decide +kernel)
  · exact (accounted.2.2.2.1 "new/log" (by decide)).1.trans (by decide +kernel)

end HistoryLedger

end CommandShell
