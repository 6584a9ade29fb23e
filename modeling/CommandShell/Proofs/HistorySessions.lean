import CommandShell.Proofs.HistoryReload
import CommandShell.Proofs.UnencodableLines

/-! Any number of sessions on one history file. Each loads it into an empty history, adds lines
and saves it. A session that has to save a line which cannot be encoded ends with a fault, and
leaves the lines before that one in the file. -/
namespace CommandShell

namespace RawText

structure Recordable (line : RawText) : Prop where
  shown : (List.all line fun point => point.char?.any Text.isBlank) = false
  plain : (List.any line fun point => point.char?.any Text.isLineEnd) = false

instance (line : RawText) : Decidable line.Recordable :=
  decidable_of_iff (_ ∧ _) ⟨fun both => ⟨both.1, both.2⟩, fun line => ⟨line.shown, line.plain⟩⟩

theorem Recordable.text {line : RawText} (recordable : line.Recordable)
    (isText : line.isText = true) : History.Recordable line.text := by
  rw [← ofText_text isText] at recordable
  obtain ⟨shown, plain⟩ := recordable
  simp only [ofText, List.all_map, List.any_map, Function.comp_def, CodePoint.char?,
    Option.any_some] at shown plain
  exact (History.recordable_iff _).mp ⟨shown, plain⟩

end RawText

namespace History

theorem foldl_add_lines (history : History RawText) (typed : List RawText) :
    (typed.foldl add history).lines = history.lines ++ typed := by
  induction typed generalizing history with
  | nil => simp
  | cons line rest ih =>
    rw [List.foldl_cons, ih]
    simp [add, addAll, extend, History.lines]

/-- What a session found: the bytes of the history file, where there is one, the lines it started
with, and what it warned about. -/
structure Opening where
  held : Option Bytes
  seen : List RawText
  warnings : List ShellError

def runSession (limit : Int) (path : String) (machine : Machine) (typed : List RawText) :
    Except Fault Opening × Machine :=
  match ({} : History RawText).loadAtStart machine (some path) with
  | .error fault => (.error fault, machine)
  | .ok (loaded, early) =>
    let (saved, next) := (typed.foldl add loaded).saveAtEnd machine limit (some path)
    (saved.map fun (_, late) =>
      ⟨(machine.readFile path).toOption, loaded.lines, early.toList ++ late.toList⟩, next)

/-- Sessions one after another, up to one that ends with a fault. -/
def runSessions (limit : Int) (path : String) :
    Machine → List (List RawText) → Except Fault (List Opening) × Machine
  | machine, [] => (.ok [], machine)
  | machine, typed :: rest =>
    match runSession limit path machine typed with
    | (.error fault, machine) => (.error fault, machine)
    | (.ok opening, machine) =>
      let (later, machine) := runSessions limit path machine rest
      (later.map (opening :: ·), machine)

/-- The file at `place` holds what could be encoded of these lines; before the first session
there is no file. -/
structure Holds (machine : Machine) (path : String) (place : Location)
    (lines : Option (List RawText)) : Prop where
  writable : machine.Writable path place
  present : ∃ executable, machine.files.get? place =
    lines.map fun lines => .file (fileText (encodable lines)) executable

def Opening.onto (lines : Option (List RawText)) : Opening :=
  ⟨lines.map (fileText ∘ encodable), lines.getD [], []⟩

section

variable {machine : Machine} {path : String} {place : Location} {lines : Option (List RawText)}

theorem Holds.readFile (holds : Holds machine path place lines) :
    (machine.readFile path).toOption = lines.map (fileText ∘ encodable) := by
  obtain ⟨executable, present⟩ := holds.present
  cases lines with
  | none => rw [holds.writable.readFile_absent present]; rfl
  | some lines => rw [holds.writable.readFile_present present]; rfl

theorem Holds.loadAtStart (holds : Holds machine path place lines)
    (texts : ∀ line ∈ lines.getD [], line.isText = true)
    (recordable : ∀ line ∈ lines.getD [], line.Recordable) :
    ∃ loaded, ({} : History RawText).loadAtStart machine (some path) = .ok (loaded, none) ∧
      loaded.lines = lines.getD [] := by
  obtain ⟨executable, present⟩ := holds.present
  cases lines with
  | none =>
    have read := holds.writable.readFile_absent present
    have missing : machine.pathExists path = false := by
      rw [Machine.pathExists, Machine.find?, holds.writable.clean, holds.writable.lookup_reach,
        present]
      rfl
    refine ⟨{}, ?_, rfl⟩
    simp [History.loadAtStart, load, read, fileFault, missing]
  | some lines =>
    obtain ⟨loaded, success, read⟩ := load_fresh RawText (holds.writable.readFile_present present)
      (decode_fileText (encodable lines))
    have readable : ∀ line ∈ encodable lines, History.Recordable line := by
      intro line member
      have all : encodable lines = lines.map RawText.text := encodable_all texts
      rw [all] at member
      obtain ⟨raw, inside, rfl⟩ := List.mem_map.mp member
      exact (recordable raw inside).text (texts raw inside)
    refine ⟨loaded, by rw [History.loadAtStart, success], ?_⟩
    rw [read, fileLines_writtenText readable]
    exact encodable_ofText texts

theorem Holds.saveAtEnd (holds : Holds machine path place lines) (history : History RawText)
    (limit : Int) :
    ∃ next, history.saveAtEnd machine limit (some path) =
        ((encodeLines (lastOrAll limit history.lines)).2.map fun _ =>
          (history.setMark path, none), next) ∧
      Holds next path place (some (lastOrAll limit history.lines)) := by
  obtain ⟨executable, written⟩ :=
    holds.writable.writeLines false (lastOrAll limit history.lines)
  refine ⟨(writeLines machine path false (lastOrAll limit history.lines)).2, ?_, ?_⟩
  · rw [History.saveAtEnd, save, written]
    cases encoded : (encodeLines (lastOrAll limit history.lines)).2 with
    | ok => rfl
    | error fault =>
      obtain ⟨message, rfl⟩ := encodeLines_fault encoded
      rfl
  · rw [written, encodeLines_fst]
    refine ⟨holds.writable.set_file _ executable, executable, ?_⟩
    rw [FileTree.get_set _ _ _ _ holds.writable.file.proper, if_pos rfl]
    rfl

/-- A session sees the lines of the file. It leaves the last of these and its own, unless one of
them cannot be encoded. -/
theorem runSession_holds (holds : Holds machine path place lines)
    (texts : ∀ line ∈ lines.getD [], line.isText = true)
    (recordable : ∀ line ∈ lines.getD [], line.Recordable) (limit : Int) (typed : List RawText) :
    ∃ next, runSession limit path machine typed =
        ((encodeLines (lastOrAll limit (lines.getD [] ++ typed))).2.map fun _ => .onto lines,
          next) ∧
      Holds next path place (some (lastOrAll limit (lines.getD [] ++ typed))) := by
  obtain ⟨loaded, success, seen⟩ := holds.loadAtStart texts recordable
  obtain ⟨next, saved, after⟩ := holds.saveAtEnd (typed.foldl add loaded) limit
  rw [foldl_add_lines, seen] at saved after
  refine ⟨next, ?_, after⟩
  simp only [runSession, success, saved, holds.readFile, seen]
  cases (encodeLines (lastOrAll limit (lines.getD [] ++ typed))).2 <;> rfl

end

def keptAfter (limit : Int) (sessions : List (List RawText)) : Option (List RawText) :=
  if sessions = [] then none else some (latest limit sessions.flatten)

theorem keptAfter_getD (limit : Int) (sessions : List (List RawText)) :
    (keptAfter limit sessions).getD [] = latest limit sessions.flatten := by
  rw [keptAfter]
  split
  case isTrue empty => simp [empty, latest]
  case isFalse => rfl

theorem keptAfter_snoc (limit : Int) (sessions : List (List RawText)) (typed : List RawText) :
    keptAfter limit (sessions ++ [typed]) =
      some (lastOrAll limit ((keptAfter limit sessions).getD [] ++ typed)) := by
  rw [keptAfter_getD, ← lastOrAll_eq_latest, lastOrAll_append, lastOrAll_eq_latest]
  simp [keptAfter]

theorem keptAfter_bytes (limit : Int) (sessions : List (List RawText)) :
    (keptAfter limit sessions).map (fileText ∘ encodable) =
      if sessions = [] then none
      else some (Text.encode (writtenText (encodable (latest limit sessions.flatten)))) := by
  rw [keptAfter]
  split
  · rfl
  · rw [Option.map_some, Function.comp_apply, fileText_eq_encode]

theorem latest_subset (limit : Int) (lines : List α) : latest limit lines ⊆ lines := by
  rw [← lastOrAll_eq_latest]
  exact lastOrAll_subset limit lines

section

variable {machine : Machine} {path : String} {place : Location} {limit : Int}

theorem runSession_next {earlier : List (List RawText)}
    (holds : Holds machine path place (keptAfter limit earlier))
    (recordable : ∀ line ∈ earlier.flatten, line.Recordable)
    (texts : ∀ line ∈ latest limit earlier.flatten, line.isText = true) (typed : List RawText) :
    ∃ next, runSession limit path machine typed =
        ((encodeLines (latest limit (earlier ++ [typed]).flatten)).2.map fun _ =>
          .onto (keptAfter limit earlier), next) ∧
      Holds next path place (keptAfter limit (earlier ++ [typed])) := by
  rw [← keptAfter_getD] at texts
  have readable : ∀ line ∈ (keptAfter limit earlier).getD [], line.Recordable := by
    intro line member
    rw [keptAfter_getD] at member
    exact recordable line (latest_subset _ _ member)
  obtain ⟨next, run, after⟩ := runSession_holds holds texts readable limit typed
  rw [← keptAfter_snoc] at after
  refine ⟨next, ?_, after⟩
  rw [run, ← keptAfter_getD, keptAfter_snoc, Option.getD_some]

/-- Any number of sessions, after earlier ones on the same file. -/
theorem runSessions_holds (sessions : List (List RawText)) {machine : Machine}
    {earlier : List (List RawText)} (holds : Holds machine path place (keptAfter limit earlier))
    (recordable : ∀ line ∈ (earlier ++ sessions).flatten, line.Recordable)
    (texts : ∀ k, ∀ line ∈ latest limit (earlier ++ sessions.take k).flatten,
      line.isText = true) :
    ∃ openings last, runSessions limit path machine sessions = (.ok openings, last) ∧
      openings.length = sessions.length ∧
      (∀ (k : Nat) (opening : Opening), openings[k]? = some opening →
        opening = .onto (keptAfter limit (earlier ++ sessions.take k))) ∧
      Holds last path place (keptAfter limit (earlier ++ sessions)) := by
  induction sessions generalizing machine earlier with
  | nil => exact ⟨[], machine, rfl, rfl, by simp, by simpa using holds⟩
  | cons typed rest ih =>
    have before : ∀ line ∈ latest limit earlier.flatten, line.isText = true := by
      simpa using texts 0
    have encoded : (encodeLines (latest limit (earlier ++ [typed]).flatten)).2 = .ok () :=
      encodeLines_snd (by simpa using texts 1)
    obtain ⟨next, run, after⟩ :=
      runSession_next holds (fun line member => recordable line (by simp_all)) before typed
    rw [encoded] at run
    -- the file now holds what it would after one more earlier session
    obtain ⟨openings, last, runRest, length, found, ended⟩ := ih after (by simpa using recordable)
      (fun k => by simpa using texts (k + 1))
    refine ⟨.onto (keptAfter limit earlier) :: openings, last, ?_, by simp [length], ?_,
      by simpa using ended⟩
    · simp only [runSessions, run, runRest, Except.map]
    · intro k opening at_k
      cases k with
      | zero => simpa using at_k.symm
      | succ k => simpa using found k opening (by simpa using at_k)

end

theorem runSessions_append {limit : Int} {path : String} {openings : List Opening}
    (before after : List (List RawText)) {machine next : Machine}
    (run : runSessions limit path machine before = (.ok openings, next)) :
    runSessions limit path machine (before ++ after) =
      ((runSessions limit path next after).1.map (openings ++ ·),
        (runSessions limit path next after).2) := by
  induction before generalizing machine openings with
  | nil =>
    cases run
    simp only [List.nil_append]
    cases run : runSessions limit path next after with
    | mk result last => cases result <;> rfl
  | cons typed rest ih =>
    rw [runSessions] at run
    cases first : runSession limit path machine typed with
    | mk result left =>
      rw [first] at run
      cases result with
      | error fault => cases run
      | ok opening =>
        cases others : runSessions limit path left rest with
        | mk later last =>
          simp only [others] at run
          cases later with
          | error fault => cases run
          | ok later =>
            cases run
            simp only [List.cons_append, runSessions, first, ih others]
            cases (runSessions limit path next after).1 <;> simp [Except.map]

/-- The lines to be found in the file after the first `count` sessions. -/
def keptLines (limit : Int) (sessions : List (List RawText)) (count : Nat) : List RawText :=
  latest limit (sessions.take count).flatten

section

variable {machine : Machine} {path : String} {place : Location} {limit : Int}
  {sessions : List (List RawText)}

/-- Sessions that never have to save a line which cannot be encoded. -/
theorem runSessions_texts (holds : Holds machine path place none)
    (recordable : ∀ typed ∈ sessions, ∀ line ∈ typed, line.Recordable)
    (texts : ∀ k ≤ sessions.length, ∀ line ∈ keptLines limit sessions k, line.isText = true) :
    ∃ openings last, runSessions limit path machine sessions = (.ok openings, last) ∧
      openings.length = sessions.length ∧
      (∀ (k : Nat) (opening : Opening), openings[k]? = some opening →
        opening = .onto (keptAfter limit (sessions.take k))) ∧
      Holds last path place (keptAfter limit sessions) := by
  have all : ∀ line ∈ ([] ++ sessions).flatten, line.Recordable :=
    List.forall_mem_flatten.mpr recordable
  have start : Holds machine path place (keptAfter limit []) := holds
  refine runSessions_holds sessions start all fun k => ?_
  rw [List.nil_append, List.take_eq_take_min]
  exact texts _ (Nat.min_le_right _ _)

/-- The first session that has to save a line which cannot be encoded is the last one. -/
theorem runSessions_unencodable (holds : Holds machine path place none)
    (recordable : ∀ typed ∈ sessions, ∀ line ∈ typed, line.Recordable) {k : Nat}
    (inside : k < sessions.length)
    (texts : ∀ j ≤ k, ∀ line ∈ keptLines limit sessions j, line.isText = true)
    (lone : ∃ line ∈ keptLines limit sessions (k + 1), line.isText = false) :
    ∃ message last,
      runSessions limit path machine sessions = (.error (.unencodable message), last) ∧
      Holds last path place (keptAfter limit (sessions.take (k + 1))) := by
  have before : ∀ typed ∈ sessions.take k, ∀ line ∈ typed, line.Recordable :=
    fun typed member => recordable typed (List.mem_of_mem_take member)
  have early : ∀ j ≤ (sessions.take k).length,
      ∀ line ∈ keptLines limit (sessions.take k) j, line.isText = true := by
    intro j _ line member
    rw [keptLines, List.take_take] at member
    exact texts (min j k) (Nat.min_le_right j k) line member
  obtain ⟨openings, next, run, -, -, reached⟩ := runSessions_texts holds before early
  obtain ⟨last, failed, after⟩ := runSession_next reached (List.forall_mem_flatten.mpr before)
    (texts k le_rfl) sessions[k]
  have here : sessions.take k ++ [sessions[k]] = sessions.take (k + 1) := by
    rw [List.take_succ_eq_append_getElem inside]
  rw [here] at failed after
  obtain ⟨fault, encoded⟩ := (encodeLines_error_iff _).mpr lone
  obtain ⟨message, rfl⟩ := encodeLines_fault encoded
  rw [keptLines] at encoded
  rw [encoded] at failed
  refine ⟨message, last, ?_, after⟩
  have whole : sessions = sessions.take k ++ sessions[k] :: sessions.drop (k + 1) := by simp
  rw [whole, runSessions_append _ _ run]
  simp only [runSessions, failed, Except.map]

end

def freshMachine : Machine :=
  { files := ⟨[(["home"], .directory)]⟩, directory := "/home" }

/-- What stands for the byte 0xff, which is no text. -/
def loneByte : RawText :=
  [.surrogate 0x4ff]

end History

end CommandShell
