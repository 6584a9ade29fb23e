import CommandShell.Proofs.HistoryFiles
import CommandShell.Proofs.HistoryText

/-! What a fresh history reads back from a file after lines were appended to it. -/
namespace CommandShell

/-- The path can be read and written: it leads to the regular file at `place`, which may be
missing yet. -/
structure Machine.Writable (machine : Machine) (path : String) (place : Location) : Prop where
  clean : Path.hasNul path = false
  found : ∃ node, machine.lookup .write path = .ok ⟨place, node⟩
  file : machine.files.HoldsFile place

namespace Machine

theorem lookup_reach {machine : Machine} {path : String} {reached : FileTree.Place}
    (found : machine.lookup .write path = .ok reached) :
    machine.lookup .reach path = .ok reached := by
  rw [lookup, lookupFrom] at found ⊢
  split at found
  · cases found
  · split at found
    · cases found
    case isFalse empty long =>
      rw [if_neg empty, if_neg long]
      exact FileTree.walk_reach found

namespace Writable

variable {machine : Machine} {path : String} {place : Location}

theorem lookup_write (writable : machine.Writable path place) :
    machine.lookup .write path = .ok ⟨place, machine.files.get? place⟩ := by
  obtain ⟨node, found⟩ := writable.found
  have present : node = machine.files.get? place := lookup_node found
  rw [found, present]

theorem lookup_reach (writable : machine.Writable path place) :
    machine.lookup .reach path = .ok ⟨place, machine.files.get? place⟩ :=
  Machine.lookup_reach writable.lookup_write

theorem denotes (writable : machine.Writable path place) : machine.Denotes path place where
  read reached found := by
    rw [writable.lookup_reach] at found
    cases found
    exact .inr ⟨rfl, writable.file⟩
  write reached found := by
    rw [writable.lookup_write] at found
    cases found
    exact .inr ⟨rfl, writable.file⟩

theorem set_file (writable : machine.Writable path place) (content : Bytes) (executable : Bool) :
    { machine with files := machine.files.set place (.file content executable) }.Writable
      path place where
  clean := writable.clean
  found :=
    lookup_alike (FileTree.alike_set writable.file.leaf content executable) writable.lookup_write
  file := FileTree.set_holdsFile content executable writable.file.proper

theorem readFile_absent (writable : machine.Writable path place)
    (absent : machine.files.get? place = none) :
    machine.readFile path = .error (.system .noEntry) := by
  simp [readFile, writable.clean, writable.lookup_reach, absent]

theorem readFile_present (writable : machine.Writable path place) {content : Bytes}
    {executable : Bool} (present : machine.files.get? place = some (.file content executable)) :
    machine.readFile path = .ok content := by
  simp [readFile, writable.clean, writable.lookup_reach, present]

theorem openFile (writable : machine.Writable path place) (append : Bool) :
    ∃ opened, machine.openFile path append = .ok (.regular place 0 append, opened) := by
  rw [Machine.openFile, writable.clean, writable.lookup_write]
  rcases writable.file with absent | ⟨content, executable, present⟩
  · rw [absent]
    exact ⟨_, rfl⟩
  · rw [present]
    exact ⟨_, rfl⟩

/-- Writing to such a path is stopped by nothing but a line that cannot be encoded. -/
theorem writeLines {Line : Type} [Recorded Line] (writable : machine.Writable path place)
    (append : Bool) (lines : List Line) :
    ∃ executable, History.writeLines machine path append lines =
      ((History.encodeLines lines).2, { machine with files := machine.files.set place (.file
        ((if append then machine.files.contentAt place else []) ++ (History.encodeLines lines).1)
          executable) }) := by
  obtain ⟨opened, success⟩ := writable.openFile append
  exact (History.writeLines_opened writable.denotes success lines).2

/-- A path that was opened for writing and holds a regular file or nothing yet. -/
theorem of_opened {append : Bool} {result : OpenFile × Machine}
    (opened : machine.openFile path append = .ok result) {node : Option Node}
    (holds : machine.find? path = node)
    (file : node = none ∨ ∃ content executable, node = some (.file content executable)) :
    ∃ place, machine.Writable path place ∧ machine.files.get? place = node := by
  rw [Machine.openFile] at opened
  split at opened
  · cases opened
  case isFalse clean =>
    cases found : machine.lookup .write path with
    | error e => simp [found] at opened
    | ok reached =>
      have present : machine.files.get? reached.location = node := by
        rw [← lookup_node found, ← holds, find?, if_neg clean, Machine.lookup_reach found]
      have regular : machine.files.HoldsFile reached.location := by
        rw [FileTree.HoldsFile, present]
        exact file
      exact ⟨reached.location,
        ⟨Bool.eq_false_iff.mpr clean, ⟨reached.node, found⟩, regular⟩, present⟩

end Writable

end Machine

namespace History

/-- A fresh history takes over the lines of a file that decodes. -/
theorem load_fresh (Line : Type) [Recorded Line] {machine : Machine} {path : String}
    {bytes : Bytes} {text : List Char} (read : machine.readFile path = .ok bytes)
    (valid : Text.decodeStrict? bytes = some text) :
    ∃ loaded, ({} : History Line).load machine path = .ok loaded ∧
      loaded.lines = (fileLines text).map Recorded.ofText := by
  refine ⟨_, by rw [load, read]; simp only [valid]; rfl, ?_⟩
  simp [extend, History.lines, Function.comp_def]

/-- Reading a file again after this session's lines were appended to it. They come back as
lines of their own exactly where the file had ended with a line end; elsewhere the first of
them continues the line on which the file broke off. -/
theorem appendTo_reload {history next : History} {machine written : Machine} {path : String}
    {old : Bytes} {executable : Bool} {text : List Char} {count : Nat}
    (file : machine.find? path = some (.file old executable))
    (valid : Text.decodeStrict? old = some text)
    (recordable : ∀ line ∈ history.unwritten path, Recordable line)
    (appended : history.appendTo machine path = (.ok (count, next), written)) :
    ∃ before after : History,
      ({} : History).load machine path = .ok before ∧
      ({} : History).load written path = .ok after ∧
      (after.lines = before.lines ++ history.unwritten path ↔
        unfinished text = [] ∨ history.unwritten path = []) ∧
      ∀ line rest, history.unwritten path = line :: rest →
        after.lines =
          fileLines (finished text) ++ (String.ofList (unfinished text) ++ line) :: rest := by
  have stored := (appendTo_ok appended).2
  obtain ⟨opened, success⟩ : ∃ opened, machine.openFile path true = .ok opened := by
    rw [writeLines] at stored
    split at stored
    · cases stored
    next opened => exact ⟨_, opened⟩
  obtain ⟨place, writable, present⟩ :=
    Machine.Writable.of_opened success file (.inr ⟨old, executable, rfl⟩)
  obtain ⟨mode, rewritten⟩ := writable.writeLines true (history.unwritten path)
  rw [stored, encodeLines_texts] at rewritten
  cases rewritten
  have held : machine.files.contentAt place = old := by simp [FileTree.contentAt, present]
  have read := (writable.set_file (old ++ fileText (history.unwritten path)) mode).readFile_present
    (by rw [FileTree.get_set _ _ _ _ writable.file.proper, if_pos rfl])
  have decoded : Text.decodeStrict? (old ++ fileText (history.unwritten path)) =
      some (text ++ writtenText (history.unwritten path)) := by
    rw [Text.decodeStrict?_append valid, decode_fileText]
    rfl
  obtain ⟨before, loaded, earlier⟩ := load_fresh String (writable.readFile_present present) valid
  obtain ⟨after, reloaded, later⟩ := load_fresh String read decoded
  simp only [Recorded.ofText, List.map_id'] at earlier later
  refine ⟨before, after, loaded, by rw [if_pos rfl, held]; exact reloaded, ?_, ?_⟩
  · rw [earlier, later]
    exact fileLines_append_iff text recordable
  · intro line rest new
    rw [new] at later recordable
    rw [later, fileLines_append_writtenText text recordable]

def brokenOff : Machine :=
  { files := ⟨[(["home"], .directory),
      (["home", "log"], .file (Text.encodeText "zero\r\n\none") false)]⟩
    directory := "/home" }

theorem appendTo_reload_brokenOff :
    Text.decodeStrict? (Text.encodeText "zero\r\n\none") = some "zero\r\n\none".toList ∧
      ∃ next written,
        (ofLines ["two", "three"]).appendTo brokenOff "log" = (.ok (2, next), written) ∧
        ∃ after, ({} : History).load written "log" = .ok after ∧
          after.lines = ["zero", "onetwo", "three"] := by
  have file : brokenOff.find? "log" =
      some (.file (Text.encodeText "zero\r\n\none") false) := by decide +kernel
  have valid : Text.decodeStrict? (Text.encodeText "zero\r\n\none") =
      some "zero\r\n\none".toList := by decide +kernel
  have recordable : ∀ line ∈ (ofLines ["two", "three"]).unwritten "log", Recordable line := by
    decide +kernel
  obtain ⟨next, written, appended⟩ : ∃ next written,
      (ofLines ["two", "three"]).appendTo brokenOff "log" = (.ok (2, next), written) := ⟨_, _, rfl⟩
  obtain ⟨before, after, -, reloaded, -, joined⟩ :=
    appendTo_reload file valid recordable appended
  refine ⟨valid, next, written, appended, after, reloaded, ?_⟩
  rw [joined "two" ["three"] rfl]
  decide +kernel

/-- Appended lines do not always come back as lines of their own. -/
theorem appendTo_joins_lines :
    ¬ ∀ (history next : History) (machine written : Machine) (path : String) (old : Bytes)
        (executable : Bool) (text : List Char) (count : Nat) (before after : History),
      machine.find? path = some (.file old executable) → Text.decodeStrict? old = some text →
      (∀ line ∈ history.unwritten path, Recordable line) →
      history.appendTo machine path = (.ok (count, next), written) →
      ({} : History).load machine path = .ok before →
      ({} : History).load written path = .ok after →
        after.lines = before.lines ++ history.unwritten path := by
  intro separate
  have joined := separate (ofLines ["two"]) _ brokenOff _ "log"
    (Text.encodeText "zero\r\n\none") false "zero\r\n\none".toList 1 _ _
    (by decide +kernel) (by decide +kernel) (by decide +kernel) rfl rfl rfl
  revert joined
  decide +kernel

theorem lastOrAll_subset (limit : Int) (lines : List α) : lastOrAll limit lines ⊆ lines := by
  rw [lastOrAll]
  split
  · exact List.drop_subset _ _
  · exact List.Subset.refl _

/-- Cutting lines that were cut before loses nothing that would have been kept. -/
theorem lastOrAll_append (limit : Int) (earlier later : List α) :
    lastOrAll limit (lastOrAll limit earlier ++ later) = lastOrAll limit (earlier ++ later) := by
  by_cases positive : 0 < limit
  · simp only [lastOrAll, if_pos positive, List.length_append, List.length_drop]
    rw [List.drop_append, List.drop_append, List.drop_drop, List.length_drop]
    congr 2 <;> omega
  · simp [lastOrAll, positive]

/-- The last `limit` of the lines; without a positive limit, all of them. -/
def latest (limit : Int) (lines : List α) : List α :=
  if limit ≤ 0 then lines else lines.rtake limit.toNat

theorem lastOrAll_eq_latest (limit : Int) (lines : List α) :
    lastOrAll limit lines = latest limit lines := by
  simp only [lastOrAll, latest, List.rtake]
  split <;> split <;> first | rfl | omega

end History

end CommandShell
