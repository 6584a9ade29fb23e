import Mathlib.Data.List.TakeWhile
import CommandShell.Proofs.NulPaths

/-! Lines with lone surrogates, as far as saving a history goes: the lines before the first of
them are written, and it makes the saving fail. Nothing is said here about running such a line. -/
namespace CommandShell

namespace RawText

def text (line : RawText) : String :=
  String.ofList line.chars

theorem ofText_text {line : RawText} (isText : line.isText = true) : ofText line.text = line := by
  rw [ofText, text, String.toList_ofList]
  induction line with
  | nil => rfl
  | cons point rest ih =>
    cases point with
    | char c => exact congrArg (CodePoint.char c :: ·) (ih isText)
    | surrogate k => cases isText

end RawText

namespace History

theorem encodeLines_error_iff (lines : List RawText) :
    (∃ fault, (encodeLines lines).2 = .error fault) ↔ ∃ line ∈ lines, line.isText = false := by
  induction lines with
  | nil => simp [encodeLines]
  | cons line rest ih =>
    simp only [List.mem_cons, exists_eq_or_imp, ← ih, encodeLines]
    cases text : line.isText <;> simp [Recorded.encode, RawText.encode, text]

theorem encodeLines_snd {lines : List RawText} (texts : ∀ line ∈ lines, line.isText = true) :
    (encodeLines lines).2 = .ok () := by
  cases result : (encodeLines lines).2 with
  | ok => rfl
  | error fault =>
    obtain ⟨line, member, lone⟩ := (encodeLines_error_iff lines).mp ⟨fault, result⟩
    simp [texts line member] at lone

theorem encodeLines_fault {lines : List RawText} {fault : Fault}
    (failed : (encodeLines lines).2 = .error fault) : ∃ message, fault = .unencodable message := by
  induction lines with
  | nil => cases failed
  | cons line rest ih =>
    rw [encodeLines] at failed
    cases text : line.isText with
    | true =>
      simp only [Recorded.encode, RawText.encode, text, if_true] at failed
      exact ih failed
    | false =>
      simp only [Recorded.encode, RawText.encode, text, Bool.false_eq_true, if_false] at failed
      cases failed
      exact ⟨_, rfl⟩

/-- The lines before the first that cannot be encoded. -/
def encodable (lines : List RawText) : List String :=
  (lines.takeWhile RawText.isText).map RawText.text

theorem encodable_all {lines : List RawText} (texts : ∀ line ∈ lines, line.isText = true) :
    encodable lines = lines.map RawText.text := by
  rw [encodable, List.takeWhile_eq_self_iff.mpr texts]

theorem encodable_ofText {lines : List RawText} (texts : ∀ line ∈ lines, line.isText = true) :
    (encodable lines).map RawText.ofText = lines := by
  rw [encodable_all texts, List.map_map]
  exact (List.map_congr_left fun line member => RawText.ofText_text (texts line member)).trans
    (List.map_id' lines)

theorem encodeLines_fst (lines : List RawText) :
    (encodeLines lines).1 = fileText (encodable lines) := by
  induction lines with
  | nil => rfl
  | cons line rest ih =>
    rw [encodeLines, encodable, List.takeWhile_cons]
    cases isText : line.isText with
    | true =>
      simp [Recorded.encode, RawText.encode, isText, ih, fileText, encodable, Text.encodeText,
        RawText.text]
    | false => simp [Recorded.encode, RawText.encode, isText, fileText]

end History

/-- The path leads to something that takes the bytes in place of what it had. -/
def Machine.Takes (machine : Machine) (path : String) (bytes : Bytes) : Prop :=
  ∃ file opened result, machine.openFile path false = .ok (file, opened) ∧
    file.write bytes opened.files = .ok result

namespace History

/-- Saving lets a fault out for a NUL in the path, and for a surrogate in a line where the lines
before it could be written. -/
theorem saveAtEnd_raw_error_iff (history : History RawText) (machine : Machine) (limit : Int)
    (path : String) :
    (∃ fault, (history.saveAtEnd machine limit (some path)).1 = .error fault) ↔
      Path.hasNul path = true ∨
        machine.Takes path (fileText (encodable (lastOrAll limit history.lines))) ∧
          ∃ line ∈ lastOrAll limit history.lines, line.isText = false := by
  generalize kept : lastOrAll limit history.lines = lines
  rw [saveAtEnd, save, kept, writeLines]
  cases nul : Path.hasNul path with
  | true => simp [Machine.openFile, nul, fileFault, Except.map]
  | false =>
    rw [← encodeLines_error_iff, ← encodeLines_fst]
    cases opened : machine.openFile path false with
    | error refusal =>
      obtain ⟨e, rfl⟩ := Machine.openFile_clean nul opened
      simp [Machine.Takes, opened, fileFault, Except.map]
    | ok result =>
      obtain ⟨file, left⟩ := result
      cases wrote : file.write (encodeLines lines).1 left.files with
      | error e => simp [Machine.Takes, opened, wrote, Except.map]
      | ok written =>
        have takes : machine.Takes path (encodeLines lines).1 := ⟨_, _, _, opened, wrote⟩
        simp only [takes, true_and, Bool.false_eq_true, false_or, wrote]
        cases encoded : (encodeLines lines).2 with
        | ok => simp [Except.map]
        | error fault =>
          obtain ⟨message, rfl⟩ := encodeLines_fault encoded
          simp [Except.map]

end History

end CommandShell
