import CommandShell.CommandLine.Word

/-! Facts about the scanner that do not depend on what a line means: what it does
between words, and that it never makes an empty word or an empty segment. -/
namespace CommandShell

namespace Scanner

def between (segments : List (List Word)) (words : List Word) : Scanner :=
  { segments, words }

structure EndsAt (s t : Scanner) : Prop where
  escaped : s.escaped = false
  quote : s.quote = .none
  endWord : s.endWord = t

theorem endSegment_between (segments : List (List Word)) (words : List Word)
    (nonempty : words ≠ []) :
    (between segments words).endSegment = between (words.reverse :: segments) [] := by
  cases words with
  | nil => contradiction
  | cons word words => rfl

@[simp] theorem endWord_endWord (s : Scanner) : s.endWord.endWord = s.endWord := by
  cases h : s.letters <;> simp [endWord, h]

@[simp] theorem endSegment_endWord (s : Scanner) : s.endWord.endSegment = s.endSegment := by
  simp only [endSegment, endWord_endWord]

theorem between_endsAt (segments : List (List Word)) (words : List Word) :
    EndsAt (between segments words) (between segments words) :=
  ⟨rfl, rfl, rfl⟩

/-- Every kind of blank ends the word. -/
theorem step_gap {s t : Scanner} (ends : EndsAt s t) {c : Char} (blank : Text.isBlank c = true)
    (splitPipes : Bool) : step splitPipes s c = t := by
  have apart (other : Char) (shown : Text.isBlank other = false) : (c == other) = false := by
    rw [beq_eq_false_iff_ne]
    rintro rfl
    simp [shown] at blank
  simp [step, ends.escaped, ends.quote, apart '\\' (by decide), apart '\'' (by decide),
    apart '"' (by decide), blank, ends.endWord]

theorem step_blank {s t : Scanner} (ends : EndsAt s t) (splitPipes : Bool) :
    step splitPipes s ' ' = t :=
  step_gap ends (by decide) splitPipes

theorem step_bar {s t : Scanner} (ends : EndsAt s t) : step true s '|' = t.endSegment := by
  have shown : Text.isBlank '|' = false := by decide
  simp [step, ends.escaped, ends.quote, shown, ← ends.endWord]

theorem finish_endsAt {s t : Scanner} (ends : EndsAt s t) :
    s.finish = t.endSegment.segments.reverse := by
  simp [finish, ends.escaped, ← ends.endWord]

/-- No word without letters and no segment without words has been made so far. -/
structure Filled (s : Scanner) : Prop where
  words : ∀ word ∈ s.words, word.text ≠ ""
  segments : ∀ words ∈ s.segments, words ≠ [] ∧ ∀ word ∈ words, word.text ≠ ""

theorem Filled.of_eq {s t : Scanner} (valid : Filled s) (words : t.words = s.words)
    (segments : t.segments = s.segments) : Filled t :=
  ⟨by rw [words]; exact valid.words, by rw [segments]; exact valid.segments⟩

theorem endWord_nonempty {s : Scanner} (valid : Filled s) : Filled s.endWord := by
  cases letters : s.letters with
  | nil => exact valid.of_eq (by simp [endWord, letters]) (by simp [endWord, letters])
  | cons c rest =>
    have made : s.endWord.words = ⟨String.ofList (c :: rest).reverse, s.quoted⟩ :: s.words := by
      simp [endWord, letters]
    refine ⟨?_, ?_⟩
    · intro word member
      rw [made] at member
      rcases List.mem_cons.mp member with rfl | old
      · intro empty
        have := congrArg String.toList empty
        simp at this
      · exact valid.words word old
    · simpa [endWord, letters] using valid.segments

theorem endSegment_nonempty {s : Scanner} (valid : Filled s) : Filled s.endSegment := by
  have ended := endWord_nonempty valid
  cases words : s.endWord.words with
  | nil => exact ended.of_eq (by simp [endSegment, words]) (by simp [endSegment, words])
  | cons word rest =>
    have made : s.endSegment.segments = (word :: rest).reverse :: s.endWord.segments := by
      simp [endSegment, words]
    refine ⟨by simp [endSegment, words], ?_⟩
    intro segment member
    rw [made] at member
    rcases List.mem_cons.mp member with rfl | old
    · refine ⟨by simp, fun w inside => ended.words w ?_⟩
      rw [words]
      exact List.mem_reverse.mp inside
    · exact ended.segments segment old

/-- A character changes only the word being read, or ends it, or ends the segment. -/
theorem step_cases (splitPipes : Bool) (s : Scanner) (c : Char) :
    ((step splitPipes s c).words = s.words ∧ (step splitPipes s c).segments = s.segments) ∨
      step splitPipes s c = s.endWord ∨ step splitPipes s c = s.endSegment := by
  by_cases escaped : s.escaped = true
  · refine .inl ?_
    simp only [step, escaped, if_true, pushEscaped]
    split <;> (try split) <;> exact ⟨rfl, rfl⟩
  by_cases backslash : c = '\\'
  · exact .inl (by simp [step, escaped, backslash])
  cases quote : s.quote with
  | single => exact .inl (by simp only [step, escaped, quote]; grind [push])
  | double => exact .inl (by simp only [step, escaped, quote]; grind [push])
  | none => simp only [step, escaped, quote]; grind [push]

theorem step_nonempty (splitPipes : Bool) {s : Scanner} (c : Char) (valid : Filled s) :
    Filled (step splitPipes s c) := by
  rcases step_cases splitPipes s c with ⟨words, segments⟩ | ended | ended
  · exact valid.of_eq words segments
  · rw [ended]
    exact endWord_nonempty valid
  · rw [ended]
    exact endSegment_nonempty valid

theorem run_nonempty (splitPipes : Bool) (text : List Char) {s : Scanner} (valid : Filled s) :
    Filled (text.foldl (step splitPipes) s) := by
  induction text generalizing s with
  | nil => exact valid
  | cons c text ih => exact ih (step_nonempty splitPipes c valid)

/-- Blanks before the first word leave no trace. -/
theorem run_blanks (splitPipes : Bool) {text : List Char} (blank : text.all Text.isBlank = true) :
    text.foldl (step splitPipes) {} = {} := by
  induction text with
  | nil => rfl
  | cons c text ih =>
    rw [List.all_cons, Bool.and_eq_true] at blank
    have skipped : step splitPipes {} c = {} := step_gap (between_endsAt [] []) blank.1 splitPipes
    rw [List.foldl_cons, skipped]
    exact ih blank.2

end Scanner

theorem scan_blank (splitPipes : Bool) {line : String} (blank : Text.isBlankText line = true) :
    scan splitPipes line = [] := by
  rw [scan, Scanner.run_blanks splitPipes blank]
  rfl

/-- Every segment of a line has words, and every word has letters. -/
theorem scan_nonempty (splitPipes : Bool) (line : String) (words : List Word)
    (member : words ∈ scan splitPipes line) :
    words ≠ [] ∧ ∀ word ∈ words, word.text ≠ "" := by
  have valid := Scanner.run_nonempty splitPipes line.toList
    (s := {}) ⟨by simp, by simp⟩
  have closed : Scanner.Filled
      (if (line.toList.foldl (Scanner.step splitPipes) {}).escaped
        then (line.toList.foldl (Scanner.step splitPipes) {}).push '\\'
        else line.toList.foldl (Scanner.step splitPipes) {}) := by
    split
    · exact valid.of_eq rfl rfl
    · exact valid
  exact (Scanner.endSegment_nonempty closed).segments words (List.mem_reverse.mp member)

end CommandShell
