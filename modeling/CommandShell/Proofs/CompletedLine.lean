import CommandShell.Proofs.NameIndex
import CommandShell.Proofs.Rendering

/-! What a completed line means. A name is inserted as it is, so the line runs the command of that
name just when the scanner takes the name for a word: the scanner drops every quote and backslash
that is not itself quoted, ends a word at a blank and a segment at a bar. -/
namespace CommandShell

namespace Scanner

def made (s : Scanner) : List Word :=
  s.segments.flatten ++ s.words

def gathered (s : Scanner) : List Char :=
  s.made.flatMap (·.text.toList) ++ s.letters

/-- How often a letter was gathered. A backslash that waits for its character counts too. -/
def occurrences (s : Scanner) (c : Char) : Nat :=
  s.gathered.count c + if s.escaped = true ∧ c = '\\' then 1 else 0

@[simp] theorem endWord_escaped (s : Scanner) : s.endWord.escaped = s.escaped := by
  cases letters : s.letters <;> simp [endWord, letters]

@[simp] theorem endSegment_escaped (s : Scanner) : s.endSegment.escaped = s.escaped := by
  rw [← endWord_escaped s]
  cases words : s.endWord.words <;> simp [endSegment, words]

@[simp] theorem endWord_letters (s : Scanner) : s.endWord.letters = [] := by
  cases letters : s.letters <;> simp [endWord, letters]

@[simp] theorem endSegment_letters (s : Scanner) : s.endSegment.letters = [] := by
  rw [← endWord_letters s]
  cases words : s.endWord.words <;> simp [endSegment, words]

theorem endWord_made {s : Scanner} (letters : s.letters ≠ []) :
    s.endWord.made.Perm (⟨String.ofList s.letters.reverse, s.quoted⟩ :: s.made) := by
  cases reading : s.letters with
  | nil => contradiction
  | cons c rest => simp [endWord, made, reading]

theorem endSegment_made (s : Scanner) : s.endSegment.made.Perm s.endWord.made := by
  cases words : s.endWord.words with
  | nil => simp [endSegment, words]
  | cons word rest =>
    simp only [endSegment, made, words, List.flatten_cons, List.append_nil]
    exact List.perm_append_comm.trans ((List.reverse_perm _).append_left _)

theorem endWord_gathered (s : Scanner) : s.endWord.gathered.Perm s.gathered := by
  cases letters : s.letters with
  | nil => simp [endWord, gathered, made, letters]
  | cons c rest =>
    have made := (endWord_made (s := s) (by simp [letters])).flatMap_right (·.text.toList)
    simp only [List.flatMap_cons, String.toList_ofList] at made
    rw [gathered, gathered, endWord_letters, List.append_nil]
    exact made.trans (List.perm_append_comm.trans ((List.reverse_perm _).append_left _))

theorem endSegment_gathered (s : Scanner) : s.endSegment.gathered.Perm s.gathered := by
  refine List.Perm.trans ?_ (endWord_gathered s)
  rw [gathered, gathered, endSegment_letters, endWord_letters]
  exact ((endSegment_made s).flatMap_right _).append_right _

theorem push_gathered (s : Scanner) (d c : Char) :
    (s.push d).gathered.count c = s.gathered.count c + [d].count c := by
  simp only [push, gathered, made, List.count_append, List.count_cons, List.count_nil]
  omega

theorem endWord_occurrences (s : Scanner) (c : Char) :
    s.endWord.occurrences c = s.occurrences c := by
  rw [occurrences, occurrences, (endWord_gathered s).count_eq, endWord_escaped]

theorem endSegment_occurrences (s : Scanner) (c : Char) :
    s.endSegment.occurrences c = s.occurrences c := by
  rw [occurrences, occurrences, (endSegment_gathered s).count_eq, endSegment_escaped]

theorem push_occurrences (s : Scanner) (d c : Char) :
    (s.push d).occurrences c = s.occurrences c + [d].count c := by
  have same : (s.push d).escaped = s.escaped := rfl
  rw [occurrences, occurrences, push_gathered, same]
  omega

theorem count_backslash (c : Char) : ['\\'].count c = if c = '\\' then 1 else 0 := by
  by_cases same : c = '\\' <;> simp [same, eq_comm]

theorem pushEscaped_gathered (s : Scanner) (d : Char) :
    (s.pushEscaped d).gathered = (s.push d).gathered ∨
      (s.pushEscaped d).gathered = ((s.push '\\').push d).gathered := by
  cases quote : s.quote with
  | none => exact .inl (by simp [pushEscaped, quote, gathered, made, push])
  | single => exact .inr (by simp [pushEscaped, quote, gathered, made, push])
  | double =>
    cases escape : isDoubleQuoteEscape d with
    | true => exact .inl (by simp [pushEscaped, quote, escape, gathered, made, push])
    | false => exact .inr (by simp [pushEscaped, quote, escape, gathered, made, push])

/-- The character after a backslash is gathered, and sometimes the backslash as well. -/
theorem pushEscaped_occurrences {s : Scanner} (escaped : s.escaped = true) (d c : Char) :
    (s.pushEscaped d).occurrences c ≤ s.occurrences c + [d].count c := by
  have done : (s.pushEscaped d).escaped = false := rfl
  have backslash := count_backslash c
  rcases pushEscaped_gathered s d with gathered | gathered
  all_goals
    simp only [occurrences, done, escaped, gathered, push_gathered, backslash]
    simp

/-- A character is gathered at most once. -/
theorem step_occurrences (splitPipes : Bool) (s : Scanner) (d c : Char) :
    (step splitPipes s d).occurrences c ≤ s.occurrences c + [d].count c := by
  by_cases escaped : s.escaped = true
  · rw [step, if_pos escaped]
    exact pushEscaped_occurrences escaped d c
  by_cases backslash : d = '\\'
  · subst backslash
    simp only [step, escaped, occurrences, count_backslash]
    simp [gathered, made]
  have kept (q : Quote) (b : Bool) : ({ s with quote := q, quoted := b }).occurrences c ≤
      s.occurrences c + [d].count c := Nat.le_add_right _ _
  have pushed : (s.push d).occurrences c ≤ s.occurrences c + [d].count c :=
    Nat.le_of_eq (push_occurrences s d c)
  have endedWord : s.endWord.occurrences c ≤ s.occurrences c + [d].count c :=
    endWord_occurrences s c ▸ Nat.le_add_right _ _
  have endedSegment : s.endSegment.occurrences c ≤ s.occurrences c + [d].count c :=
    endSegment_occurrences s c ▸ Nat.le_add_right _ _
  cases quote : s.quote <;> simp only [step, escaped, quote] <;> grind

theorem run_occurrences (splitPipes : Bool) (text : List Char) (s : Scanner) (c : Char) :
    (text.foldl (step splitPipes) s).occurrences c ≤ s.occurrences c + text.count c := by
  induction text generalizing s with
  | nil => exact Nat.le_refl _
  | cons d text ih =>
    have first := step_occurrences splitPipes s d c
    have rest := ih (step splitPipes s d)
    simp only [List.foldl_cons, List.count_cons, List.count_nil] at first rest ⊢
    omega

theorem finish_made (s : Scanner) :
    s.finish.flatten.Perm (if s.escaped then s.push '\\' else s).endWord.made := by
  generalize ended : (if s.escaped then s.push '\\' else s) = t
  have turned := (List.reverse_perm t.endSegment.segments).flatten
  have noWord : t.endSegment.words = [] := by
    cases words : t.endWord.words <;> simp [endSegment, words]
  have whole : t.endSegment.made = t.endSegment.segments.flatten := by simp [made, noWord]
  rw [finish, ended]
  exact (turned.trans (whole ▸ List.Perm.refl _)).trans (endSegment_made t)

/-- The line's end turns all that was gathered into words. -/
theorem finish_occurrences (s : Scanner) (c : Char) :
    (s.finish.flatten.flatMap (·.text.toList)).count c = s.occurrences c := by
  generalize ended : (if s.escaped then s.push '\\' else s) = t
  have words : (s.finish.flatten.flatMap (·.text.toList)).count c = t.gathered.count c := by
    have gathered := endWord_gathered t
    rw [Scanner.gathered, endWord_letters, List.append_nil] at gathered
    rw [((finish_made s).flatMap_right _).count_eq, ended, gathered.count_eq]
  rw [words, ← ended]
  cases escaped : s.escaped with
  | false => simp [occurrences, escaped]
  | true => simp [occurrences, escaped, push_gathered, count_backslash]

theorem endWord_keeps (s : Scanner) : s.made ⊆ s.endWord.made := by
  cases letters : s.letters with
  | nil => simp [endWord, made, letters]
  | cons c rest =>
    intro word member
    exact (endWord_made (s := s) (by simp [letters])).mem_iff.mpr (List.mem_cons_of_mem _ member)

/-- A word that has ended stays. -/
theorem step_keeps (splitPipes : Bool) (s : Scanner) (c : Char) :
    s.made ⊆ (step splitPipes s c).made := by
  rcases step_cases splitPipes s c with ⟨words, segments⟩ | ended | ended
  · simp [made, words, segments]
  · rw [ended]
    exact endWord_keeps s
  · rw [ended]
    exact fun word member => (endSegment_made s).mem_iff.mpr (endWord_keeps s member)

theorem run_keeps (splitPipes : Bool) (text : List Char) (s : Scanner) :
    s.made ⊆ (text.foldl (step splitPipes) s).made := by
  induction text generalizing s with
  | nil => exact List.Subset.refl _
  | cons c text ih => exact List.Subset.trans (step_keeps splitPipes s c) (ih _)

theorem finish_keeps (s : Scanner) : s.made ⊆ s.finish.flatten := by
  intro word member
  refine (finish_made s).mem_iff.mpr (endWord_keeps _ ?_)
  split
  · exact member
  · exact member

/-- Outside quotes a quote, a bar or a backslash is not gathered, if more text follows. -/
theorem run_drops {s : Scanner} {c : Char} {text : List Char} (unescaped : s.escaped = false)
    (bare : s.quote = .none) (acts : Word.isPlain c = false) (shown : Text.isBlank c = false)
    (more : text ≠ []) :
    ((c :: text).foldl (step true) s).occurrences c ≤ s.occurrences c + text.count c := by
  have dropped {t : Scanner} (stepped : step true s c = t)
      (same : t.occurrences c = s.occurrences c) :
      ((c :: text).foldl (step true) s).occurrences c ≤ s.occurrences c + text.count c := by
    rw [List.foldl_cons, stepped, ← same]
    exact run_occurrences true text t c
  have quoted (q : Quote) : ({ s with quote := q, quoted := true }).occurrences c =
      s.occurrences c := rfl
  simp only [Word.isPlain, shown, Bool.not_eq_false', Bool.or_eq_true, beq_iff_eq, or_false,
    Bool.false_eq_true] at acts
  rcases acts with ((rfl | rfl) | rfl) | rfl
  · -- the backslash is lost only when the next character has been read
    cases text with
    | nil => contradiction
    | cons d rest =>
      have stepped : step true (step true s '\\') d =
          { s with letters := d :: s.letters, quoted := true } := by
        cases s
        simp_all [step, pushEscaped, push]
      have taken : ({ s with letters := d :: s.letters, quoted := true }).occurrences '\\' =
          s.occurrences '\\' + [d].count '\\' := push_occurrences s d '\\'
      have later := run_occurrences true rest
        { s with letters := d :: s.letters, quoted := true } '\\'
      rw [taken] at later
      rw [List.foldl_cons, List.foldl_cons, stepped]
      simp only [List.count_cons, List.count_nil] at later ⊢
      omega
  · exact dropped (by simp [step, unescaped, bare]) (quoted .single)
  · exact dropped (by simp [step, unescaped, bare]) (quoted .double)
  · exact dropped (by simp [step, unescaped, bare, shown]) (endSegment_occurrences s '|')

end Scanner

theorem scan_plain {name : String} (nonempty : name ≠ "")
    (plain : ∀ c ∈ name.toList, Word.isPlain c = true) :
    scan true (name ++ " ") = [[⟨name, false⟩]] := by
  have ends := Scanner.run_word true ⟨name, false⟩ ⟨nonempty, fun _ => plain⟩ [] []
  have blank : " ".toList = [' '] := by decide
  have bare : Word.render ⟨name, false⟩ = name := rfl
  rw [bare] at ends
  rw [scan, String.toList_append, List.foldl_append, blank, List.foldl_cons, List.foldl_nil]
  exact congrArg Scanner.finish (Scanner.step_blank ends true)

/-- The letters before the first blank are a word of their own. -/
theorem mem_scan_before_blank {line : String} {before after : List Char} {c : Char}
    (text : line.toList = before ++ c :: after) (letters : before ≠ [])
    (plain : ∀ d ∈ before, Word.isPlain d = true) (blank : Text.isBlank c = true) :
    ⟨String.ofList before, false⟩ ∈ (scan true line).flatten := by
  have apart (other : Char) (shown : Text.isBlank other = false) : c ≠ other := by
    rintro rfl
    simp [shown] at blank
  have ended : Scanner.step true { letters := before.reverse } c =
      { words := [⟨String.ofList before, false⟩] } := by
    cases reversed : before.reverse with
    | nil => exact absurd (by simpa using reversed) letters
    | cons d rest =>
      have same : String.ofList (d :: rest).reverse = String.ofList before := by simp [← reversed]
      simp [Scanner.step, apart '\\' (by decide), apart '\'' (by decide), apart '"' (by decide),
        blank, Scanner.endWord, ← same]
  rw [scan, text, List.foldl_append, Scanner.run_plain before {} rfl rfl plain, List.append_nil,
    List.foldl_cons, ended]
  exact Scanner.finish_keeps _ (Scanner.run_keeps true after _ (by simp [Scanner.made]))

/-- The first quote, bar or backslash is in no word, unless it ends the line. -/
theorem count_scan_lt {line : String} {before after : List Char} {c : Char}
    (text : line.toList = before ++ c :: after) (plain : ∀ d ∈ before, Word.isPlain d = true)
    (acts : Word.isPlain c = false) (shown : Text.isBlank c = false) (more : after ≠ []) :
    ((scan true line).flatten.flatMap (·.text.toList)).count c < line.toList.count c := by
  have lost := Scanner.run_drops (s := { letters := before.reverse }) rfl rfl acts shown more
  have gathered : ({ letters := before.reverse } : Scanner).occurrences c = before.count c := by
    simp [Scanner.occurrences, Scanner.gathered, Scanner.made]
  rw [scan, Scanner.finish_occurrences, text, List.foldl_append,
    Scanner.run_plain before {} rfl rfl plain, List.append_nil, List.count_append,
    List.count_cons_self]
  rw [gathered] at lost
  exact Nat.lt_of_le_of_lt lost (by omega)

/-- A text that is read back as one word of the same text has no character that acts. -/
theorem plain_of_scan {name : String} {quoted : Bool} {first : Char} {rest : List Char}
    (letters : name.toList = first :: rest) (shown : Text.isBlank first = false)
    (read : scan true (name ++ " ") = [[⟨name, quoted⟩]]) :
    ∀ c ∈ name.toList, Word.isPlain c = true := by
  have split := (List.takeWhile_append_dropWhile (p := Word.isPlain) (l := name.toList)).symm
  have plain := List.all_eq_true.mp (List.all_takeWhile (p := Word.isPlain) (l := name.toList))
  generalize name.toList.takeWhile Word.isPlain = before at split plain
  have head := List.head?_dropWhile_not Word.isPlain name.toList
  cases acting : name.toList.dropWhile Word.isPlain with
  | nil =>
    rw [acting, List.append_nil] at split
    rwa [split]
  | cons c after =>
    exfalso
    rw [acting] at split
    -- here `c` is the first character that acts: a blank ends the word too early, and any other
    -- is missing from it
    have acts : Word.isPlain c = false := by simpa [acting] using head
    have text : (name ++ " ").toList = before ++ c :: (after ++ [' ']) := by
      have blank : " ".toList = [' '] := by decide
      rw [String.toList_append, split, blank, List.append_assoc, List.cons_append]
    cases blank : Text.isBlank c with
    | true =>
      have nonempty : before ≠ [] := by
        rintro rfl
        obtain ⟨rfl, -⟩ := List.cons.inj (letters.symm.trans split)
        simp [shown] at blank
      have word := mem_scan_before_blank text nonempty plain blank
      rw [read] at word
      have whole : before = name.toList := by
        simpa [String.ext_iff] using congrArg Word.text (List.mem_singleton.mp word)
      simp [← whole] at split
    | false =>
      have fewer := count_scan_lt text plain acts blank (by simp)
      have other : c ≠ ' ' := by
        rintro rfl
        exact absurd blank (by decide)
      rw [read, text, ← List.cons_append, ← List.append_assoc, ← split, List.count_append] at fewer
      simp [Ne.symm other] at fewer

/-- A line is a single bare command just when it is read as one word that is no operator. -/
theorem CommandLine.parse_command {line name : String} :
    CommandLine.parse line = .ok ⟨[[name]], []⟩ ↔
      ∃ quoted, scan true line = [[⟨name, quoted⟩]] ∧ Word.operator? ⟨name, quoted⟩ = none := by
  constructor
  · intro read
    rw [CommandLine.parse] at read
    split at read
    · cases read
    next words single =>
      split at read
      · cases read
      · cases read
      next arguments redirections _ taken =>
        cases read
        obtain ⟨-, same, bare⟩ := takeRedirections_bare taken
        obtain ⟨word, rfl, rfl⟩ := List.map_eq_singleton_iff.mp same.symm
        exact ⟨word.quoted, single, bare word (by simp)⟩
    next several _ one =>
      split at read
      · cases read
      · rw [Except.ok.injEq, CommandLine.mk.injEq] at read
        obtain ⟨words, single, -⟩ := List.map_eq_singleton_iff.mp read.1
        exact absurd single (one words)
  · rintro ⟨quoted, single, bare⟩
    simp [CommandLine.parse, single, parseRedirections, takeRedirections, bare]

/-- The line that a unique completion leaves runs the completed command just when no character
of its name acts and the name is no redirection operator. -/
theorem unique_completion_names_command {builtins names : List String}
    {buffer insertion name : String}
    (unique : (⟨builtins, .ofNames names⟩ : Completer).complete buffer = .unique insertion name) :
    CommandLine.parse (buffer ++ insertion) = .ok ⟨[[name]], []⟩ ↔
      (∀ c ∈ name.toList, Word.isPlain c = true) ∧ operator? name = none := by
  obtain ⟨typed, shown, whole⟩ := Completer.complete_unique unique
  obtain ⟨first, more, buffered⟩ := List.exists_cons_of_ne_nil typed
  have unblank : Text.isBlank first = false := shown first (by simp [buffered])
  obtain ⟨rest, letters⟩ : ∃ rest, name.toList = first :: rest := by
    have start := congrArg String.toList whole
    simp only [String.toList_append, buffered, List.cons_append] at start
    cases letters : name.toList with
    | nil =>
      rw [letters] at start
      obtain ⟨rfl, -⟩ := List.cons.inj start
      exact absurd unblank (by decide)
    | cons other rest =>
      rw [letters, List.cons_append] at start
      exact ⟨rest, by rw [(List.cons.inj start).1]⟩
  have nonempty : name ≠ "" := by
    rintro rfl
    simp at letters
  rw [whole, CommandLine.parse_command]
  constructor
  · rintro ⟨quoted, read, bare⟩
    have plain := plain_of_scan letters unblank read
    rw [scan_plain nonempty plain] at read
    cases read
    exact ⟨plain, bare⟩
  · rintro ⟨plain, bare⟩
    exact ⟨false, scan_plain nonempty plain, bare⟩

def oddNames : Machine :=
  { files := ⟨[(["bin"], .directory), (["bin", "my tool"], .file [] true),
      (["bin", "to>>out"], .file [] true)]⟩
    directory := "/" }

/-- The completed name of a program with a blank in it is read as a command and its argument. -/
theorem unique_completion_breaks_at_blank :
    ∃ completer, (Completer.ofBuiltins ["echo"]).refresh oddNames "/bin" = .ok completer ∧
      completer.complete "my" = .unique " tool " "my tool" ∧
      CommandLine.parse ("my" ++ " tool ") = .ok ⟨[["my", "tool"]], []⟩ ∧
      CommandLine.parse ("my" ++ " tool ") ≠ .ok ⟨[["my tool"]], []⟩ := by
  have entries : Session.searchPath "/bin" = ["/bin"] := by decide +kernel
  have plain : Path.hasNul "/bin" = false := by decide +kernel
  have found : programsIn oddNames "/bin" = ["my tool", "to>>out"] := by decide +kernel
  have words : scan true ("my" ++ " tool ") = [[⟨"my", false⟩, ⟨"tool", false⟩]] := by
    decide +kernel
  have read : CommandLine.parse ("my" ++ " tool ") = .ok ⟨[["my", "tool"]], []⟩ := by
    rw [CommandLine.parse, words]
    rfl
  refine ⟨⟨["echo"], .ofNames ["my tool", "to>>out", "echo"]⟩, ?_, by decide +kernel, read, ?_⟩
  · simp [Completer.refresh, programsOn, entries, plain, found, Completer.ofBuiltins]
  · rw [read]
    simp

theorem unique_completion_names_infixed :
    (⟨["echo"], .ofNames ["my tool", "to>>out", "echo"]⟩ : Completer).complete "t" =
        .unique "o>>out " "to>>out" ∧
      CommandLine.parse ("t" ++ "o>>out ") = .ok ⟨[["to>>out"]], []⟩ := by
  have unique : (⟨["echo"], .ofNames ["my tool", "to>>out", "echo"]⟩ : Completer).complete "t" =
      .unique "o>>out " "to>>out" := by decide +kernel
  refine ⟨unique, (unique_completion_names_command unique).mpr ⟨?_, by decide +kernel⟩⟩
  exact List.all_eq_true.mp (by decide +kernel)

end CommandShell
