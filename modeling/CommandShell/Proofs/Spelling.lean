import CommandShell.Proofs.Rendering

/-! The ways of writing one and the same command line. A word is written piece by piece, bare,
after a backslash or in either kind of quotes; words stand apart by any blanks, segments by a bar.
None of that reaches the words themselves, except that a word tells whether it was all bare. -/
namespace CommandShell

abbrev Blank := { c : Char // Text.isBlank c = true }

/-- A character inside double quotes. A quote and a backslash need a backslash before them; a
dollar sign, a backquote and a newline may have one. -/
inductive DoubleMark where
  | plain (c : Char) (free : c ≠ '"' ∧ c ≠ '\\')
  | escaped (c : Char) (escapable : isDoubleQuoteEscape c = true)

/-- A stretch of text inside single quotes. A backslash takes along the character after it,
whatever it is. -/
inductive SingleMark where
  | plain (c : Char) (free : c ≠ '\'' ∧ c ≠ '\\')
  | pair (c : Char)

inductive Piece where
  | bare (letters : List Char) (plain : ∀ c ∈ letters, Word.isPlain c = true)
  | escaped (c : Char)
  | double (marks : List DoubleMark)
  | single (marks : List SingleMark)

namespace DoubleMark

def letter : DoubleMark → Char
  | .plain c _ | .escaped c _ => c

def written : DoubleMark → List Char
  | .plain c _ => [c]
  | .escaped c _ => ['\\', c]

end DoubleMark

namespace SingleMark

def text : SingleMark → List Char
  | .plain c _ => [c]
  | .pair c => ['\\', c]

end SingleMark

namespace Piece

def text : Piece → List Char
  | .bare letters _ => letters
  | .escaped c => [c]
  | .double marks => marks.map DoubleMark.letter
  | .single marks => marks.flatMap SingleMark.text

def written : Piece → List Char
  | .bare letters _ => letters
  | .escaped c => ['\\', c]
  | .double marks => '"' :: marks.flatMap DoubleMark.written ++ ['"']
  | .single marks => '\'' :: marks.flatMap SingleMark.text ++ ['\'']

def isBare : Piece → Bool
  | .bare _ _ => true
  | _ => false

end Piece

/-- A word as it is written. Pieces without letters, such as a pair of quotes, are welcome as
long as there are others. -/
structure Spelling where
  pieces : List Piece
  nonempty : pieces.flatMap Piece.text ≠ []

namespace Spelling

def written (spelling : Spelling) : List Char :=
  spelling.pieces.flatMap Piece.written

def word (spelling : Spelling) : Word :=
  ⟨String.ofList (spelling.pieces.flatMap Piece.text), spelling.pieces.any (!·.isBare)⟩

end Spelling

structure NextWord where
  gap : Blank
  more : List Blank
  spelling : Spelling

def NextWord.written (next : NextWord) : List Char :=
  (next.gap :: next.more).map Subtype.val ++ next.spelling.written

structure SegmentSpelling where
  before : List Blank
  first : Spelling
  others : List NextWord
  after : List Blank

namespace SegmentSpelling

def written (segment : SegmentSpelling) : List Char :=
  segment.before.map Subtype.val ++ segment.first.written ++
    segment.others.flatMap NextWord.written ++ segment.after.map Subtype.val

def words (segment : SegmentSpelling) : List Word :=
  segment.first.word :: segment.others.map fun next => next.spelling.word

end SegmentSpelling

def writtenLine (first : SegmentSpelling) (others : List SegmentSpelling) : String :=
  String.ofList (first.written ++ others.flatMap fun segment => '|' :: segment.written)

namespace Scanner

variable {splitPipes : Bool}

theorem run_doubleMarks (marks : List DoubleMark) (s : Scanner) (unescaped : s.escaped = false)
    (inside : s.quote = .double) (quoted : s.quoted = true) :
    (marks.flatMap DoubleMark.written).foldl (step splitPipes) s =
      { s with letters := (marks.map DoubleMark.letter).reverse ++ s.letters } := by
  induction marks generalizing s with
  | nil => rfl
  | cons mark rest ih =>
    have read : mark.written.foldl (step splitPipes) s = s.push mark.letter := by
      cases mark with
      | plain c free =>
        simp [DoubleMark.written, DoubleMark.letter, step, unescaped, inside, free]
      | escaped c escapable =>
        cases s
        simp_all [DoubleMark.written, DoubleMark.letter, step, pushEscaped, push]
    rw [List.flatMap_cons, List.foldl_append, read, ih (s.push _) unescaped inside quoted]
    simp [push]

theorem run_singleMarks (marks : List SingleMark) (s : Scanner) (unescaped : s.escaped = false)
    (inside : s.quote = .single) (quoted : s.quoted = true) :
    (marks.flatMap SingleMark.text).foldl (step splitPipes) s =
      { s with letters := (marks.flatMap SingleMark.text).reverse ++ s.letters } := by
  induction marks generalizing s with
  | nil => rfl
  | cons mark rest ih =>
    have read : mark.text.foldl (step splitPipes) s =
        { s with letters := mark.text.reverse ++ s.letters } := by
      cases mark with
      | plain c free => simp [SingleMark.text, step, unescaped, inside, free, push]
      | pair c =>
        cases s
        simp_all [SingleMark.text, step, pushEscaped, push]
    rw [List.flatMap_cons, List.foldl_append, read, ih _ (by exact unescaped) (by exact inside)
      (by exact quoted)]
    simp

/-- A piece adds its letters to the word being read, and the scanner is outside quotes again. -/
theorem run_piece (piece : Piece) (s : Scanner) (unescaped : s.escaped = false)
    (bare : s.quote = .none) :
    piece.written.foldl (step splitPipes) s =
      { s with letters := piece.text.reverse ++ s.letters
               quoted := s.quoted || !piece.isBare } := by
  cases piece with
  | bare letters plain =>
    rw [Piece.written, run_plain letters s unescaped bare plain]
    simp [Piece.text, Piece.isBare]
  | escaped c =>
    have read := run_escaped splitPipes [c] s unescaped bare (by simp)
    simpa [Piece.written, Piece.text, Piece.isBare] using read
  | double marks =>
    have opened : step splitPipes s '"' = { s with quote := .double, quoted := true } := by
      simp [step, unescaped, bare]
    rw [Piece.written, List.cons_append, List.foldl_cons, opened, List.foldl_append,
      run_doubleMarks marks _ (by exact unescaped) rfl rfl]
    simp [step, unescaped, bare, Piece.text, Piece.isBare]
  | single marks =>
    have opened : step splitPipes s '\'' = { s with quote := .single, quoted := true } := by
      simp [step, unescaped, bare]
    rw [Piece.written, List.cons_append, List.foldl_cons, opened, List.foldl_append,
      run_singleMarks marks _ (by exact unescaped) rfl rfl]
    simp [step, unescaped, bare, Piece.text, Piece.isBare]

theorem run_pieces (pieces : List Piece) (s : Scanner) (unescaped : s.escaped = false)
    (bare : s.quote = .none) :
    (pieces.flatMap Piece.written).foldl (step splitPipes) s =
      { s with letters := (pieces.flatMap Piece.text).reverse ++ s.letters
               quoted := s.quoted || pieces.any (!·.isBare) } := by
  induction pieces generalizing s with
  | nil => simp
  | cons piece rest ih =>
    rw [List.flatMap_cons, List.foldl_append, run_piece piece s unescaped bare,
      ih _ (by exact unescaped) (by exact bare)]
    simp [Bool.or_assoc]

/-- However a word is written, the scanner comes to its end with that word. -/
theorem run_spelling (spelling : Spelling) (segments : List (List Word)) (words : List Word) :
    EndsAt (spelling.written.foldl (step splitPipes) (between segments words))
      (between segments (spelling.word :: words)) := by
  have ends := letters_endsAt segments words spelling.nonempty
    (spelling.pieces.any (!·.isBare))
  rw [Spelling.written, run_pieces spelling.pieces _ rfl rfl]
  simpa [between, Spelling.word] using ends

theorem run_between (segments : List (List Word)) (words : List Word) (blanks : List Blank) :
    (blanks.map Subtype.val).foldl (step splitPipes) (between segments words) =
      between segments words := by
  induction blanks with
  | nil => rfl
  | cons blank rest ih =>
    rw [List.map_cons, List.foldl_cons, step_gap (between_endsAt segments words) blank.property]
    exact ih

/-- Blanks leave the scanner where the end of the word would bring it. -/
theorem run_gap {s : Scanner} {segments : List (List Word)} {words : List Word}
    (ends : EndsAt s (between segments words)) (blanks : List Blank) :
    EndsAt ((blanks.map Subtype.val).foldl (step splitPipes) s) (between segments words) := by
  cases blanks with
  | nil => exact ends
  | cons blank rest =>
    rw [List.map_cons, List.foldl_cons, step_gap ends blank.property, run_between]
    exact between_endsAt segments words

theorem run_nextWords (others : List NextWord) {s : Scanner} {segments : List (List Word)}
    {words : List Word} (ends : EndsAt s (between segments words)) :
    EndsAt ((others.flatMap NextWord.written).foldl (step splitPipes) s)
      (between segments ((others.map fun next => next.spelling.word).reverse ++ words)) := by
  induction others generalizing s words with
  | nil => exact ends
  | cons next rest ih =>
    rw [List.flatMap_cons, NextWord.written, List.foldl_append, List.foldl_append, List.map_cons,
      List.foldl_cons, step_gap ends next.gap.property, run_between]
    simpa using ih (run_spelling next.spelling segments words)

theorem run_segment (segment : SegmentSpelling) (segments : List (List Word)) :
    EndsAt (segment.written.foldl (step splitPipes) (between segments []))
      (between segments segment.words.reverse) := by
  rw [SegmentSpelling.written, List.foldl_append, List.foldl_append, List.foldl_append,
    run_between]
  apply run_gap
  simpa [SegmentSpelling.words] using
    run_nextWords segment.others (run_spelling segment.first segments [])

/-- The end of a written segment adds its words to those read before. -/
theorem endSegment_words (segment : SegmentSpelling) (segments : List (List Word)) :
    (between segments segment.words.reverse).endSegment =
      between (segment.words :: segments) [] := by
  rw [endSegment_between _ _ (by simp [SegmentSpelling.words]), List.reverse_reverse]

theorem run_line (first : SegmentSpelling) (others : List SegmentSpelling)
    (segments : List (List Word)) :
    ((first.written ++ others.flatMap fun segment => '|' :: segment.written).foldl (step true)
      (between segments [])).finish =
        segments.reverse ++ (first :: others).map SegmentSpelling.words := by
  induction others generalizing first segments with
  | nil =>
    rw [List.flatMap_nil, List.append_nil, finish_endsAt (run_segment first segments),
      endSegment_words]
    simp [between]
  | cons next rest ih =>
    rw [List.flatMap_cons, List.cons_append, List.foldl_append, List.foldl_cons,
      step_bar (run_segment first segments), endSegment_words, ih]
    simp

end Scanner

/-- Bare tokens are read back from one line. -/
theorem tokenize_plain (tokens : List String)
    (plain : ∀ token ∈ tokens, token ≠ "" ∧ ∀ c ∈ token.toList, Word.isPlain c = true) :
    tokenize (" ".intercalate tokens) = tokens := by
  cases tokens with
  | nil => rfl
  | cons token rest =>
    let words : List Word := (token :: rest).map (⟨·, false⟩)
    have valid : ∀ word ∈ words, word.Renderable := by
      intro word member
      obtain ⟨text, inside, rfl⟩ := List.mem_map.mp member
      exact ⟨(plain text inside).1, fun _ => (plain text inside).2⟩
    have written : words.map Word.render = token :: rest := by
      rw [List.map_map]
      exact List.map_id _
    have texts : words.map Word.text = token :: rest := by
      rw [List.map_map]
      exact List.map_id _
    have read := Scanner.finish_endsAt (Scanner.run_words false [] [] words (by simp [words]) valid)
    rw [written, Scanner.endSegment_between _ _ (by simp [words])] at read
    have scanned : scan false (" ".intercalate (token :: rest)) = [words] := by
      simpa [scan, Scanner.between] using read
    simp [tokenize, scanned, texts]

/-- A line means the words that its pieces spell, in whatever way they are written and with
whatever blanks between them. A segment alone means the same where bars are not looked for, and
tokens without blanks, quotes, backslashes and bars are read back from one line. -/
theorem scan_any_spelling (first : SegmentSpelling) (others : List SegmentSpelling) :
    scan true (writtenLine first others) = (first :: others).map SegmentSpelling.words ∧
      scan false (writtenLine first []) = [first.words] ∧
      ∀ tokens : List String,
        (∀ token ∈ tokens, token ≠ "" ∧ ∀ c ∈ token.toList, Word.isPlain c = true) →
          tokenize (" ".intercalate tokens) = tokens := by
  refine ⟨?_, ?_, tokenize_plain⟩
  · simpa [scan, writtenLine, Scanner.between] using Scanner.run_line first others []
  · have read : (first.written.foldl (Scanner.step false) (.between [] [])).finish =
        (Scanner.between [] first.words.reverse).endSegment.segments.reverse :=
      Scanner.finish_endsAt (Scanner.run_segment first [])
    rw [Scanner.endSegment_words] at read
    simpa [scan, writtenLine, Scanner.between] using read

/-- The first segment of the line below: a word that mixes every kind of piece, then one that is
all bare. -/
def mixedSegment : SegmentSpelling where
  before := []
  first :=
    { pieces :=
        [.bare ['l', 's'] (List.all_eq_true.mp (by decide)), .single [],
         .double [.plain '|' (by decide), .plain '\'' (by decide), .escaped '"' (by decide),
          .escaped '$' (by decide), .plain '$' (by decide)],
         .single [.plain '"' (by decide), .pair '\'', .plain ' ' (by decide)],
         .escaped '|', .escaped 'n']
      nonempty := by decide }
  others :=
    [⟨⟨'\t', by decide⟩, [⟨' ', by decide⟩],
      { pieces := [.bare ['-', 'l'] (List.all_eq_true.mp (by decide))], nonempty := by decide }⟩]
  after := [⟨' ', by decide⟩]

def quotedSegment : SegmentSpelling where
  before := []
  first := { pieces := [.double [], .double [.escaped '\\' (by decide)]], nonempty := by decide }
  others := []
  after := []

theorem scan_mixed_spelling :
    writtenLine mixedSegment [quotedSegment] =
        "ls''\"|'\\\"\\$$\"'\"\\' '\\|\\n\t -l |\"\"\"\\\\\"" ∧
      scan true (writtenLine mixedSegment [quotedSegment]) =
        [[⟨"ls|'\"$$\"\\' |n", true⟩, ⟨"-l", false⟩], [⟨"\\", true⟩]] ∧
      scan false (writtenLine mixedSegment []) =
        [[⟨"ls|'\"$$\"\\' |n", true⟩, ⟨"-l", false⟩]] ∧
      tokenize "ls -l $x" = ["ls", "-l", "$x"] := by
  obtain ⟨split, whole, tokens⟩ := scan_any_spelling mixedSegment [quotedSegment]
  refine ⟨by decide, split, whole, tokens ["ls", "-l", "$x"] ?_⟩
  have plain : ["ls", "-l", "$x"].all
      (fun token => token != "" && token.toList.all Word.isPlain) = true := by decide
  intro token member
  have here := List.all_eq_true.mp plain token member
  rw [Bool.and_eq_true, bne_iff_ne, List.all_eq_true] at here
  exact here

end CommandShell
