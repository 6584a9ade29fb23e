import CommandShell.Proofs.Scanner

/-! Cutting a line at its bars. A bar outside quotes and not after a backslash is met by a scanner
that keeps nothing but the segments before it, so each piece between two such bars is scanned as if
it were a line of its own. -/
namespace CommandShell

namespace Scanner

def isOpen (s : Scanner) : Bool :=
  s.quote = .none && !s.escaped

def meetsBar (s : Scanner) (c : Char) : Bool :=
  c == '|' && s.isOpen

def cutBars (s : Scanner) : List Char → List (List Char)
  | [] => [[]]
  | c :: rest =>
    if s.meetsBar c then [] :: cutBars (step true s c) rest
    else (cutBars (step true s c) rest).modifyHead (c :: ·)

def following (s : Scanner) (earlier : List (List Word)) : Scanner :=
  { s with segments := s.segments ++ earlier }

theorem endWord_following (s : Scanner) (earlier : List (List Word)) :
    (s.following earlier).endWord = s.endWord.following earlier := by
  cases letters : s.letters <;> simp [endWord, following, letters]

theorem endSegment_following (s : Scanner) (earlier : List (List Word)) :
    (s.following earlier).endSegment = s.endSegment.following earlier := by
  simp only [endSegment, endWord_following]
  cases words : s.endWord.words <;> simp [following, words]

theorem pushEscaped_following (s : Scanner) (earlier : List (List Word)) (c : Char) :
    (s.following earlier).pushEscaped c = (s.pushEscaped c).following earlier := by
  cases quote : s.quote with
  | none => simp [pushEscaped, following, push, quote]
  | single => simp [pushEscaped, following, push, quote]
  | double => cases escape : isDoubleQuoteEscape c <;>
      simp [pushEscaped, following, push, quote, escape]

/-- What a character does has nothing to do with the segments that are complete. -/
theorem step_following (splitPipes : Bool) (s : Scanner) (earlier : List (List Word)) (c : Char) :
    step splitPipes (s.following earlier) c = (step splitPipes s c).following earlier := by
  have escaped : (s.following earlier).escaped = s.escaped := rfl
  have quote : (s.following earlier).quote = s.quote := rfl
  have pushed : (s.following earlier).push c = (s.push c).following earlier := rfl
  simp only [step, escaped, quote, pushed, endWord_following, endSegment_following,
    pushEscaped_following]
  repeat' split
  all_goals rfl

theorem run_following (splitPipes : Bool) (s : Scanner) (earlier : List (List Word))
    (text : List Char) :
    text.foldl (step splitPipes) (s.following earlier) =
      (text.foldl (step splitPipes) s).following earlier := by
  induction text generalizing s with
  | nil => rfl
  | cons c rest ih => rw [List.foldl_cons, step_following, ih, List.foldl_cons]

theorem finish_following (s : Scanner) (earlier : List (List Word)) :
    (s.following earlier).finish = earlier.reverse ++ s.finish := by
  have kept : (if (s.following earlier).escaped then (s.following earlier).push '\\'
      else s.following earlier) = (if s.escaped then s.push '\\' else s).following earlier := by
    cases escaped : s.escaped <;> simp [following, push, escaped]
  rw [finish, kept, endSegment_following, following, List.reverse_append, finish]

theorem isOpen_iff {s : Scanner} : s.isOpen = true ↔ s.quote = .none ∧ s.escaped = false := by
  simp [isOpen]

theorem finish_open {s : Scanner} (ready : s.isOpen = true) :
    s.finish = s.endSegment.segments.reverse := by
  simp [finish, (isOpen_iff.mp ready).2]

/-- At the end of a segment all that is left is the segments read so far. -/
theorem endSegment_open {s : Scanner} (ready : s.isOpen = true) :
    s.endSegment = following {} s.endSegment.segments := by
  obtain ⟨segments, words, letters, quoted, quote, escaped⟩ := s
  obtain ⟨rfl, rfl⟩ := isOpen_iff.mp ready
  cases letters with
  | nil => cases words <;> rfl
  | cons c rest => rfl

/-- Only at a bar that it meets does a scanner care whether it splits. -/
theorem step_other {s : Scanner} {c : Char} (other : s.meetsBar c = false) :
    step true s c = step false s c := by
  rw [meetsBar, Bool.and_eq_false_iff] at other
  rcases other with letter | inside
  · simp [step, letter]
  · cases escaped : s.escaped with
    | true => simp [step, escaped]
    | false =>
      cases quote : s.quote with
      | none => simp [isOpen, quote, escaped] at inside
      | single => simp [step, quote]
      | double => simp [step, quote]

theorem step_meetsBar {s : Scanner} {c : Char} (bar : s.meetsBar c = true) :
    step true s c = following {} s.endSegment.segments := by
  rw [meetsBar, Bool.and_eq_true, beq_iff_eq] at bar
  obtain ⟨rfl, ready⟩ := bar
  obtain ⟨quote, escaped⟩ := isOpen_iff.mp ready
  rw [step_bar ⟨escaped, quote, rfl⟩, endSegment_endWord]
  exact endSegment_open ready

theorem exists_cutBars (s : Scanner) (text : List Char) :
    ∃ piece pieces, s.cutBars text = piece :: pieces := by
  fun_induction cutBars s text with
  | case1 s => exact ⟨[], [], rfl⟩
  | case2 s c rest bar ih => exact ⟨_, _, rfl⟩
  | case3 s c rest other ih =>
    obtain ⟨piece, pieces, cut⟩ := ih
    exact ⟨c :: piece, pieces, by rw [cut, List.modifyHead_cons]⟩

theorem intercalate_cutBars (s : Scanner) (text : List Char) :
    ['|'].intercalate (s.cutBars text) = text := by
  fun_induction cutBars s text with
  | case1 s => rfl
  | case2 s c rest bar ih =>
    obtain ⟨piece, pieces, cut⟩ := exists_cutBars (step true s c) rest
    rw [cut] at ih ⊢
    rw [List.intercalate_cons_cons, ih]
    simp only [meetsBar, Bool.and_eq_true, beq_iff_eq] at bar
    rw [bar.1]
    rfl
  | case3 s c rest other ih =>
    obtain ⟨piece, pieces, cut⟩ := exists_cutBars (step true s c) rest
    rw [cut] at ih ⊢
    rw [List.modifyHead_cons, List.intercalate_cons_cons_left, ih]

/-- A scanner that splits gives the segments of the first piece as it goes on with it, and those
of each later piece as of a line of its own. -/
theorem finish_cutBars (s : Scanner) {text piece : List Char} {pieces : List (List Char)}
    (cut : s.cutBars text = piece :: pieces) :
    (text.foldl (step true) s).finish =
      (piece.foldl (step false) s).finish ++
        pieces.flatMap fun piece => (piece.foldl (step false) {}).finish := by
  fun_induction cutBars s text generalizing piece pieces with
  | case1 s =>
    cases cut
    simp
  | case2 s c rest bar ih =>
    obtain ⟨rfl, rfl⟩ := List.cons.inj cut
    obtain ⟨next, later, again⟩ := exists_cutBars (step true s c) rest
    have ready : s.isOpen = true := by
      rw [meetsBar, Bool.and_eq_true] at bar
      exact bar.2
    rw [List.foldl_cons, ih again, again, step_meetsBar bar, run_following, finish_following,
      List.foldl_nil, finish_open ready, List.flatMap_cons, List.append_assoc]
  | case3 s c rest other ih =>
    obtain ⟨next, later, again⟩ := exists_cutBars (step true s c) rest
    rw [again, List.modifyHead_cons] at cut
    obtain ⟨rfl, rfl⟩ := List.cons.inj cut
    rw [List.foldl_cons, ih again, List.foldl_cons,
      step_other (Bool.eq_false_iff.mpr other)]

/-- Each piece but the last ends outside quotes, and not with a backslash. -/
theorem isOpen_cutBars (s : Scanner) {text piece : List Char} {pieces : List (List Char)}
    (cut : s.cutBars text = piece :: pieces) (more : pieces ≠ []) :
    (piece.foldl (step false) s).isOpen = true ∧
      ∀ other ∈ pieces.dropLast, (other.foldl (step false) {}).isOpen = true := by
  fun_induction cutBars s text generalizing piece pieces with
  | case1 s =>
    cases cut
    exact absurd rfl more
  | case2 s c rest bar ih =>
    obtain ⟨rfl, rfl⟩ := List.cons.inj cut
    obtain ⟨next, later, again⟩ := exists_cutBars (step true s c) rest
    have ready : s.isOpen = true := by
      rw [meetsBar, Bool.and_eq_true] at bar
      exact bar.2
    refine ⟨ready, ?_⟩
    rw [again]
    intro other member
    cases later with
    | nil => cases member
    | cons second later =>
      obtain ⟨first, others⟩ := ih again (by simp)
      rw [step_meetsBar bar, run_following] at first
      rw [List.dropLast_cons_cons, List.mem_cons] at member
      rcases member with rfl | member
      · exact first
      · exact others other member
  | case3 s c rest other ih =>
    obtain ⟨next, later, again⟩ := exists_cutBars (step true s c) rest
    rw [again, List.modifyHead_cons] at cut
    obtain ⟨rfl, rfl⟩ := List.cons.inj cut
    rw [List.foldl_cons, ← step_other (Bool.eq_false_iff.mpr other)]
    exact ih again more

/-- The pieces of a text that has a bar to be met: those before it, then those after it. -/
theorem cutBars_append (s : Scanner) {before : List Char}
    (ready : (before.foldl (step true) s).isOpen = true) (after : List Char) :
    s.cutBars (before ++ '|' :: after) =
      s.cutBars before ++
        (step true (before.foldl (step true) s) '|').cutBars after := by
  fun_induction cutBars s before with
  | case1 s =>
    have bar : s.meetsBar '|' = true := ready
    rw [List.nil_append, cutBars, if_pos bar]
    rfl
  | case2 s c rest bar ih =>
    rw [List.cons_append, cutBars, if_pos bar, ih ready]
    rfl
  | case3 s c rest other ih =>
    obtain ⟨piece, pieces, cut⟩ := exists_cutBars (step true s c) rest
    rw [List.cons_append, cutBars, if_neg other, ih ready, cut]
    rfl

/-- Between two pieces there is a bar that is met. -/
theorem isOpen_between (s : Scanner) {text : List Char} {first second : List (List Char)}
    (cut : s.cutBars text = first ++ second) (before : first ≠ []) (after : second ≠ []) :
    ((['|'].intercalate first).foldl (step true) s).isOpen = true := by
  fun_induction cutBars s text generalizing first with
  | case1 s =>
    obtain ⟨piece, pieces, rfl⟩ := List.exists_cons_of_ne_nil before
    have none := (List.append_eq_nil_iff.mp (List.cons.inj cut).2.symm).2
    exact absurd none after
  | case2 s c rest bar ih =>
    obtain ⟨piece, pieces, rfl⟩ := List.exists_cons_of_ne_nil before
    obtain ⟨rfl, later⟩ := List.cons.inj cut
    rw [meetsBar, Bool.and_eq_true, beq_iff_eq] at bar
    obtain ⟨rfl, ready⟩ := bar
    cases pieces with
    | nil => exact ready
    | cons next pieces =>
      rw [List.intercalate_cons_cons]
      exact ih later (by simp)
  | case3 s c rest other ih =>
    obtain ⟨piece, pieces, rfl⟩ := List.exists_cons_of_ne_nil before
    obtain ⟨next, later, again⟩ := exists_cutBars (step true s c) rest
    rw [again, List.modifyHead_cons, List.cons_append] at cut
    obtain ⟨rfl, rfl⟩ := List.cons.inj cut
    rw [List.intercalate_cons_cons_left, List.foldl_cons]
    exact ih again (by simp)

end Scanner

/-- The pieces of a line between the bars that its scanner meets outside quotes and not after a
backslash. -/
def barPieces (line : String) : List String :=
  (Scanner.cutBars {} line.toList).map String.ofList

def endsOpen (splitPipes : Bool) (text : String) : Bool :=
  (text.toList.foldl (Scanner.step splitPipes) {}).isOpen

/-- The bar between the two texts is one of those that the pieces are cut at. -/
def CutBetween (pieces : List String) (before after : String) : Prop :=
  ∃ first second, first ≠ [] ∧ second ≠ [] ∧ pieces = first ++ second ∧
    "|".intercalate first = before ∧ "|".intercalate second = after

theorem intercalate_ofList (pieces : List (List Char)) :
    "|".intercalate (pieces.map String.ofList) = String.ofList (['|'].intercalate pieces) := by
  have same : String.toList ∘ String.ofList = id := funext fun _ => String.toList_ofList
  rw [← String.toList_inj, String.toList_intercalate, List.map_map, same, List.map_id,
    String.toList_ofList, String.toList_ofList]

theorem intercalate_barPieces (line : String) : "|".intercalate (barPieces line) = line := by
  rw [barPieces, intercalate_ofList, Scanner.intercalate_cutBars, String.ofList_toList]

/-- A line is cut at the bars that are met, and nowhere else. -/
theorem endsOpen_iff_cutBetween {line before after : String} (bar : line = before ++ "|" ++ after) :
    endsOpen true before = true ↔ CutBetween (barPieces line) before after := by
  constructor
  · intro ready
    have text : line.toList = before.toList ++ '|' :: after.toList := by simp [bar]
    have filled (s : Scanner) (text : List Char) : s.cutBars text ≠ [] := by
      obtain ⟨piece, pieces, cut⟩ := Scanner.exists_cutBars s text
      simp [cut]
    refine ⟨(Scanner.cutBars {} before.toList).map String.ofList, _, ?_, ?_,
      by rw [barPieces, text, Scanner.cutBars_append _ ready, List.map_append], ?_, ?_⟩
    · simpa using filled _ _
    · simpa using filled _ _
    · rw [intercalate_ofList, Scanner.intercalate_cutBars, String.ofList_toList]
    · rw [intercalate_ofList, Scanner.intercalate_cutBars, String.ofList_toList]
  · rintro ⟨first, second, nonempty, more, cut, rfl, -⟩
    have letters : Scanner.cutBars {} line.toList =
        first.map String.toList ++ second.map String.toList := by
      have same : String.toList ∘ String.ofList = id := funext fun _ => String.toList_ofList
      rw [← List.map_append, ← cut, barPieces, List.map_map, same, List.map_id]
    have ready := Scanner.isOpen_between {} letters (by simpa using nonempty) (by simpa using more)
    rw [endsOpen, String.toList_intercalate]
    exact ready

theorem scan_true_eq_flatMap (line : String) :
    scan true line = (barPieces line).flatMap (scan false) := by
  obtain ⟨piece, pieces, cut⟩ := Scanner.exists_cutBars {} line.toList
  rw [scan, Scanner.finish_cutBars {} cut, barPieces, cut, List.map_cons, List.flatMap_cons,
    List.flatMap_map]
  simp [scan]

theorem endsOpen_of_dropLast {line piece : String} (member : piece ∈ (barPieces line).dropLast) :
    endsOpen false piece = true := by
  obtain ⟨first, others, cut⟩ := Scanner.exists_cutBars {} line.toList
  rw [barPieces, cut, ← List.map_dropLast] at member
  obtain ⟨letters, inside, rfl⟩ := List.mem_map.mp member
  rw [endsOpen, String.toList_ofList]
  cases others with
  | nil => cases inside
  | cons second others =>
    obtain ⟨ready, later⟩ := Scanner.isOpen_cutBars {} cut (by simp)
    rw [List.dropLast_cons_cons, List.mem_cons] at inside
    rcases inside with rfl | inside
    · exact ready
    · exact later letters inside

/-- A line without a bar to be met is one piece. -/
theorem barPieces_whole {line : String}
    (whole : ∀ before after, line = before ++ "|" ++ after → endsOpen true before = false) :
    barPieces line = [line] := by
  have joined := intercalate_barPieces line
  cases cut : barPieces line with
  | nil =>
    obtain ⟨first, others, letters⟩ := Scanner.exists_cutBars {} line.toList
    simp [barPieces, letters] at cut
  | cons first others =>
    rw [cut] at joined
    cases others with
    | nil => rw [← joined, String.intercalate_singleton]
    | cons second others =>
      rw [String.intercalate_cons_cons] at joined
      have ready : endsOpen true first = true :=
        (endsOpen_iff_cutBetween joined.symm).mpr
          ⟨[first], second :: others, by simp, by simp, cut, String.intercalate_singleton, rfl⟩
      rw [whole first _ joined.symm] at ready
      cases ready

/-- A line is cut at exactly the bars that its scanner meets outside quotes and not after a
backslash. Its segments are those of its pieces, each scanned as a line of its own, and no piece
but the last ends inside a quote or with a backslash that waits for its character. There are no
empty segments and no empty words, and without such a bar it makes no difference whether bars are
looked for. -/
theorem scan_by_pieces (line : String) :
    "|".intercalate (barPieces line) = line ∧
      (∀ before after, line = before ++ "|" ++ after →
        (endsOpen true before = true ↔ CutBetween (barPieces line) before after)) ∧
      scan true line = (barPieces line).flatMap (scan false) ∧
      (∀ piece ∈ (barPieces line).dropLast, endsOpen false piece = true) ∧
      (∀ splitPipes, ∀ words ∈ scan splitPipes line,
        words ≠ [] ∧ ∀ word ∈ words, word.text ≠ "") ∧
      ((∀ before after, line = before ++ "|" ++ after → endsOpen true before = false) →
        scan true line = scan false line) := by
  refine ⟨intercalate_barPieces line, fun before after => endsOpen_iff_cutBetween,
    scan_true_eq_flatMap line, fun piece => endsOpen_of_dropLast,
    fun splitPipes => scan_nonempty splitPipes line, fun whole => ?_⟩
  rw [scan_true_eq_flatMap, barPieces_whole whole, List.flatMap_singleton]

/-- The bar of this line is inside a quote that is never closed. -/
theorem quoted_bar_unmet (before after : String) (bar : "'|" = before ++ "|" ++ after) :
    endsOpen true before = false := by
  have letters : ['\'', '|'] = before.toList ++ '|' :: after.toList := by
    simpa using congrArg String.toList bar
  rw [endsOpen]
  cases text : before.toList with
  | nil => simp [text] at letters
  | cons c rest =>
    rw [text, List.cons_append, List.cons.injEq] at letters
    obtain ⟨rfl, letters⟩ := letters
    cases rest with
    | nil => rfl
    | cons d rest => simp at letters

theorem scan_by_pieces_mixed :
    barPieces "a '|'|b \\|| |\"c|" = ["a '|'", "b \\|", " ", "\"c|"] ∧
      CutBetween (barPieces "a '|'|b \\|| |\"c|") "a '|'" "b \\|| |\"c|" ∧
      scan true "a '|'|b \\|| |\"c|" =
        [[⟨"a", false⟩, ⟨"|", true⟩], [⟨"b", false⟩, ⟨"|", true⟩], [⟨"c|", true⟩]] ∧
      endsOpen false "b \\|" = true ∧ scan true "'|" = scan false "'|" := by
  obtain ⟨-, bars, scanned, pieces, -, -⟩ := scan_by_pieces "a '|'|b \\|| |\"c|"
  obtain ⟨-, -, -, -, -, same⟩ := scan_by_pieces "'|"
  refine ⟨by decide, (bars "a '|'" _ (by decide)).mp (by decide), scanned.trans (by decide),
    pieces _ (by decide), same quoted_bar_unmet⟩

end CommandShell
