import Mathlib.Data.List.DropRight
import CommandShell.History
import CommandShell.Proofs.Utf8

/-! The text of a history file. Lines are written with a newline after each; a file is read by
cutting its text at every kind of line end, whoever wrote it. -/
namespace CommandShell.History

structure Recordable (line : String) : Prop where
  shown : Text.isBlankText line = false
  plain : ∀ c ∈ line.toList, Text.isLineEnd c = false

theorem recordable_iff (line : String) :
    (Text.isBlankText line = false ∧ line.toList.any Text.isLineEnd = false) ↔ Recordable line := by
  rw [List.any_eq_false]
  exact ⟨fun ⟨shown, plain⟩ => ⟨shown, fun c member => Bool.eq_false_iff.mpr (plain c member)⟩,
    fun ⟨shown, plain⟩ => ⟨shown, fun c member => Bool.eq_false_iff.mp (plain c member)⟩⟩

instance (line : String) : Decidable (Recordable line) :=
  decidable_of_iff _ (recordable_iff line)

theorem cutLines_plain {c : Char} (plain : Text.isLineEnd c = false) (done : List (List Char))
    (line rest : List Char) : cutLines done line (c :: rest) = cutLines done (c :: line) rest := by
  have other : c ≠ '\r' := by
    rintro rfl
    cases plain
  rw [cutLines]
  · simp [plain]
  · simp [other]

theorem cutLines_newline (done : List (List Char)) (line rest : List Char) :
    cutLines done line ('\n' :: rest) = cutLines (line.reverse :: done) [] rest := by
  rw [cutLines]
  · rfl
  · simp

/-- A line end that is not the first half of a longer one. -/
theorem cutLines_lineEnd {c : Char} (ends : Text.isLineEnd c = true) {rest : List Char}
    (apart : rest.head? ≠ some '\n') (done : List (List Char)) (line : List Char) :
    cutLines done line (c :: rest) = cutLines (line.reverse :: done) [] rest := by
  rw [cutLines]
  · simp [ends]
  · rintro more rfl rfl
    exact apart rfl

theorem cutLines_run {run : List Char} (plain : ∀ c ∈ run, Text.isLineEnd c = false)
    (done : List (List Char)) (line rest : List Char) :
    cutLines done line (run ++ rest) = cutLines done (run.reverse ++ line) rest := by
  induction run generalizing line with
  | nil => rfl
  | cons c run ih =>
    have later : ∀ d ∈ run, Text.isLineEnd d = false := fun d member => plain d (by simp [member])
    rw [List.cons_append, cutLines_plain (plain c (by simp)), ih later]
    simp

theorem cutLines_earlier (done earlier : List (List Char)) (line text : List Char) :
    cutLines (done ++ earlier) line text = earlier.reverse ++ cutLines done line text := by
  fun_induction cutLines done line text with
  | case1 done line =>
    rw [cutLines]
    split <;> simp
  | case2 done line rest ih =>
    rw [cutLines]
    exact ih
  | case3 done line c rest other ends ih =>
    rw [cutLines, if_pos ends]
    · exact ih
    · exact other
  | case4 done line c rest other plain ih =>
    rw [cutLines, if_neg plain]
    · exact ih
    · exact other

/-- What follows a line end is cut as if it stood alone. -/
theorem cutLines_append {text rest : List Char}
    (ended : ∀ c, text.getLast? = some c → Text.isLineEnd c = true)
    (apart : rest.head? ≠ some '\n') (done : List (List Char)) {line : List Char}
    (between : text = [] → line = []) :
    cutLines done line (text ++ rest) = cutLines done line text ++ cutLines [] [] rest := by
  have alone (done : List (List Char)) :
      cutLines done [] rest = done.reverse ++ cutLines [] [] rest :=
    cutLines_earlier [] done [] rest
  fun_induction cutLines done line text with
  | case1 done line =>
    obtain rfl := between rfl
    simp [alone done]
  | case2 done line more ih =>
    rw [List.cons_append, List.cons_append, cutLines]
    refine ih (fun c last => ended c ?_) (fun _ => rfl)
    simp [List.getLast?_cons, last]
  | case3 done line c more other ends ih =>
    cases more with
    | nil =>
      rw [List.singleton_append, cutLines_lineEnd ends apart, alone]
      simp [cutLines]
    | cons d more =>
      rw [List.cons_append, cutLines, if_pos ends]
      · exact ih (fun c last => ended c (by simpa [List.getLast?_cons] using last)) (fun _ => rfl)
      · rintro tail rfl same
        simp only [List.cons_append, List.cons.injEq] at same
        exact other more rfl (by rw [same.1])
  | case4 done line c more other plain ih =>
    cases more with
    | nil => exact absurd (ended c rfl) plain
    | cons d more =>
      rw [List.cons_append, cutLines_plain (Bool.eq_false_iff.mpr plain)]
      exact ih (fun c last => ended c (by simpa [List.getLast?_cons] using last)) nofun

theorem fileLines_append {text rest : List Char}
    (ended : ∀ c, text.getLast? = some c → Text.isLineEnd c = true)
    (apart : rest.head? ≠ some '\n') :
    fileLines (text ++ rest) = fileLines text ++ fileLines rest := by
  simp [fileLines, cutLines_append ended apart [] fun _ => rfl]

/-- A line with its newline, before whatever follows. -/
theorem fileLines_line {line : List Char} (plain : ∀ c ∈ line, Text.isLineEnd c = false)
    (shown : Text.isBlankText (String.ofList line) = false) (rest : List Char) :
    fileLines (line ++ '\n' :: rest) = String.ofList line :: fileLines rest := by
  have cut : cutLines [] [] (line ++ '\n' :: rest) = line :: cutLines [] [] rest := by
    rw [cutLines_run plain, cutLines_newline, List.append_nil, List.reverse_reverse]
    exact cutLines_earlier [] [line] [] rest
  simp [fileLines, cut, shown]

/-- Text without a line end is one line, if it shows anything. -/
theorem fileLines_plain {text : List Char} (plain : ∀ c ∈ text, Text.isLineEnd c = false) :
    fileLines text =
      if Text.isBlankText (String.ofList text) then [] else [String.ofList text] := by
  have cut := cutLines_run plain [] [] []
  rw [List.append_nil, List.append_nil] at cut
  by_cases empty : text = []
  · subst empty
    rfl
  · simp [fileLines, cut, cutLines, empty]
    split <;> simp_all

def writtenText (lines : List String) : List Char :=
  lines.flatMap fun line => line.toList ++ ['\n']

theorem fileText_eq_encode (lines : List String) :
    fileText lines = Text.encode (writtenText lines) := by
  induction lines with
  | nil => rfl
  | cons line rest ih =>
    have newline : Text.encode ['\n'] = [0x0a] := by decide
    simp only [fileText, writtenText, List.flatMap_cons] at ih ⊢
    rw [ih, Text.encode_append, Text.encode_append, newline, Text.encodeText]

theorem decode_fileText (lines : List String) :
    Text.decodeStrict? (fileText lines) = some (writtenText lines) := by
  rw [fileText_eq_encode, Text.decodeStrict?_encode]

theorem Recordable.fileLines_cons {line : String} (recordable : Recordable line)
    (rest : List Char) :
    fileLines (line.toList ++ '\n' :: rest) = line :: fileLines rest := by
  have read := fileLines_line recordable.plain
    (by rw [String.ofList_toList]; exact recordable.shown) rest
  rwa [String.ofList_toList] at read

theorem writtenText_cons (line : String) (rest : List String) :
    writtenText (line :: rest) = line.toList ++ '\n' :: writtenText rest := by
  simp [writtenText]

/-- Reading gives back what was written. -/
theorem fileLines_writtenText {lines : List String} (recordable : ∀ line ∈ lines, Recordable line) :
    fileLines (writtenText lines) = lines := by
  induction lines with
  | nil => rfl
  | cons line rest ih =>
    rw [writtenText_cons, (recordable line (by simp)).fileLines_cons,
      ih fun other member => recordable other (by simp [member])]

def unfinished (text : List Char) : List Char :=
  text.rtakeWhile fun c => !Text.isLineEnd c

def finished (text : List Char) : List Char :=
  text.rdropWhile fun c => !Text.isLineEnd c

theorem finished_append_unfinished (text : List Char) : finished text ++ unfinished text = text :=
  List.rdropWhile_append_rtakeWhile

theorem unfinished_plain (text : List Char) : ∀ c ∈ unfinished text, Text.isLineEnd c = false := by
  intro c member
  simpa using List.mem_rtakeWhile_imp member

theorem finished_ended (text : List Char) (c : Char)
    (last : (finished text).getLast? = some c) : Text.isLineEnd c = true := by
  have nonempty : finished text ≠ [] := by
    intro empty
    simp [empty] at last
  have stopped := List.rdropWhile_last_not (fun c => !Text.isLineEnd c) text nonempty
  rw [List.getLast?_eq_some_getLast nonempty, Option.some.injEq] at last
  rw [← last]
  simpa [finished] using stopped

theorem head?_plain {text : List Char} (plain : ∀ c ∈ text, Text.isLineEnd c = false) :
    text.head? ≠ some '\n' := by
  intro first
  have wrong := plain '\n' (List.mem_of_mem_head? first)
  cases wrong

theorem fileLines_eq (text : List Char) :
    fileLines text = fileLines (finished text) ++ fileLines (unfinished text) := by
  have joined := fileLines_append (finished_ended text) (head?_plain (unfinished_plain text))
  rwa [finished_append_unfinished] at joined

/-- What a file holds after lines were added at its end: the first of them goes on where the
file broke off. -/
theorem fileLines_append_writtenText (text : List Char) {line : String} {rest : List String}
    (recordable : ∀ other ∈ line :: rest, Recordable other) :
    fileLines (text ++ writtenText (line :: rest)) =
      fileLines (finished text) ++ (String.ofList (unfinished text) ++ line) :: rest := by
  have first := recordable line (by simp)
  have plain : ∀ c ∈ unfinished text ++ line.toList, Text.isLineEnd c = false := by
    intro c member
    rcases List.mem_append.mp member with before | added
    · exact unfinished_plain text c before
    · exact first.plain c added
  have joined : String.ofList (unfinished text ++ line.toList) =
      String.ofList (unfinished text) ++ line := by
    simp
  have shown : Text.isBlankText (String.ofList (unfinished text ++ line.toList)) = false := by
    have visible := first.shown
    rw [Text.isBlankText, List.all_eq_false] at visible ⊢
    obtain ⟨c, member, dark⟩ := visible
    exact ⟨c, by simp [member], dark⟩
  have apart : (unfinished text ++ line.toList ++ '\n' :: writtenText rest).head? ≠ some '\n' := by
    have nonempty : unfinished text ++ line.toList ≠ [] := by
      intro empty
      rw [empty] at shown
      cases shown
    rw [List.head?_append_of_ne_nil _ nonempty]
    exact head?_plain plain
  have whole : text ++ writtenText (line :: rest) =
      finished text ++ (unfinished text ++ line.toList ++ '\n' :: writtenText rest) := by
    rw [writtenText_cons]
    nth_rewrite 1 [← finished_append_unfinished text]
    simp
  rw [whole, fileLines_append (finished_ended text) apart, fileLines_line plain shown, joined,
    fileLines_writtenText fun other member => recordable other (by simp [member])]

/-- Added lines stay lines of their own exactly where the file ended with a line end. -/
theorem fileLines_append_iff (text : List Char) {lines : List String}
    (recordable : ∀ line ∈ lines, Recordable line) :
    fileLines (text ++ writtenText lines) = fileLines text ++ lines ↔
      unfinished text = [] ∨ lines = [] := by
  cases lines with
  | nil => simp [writtenText]
  | cons line rest =>
    rw [fileLines_append_writtenText text recordable, fileLines_eq text, List.append_assoc,
      List.append_cancel_left_eq, fileLines_plain (unfinished_plain text)]
    by_cases empty : unfinished text = []
    · simp [empty, Text.isBlankText]
    · refine iff_of_false (fun same => ?_) (by simp [empty])
      split at same
      · have length := congrArg String.length (List.cons.inj same).1
        simp [empty] at length
      · have length := congrArg List.length same
        simp at length

end CommandShell.History
