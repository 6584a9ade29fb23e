import CommandShell.Text.Cut

/-! A text is cut at its separators and nowhere else. -/
namespace CommandShell.Text

theorem exists_cut (separator : Char) (text : List Char) :
    ∃ piece pieces, cut separator text = piece :: pieces := by
  cases text with
  | nil => exact ⟨[], [], rfl⟩
  | cons c rest =>
    rw [cut]
    split
    · exact ⟨_, _, rfl⟩
    · split <;> exact ⟨_, _, rfl⟩

theorem cut_whole {separator : Char} {text : List Char} (free : separator ∉ text) :
    cut separator text = [text] := by
  induction text with
  | nil => rfl
  | cons c rest ih =>
    simp only [List.mem_cons, not_or] at free
    rw [cut, ih free.2]
    exact if_neg (Ne.symm free.1)

/-- The pieces on the two sides of a separator. -/
theorem cut_separated (separator : Char) (first rest : List Char) :
    cut separator (first ++ separator :: rest) = cut separator first ++ cut separator rest := by
  induction first with
  | nil =>
    obtain ⟨piece, pieces, split⟩ := exists_cut separator rest
    simp [cut, split]
  | cons c first ih =>
    obtain ⟨piece, pieces, split⟩ := exists_cut separator first
    rw [List.cons_append, cut, ih, cut, split]
    by_cases separates : c = separator
    · simp [separates]
    · simp [separates]

end CommandShell.Text
