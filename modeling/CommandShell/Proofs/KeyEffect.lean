import CommandShell.Proofs.EditorScreen

/-! What a single key can do to the editor. A key finishes the line, goes into or through an escape
sequence, moves through the history, or is an edit, which leaves the place in the history alone. -/
namespace CommandShell.Editor

def AtFinal (editor : Editor) : Prop :=
  editor.state = .awaitingEscape ∧ editor.escape.length = 1

def PressesUp (editor : Editor) (c : Char) : Prop :=
  editor.AtFinal ∧ c = 'A'

def PressesDown (editor : Editor) (c : Char) : Prop :=
  editor.AtFinal ∧ c = 'B'

/-- The key may finish the line. Inside an escape sequence only an interrupt does. -/
def MayFinish (editor : Editor) (c : Char) : Prop :=
  c = interruptKey ∨ editor.state ≠ .awaitingEscape ∧ (isEnter c = true ∨ c = endKey)

structure Edited (before after : Editor) : Prop where
  state : after.state = before.state
  position : after.position = before.position

theorem Edited.refl (editor : Editor) : Edited editor editor :=
  ⟨rfl, rfl⟩

theorem backspace_edited (editor : Editor) : Edited editor editor.backspace.1 := by
  rw [backspace]
  split <;> exact ⟨rfl, rfl⟩

theorem cursorLeft_edited (editor : Editor) : Edited editor editor.cursorLeft.1 := by
  rw [cursorLeft]
  split <;> exact ⟨rfl, rfl⟩

theorem cursorRight_edited (editor : Editor) : Edited editor editor.cursorRight.1 := by
  rw [cursorRight]
  split <;> exact ⟨rfl, rfl⟩

theorem complete_edited (editor : Editor) : Edited editor editor.complete.1 := by
  unfold complete
  split
  · split
    · exact ⟨rfl, rfl⟩
    · exact ⟨rfl, rfl⟩
    · split <;> exact ⟨rfl, rfl⟩
    · exact .refl editor
  · exact .refl editor

theorem historyUp_state (history : List String) (editor : Editor) :
    (editor.historyUp history).1.state = editor.state := by
  rw [historyUp]
  split <;> rfl

theorem historyDown_state (history : List String) (editor : Editor) :
    (editor.historyDown history).1.state = editor.state := by
  rw [historyDown]
  split <;> rfl

/-- All that can come of a key, as far as the state and the place in the history go. -/
inductive KeyEffect (editor : Editor) (c : Char) : Editor → Prop
  | finishes {next : Editor} (ender : editor.MayFinish c) (state : next.state.isDone = true)
      (position : next.position = editor.position) : KeyEffect editor c next
  | waits {next : Editor} (state : next.state = .awaitingEscape)
      (position : next.position = editor.position) : KeyEffect editor c next
  | edits {next : Editor} (state : next.state = editor.state ∨ next.state = .editing)
      (position : next.position = editor.position) : KeyEffect editor c next
  | moves {next : Editor} (pressed : editor.PressesUp c ∨ editor.PressesDown c)
      (state : next.state = .editing) : KeyEffect editor c next

section

variable {history : List String} {editor : Editor}

/-- An edit after the escape sequence is left. -/
theorem KeyEffect.left {c : Char} {next : Editor}
    (edited : Edited { editor with state := .editing, escape := [] } next) :
    KeyEffect editor c next :=
  .edits (.inr edited.state) edited.position

theorem feedEscape_effect (c : Char) (inside : editor.state = .awaitingEscape) :
    KeyEffect editor c (editor.feedEscape history c).1 := by
  unfold feedEscape
  split
  · split
    · exact .waits inside rfl
    · exact .edits (.inr rfl) rfl
  next introducer parameters escape =>
    split
    · exact .waits inside rfl
    · dsimp only
      split
      · exact .edits (.inr rfl) rfl
      next bare =>
        have final : editor.AtFinal := ⟨inside, by simp [escape, Decidable.not_not.mp bare]⟩
        split
        · exact .moves (.inl ⟨final, rfl⟩) (historyUp_state history _)
        · exact .moves (.inr ⟨final, rfl⟩) (historyDown_state history _)
        · exact .left (cursorRight_edited _)
        · exact .left (cursorLeft_edited _)
        · exact .edits (.inr rfl) rfl
        · exact .edits (.inr rfl) rfl
        · exact .edits (.inr rfl) rfl

/-- A key outside an escape sequence, where a line may have been begun by it. -/
theorem feedKey_effect (c : Char) (outside : editor.state ≠ .awaitingEscape) {begun : Editor}
    (state : begun.state = editor.state ∨ begun.state = .editing)
    (position : begun.position = editor.position) :
    KeyEffect editor c (begun.feedKey c).1 := by
  have calm : Edited begun (if c == '\t' then begun else { begun with tabPending := false }) := by
    split <;> exact ⟨rfl, rfl⟩
  unfold feedKey
  generalize (if c == '\t' then begun else { begun with tabPending := false }) = next at calm
  have place : next.position = editor.position := calm.position.trans position
  have edits {last : Editor} (edited : Edited next last) : KeyEffect editor c last := by
    refine .edits ?_ (edited.position.trans place)
    rwa [edited.state, calm.state]
  dsimp only
  split
  next enter => exact .finishes (.inr ⟨outside, .inl enter⟩) rfl place
  · split
    next ended =>
      split
      · exact .finishes (.inr ⟨outside, .inr (eq_of_beq ended)⟩) rfl place
      · exact edits (.refl next)
    · split
      · exact edits (backspace_edited next)
      · split
        · exact edits (complete_edited next)
        · split
          · exact .waits rfl place
          · split
            · exact edits ⟨rfl, rfl⟩
            · exact edits (.refl next)

theorem feed_effect (editor : Editor) (history : List String) (c : Char) :
    KeyEffect editor c (editor.feed history c).1 := by
  by_cases idle : editor.state = .idle
  · have outside : editor.state ≠ .awaitingEscape := by simp [idle]
    simp only [feed, idle, if_true]
    split
    next interrupt => exact .finishes (.inl (eq_of_beq interrupt)) rfl rfl
    · exact feedKey_effect c outside (.inr rfl) rfl
  · simp only [feed, idle, if_false]
    split
    next interrupt => exact .finishes (.inl (eq_of_beq interrupt)) rfl rfl
    · split
      next inside => exact feedEscape_effect c inside
      next outside => exact feedKey_effect c outside (.inl rfl) rfl

/-- Only Up and Down move through the history. -/
theorem feed_position {c : Char} (notUp : ¬ editor.PressesUp c) (notDown : ¬ editor.PressesDown c) :
    (editor.feed history c).1.position = editor.position := by
  cases editor.feed_effect history c with
  | finishes _ _ position => exact position
  | waits _ position => exact position
  | edits _ position => exact position
  | moves pressed _ => exact absurd pressed (not_or.mpr ⟨notUp, notDown⟩)

/-- A key finishes the line, and then is one of a few, or leaves it inside or outside an escape
sequence. -/
theorem feed_finishes_or_composing {editor : Editor} (composing : editor.Composing)
    (history : List String) (c : Char) :
    editor.MayFinish c ∧ (editor.feed history c).1.state.isDone = true ∨
      (editor.feed history c).1.Composing := by
  cases editor.feed_effect history c with
  | finishes ender state _ => exact .inl ⟨ender, state⟩
  | waits state _ => exact .inr (.inr state)
  | edits state _ =>
    rcases state with same | editing
    · exact .inr (by rwa [Composing, same])
    · exact .inr (.inl editing)
  | moves _ state => exact .inr (.inl state)

theorem feed_up {c : Char} (pressed : editor.PressesUp c) :
    editor.feed history c =
      { editor with state := .editing, escape := [] }.historyUp history := by
  obtain ⟨⟨state, single⟩, rfl⟩ := pressed
  obtain ⟨introducer, escape⟩ := List.length_eq_one_iff.mp single
  have letter : Text.isDigit 'A' = false := by decide
  simp [feed, state, interruptKey, feedEscape, escape, letter]

theorem feed_down {c : Char} (pressed : editor.PressesDown c) :
    editor.feed history c =
      { editor with state := .editing, escape := [] }.historyDown history := by
  obtain ⟨⟨state, single⟩, rfl⟩ := pressed
  obtain ⟨introducer, escape⟩ := List.length_eq_one_iff.mp single
  have letter : Text.isDigit 'B' = false := by decide
  simp [feed, state, interruptKey, feedEscape, escape, letter]

end

end CommandShell.Editor
