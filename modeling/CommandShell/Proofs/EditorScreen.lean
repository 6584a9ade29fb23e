import CommandShell.Editor.Basic
import CommandShell.Proofs.NameLetters
import CommandShell.Proofs.Screen

/-! What the editor writes keeps the terminal in step with it. An operation echoes, moves
the cursor, rubs out or redraws, depending on where the cursor stood; each way leaves the
line of the terminal with the prompt and the buffer on it and nothing else. -/
namespace CommandShell

theorem EditBuffer.atEnd_iff {buffer : EditBuffer} :
    buffer.atEnd = true ↔ buffer.cursor = buffer.letters.length := by
  simp [atEnd]

namespace Editor

/-- The cursor is inside the buffer, and `p` holds of every character that the editor may
come to show: of those it holds and of those it may complete a name with. -/
structure Sound (p : Char → Prop) (editor : Editor) : Prop where
  cursor : editor.buffer.cursor ≤ editor.buffer.letters.length
  letters : ∀ c ∈ editor.buffer.letters, p c
  saved : ∀ c ∈ editor.position.saved.toList, p c
  names : ∀ completer, editor.completer = some completer → completer.index.tree.All p

def Composing (editor : Editor) : Prop :=
  editor.state = .editing ∨ editor.state = .awaitingEscape

instance (editor : Editor) : Decidable editor.Composing :=
  inferInstanceAs (Decidable (_ ∨ _))

theorem Composing.not_isDone {editor : Editor} (composing : editor.Composing) :
    editor.state.isDone = false := by
  rcases composing with state | state <;> rw [state] <;> rfl

theorem feedAll_from (editor : Editor) (history : List String) (keys : List Char)
    (written : String) :
    keys.foldl (fun (editor, written) c =>
      let (editor, text) := editor.feed history c
      (editor, written ++ text)) (editor, written) =
      ((editor.feedAll history keys).1, written ++ (editor.feedAll history keys).2) := by
  induction keys generalizing editor written with
  | nil => simp [feedAll]
  | cons c rest ih =>
    simp only [feedAll, List.foldl_cons]
    rw [ih, ih _ ("" ++ _)]
    simp [String.append_assoc]

theorem feedAll_cons (editor : Editor) (history : List String) (c : Char) (rest : List Char) :
    editor.feedAll history (c :: rest) =
      (((editor.feed history c).1.feedAll history rest).1,
        (editor.feed history c).2 ++ ((editor.feed history c).1.feedAll history rest).2) := by
  rw [feedAll, List.foldl_cons, feedAll_from]
  simp

section

variable {p : Char → Prop} {editor : Editor}

theorem Sound.of_eq {other : Editor} (sound : editor.Sound p)
    (buffer : other.buffer = editor.buffer) (position : other.position = editor.position)
    (completer : other.completer = editor.completer) : other.Sound p :=
  ⟨by rw [buffer]; exact sound.cursor, by rw [buffer]; exact sound.letters,
    by rw [position]; exact sound.saved, by rw [completer]; exact sound.names⟩

theorem Sound.moved {cursor : Nat} (sound : editor.Sound p)
    (bound : cursor ≤ editor.buffer.letters.length) :
    Sound p { editor with buffer := ⟨editor.buffer.letters, cursor⟩ } :=
  ⟨bound, sound.letters, sound.saved, sound.names⟩

theorem insert_sound (text : List Char) (sound : editor.Sound p) (typed : ∀ c ∈ text, p c) :
    (editor.insert text).1.Sound p := by
  refine ⟨?_, ?_, sound.saved, sound.names⟩
  · have := sound.cursor
    simp only [insert, EditBuffer.insert, List.length_append, List.length_take, List.length_drop]
    omega
  · intro c member
    simp only [insert, EditBuffer.insert, List.mem_append] at member
    rcases member with (before | new) | after
    · exact sound.letters c (List.mem_of_mem_take before)
    · exact typed c new
    · exact sound.letters c (List.mem_of_mem_drop after)

theorem erase_sound (index : Nat) (at_cursor : editor.buffer.cursor = index + 1)
    (sound : editor.Sound p) :
    Sound p { editor with buffer := ⟨editor.buffer.letters.eraseIdx index, index⟩ } := by
  refine ⟨?_, ?_, sound.saved, sound.names⟩
  · have := sound.cursor
    simp only [List.length_eraseIdx]
    split <;> omega
  · intro c member
    exact sound.letters c (List.mem_of_mem_eraseIdx member)

theorem showPosition_sound (history : List String) (position : HistoryPosition)
    (sound : editor.Sound p) (recorded : ∀ line ∈ history, ∀ c ∈ line.toList, p c)
    (saved : ∀ c ∈ position.saved.toList, p c) :
    (editor.showPosition history position).1.Sound p := by
  have text : ∀ c ∈ ((history[position.index]?).getD position.saved).toList, p c := by
    cases found : history[position.index]? with
    | none => simpa using saved
    | some line => exact recorded line (List.mem_of_getElem? found)
  refine ⟨?_, text, saved, sound.names⟩
  simp [showPosition, replaceBuffer, EditBuffer.ofText]

end

end Editor

/-- The terminal shows the prompt and the buffer of an editor, the cursor where the editor
has it, and all characters involved take one cell. -/
structure Drawn (screen : Screen) (prompt : String) (editor : Editor) : Prop where
  sound : editor.Sound (Text.isPrintable · = true)
  prompted : editor.prompt = prompt
  printable : ∀ c ∈ prompt.toList, Text.isPrintable c = true
  shown : screen.Shows (prompt.toList ++ editor.buffer.letters)
    (prompt.toList.length + editor.buffer.cursor)

namespace Drawn

open Editor

variable {screen : Screen} {prompt : String} {editor : Editor}

theorem of_eq {other : Editor} (drawn : Drawn screen prompt editor)
    (same : other.prompt = editor.prompt) (buffer : other.buffer = editor.buffer)
    (position : other.position = editor.position)
    (completer : other.completer = editor.completer) : Drawn screen prompt other :=
  ⟨drawn.sound.of_eq buffer position completer, same.trans drawn.prompted, drawn.printable,
    by rw [buffer]; exact drawn.shown⟩

/-- A redraw does not depend on what the line showed before. -/
theorem redraw (free : screen.control = .none)
    (sound : editor.Sound (Text.isPrintable · = true)) (prompted : editor.prompt = prompt)
    (printable : ∀ c ∈ prompt.toList, Text.isPrintable c = true) :
    Drawn (screen.write editor.redrawn) prompt editor := by
  refine ⟨sound, prompted, printable, ?_⟩
  subst prompted
  have started := Screen.write_echo editor.prompt (Screen.write_clear free) printable
  have echoed := Screen.write_echo editor.buffer.text started
    (by simpa [EditBuffer.text] using sound.letters)
  simp only [EditBuffer.text, String.toList_ofList, List.nil_append] at echoed
  have bound := sound.cursor
  simp only [redrawn, Screen.write_append, EditBuffer.text, clearLine]
  by_cases atEnd : editor.buffer.length - editor.buffer.cursor = 0
  · simp only [atEnd, if_true, Screen.write_empty]
    refine echoed.at_column ?_
    simp only [EditBuffer.length] at atEnd
    rw [List.length_append]
    omega
  · simp only [atEnd, if_false]
    refine Screen.write_back _ atEnd (echoed.at_column ?_)
    rw [List.length_append, EditBuffer.length]
    omega

theorem ring (drawn : Drawn screen prompt editor) : Drawn (screen.write bell) prompt editor := by
  rw [bell, Screen.write_bell drawn.shown.control]
  exact drawn

theorem insert (text : List Char) (drawn : Drawn screen prompt editor)
    (printable : ∀ c ∈ text, Text.isPrintable c = true) :
    Drawn (screen.write (editor.insert text).2) prompt (editor.insert text).1 := by
  have sound := insert_sound text drawn.sound printable
  by_cases atEnd : editor.buffer.atEnd = true
  · refine ⟨sound, drawn.prompted, drawn.printable, ?_⟩
    have cursor := EditBuffer.atEnd_iff.mp atEnd
    have shown := drawn.shown
    rw [cursor, ← List.length_append] at shown
    have echoed := Screen.write_echo (String.ofList text) shown (by simpa using printable)
    simp only [Editor.insert, atEnd, if_true, EditBuffer.insert, cursor]
    simpa [Nat.add_assoc] using echoed
  · simp only [Editor.insert, atEnd] at sound ⊢
    exact redraw drawn.shown.control sound drawn.prompted drawn.printable

theorem backspace (drawn : Drawn screen prompt editor) :
    Drawn (screen.write editor.backspace.2) prompt editor.backspace.1 := by
  cases cursor : editor.buffer.cursor with
  | zero => simpa [Editor.backspace, EditBuffer.backspace?, cursor] using drawn
  | succ index =>
    have sound := erase_sound index cursor drawn.sound
    simp only [Editor.backspace, EditBuffer.backspace?, cursor]
    by_cases atEnd : editor.buffer.atEnd = true
    · refine ⟨sound, drawn.prompted, drawn.printable, ?_⟩
      have last : index + 1 = editor.buffer.letters.length := by
        rw [← cursor, ← EditBuffer.atEnd_iff, atEnd]
      obtain ⟨kept, c, letters⟩ : ∃ kept c, editor.buffer.letters = kept ++ [c] := by
        rcases List.eq_nil_or_concat editor.buffer.letters with empty | ⟨kept, c, letters⟩
        · simp [empty] at last
        · exact ⟨kept, c, letters.trans List.concat_eq_append⟩
      obtain rfl : index = kept.length := by simpa [letters] using last
      have shown := drawn.shown
      rw [letters, cursor, ← List.append_assoc] at shown
      have placed : screen.Shows (prompt.toList ++ kept ++ [c])
          ((prompt.toList ++ kept).length + 1) :=
        shown.at_column (by rw [List.length_append, Nat.add_assoc])
      have rubbed := Screen.write_rubout placed
      have erased : (kept ++ [c]).eraseIdx kept.length = kept := by
        rw [List.eraseIdx_append_of_length_le (Nat.le_refl _)]
        simp
      simp only [atEnd, if_true, letters, erased]
      exact rubbed.at_column (by simp)
    · simp only [atEnd]
      exact redraw drawn.shown.control sound drawn.prompted drawn.printable

theorem cursorLeft (drawn : Drawn screen prompt editor) :
    Drawn (screen.write editor.cursorLeft.2) prompt editor.cursorLeft.1 := by
  cases cursor : editor.buffer.cursor with
  | zero => simpa [Editor.cursorLeft, EditBuffer.moveLeft?, cursor] using drawn
  | succ index =>
    have shown := drawn.shown
    have bound := drawn.sound.cursor
    rw [cursor] at shown bound
    simp only [Editor.cursorLeft, EditBuffer.moveLeft?, cursor]
    exact ⟨drawn.sound.moved (Nat.le_of_succ_le bound), drawn.prompted, drawn.printable,
      Screen.write_left shown⟩

theorem cursorRight (drawn : Drawn screen prompt editor) :
    Drawn (screen.write editor.cursorRight.2) prompt editor.cursorRight.1 := by
  by_cases atEnd : editor.buffer.atEnd = true
  · simpa [Editor.cursorRight, EditBuffer.moveRight?, atEnd] using drawn
  · have inside := mt EditBuffer.atEnd_iff.mpr atEnd
    have bound := drawn.sound.cursor
    simp only [Editor.cursorRight, EditBuffer.moveRight?, atEnd]
    exact ⟨drawn.sound.moved (Nat.lt_of_le_of_ne bound inside), drawn.prompted, drawn.printable,
      Screen.write_right drawn.shown⟩

theorem cursorHome (drawn : Drawn screen prompt editor) :
    Drawn (screen.write editor.cursorHome.2) prompt editor.cursorHome.1 :=
  redraw drawn.shown.control (drawn.sound.moved (Nat.zero_le _)) drawn.prompted drawn.printable

theorem cursorEnd (drawn : Drawn screen prompt editor) :
    Drawn (screen.write editor.cursorEnd.2) prompt editor.cursorEnd.1 :=
  redraw drawn.shown.control (drawn.sound.moved (Nat.le_refl _)) drawn.prompted drawn.printable

section

variable {history : List String}
  (recorded : ∀ line ∈ history, ∀ c ∈ line.toList, Text.isPrintable c = true)

include recorded

theorem showPosition (position : HistoryPosition) (drawn : Drawn screen prompt editor)
    (saved : ∀ c ∈ position.saved.toList, Text.isPrintable c = true) :
    Drawn (screen.write (editor.showPosition history position).2) prompt
      (editor.showPosition history position).1 :=
  redraw drawn.shown.control (showPosition_sound history position drawn.sound recorded saved)
    drawn.prompted drawn.printable

theorem historyUp (drawn : Drawn screen prompt editor) :
    Drawn (screen.write (editor.historyUp history).2) prompt (editor.historyUp history).1 := by
  unfold Editor.historyUp
  split
  · exact drawn.ring
  · apply drawn.showPosition recorded
    dsimp only
    split
    · simpa [EditBuffer.text] using drawn.sound.letters
    · exact drawn.sound.saved

theorem historyDown (drawn : Drawn screen prompt editor) :
    Drawn (screen.write (editor.historyDown history).2) prompt (editor.historyDown history).1 := by
  unfold Editor.historyDown
  split
  · exact drawn.ring
  · exact drawn.showPosition recorded _ drawn.sound.saved

end

theorem listed_printable {names : List String}
    (printable : ∀ name ∈ names, ∀ c ∈ name.toList, Text.isPrintable c = true) :
    ∀ c ∈ ("  ".intercalate names).toList, Text.isPrintable c = true := by
  have gap : "  ".toList = [' ', ' '] := by decide
  induction names with
  | nil => simp
  | cons name rest ih =>
    have first := printable name (by simp)
    have later := ih (fun other inside => printable other (by simp [inside]))
    cases rest with
    | nil => simpa using first
    | cons next rest =>
      intro c member
      rw [String.intercalate_cons_cons, String.toList_append, String.toList_append, gap,
        List.mem_append, List.mem_append] at member
      rcases member with (inside | space) | after
      · exact first c inside
      · obtain rfl : c = ' ' := by simpa using space
        exact Screen.isPrintable_space
      · exact later c after

/-- Listing the candidates starts new lines and then draws the editor again. -/
theorem listing (names : List String) (drawn : Drawn screen prompt editor)
    (printable : ∀ name ∈ names, ∀ c ∈ name.toList, Text.isPrintable c = true) :
    Drawn (screen.write ("\n" ++ "  ".intercalate names ++ "\n" ++ editor.redrawn)) prompt
      editor := by
  simp only [Screen.write_append]
  refine redraw ?_ drawn.sound drawn.prompted drawn.printable
  rw [Screen.write_newline drawn.shown.control]
  have free := Screen.write_printable_control _ (Screen.fresh_shows screen.zeroMove).control
    (listed_printable printable)
  rw [Screen.write_newline free]
  exact (Screen.fresh_shows _).control

theorem complete (drawn : Drawn screen prompt editor) :
    Drawn (screen.write editor.complete.2) prompt editor.complete.1 := by
  unfold Editor.complete
  split
  next completer found _ =>
    have letters := completer.complete_all editor.buffer.text Screen.isPrintable_space
      (drawn.sound.names completer found) (by simpa [EditBuffer.text] using drawn.sound.letters)
    have calm (pending : Bool) : Drawn screen prompt { editor with tabPending := pending } :=
      drawn.of_eq rfl rfl rfl rfl
    split
    next insertion name result =>
      rw [result] at letters
      exact (calm false).insert _ letters
    next insertion names result =>
      rw [result] at letters
      exact (calm false).insert _ letters
    next names result =>
      rw [result] at letters
      split
      · exact (calm false).listing names letters
      · exact (calm true).ring
    · exact drawn.ring
  · exact drawn.ring

theorem feedEscape {history : List String} (c : Char) (drawn : Drawn screen prompt editor)
    (recorded : ∀ line ∈ history, ∀ d ∈ line.toList, Text.isPrintable d = true) :
    Drawn (screen.write (editor.feedEscape history c).2) prompt
      (editor.feedEscape history c).1 := by
  have quiet (other : Editor) (same : other.prompt = editor.prompt)
      (buffer : other.buffer = editor.buffer) (position : other.position = editor.position)
      (completer : other.completer = editor.completer) :
      Drawn (screen.write "") prompt other := by
    rw [Screen.write_empty]
    exact drawn.of_eq same buffer position completer
  have left : Drawn screen prompt { editor with state := .editing, escape := [] } :=
    drawn.of_eq rfl rfl rfl rfl
  unfold Editor.feedEscape
  split
  · split <;> exact quiet _ rfl rfl rfl rfl
  · split
    · exact quiet _ rfl rfl rfl rfl
    · dsimp only
      split
      · exact quiet _ rfl rfl rfl rfl
      · split
        · exact left.historyUp recorded
        · exact left.historyDown recorded
        · exact left.cursorRight
        · exact left.cursorLeft
        · exact left.cursorHome
        · exact left.cursorEnd
        · exact quiet _ rfl rfl rfl rfl

theorem feedKey (c : Char) (drawn : Drawn screen prompt editor)
    (unfinished : (editor.feedKey c).1.state.isDone = false) :
    Drawn (screen.write (editor.feedKey c).2) prompt (editor.feedKey c).1 := by
  have calm : Drawn screen prompt
      (if c == '\t' then editor else { editor with tabPending := false }) := by
    split
    · exact drawn
    · exact drawn.of_eq rfl rfl rfl rfl
  revert unfinished
  unfold Editor.feedKey
  generalize (if c == '\t' then editor else { editor with tabPending := false }) = next at calm
  intro unfinished
  dsimp only at unfinished ⊢
  by_cases enter : isEnter c = true
  · simp [enter, EditState.isDone] at unfinished
  rw [if_neg enter] at unfinished ⊢
  by_cases ended : (c == endKey) = true
  · rw [if_pos ended] at unfinished ⊢
    by_cases empty : next.buffer.length = 0
    · simp [empty, EditState.isDone] at unfinished
    · simpa [empty] using calm
  rw [if_neg ended]
  split
  · exact calm.backspace
  · split
    · exact calm.complete
    · split
      · rw [Screen.write_empty]
        exact calm.of_eq rfl rfl rfl rfl
      · split
        next printable => exact calm.insert [c] (by simpa using printable)
        · simpa using calm

/-- One keystroke that does not finish the line. -/
theorem feed {history : List String} (c : Char) (drawn : Drawn screen prompt editor)
    (recorded : ∀ line ∈ history, ∀ d ∈ line.toList, Text.isPrintable d = true)
    (composing : editor.Composing) (still : (editor.feed history c).1.Composing) :
    Drawn (screen.write (editor.feed history c).2) prompt (editor.feed history c).1 := by
  have busy : editor.state ≠ .idle := by
    rcases composing with state | state <;> simp [state]
  have unfinished := still.not_isDone
  revert unfinished
  unfold Editor.feed
  rw [if_neg busy]
  intro unfinished
  dsimp only at unfinished ⊢
  by_cases interrupt : (c == interruptKey) = true
  · simp [interrupt, EditState.isDone] at unfinished
  rw [if_neg interrupt] at unfinished ⊢
  by_cases escape : editor.state = .awaitingEscape
  · rw [if_pos escape]
    exact drawn.feedEscape c recorded
  · rw [if_neg escape] at unfinished ⊢
    exact drawn.feedKey c unfinished

/-- Keystrokes none of which finishes the line. -/
theorem feedAll {history : List String} (keys : List Char) (drawn : Drawn screen prompt editor)
    (recorded : ∀ line ∈ history, ∀ d ∈ line.toList, Text.isPrintable d = true)
    (composing : ∀ typed, typed <+: keys → (editor.feedAll history typed).1.Composing) :
    Drawn (screen.write (editor.feedAll history keys).2) prompt
      (editor.feedAll history keys).1 := by
  induction keys generalizing screen editor with
  | nil => simpa [Editor.feedAll] using drawn
  | cons c rest ih =>
    have before : editor.Composing := composing [] (by simp)
    have after : (editor.feed history c).1.Composing := by
      have fed := composing [c] (by simp)
      rwa [feedAll_cons] at fed
    have fed := drawn.feed c recorded before after
    rw [feedAll_cons, Screen.write_append]
    refine ih fed fun typed part => ?_
    simpa [feedAll_cons] using composing (c :: typed) (by simpa using part)

end Drawn

/-- As long as the line is not finished, the terminal shows the prompt and then the text of
the buffer, with nothing to the right of them, and its cursor stands where the editor has
it, whatever keys are pressed. -/
theorem shown_while_composing (zeroMove : Nat) (editor : Editor) (prompt : String)
    (history : List String) (keys : List Char)
    (prompted : ∀ c ∈ prompt.toList, Text.isPrintable c = true)
    (recorded : ∀ line ∈ history, ∀ c ∈ line.toList, Text.isPrintable c = true)
    (indexed : ∀ completer, editor.completer = some completer →
      completer.index.tree.All (Text.isPrintable · = true))
    (composing : ∀ typed, typed <+: keys →
      ((editor.start history.length prompt).1.feedAll history typed).1.Composing) :
    let begun := editor.start history.length prompt
    let fed := begun.1.feedAll history keys
    ((Screen.fresh zeroMove).write (begun.2 ++ fed.2)).Shows
      (prompt.toList ++ fed.1.buffer.text.toList) (prompt.length + fed.1.buffer.cursor) := by
  have begun : Drawn ((Screen.fresh zeroMove).write prompt) prompt
      (editor.start history.length prompt).1 := by
    refine ⟨⟨by simp [Editor.start], by simp [Editor.start], by simp [Editor.start], indexed⟩,
      rfl, prompted, ?_⟩
    simpa [Editor.start] using Screen.write_echo prompt (Screen.fresh_shows zeroMove) prompted
  have shown := (begun.feedAll keys recorded composing).shown
  rw [String.length_toList] at shown
  simpa [EditBuffer.text, Editor.start] using shown

theorem letters_of_all {allowed : Char → Bool} {texts : List String}
    (all : (texts.all fun text => text.toList.all allowed) = true) :
    ∀ text ∈ texts, ∀ c ∈ text.toList, allowed c = true := by
  intro text member
  exact List.all_eq_true.mp (List.all_eq_true.mp all text member)

def twoNames : Editor :=
  Editor.new 1 (some (Completer.ofBuiltins ["cat", "cargo"]))

/-- Extends a name, lists the candidates, types inside the line, goes up and down the
history, rubs out, and stops inside an escape sequence. -/
def mixedKeys : List Char :=
  "c\t\t\t\x1b[Dx\x1b[A\x1b[B\x7f\x1b[".toList

theorem shown_after_mixedKeys :
    (∀ typed, typed <+: mixedKeys →
      ((twoNames.start 1 "$ ").1.feedAll ["echo é"] typed).1.Composing) ∧
    ((Screen.fresh 1).write ("$ " ++
      ((twoNames.start 1 "$ ").1.feedAll ["echo é"] mixedKeys).2)).Shows "$ cx".toList 4 := by
  have composing : ∀ typed, typed <+: mixedKeys →
      ((twoNames.start 1 "$ ").1.feedAll ["echo é"] typed).1.Composing := by
    have each : ∀ count, count ≤ 17 →
        ((twoNames.start 1 "$ ").1.feedAll ["echo é"] (mixedKeys.take count)).1.Composing := by
      decide +kernel
    intro typed part
    rw [List.prefix_iff_eq_take.mp part]
    exact each _ part.length_le
  have buffer : ((twoNames.start 1 "$ ").1.feedAll ["echo é"] mixedKeys).1.buffer =
      ⟨['c', 'x'], 2⟩ := by decide +kernel
  have indexed : ∀ completer, twoNames.completer = some completer →
      completer.index.tree.All (Text.isPrintable · = true) := by
    intro completer found
    cases found
    exact NameIndex.ofNames_all _ (letters_of_all (by decide +kernel))
  have shown := shown_while_composing 1 twoNames "$ " ["echo é"] mixedKeys
    (List.all_eq_true.mp (by decide +kernel)) (letters_of_all (by decide +kernel)) indexed composing
  simp only [List.length_singleton, buffer] at shown
  exact ⟨composing, shown⟩

end CommandShell
