import CommandShell.History
import CommandShell.Proofs.CandidateListing
import CommandShell.Proofs.NameIndex

/-! What holds of a line editor at every point. Lines are begun, keys come in any state, the line
is drawn again and the history grows, all in any order: the cursor stays in the buffer, the place
in the history stays in the history, an escape sequence stays the start of one, and nothing comes
into the line that was not typed, recorded or completed. -/
namespace CommandShell

inductive IsEscapeStart : List Char → Prop
  | empty : IsEscapeStart []
  | introduced {introducer : Char} {parameters : List Char}
      (introduces : introducer = '[' ∨ introducer = 'O')
      (numbers : ∀ c ∈ parameters, Text.isDigit c = true ∨ c = ';') :
      IsEscapeStart (introducer :: parameters)

/-- The characters that may come to stand in a line: those that can be typed, and those of the
history and of the names that can be completed. -/
def Allowed (completer : Option Completer) (history : List String) (c : Char) : Prop :=
  Text.isPrintable c = true ∨ (∃ line ∈ history, c ∈ line.toList) ∨
    ∃ known, completer = some known ∧ ∃ name ∈ known.index.names, c ∈ name.toList

namespace Editor

/-- What every operation of the editor keeps. -/
structure Consistent (history : List String) (editor : Editor) : Prop where
  cursor : editor.buffer.cursor ≤ editor.buffer.length
  index : editor.position.index ≤ history.length
  escape : IsEscapeStart editor.escape
  letters : ∀ c ∈ editor.buffer.letters, Allowed editor.completer history c
  saved : ∀ c ∈ editor.position.saved.toList, Allowed editor.completer history c
  indexed : ∀ completer, editor.completer = some completer →
    ∃ names, completer.index = .ofNames names

namespace Consistent

variable {history : List String} {editor : Editor}

theorem sound (consistent : editor.Consistent history) :
    editor.Sound (Allowed editor.completer history) := by
  refine ⟨consistent.cursor, consistent.letters, consistent.saved, ?_⟩
  intro completer found
  obtain ⟨names, built⟩ := consistent.indexed completer found
  rw [built]
  apply NameIndex.ofNames_all
  intro name member c inside
  refine .inr (.inr ⟨completer, found, name, ?_, inside⟩)
  rw [built, NameIndex.names, NameIndex.mem_matching]
  exact ⟨member, List.nil_prefix⟩

/-- An operation that completes from the same names. -/
theorem next {after : Editor} (consistent : editor.Consistent history)
    (sound : after.Sound (Allowed editor.completer history))
    (completer : after.completer = editor.completer)
    (index : after.position.index ≤ history.length) (escape : IsEscapeStart after.escape) :
    after.Consistent history := by
  refine ⟨sound.cursor, index, escape, ?_, ?_, ?_⟩
  · rw [completer]
    exact sound.letters
  · rw [completer]
    exact sound.saved
  · rw [completer]
    exact consistent.indexed

/-- An operation that moves on only in the escape sequence. -/
theorem of_eq {after : Editor} (consistent : editor.Consistent history)
    (buffer : after.buffer = editor.buffer) (position : after.position = editor.position)
    (completer : after.completer = editor.completer) (escape : IsEscapeStart after.escape) :
    after.Consistent history :=
  consistent.next (consistent.sound.of_eq buffer position completer) completer
    (position ▸ consistent.index) escape

theorem insert (text : List Char) (consistent : editor.Consistent history)
    (typed : ∀ c ∈ text, Allowed editor.completer history c) :
    (editor.insert text).1.Consistent history :=
  consistent.next (insert_sound text consistent.sound typed) rfl consistent.index
    consistent.escape

theorem moved {cursor : Nat} (consistent : editor.Consistent history)
    (bound : cursor ≤ editor.buffer.letters.length) :
    Consistent history { editor with buffer := ⟨editor.buffer.letters, cursor⟩ } :=
  consistent.next (consistent.sound.moved bound) rfl consistent.index consistent.escape

theorem backspace (consistent : editor.Consistent history) :
    editor.backspace.1.Consistent history := by
  cases cursor : editor.buffer.cursor with
  | zero => simpa [Editor.backspace, EditBuffer.backspace?, cursor] using consistent
  | succ index =>
    have sound := erase_sound index cursor consistent.sound
    simp only [Editor.backspace, EditBuffer.backspace?, cursor]
    exact consistent.next sound rfl consistent.index consistent.escape

theorem cursorLeft (consistent : editor.Consistent history) :
    editor.cursorLeft.1.Consistent history := by
  cases cursor : editor.buffer.cursor with
  | zero => simpa [Editor.cursorLeft, EditBuffer.moveLeft?, cursor] using consistent
  | succ index =>
    have bound := consistent.cursor
    rw [cursor] at bound
    simp only [Editor.cursorLeft, EditBuffer.moveLeft?, cursor]
    exact consistent.moved (Nat.le_of_succ_le bound)

theorem cursorRight (consistent : editor.Consistent history) :
    editor.cursorRight.1.Consistent history := by
  by_cases atEnd : editor.buffer.atEnd = true
  · simpa [Editor.cursorRight, EditBuffer.moveRight?, atEnd] using consistent
  · have inside := mt EditBuffer.atEnd_iff.mpr atEnd
    simp only [Editor.cursorRight, EditBuffer.moveRight?, atEnd]
    exact consistent.moved (Nat.lt_of_le_of_ne consistent.cursor inside)

theorem showPosition (position : HistoryPosition) (consistent : editor.Consistent history)
    (index : position.index ≤ history.length)
    (saved : ∀ c ∈ position.saved.toList, Allowed editor.completer history c) :
    (editor.showPosition history position).1.Consistent history := by
  have recorded : ∀ line ∈ history, ∀ c ∈ line.toList, Allowed editor.completer history c :=
    fun line member c inside => .inr (.inl ⟨line, member, inside⟩)
  exact consistent.next (showPosition_sound history position consistent.sound recorded saved) rfl
    index consistent.escape

theorem historyUp (consistent : editor.Consistent history) :
    (editor.historyUp history).1.Consistent history := by
  unfold Editor.historyUp
  split
  · exact consistent
  next index place =>
    have bound := consistent.index
    refine consistent.showPosition _ (by dsimp only; omega) ?_
    dsimp only
    split
    · simpa [EditBuffer.text] using consistent.letters
    · exact consistent.saved

theorem historyDown (consistent : editor.Consistent history) :
    (editor.historyDown history).1.Consistent history := by
  unfold Editor.historyDown
  split
  · exact consistent
  next inside =>
    exact consistent.showPosition _ (by dsimp only; omega) consistent.saved

theorem complete (consistent : editor.Consistent history) :
    editor.complete.1.Consistent history := by
  have calm (pending : Bool) : Consistent history { editor with tabPending := pending } :=
    consistent.of_eq rfl rfl rfl consistent.escape
  unfold Editor.complete
  split
  next completer found _ =>
    have letters := completer.complete_all editor.buffer.text (.inl Screen.isPrintable_space)
      (consistent.sound.names completer found)
      (by simpa [EditBuffer.text] using consistent.letters)
    split
    next insertion name result =>
      rw [result] at letters
      exact (calm false).insert _ letters
    next insertion names result =>
      rw [result] at letters
      exact (calm false).insert _ letters
    next names result =>
      split
      · exact calm false
      · exact calm true
    · exact consistent
  · exact consistent

theorem feedEscape (c : Char) (consistent : editor.Consistent history) :
    (editor.feedEscape history c).1.Consistent history := by
  have left : Consistent history { editor with state := .editing, escape := [] } :=
    consistent.of_eq rfl rfl rfl .empty
  have start := consistent.escape
  unfold Editor.feedEscape
  split
  · split
    next introduces =>
      refine consistent.of_eq rfl rfl rfl (.introduced ?_ (by simp))
      simpa using introduces
    · exact consistent.of_eq rfl rfl rfl consistent.escape
  next introducer parameters escape =>
    rw [escape] at start
    obtain _ | ⟨introduces, numbers⟩ := start
    split
    next parameter =>
      refine consistent.of_eq rfl rfl rfl (.introduced introduces ?_)
      intro d member
      rcases List.mem_append.mp member with old | new
      · exact numbers d old
      · obtain rfl := List.mem_singleton.mp new
        simpa using parameter
    · dsimp only
      split
      · exact left
      · split
        · exact left.historyUp
        · exact left.historyDown
        · exact left.cursorRight
        · exact left.cursorLeft
        · exact left.moved (Nat.zero_le _)
        · exact left.moved (Nat.le_refl _)
        · exact left

theorem feedKey (c : Char) (consistent : editor.Consistent history) :
    (editor.feedKey c).1.Consistent history := by
  have calm : Consistent history
      (if c == '\t' then editor else { editor with tabPending := false }) := by
    split
    · exact consistent
    · exact consistent.of_eq rfl rfl rfl consistent.escape
  unfold Editor.feedKey
  generalize (if c == '\t' then editor else { editor with tabPending := false }) = next at calm
  dsimp only
  split
  · exact calm.of_eq rfl rfl rfl calm.escape
  split
  · split
    · exact calm.of_eq rfl rfl rfl calm.escape
    · exact calm
  split
  · exact calm.backspace
  split
  · exact calm.complete
  split
  · exact calm.of_eq rfl rfl rfl .empty
  split
  next printable => exact calm.insert [c] (by simpa using .inl printable)
  · exact calm

/-- One key, in whatever state it comes. -/
theorem feed (c : Char) (consistent : editor.Consistent history) :
    (editor.feed history c).1.Consistent history := by
  have begun : Consistent history
      (if editor.state = .idle then { editor with state := .editing } else editor) := by
    split
    · exact consistent.of_eq rfl rfl rfl consistent.escape
    · exact consistent
  unfold Editor.feed
  generalize (if editor.state = .idle then { editor with state := .editing } else editor) = next
    at begun
  dsimp only
  split
  -- An interrupt empties the line, but not the escape sequence that it may have come into.
  · exact ⟨Nat.le_refl _, begun.index, begun.escape, by simp, begun.saved, begun.indexed⟩
  split
  · exact begun.feedEscape c
  · exact begun.feedKey c

/-- A line that is recorded meanwhile is one more that may be recalled. -/
theorem grow (new : List String) (consistent : editor.Consistent history) :
    editor.Consistent (history ++ new) := by
  have wider (c : Char) (allowed : Allowed editor.completer history c) :
      Allowed editor.completer (history ++ new) c := by
    rcases allowed with printable | ⟨line, member, inside⟩ | completed
    · exact .inl printable
    · exact .inr (.inl ⟨line, List.mem_append_left new member, inside⟩)
    · exact .inr (.inr completed)
  refine ⟨consistent.cursor, ?_, consistent.escape, ?_, ?_, consistent.indexed⟩
  · rw [List.length_append]
    exact Nat.le_add_right_of_le consistent.index
  · exact fun c member => wider c (consistent.letters c member)
  · exact fun c member => wider c (consistent.saved c member)

/-- The line holds no line end unless one was recorded or can be completed. -/
theorem unbroken (consistent : editor.Consistent history)
    (recorded : ∀ line ∈ history, ∀ c ∈ line.toList, Text.isLineEnd c = false)
    (completed : ∀ completer, editor.completer = some completer →
      ∀ name ∈ completer.index.names, ∀ c ∈ name.toList, Text.isLineEnd c = false)
    {line : String} (result : editor.result = some line) :
    ∀ c ∈ line.toList, Text.isLineEnd c = false := by
  have letters : ∀ c ∈ editor.buffer.letters, Text.isLineEnd c = false := by
    intro c member
    rcases consistent.letters c member with printable | ⟨line, member, inside⟩ |
      ⟨completer, found, name, member, inside⟩
    · have carriage := Screen.isPrintable_ne printable (d := '\r') (by decide +kernel)
      have newline := Screen.isPrintable_ne printable (d := '\n') (by decide +kernel)
      simp [Text.isLineEnd, carriage, newline]
    · exact recorded line member c inside
    · exact completed completer found name member c inside
  unfold Editor.result at result
  split at result
  · cases result
  · cases result
    simp
  · cases result
    simpa [EditBuffer.text] using letters

end Consistent

/-- A new line takes nothing over from the last one. -/
theorem start_consistent (editor : Editor) (history : List String) (prompt : String)
    (indexed : ∀ completer, editor.completer = some completer →
      ∃ names, completer.index = .ofNames names) :
    (editor.start history.length prompt).1.Consistent history :=
  ⟨Nat.le_refl _, Nat.le_refl _, .empty, by simp [start], by simp [start], indexed⟩

structure LooksInside (history : List String) (editor : Editor) : Prop where
  up : ∀ index, editor.position.index = index + 1 → ∃ line, history[index]? = some line ∧
    (editor.historyUp history).1.buffer = .ofText line
  down : editor.position.index < history.length →
    (∃ line, history[editor.position.index + 1]? = some line ∧
      (editor.historyDown history).1.buffer = .ofText line) ∨
    (editor.position.index + 1 = history.length ∧
      (editor.historyDown history).1.buffer = .ofText editor.position.saved)

theorem looksInside {history : List String} {editor : Editor}
    (bound : editor.position.index ≤ history.length) : editor.LooksInside history := by
  constructor
  · intro index place
    have inside : index < history.length := by omega
    refine ⟨history[index], by simp, ?_⟩
    simp [historyUp, place, showPosition, replaceBuffer, inside]
  · intro inside
    have shown : (editor.historyDown history).1.buffer =
        .ofText ((history[editor.position.index + 1]?).getD editor.position.saved) := by
      simp [historyDown, Nat.not_le.mpr inside, showPosition, replaceBuffer]
    rcases Nat.lt_or_eq_of_le (Nat.succ_le_of_lt inside) with more | last
    · refine .inl ⟨history[editor.position.index + 1], by simp, ?_⟩
      rw [shown, List.getElem?_eq_getElem more, Option.getD_some]
    · refine .inr ⟨last, ?_⟩
      rw [shown, List.getElem?_eq_none (Nat.le_of_eq last.symm), Option.getD_none]

/-- The cursor is brought back over what stands after it, and no further. -/
theorem redrawn_back {editor : Editor} (bound : editor.buffer.cursor ≤ editor.buffer.length) :
    ∃ back, editor.buffer.cursor + back = editor.buffer.length ∧
      editor.redrawn = clearLine ++ editor.prompt ++ editor.buffer.text ++
        (if back = 0 then "" else "\x1b[" ++ toString back ++ "D") :=
  ⟨editor.buffer.length - editor.buffer.cursor, Nat.add_sub_cancel' bound, rfl⟩

end Editor

structure EditorSession where
  editor : Editor
  history : History

inductive EditorEvent where
  | begin (prompt : String) (machine : Machine) (path : String)
  | key (c : Char)
  | redraw
  | record (entries : List Entry)

namespace EditorSession

def new (history : History) (builtins : Option (List String)) : EditorSession :=
  ⟨Editor.new history.length (builtins.map Completer.ofBuiltins), history⟩

def step (session : EditorSession) : EditorEvent → EditorSession × String
  | .begin prompt machine path =>
    match session.editor.refresh machine path (.terminal []) with
    | .ok ready =>
      let (editor, text) := ready.start session.history.length prompt
      ({ session with editor }, text)
    -- The line is begun all the same, with the names known before; there is no prompt.
    | .error _ =>
      ({ session with editor := (session.editor.start session.history.length prompt).1 }, "")
  | .key c =>
    let (editor, text) := session.editor.feed session.history.lines c
    ({ session with editor }, text)
  | .redraw => (session, session.editor.redrawn)
  | .record entries => ({ session with history := session.history.extend entries }, "")

def run (session : EditorSession) (events : List EditorEvent) : EditorSession :=
  events.foldl (fun session event => (session.step event).1) session

def Consistent (session : EditorSession) : Prop :=
  session.editor.Consistent session.history.lines

theorem length_lines (history : History) : history.lines.length = history.length := by
  simp [History.lines, History.length]

theorem new_consistent (history : History) (builtins : Option (List String)) :
    (new history builtins).Consistent := by
  refine ⟨Nat.le_refl _, Nat.le_of_eq (length_lines history).symm, .empty,
    by simp [new, Editor.new], by simp [new, Editor.new], ?_⟩
  intro completer found
  obtain ⟨names, -, rfl⟩ := Option.map_eq_some_iff.mp found
  exact ⟨names, rfl⟩

theorem step_consistent {session : EditorSession} (consistent : session.Consistent)
    (event : EditorEvent) : (session.step event).1.Consistent := by
  cases event with
  | begin prompt machine path =>
    have starts (editor : Editor) := editor.start_consistent session.history.lines prompt
    rw [length_lines] at starts
    rw [step]
    split
    next ready looked =>
      -- The names may be others now, but no letter of the old line is left to come from them.
      apply starts
      intro completer found
      exact ⟨_, Editor.refresh_indexed looked completer found⟩
    · exact starts session.editor consistent.indexed
  | key c => exact Editor.Consistent.feed c consistent
  | redraw => exact consistent
  | record entries =>
    have lines : (session.history.extend entries).lines =
        session.history.lines ++ entries.map Entry.line := by
      simp [History.lines, History.extend]
    rw [Consistent, step, lines]
    exact Editor.Consistent.grow _ consistent

theorem run_consistent {session : EditorSession} (consistent : session.Consistent)
    (events : List EditorEvent) : (session.run events).Consistent := by
  induction events generalizing session with
  | nil => exact consistent
  | cons event rest ih => exact ih (step_consistent consistent event)

end EditorSession

/-- Whatever has happened to an editor, its cursor is in the buffer, its place in the history is
one that the history has, and its escape sequence is the start of one. Its lines hold only what can
be typed, recalled or completed; without line ends in the history and the names there are none in
the line that is read. -/
theorem editor_consistent_throughout (history : History) (builtins : Option (List String))
    (events : List EditorEvent) :
    let session := (EditorSession.new history builtins).run events
    let editor := session.editor
    let lines := session.history.lines
    editor.buffer.cursor ≤ editor.buffer.length ∧
    editor.position.index ≤ lines.length ∧ editor.LooksInside lines ∧
    IsEscapeStart editor.escape ∧
    (∃ back, editor.buffer.cursor + back = editor.buffer.length ∧
      (session.step .redraw).2 = Editor.clearLine ++ editor.prompt ++ editor.buffer.text ++
        (if back = 0 then "" else "\x1b[" ++ toString back ++ "D")) ∧
    (∀ c, c ∈ editor.buffer.letters ∨ c ∈ editor.position.saved.toList →
      Allowed editor.completer lines c) ∧
    ((∀ line ∈ lines, ∀ c ∈ line.toList, Text.isLineEnd c = false) →
      (∀ completer, editor.completer = some completer →
        ∀ name ∈ completer.index.names, ∀ c ∈ name.toList, Text.isLineEnd c = false) →
      ∀ line, editor.result = some line → ∀ c ∈ line.toList, Text.isLineEnd c = false) := by
  intro session editor lines
  have consistent : editor.Consistent lines :=
    EditorSession.run_consistent (EditorSession.new_consistent history builtins) events
  refine ⟨consistent.cursor, consistent.index, Editor.looksInside consistent.index,
    consistent.escape, Editor.redrawn_back consistent.cursor, ?_, ?_⟩
  · rintro c (typed | left)
    · exact consistent.letters c typed
    · exact consistent.saved c left
  · intro recorded completed line result
    exact consistent.unbroken recorded completed result

/-- Keys before any line; then a line while the history grows, with a completion, Up, Down and
Left, and keys after its end. -/
def rovingEvents : List EditorEvent :=
  [.key 'x', .key '\x1b', .key 'O', .begin "$ " Editor.twoPrograms "/bin",
    .record [⟨"pwd", false⟩], .key 'e', .key 'c', .key '\t', .key '\x1b', .key '[', .key 'A',
    .key '\x1b', .key '[', .key 'B', .key '\x1b', .key '[', .key 'D', .redraw, .key 'x',
    .key '\r', .key '\x1b', .key '[', .key '1', .key ';']

def rovingSession : EditorSession :=
  (EditorSession.new (.ofLines ["ls"]) (some ["echo", "exit"])).run rovingEvents

theorem editor_consistent_throughout_roving :
    rovingSession.editor.result = some "pwxd" ∧
    rovingSession.editor.position.index ≤ rovingSession.history.lines.length ∧
    IsEscapeStart rovingSession.editor.escape ∧ rovingSession.editor.escape = ['[', '1', ';'] ∧
    (∀ c ∈ "pwxd".toList, Text.isLineEnd c = false) := by
  have closed : rovingSession.editor.result = some "pwxd" ∧
      rovingSession.editor.escape = ['[', '1', ';'] ∧
      rovingSession.history.lines = ["ls", "pwd"] ∧
      rovingSession.editor.completer.map (fun completer => completer.index.names) =
        some ["cargo", "cat", "echo", "exit"] := by
    decide +kernel
  obtain ⟨result, escape, recorded, completed⟩ := closed
  have whole : (EditorSession.new (.ofLines ["ls"]) (some ["echo", "exit"])).run rovingEvents =
    rovingSession := rfl
  have throughout :=
    editor_consistent_throughout (.ofLines ["ls"]) (some ["echo", "exit"]) rovingEvents
  rw [whole] at throughout
  obtain ⟨-, index, -, start, -, -, unbroken⟩ := throughout
  have unended {texts : List String}
      (checked : texts.all (fun text => text.toList.all fun c => !Text.isLineEnd c) = true) :
      ∀ text ∈ texts, ∀ c ∈ text.toList, Text.isLineEnd c = false := by
    simpa using checked
  refine ⟨result, index, start, escape, unbroken ?_ ?_ "pwxd" result⟩
  · rw [recorded]
    exact unended (by decide +kernel)
  · intro completer found
    rw [found, Option.map_some, Option.some.injEq] at completed
    rw [completed]
    exact unended (by decide +kernel)

end CommandShell
