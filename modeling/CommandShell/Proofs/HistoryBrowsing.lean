import CommandShell.Proofs.AcceptedLines
import CommandShell.Proofs.KeyEffect
import CommandShell.Proofs.LineReading

/-! Browsing the history while a line is typed. Up leaves the draft and Down comes back to it; in
between the recalled lines may be edited in any way. What is saved when the draft is left is what
comes back, because no key but Up past the end of the history writes it. -/
namespace CommandShell

namespace Editor

/-- An arrow key is an escape, an introducer and its letter. -/
theorem atFinal_introduced {editor : Editor} (history : List String)
    (busy : editor.state = .editing) {introducer : Char}
    (introduces : introducer = '[' ∨ introducer = 'O') :
    (editor.feedAll history [escapeKey, introducer]).1.AtFinal := by
  rcases introduces with rfl | rfl
  all_goals simp [feedAll, feed, feedKey, feedEscape, busy, AtFinal, interruptKey, isEnter, endKey,
    isBackspace, escapeKey]

section Moves

variable {history : List String} {editor : Editor} {c : Char}

theorem up_top (pressed : editor.PressesUp c) (top : editor.position.index = 0) :
    (editor.feed history c).1.buffer = editor.buffer ∧
      (editor.feed history c).1.position = editor.position := by
  rw [feed_up pressed, historyUp]
  simp [top]

/-- Up shows the entry before; past the end of the history it first saves the line. -/
theorem up_moves (pressed : editor.PressesUp c) {index : Nat}
    (place : editor.position.index = index + 1) (inside : index < history.length) :
    (editor.feed history c).1.buffer = .ofText history[index] ∧
      (editor.feed history c).1.position = ⟨index,
        if history.length ≤ index + 1 then editor.buffer.text else editor.position.saved⟩ := by
  rw [feed_up pressed, historyUp]
  simp [place, showPosition, replaceBuffer, inside]

theorem down_bottom (pressed : editor.PressesDown c)
    (bottom : history.length ≤ editor.position.index) :
    (editor.feed history c).1.buffer = editor.buffer ∧
      (editor.feed history c).1.position = editor.position := by
  rw [feed_down pressed, historyDown]
  simp [bottom]

/-- Down shows the entry after, or what was saved where there is none. -/
theorem down_moves (pressed : editor.PressesDown c)
    (inside : editor.position.index < history.length) :
    (editor.feed history c).1.buffer =
        .ofText ((history[editor.position.index + 1]?).getD editor.position.saved) ∧
      (editor.feed history c).1.position =
        ⟨editor.position.index + 1, editor.position.saved⟩ := by
  rw [feed_down pressed, historyDown]
  simp [Nat.not_le.mpr inside, showPosition, replaceBuffer]

end Moves

/-- After `left`, Up was pressed past the end of the history, and never again there. -/
structure LastLeft (history : List String) (begun : Editor) (keys left : List Char) : Prop where
  pressed : left ++ ['A'] <+: keys
  up : (begun.feedAll history left).1.PressesUp 'A'
  bottom : (begun.feedAll history left).1.position.index = history.length
  last : ∀ other, other ++ ['A'] <+: keys → (begun.feedAll history other).1.PressesUp 'A' →
    (begun.feedAll history other).1.position.index = history.length → other <+: left

variable {history : List String} {begun : Editor} {keys left : List Char}

/-- Keys that are pressed inside the history do not change when the draft was left. -/
theorem LastLeft.extend (was : LastLeft history begun keys left)
    (inside : (begun.feedAll history keys).1.position.index ≠ history.length) (c : Char) :
    LastLeft history begun (keys ++ [c]) left := by
  refine ⟨was.pressed.trans (List.prefix_append _ _), was.up, was.bottom, ?_⟩
  intro other pressed up bottom
  rcases List.prefix_concat_iff.mp pressed with whole | before
  · obtain ⟨rfl, -⟩ := List.append_inj' whole rfl
    exact absurd bottom inside
  · exact was.last other before up bottom

theorem LastLeft.new (up : (begun.feedAll history keys).1.PressesUp 'A')
    (bottom : (begun.feedAll history keys).1.position.index = history.length) :
    LastLeft history begun (keys ++ ['A']) keys := by
  refine ⟨List.prefix_refl _, up, bottom, ?_⟩
  intro other pressed _ _
  rcases List.prefix_concat_iff.mp pressed with whole | before
  · obtain ⟨rfl, -⟩ := List.append_inj' whole rfl
    exact List.prefix_refl _
  · exact (List.prefix_append _ _).trans before

/-- What holds after any keys: the place is inside the history or just past its end, and inside it
the draft is saved as it was when it was left. -/
structure Browsing (history : List String) (begun : Editor) (keys : List Char) : Prop where
  bound : (begun.feedAll history keys).1.position.index ≤ history.length
  saved : (begun.feedAll history keys).1.position.index < history.length →
    ∃ left, LastLeft history begun keys left ∧
      (begun.feedAll history keys).1.position.saved = (begun.feedAll history left).1.buffer.text

namespace Browsing

/-- A key that leaves the place in the history alone. -/
theorem keep (browsing : Browsing history begun keys) {c : Char}
    (same : ((begun.feedAll history keys).1.feed history c).1.position =
      (begun.feedAll history keys).1.position) : Browsing history begun (keys ++ [c]) := by
  rw [← feedAll_snoc] at same
  refine ⟨by rw [same]; exact browsing.bound, ?_⟩
  rw [same]
  intro inside
  obtain ⟨left, was, text⟩ := browsing.saved inside
  exact ⟨left, was.extend (Nat.ne_of_lt inside) c, text⟩

theorem up (browsing : Browsing history begun keys) {c : Char}
    (pressed : (begun.feedAll history keys).1.PressesUp c) :
    Browsing history begun (keys ++ [c]) := by
  obtain ⟨final, rfl⟩ := pressed
  have bound := browsing.bound
  cases place : (begun.feedAll history keys).1.position.index with
  | zero => exact browsing.keep (up_top ⟨final, rfl⟩ place).2
  | succ index =>
    rw [place] at bound
    obtain ⟨-, moved⟩ := up_moves ⟨final, rfl⟩ place (Nat.lt_of_succ_le bound)
    rw [← feedAll_snoc] at moved
    refine ⟨by rw [moved]; exact Nat.le_of_succ_le bound, fun _ => ?_⟩
    rw [moved]
    by_cases bottom : history.length ≤ index + 1
    · refine ⟨keys, .new ⟨final, rfl⟩ (by omega), ?_⟩
      simp [bottom]
    · obtain ⟨left, was, text⟩ := browsing.saved (by omega)
      refine ⟨left, was.extend (by omega) 'A', ?_⟩
      simpa [bottom] using text

theorem down (browsing : Browsing history begun keys) {c : Char}
    (pressed : (begun.feedAll history keys).1.PressesDown c) :
    Browsing history begun (keys ++ [c]) := by
  by_cases inside : (begun.feedAll history keys).1.position.index < history.length
  · obtain ⟨-, moved⟩ := down_moves pressed inside
    obtain ⟨left, was, text⟩ := browsing.saved inside
    rw [← feedAll_snoc] at moved
    refine ⟨by rw [moved]; exact inside, fun _ => ?_⟩
    rw [moved]
    exact ⟨left, was.extend (Nat.ne_of_lt inside) c, text⟩
  · exact browsing.keep (down_bottom pressed (Nat.not_lt.mp inside)).2

/-- One key more. -/
theorem press (browsing : Browsing history begun keys) (c : Char) :
    Browsing history begun (keys ++ [c]) := by
  by_cases pressedUp : (begun.feedAll history keys).1.PressesUp c
  · exact browsing.up pressedUp
  · by_cases pressedDown : (begun.feedAll history keys).1.PressesDown c
    · exact browsing.down pressedDown
    · exact browsing.keep (feed_position pressedUp pressedDown)

theorem pressAll (browsing : Browsing history begun keys) (more : List Char) :
    Browsing history begun (keys ++ more) := by
  induction more generalizing keys with
  | nil => rwa [List.append_nil]
  | cons c rest ih =>
    rw [List.append_cons]
    exact ih (browsing.press c)

theorem start (editor : Editor) (prompt : String) (history : List String) (keys : List Char) :
    Browsing history (editor.start history.length prompt).1 keys := by
  have begun : Browsing history (editor.start history.length prompt).1 [] :=
    ⟨Nat.le_refl _, fun inside => absurd inside (Nat.lt_irrefl _)⟩
  exact begun.pressAll keys

end Browsing

/-- Whatever was typed since the line was begun, Up and Down move one entry and show it, and at the
ends of the history they do nothing. Down past the last entry brings back the line as it was when
Up last left it, however the recalled entries were edited. No other key moves, and what a session
does with its keys adds at most the finished line to the history. -/
theorem browsing_keeps_draft (editor : Editor) (prompt : String) (history : List String)
    (keys : List Char) (c : Char) :
    let begun := (editor.start history.length prompt).1
    let before := (begun.feedAll history keys).1
    let after := (before.feed history c).1
    (before.state = .editing → ∀ introducer, introducer = '[' ∨ introducer = 'O' →
      (before.feedAll history [escapeKey, introducer]).1.AtFinal) ∧
    after.position.index ≤ history.length ∧
    (before.PressesUp c → before.position.index = 0 →
      after.buffer = before.buffer ∧ after.position.index = before.position.index) ∧
    (before.PressesUp c → before.position.index ≠ 0 → ∃ entry,
      after.position.index + 1 = before.position.index ∧
      history[after.position.index]? = some entry ∧ after.buffer = .ofText entry) ∧
    (before.PressesDown c → before.position.index = history.length →
      after.buffer = before.buffer ∧ after.position.index = before.position.index) ∧
    (before.PressesDown c → before.position.index < history.length →
      after.position.index = before.position.index + 1 ∧
      (∀ entry, history[after.position.index]? = some entry → after.buffer = .ofText entry) ∧
      (after.position.index = history.length → ∃ left, LastLeft history begun keys left ∧
        after.buffer = .ofText (begun.feedAll history left).1.buffer.text)) ∧
    (¬ before.PressesUp c → ¬ before.PressesDown c →
      after.position.index = before.position.index) ∧
    ∀ (toolbox : Toolbox) (empty : Sink) (shell : Shell),
      (shell.call? prompt = none → (shell.step toolbox empty prompt).2.state = shell.state) ∧
      ∀ call, shell.call? prompt = some call →
        call.state.session.history.lines = shell.session.history.lines ++ [call.line] := by
  intro begun before after
  have browsing : Browsing history begun keys := .start editor prompt history keys
  have bound : after.position.index ≤ history.length := by
    have pressed := (browsing.press c).bound
    rwa [feedAll_snoc] at pressed
  refine ⟨fun busy _ => atFinal_introduced history busy, bound, ?_, ?_, ?_, ?_, ?_, ?_⟩
  · intro pressed top
    obtain ⟨buffer, position⟩ := up_top pressed top
    exact ⟨buffer, congrArg HistoryPosition.index position⟩
  · intro pressed below
    obtain ⟨index, place⟩ := Nat.exists_eq_succ_of_ne_zero below
    have inside : index < history.length := by
      have here : before.position.index ≤ history.length := browsing.bound
      omega
    obtain ⟨buffer, position⟩ := up_moves pressed place inside
    have moved : after.position.index = index := congrArg HistoryPosition.index position
    refine ⟨history[index], ?_, ?_, buffer⟩
    · rw [moved, place]
    · rw [moved, List.getElem?_eq_getElem inside]
  · intro pressed bottom
    obtain ⟨buffer, position⟩ := down_bottom pressed (Nat.le_of_eq bottom.symm)
    exact ⟨buffer, congrArg HistoryPosition.index position⟩
  · intro pressed inside
    obtain ⟨buffer, position⟩ := down_moves pressed inside
    have moved : after.position.index = before.position.index + 1 :=
      congrArg HistoryPosition.index position
    refine ⟨moved, ?_, ?_⟩
    · intro entry found
      rw [moved] at found
      rw [buffer, found, Option.getD_some]
    · intro bottom
      obtain ⟨left, was, text⟩ := browsing.saved inside
      have past : history[before.position.index + 1]? = none :=
        List.getElem?_eq_none (Nat.le_of_eq (bottom.symm.trans moved))
      refine ⟨left, was, ?_⟩
      rw [buffer, past, Option.getD_none, text]
  · intro notUp notDown
    exact congrArg HistoryPosition.index (feed_position notUp notDown)
  · intro toolbox empty shell
    have advances := shell.step_advances toolbox empty prompt
    constructor
    · intro none
      rwa [none] at advances
    · intro call made
      rw [made] at advances
      rw [advances.recorded, History.lines_add]
      rfl

def draftKeys : List Char :=
  "draft\x1b[A\x1b[Axy\x7f\x1b[B\x1b[".toList

def twoEntries : List String :=
  ["ls", "pwd"]

theorem browsing_keeps_draft_edited :
    let begun := ((new 2 none).start twoEntries.length "$ ").1
    let before := (begun.feedAll twoEntries draftKeys).1
    before.PressesDown 'B' ∧ before.position.index = 1 ∧ before.buffer = .ofText "pwd" ∧
      (∃ left, LastLeft twoEntries begun draftKeys left) ∧
      (before.feed twoEntries 'B').1.buffer = .ofText "draft" := by
  intro begun before
  have reached : (before.state = .awaitingEscape ∧ before.escape.length = 1) ∧
      before.position.index = 1 ∧ before.buffer = .ofText "pwd" ∧
      (before.feed twoEntries 'B').1.buffer = .ofText "draft" := by decide +kernel
  obtain ⟨state, index, buffer, restored⟩ := reached
  have pressed : before.PressesDown 'B' := ⟨state, rfl⟩
  obtain ⟨-, -, -, -, -, down, -⟩ :=
    browsing_keeps_draft (new 2 none) "$ " twoEntries draftKeys 'B'
  obtain ⟨moved, -, back⟩ := down pressed (by rw [index]; decide)
  obtain ⟨left, was, -⟩ := back (by rw [moved, index]; rfl)
  exact ⟨pressed, index, buffer, ⟨left, was⟩, restored⟩

end Editor

end CommandShell
