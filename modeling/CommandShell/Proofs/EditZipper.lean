import Mathlib.Data.List.Induction
import CommandShell.Editor.EditBuffer

/-! The line being typed as two parts, one on each side of the cursor. A buffer keeps its letters in
one list and counts up to its cursor; two parts need no counting, since all that happens to a line
happens where they meet. No run of edits tells one from the other. -/
namespace CommandShell

inductive Edit where
  | insert (text : List Char)
  | backspace
  | moveLeft
  | moveRight
  | toStart
  | toEnd
  | replace (text : String)
  | clear

def runEdits {σ : Type} (edit : σ → Edit → σ × Option Bool) (state : σ) :
    List Edit → σ × List (Option Bool)
  | [] => (state, [])
  | next :: rest =>
    let done := edit state next
    let later := runEdits edit done.1 rest
    (later.1, done.2 :: later.2)

/-- Where one edit is the same through a view of the state, any number of them is. -/
theorem runEdits_map {σ τ : Type} {edit : σ → Edit → σ × Option Bool}
    {other : τ → Edit → τ × Option Bool} {view : σ → τ}
    (square : ∀ state next, other (view state) next = (edit state next).map view id)
    (state : σ) (edits : List Edit) :
    runEdits other (view state) edits = (runEdits edit state edits).map view id := by
  induction edits generalizing state with
  | nil => rfl
  | cons next rest ih =>
    simp only [runEdits, square, ih, Prod.map_fst, Prod.map_snd, Prod.map_apply, id]

namespace EditBuffer

/-- An edit that may find nothing to do leaves the line alone then, and answers which it was. -/
def attempt (buffer : EditBuffer) (next : Option EditBuffer) : EditBuffer × Option Bool :=
  (next.getD buffer, some next.isSome)

def edit (buffer : EditBuffer) : Edit → EditBuffer × Option Bool
  | .insert text => (buffer.insert text, none)
  | .backspace => buffer.attempt buffer.backspace?
  | .moveLeft => buffer.attempt buffer.moveLeft?
  | .moveRight => buffer.attempt buffer.moveRight?
  | .toStart => (buffer.toStart, none)
  | .toEnd => (buffer.toEnd, none)
  | .replace text => (.ofText text, none)
  | .clear => ({}, none)

end EditBuffer

/-- A line as what stands before its cursor and what stands after it. -/
structure Zipper where
  left : List Char
  right : List Char

namespace Zipper

def ofText (text : String) : Zipper :=
  ⟨text.toList, []⟩

def edit (zipper : Zipper) : Edit → Zipper × Option Bool
  | .insert text => (⟨zipper.left ++ text, zipper.right⟩, none)
  | .backspace => (⟨zipper.left.dropLast, zipper.right⟩, some (!zipper.left.isEmpty))
  | .moveLeft =>
    (⟨zipper.left.dropLast, zipper.left.getLast?.toList ++ zipper.right⟩,
      some (!zipper.left.isEmpty))
  | .moveRight =>
    (⟨zipper.left ++ zipper.right.head?.toList, zipper.right.tail⟩,
      some (!zipper.right.isEmpty))
  | .toStart => (⟨[], zipper.left ++ zipper.right⟩, none)
  | .toEnd => (⟨zipper.left ++ zipper.right, []⟩, none)
  | .replace text => (⟨text.toList, []⟩, none)
  | .clear => (⟨[], []⟩, none)

def toBuffer (zipper : Zipper) : EditBuffer :=
  ⟨zipper.left ++ zipper.right, zipper.left.length⟩

section

variable (left right : List Char) (c : Char)

theorem insert_toBuffer (text : List Char) :
    (toBuffer ⟨left, right⟩).insert text = toBuffer ⟨left ++ text, right⟩ := by
  simp [toBuffer, EditBuffer.insert]

theorem backspace?_toBuffer_nil : (toBuffer ⟨[], right⟩).backspace? = none := rfl

theorem backspace?_toBuffer_concat :
    (toBuffer ⟨left ++ [c], right⟩).backspace? = some (toBuffer ⟨left, right⟩) := by
  have erased : (left ++ [c] ++ right).eraseIdx left.length = left ++ right := by
    rw [List.append_assoc, List.eraseIdx_append_of_length_le (Nat.le_refl _)]
    simp
  simp only [toBuffer, EditBuffer.backspace?, List.length_append, List.length_singleton, erased]

theorem moveLeft?_toBuffer_nil : (toBuffer ⟨[], right⟩).moveLeft? = none := rfl

theorem moveLeft?_toBuffer_concat :
    (toBuffer ⟨left ++ [c], right⟩).moveLeft? = some (toBuffer ⟨left, c :: right⟩) := by
  simp [toBuffer, EditBuffer.moveLeft?]

theorem moveRight?_toBuffer_nil : (toBuffer ⟨left, []⟩).moveRight? = none := by
  simp [toBuffer, EditBuffer.moveRight?, EditBuffer.atEnd]

theorem moveRight?_toBuffer_cons :
    (toBuffer ⟨left, c :: right⟩).moveRight? = some (toBuffer ⟨left ++ [c], right⟩) := by
  simp [toBuffer, EditBuffer.moveRight?, EditBuffer.atEnd]

end

/-- One edit of the buffer is the same edit of the two parts. -/
theorem edit_toBuffer (zipper : Zipper) (next : Edit) :
    zipper.toBuffer.edit next = (zipper.edit next).map toBuffer id := by
  obtain ⟨left, right⟩ := zipper
  -- Backspace and Left look at the last letter before the cursor, Right at the first after it.
  cases next with
  | insert text => simp [EditBuffer.edit, edit, insert_toBuffer]
  | backspace =>
    rcases List.eq_nil_or_concat left with rfl | ⟨kept, c, rfl⟩
    · simp [EditBuffer.edit, EditBuffer.attempt, edit, backspace?_toBuffer_nil]
    · simp [EditBuffer.edit, EditBuffer.attempt, edit, backspace?_toBuffer_concat]
  | moveLeft =>
    rcases List.eq_nil_or_concat left with rfl | ⟨kept, c, rfl⟩
    · simp [EditBuffer.edit, EditBuffer.attempt, edit, moveLeft?_toBuffer_nil]
    · simp [EditBuffer.edit, EditBuffer.attempt, edit, moveLeft?_toBuffer_concat]
  | moveRight =>
    cases right with
    | nil => simp [EditBuffer.edit, EditBuffer.attempt, edit, moveRight?_toBuffer_nil]
    | cons c rest => simp [EditBuffer.edit, EditBuffer.attempt, edit, moveRight?_toBuffer_cons]
  | toStart => simp [EditBuffer.edit, edit, toBuffer, EditBuffer.toStart]
  | toEnd => simp [EditBuffer.edit, edit, toBuffer, EditBuffer.toEnd]
  | replace text => simp [EditBuffer.edit, edit, toBuffer, EditBuffer.ofText]
  | clear => rfl

theorem runEdits_backspace (left typed right : List Char) :
    runEdits edit ⟨left ++ typed, right⟩ (List.replicate typed.length .backspace) =
      (⟨left, right⟩, List.replicate typed.length (some true)) := by
  -- The letter typed last is the first to go.
  induction typed using List.reverseRecOn with
  | nil => simp [runEdits]
  | append_singleton kept c ih =>
    have taken : edit ⟨left ++ (kept ++ [c]), right⟩ .backspace =
        (⟨left ++ kept, right⟩, some true) := by
      simp [edit, ← List.append_assoc]
    simp only [List.length_append, List.length_singleton, List.replicate_succ, runEdits, taken, ih]

theorem text_toBuffer (zipper : Zipper) :
    zipper.toBuffer.text = String.ofList zipper.left ++ String.ofList zipper.right := by
  simp [toBuffer, EditBuffer.text]

theorem length_toBuffer (zipper : Zipper) :
    zipper.toBuffer.length = zipper.left.length + zipper.right.length := by
  simp [toBuffer, EditBuffer.length]

theorem atEnd_toBuffer (zipper : Zipper) : zipper.toBuffer.atEnd = zipper.right.isEmpty := by
  cases right : zipper.right <;> simp [toBuffer, EditBuffer.atEnd, right]

end Zipper

/-- Whatever text a buffer starts with and whatever edits it has seen, it has answered each of them
as the two parts do. Its text is the parts joined and its cursor is where they meet. The next
Backspace, Left or Right is refused exactly when the part that it takes a letter from is empty.
Text that is inserted and taken back by as many backspaces leaves the buffer as it was. -/
theorem edit_buffer_as_zipper (text : String) (edits : List Edit) :
    let buffer := (runEdits EditBuffer.edit (.ofText text) edits).1
    let zipper := (runEdits Zipper.edit (.ofText text) edits).1
    (runEdits EditBuffer.edit (.ofText text) edits).2 =
      (runEdits Zipper.edit (.ofText text) edits).2 ∧
    buffer.text = String.ofList zipper.left ++ String.ofList zipper.right ∧
    buffer.cursor = zipper.left.length ∧
    buffer.length = zipper.left.length + zipper.right.length ∧
    buffer.atEnd = zipper.right.isEmpty ∧
    ((buffer.edit .backspace).2 = some false ↔ zipper.left = []) ∧
    ((buffer.edit .moveLeft).2 = some false ↔ zipper.left = []) ∧
    ((buffer.edit .moveRight).2 = some false ↔ zipper.right = []) ∧
    ∀ typed : List Char,
      runEdits EditBuffer.edit buffer
          (.insert typed :: List.replicate typed.length .backspace) =
        (buffer, none :: List.replicate typed.length (some true)) := by
  intro buffer zipper
  have started : EditBuffer.ofText text = (Zipper.ofText text).toBuffer := by
    simp [EditBuffer.ofText, Zipper.ofText, Zipper.toBuffer]
  have whole := runEdits_map Zipper.edit_toBuffer (.ofText text) edits
  rw [← started] at whole
  have reached : buffer = zipper.toBuffer := congrArg Prod.fst whole
  refine ⟨congrArg Prod.snd whole, ?_⟩
  rw [reached]
  refine ⟨zipper.text_toBuffer, rfl, zipper.length_toBuffer, zipper.atEnd_toBuffer, ?_, ?_, ?_, ?_⟩
  · simp [Zipper.edit_toBuffer, Zipper.edit]
  · simp [Zipper.edit_toBuffer, Zipper.edit]
  · simp [Zipper.edit_toBuffer, Zipper.edit]
  · intro typed
    rw [runEdits_map Zipper.edit_toBuffer]
    simp [runEdits, Zipper.edit, Zipper.runEdits_backspace]

end CommandShell
