import CommandShell.Completion.Completer
import CommandShell.Editor.EditBuffer
import CommandShell.Text.Digit
import CommandShell.Text.Printable

/-! The line editor as a machine driven by single keystrokes. Every operation gives
the text that it writes to the terminal beside the new state. -/
namespace CommandShell

inductive EditState where
  | idle
  | editing
  | awaitingEscape
  | accepted
  | aborted
  | endOfInput
  deriving DecidableEq, Repr

def EditState.isDone : EditState → Bool
  | .accepted | .aborted | .endOfInput => true
  | .idle | .editing | .awaitingEscape => false

/-- The place in the history while browsing it; an index equal to its length is past
the end, where the line typed so far was left. -/
structure HistoryPosition where
  index : Nat
  saved : String := ""
  deriving DecidableEq, Repr

structure Editor where
  prompt : String := ""
  buffer : EditBuffer := {}
  state : EditState := .idle
  position : HistoryPosition
  escape : List Char := []
  tabPending : Bool := false
  completer : Option Completer := none

namespace Editor

def bell : String := "\x07"

def clearLine : String := "\r\x1b[K"

def interruptKey : Char := '\x03'

def endKey : Char := '\x04'

def escapeKey : Char := '\x1b'

def isEnter (c : Char) : Bool :=
  c == '\r' || c == '\n'

def isBackspace (c : Char) : Bool :=
  c == '\x7f' || c == '\x08'

def new (historyLength : Nat) (completer : Option Completer) : Editor :=
  { position := ⟨historyLength, ""⟩, completer }

def start (editor : Editor) (historyLength : Nat) (prompt : String) : Editor × String :=
  ({ editor with
      prompt
      buffer := {}
      state := .editing
      position := ⟨historyLength, ""⟩
      escape := []
      tabPending := false },
    prompt)

/-- The finished line, empty when it was aborted, and nothing at the end of input. -/
def result (editor : Editor) : Option String :=
  match editor.state with
  | .endOfInput => none
  | .aborted => some ""
  | _ => some editor.buffer.text

def redrawn (editor : Editor) : String :=
  let back := editor.buffer.length - editor.buffer.cursor
  clearLine ++ editor.prompt ++ editor.buffer.text ++
    (if back = 0 then "" else "\x1b[" ++ toString back ++ "D")

def replaceBuffer (editor : Editor) (text : String) : Editor :=
  { editor with buffer := EditBuffer.ofText text }

def insert (editor : Editor) (text : List Char) : Editor × String :=
  let next := { editor with buffer := editor.buffer.insert text }
  (next, if editor.buffer.atEnd then String.ofList text else next.redrawn)

def backspace (editor : Editor) : Editor × String :=
  match editor.buffer.backspace? with
  | none => (editor, "")
  | some buffer =>
    let next := { editor with buffer }
    (next, if editor.buffer.atEnd then "\x08 \x08" else next.redrawn)

def cursorLeft (editor : Editor) : Editor × String :=
  match editor.buffer.moveLeft? with
  | none => (editor, "")
  | some buffer => ({ editor with buffer }, "\x08")

def cursorRight (editor : Editor) : Editor × String :=
  match editor.buffer.moveRight? with
  | none => (editor, "")
  | some buffer => ({ editor with buffer }, "\x1b[C")

def cursorHome (editor : Editor) : Editor × String :=
  let next := { editor with buffer := editor.buffer.toStart }
  (next, next.redrawn)

def cursorEnd (editor : Editor) : Editor × String :=
  let next := { editor with buffer := editor.buffer.toEnd }
  (next, next.redrawn)

/-- Shows the line of the history at `position`, or the saved one past its end. -/
def showPosition (editor : Editor) (history : List String) (position : HistoryPosition) :
    Editor × String :=
  let next := { editor with position }.replaceBuffer
    ((history[position.index]?).getD position.saved)
  (next, next.redrawn)

def historyUp (editor : Editor) (history : List String) : Editor × String :=
  match editor.position.index with
  | 0 => (editor, bell)
  | index + 1 =>
    let saved :=
      if history.length ≤ index + 1 then editor.buffer.text else editor.position.saved
    editor.showPosition history ⟨index, saved⟩

def historyDown (editor : Editor) (history : List String) : Editor × String :=
  if history.length ≤ editor.position.index then (editor, bell)
  else editor.showPosition history ⟨editor.position.index + 1, editor.position.saved⟩

/-- The candidates of an ambiguous completion are listed by the second Tab in a row. -/
def complete (editor : Editor) : Editor × String :=
  match editor.completer, editor.buffer.atEnd with
  | some completer, true =>
    match completer.complete editor.buffer.text with
    | .unique insertion _ | .extended insertion _ =>
      { editor with tabPending := false }.insert insertion.toList
    | .ambiguous names =>
      if editor.tabPending then
        let next := { editor with tabPending := false }
        (next, "\n" ++ "  ".intercalate names ++ "\n" ++ next.redrawn)
      else ({ editor with tabPending := true }, bell)
    | .none => (editor, bell)
  | _, _ => (editor, bell)

/-- A key inside an escape sequence. Only a sequence without parameters acts. -/
def feedEscape (editor : Editor) (history : List String) (c : Char) : Editor × String :=
  match editor.escape with
  | [] =>
    if c == '[' || c == 'O' then ({ editor with escape := [c] }, "")
    else ({ editor with state := .editing }, "")
  | introducer :: parameters =>
    if Text.isDigit c || c == ';' then
      ({ editor with escape := introducer :: parameters ++ [c] }, "")
    else
      let editor := { editor with state := .editing, escape := [] }
      if parameters ≠ [] then (editor, "")
      else
        match c with
        | 'A' => editor.historyUp history
        | 'B' => editor.historyDown history
        | 'C' => editor.cursorRight
        | 'D' => editor.cursorLeft
        | 'H' => editor.cursorHome
        | 'F' => editor.cursorEnd
        | _ => (editor, "")

def feedKey (editor : Editor) (c : Char) : Editor × String :=
  let editor := if c == '\t' then editor else { editor with tabPending := false }
  if isEnter c then ({ editor with state := .accepted }, "\n")
  else if c == endKey then
    if editor.buffer.length = 0 then ({ editor with state := .endOfInput }, "\n") else (editor, "")
  else if isBackspace c then editor.backspace
  else if c == '\t' then editor.complete
  else if c == escapeKey then ({ editor with escape := [], state := .awaitingEscape }, "")
  else if Text.isPrintable c then editor.insert [c]
  else (editor, "")

def feed (editor : Editor) (history : List String) (c : Char) : Editor × String :=
  let editor := if editor.state = .idle then { editor with state := .editing } else editor
  if c == interruptKey then
    ({ editor with buffer := {}, state := .aborted }, "^C\n")
  else if editor.state = .awaitingEscape then editor.feedEscape history c
  else editor.feedKey c

def feedAll (editor : Editor) (history : List String) (keys : List Char) : Editor × String :=
  keys.foldl (fun (editor, written) c =>
    let (editor, text) := editor.feed history c
    (editor, written ++ text)) (editor, "")

def feedUntilDone (editor : Editor) (history : List String) : List Char → Editor × String
  | [] => (editor, "")
  | c :: rest =>
    let (editor, text) := editor.feed history c
    if editor.state.isDone then (editor, text)
    else
      let (editor, more) := editor.feedUntilDone history rest
      (editor, text ++ more)

end Editor

end CommandShell
