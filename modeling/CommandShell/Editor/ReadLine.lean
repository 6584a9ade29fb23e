import CommandShell.Editor.Basic
import CommandShell.Text.Utf8

/-! Reading one line, either key by key from a terminal or as a whole from plain
input. -/
namespace CommandShell

inductive TerminalEvent where
  | byte (value : UInt8)
  | noData
  | interrupt
  deriving DecidableEq, Repr

inductive PlainEvent where
  | line (text : String)
  | interrupt
  deriving DecidableEq, Repr

/-- The input of a shell. After the last event a terminal gives no data and plain input
is at its end, forever. Input that is shared with the commands has a part that the shell
has taken but not used, and the rest, which commands may read too. -/
inductive LineInput where
  | terminal (events : List TerminalEvent)
  | plain (events : List PlainEvent)
  | shared (ready rest : Bytes)
  deriving DecidableEq, Repr

/-- A bound on the number of lines that can be read. -/
def LineInput.size : LineInput → Nat
  | .terminal events => events.length
  | .plain events => events.length
  | .shared ready rest => ready.length + rest.length

inductive ReadResult where
  | line (text : String)
  | endOfInput
  | interrupted
  deriving DecidableEq, Repr

namespace Editor

/-- No data ends the line, or the input when nothing is typed. -/
def noDataKey (editor : Editor) : Char :=
  if editor.buffer.length = 0 then endKey else '\n'

/-- One read of the terminal, with the bytes of an unfinished character in `decoder`. -/
def onEvent (editor : Editor) (history : List String) (decoder : Text.Utf8State) :
    TerminalEvent → Editor × Text.Utf8State × String
  | .interrupt =>
    let (editor, text) := editor.feed history interruptKey
    (editor, decoder, text)
  | .noData =>
    let (editor, text) := editor.feed history editor.noDataKey
    (editor, decoder, text)
  | .byte b =>
    let (decoded, decoder) := Text.utf8Step decoder b
    let (editor, text) := editor.feedUntilDone history (decoded.map Text.shown)
    (editor, decoder, text)

/-- Reads to the end of the line. Past the last event two reads are enough: the first
may only leave an escape sequence. Gives the events left and the text written. -/
def readEvents (editor : Editor) (history : List String) (decoder : Text.Utf8State)
    (written : String) : List TerminalEvent → Editor × List TerminalEvent × String
  | [] =>
    let (first, text) := editor.feed history editor.noDataKey
    if first.state.isDone then (first, [], written ++ text)
    else
      let (second, more) := first.feed history first.noDataKey
      (second, [], written ++ text ++ more)
  | event :: rest =>
    let (editor, decoder, text) := editor.onEvent history decoder event
    if editor.state.isDone then (editor, rest, written ++ text)
    else editor.readEvents history decoder (written ++ text) rest

def readTerminal (editor : Editor) (history : List String) (prompt : String)
    (events : List TerminalEvent) : ReadResult × Editor × List TerminalEvent × String :=
  let (editor, text) := editor.start history.length prompt
  let (editor, rest, written) := editor.readEvents history .start text events
  let result :=
    match editor.result with
    | some line => .line line
    | none => .endOfInput
  (result, editor, rest, written)

/-- An empty line, without even a line end, is the end of input. -/
def readPlain (events : List PlainEvent) : ReadResult × List PlainEvent :=
  match events with
  | [] => (.endOfInput, [])
  | .interrupt :: rest => (.interrupted, rest)
  | .line text :: rest =>
    if text = "" then (.endOfInput, rest)
    else (.line (String.ofList (Text.dropLineEnd text.toList)), rest)

/-- The first line of `ready` and what follows it; nothing when its end is not there yet.
`\n`, `\r\n` and a lone `\r` all end a line, and so does the end of the input. -/
def takeReady (atEnd : Bool) (line : Bytes) : Bytes → Option (Bytes × Bytes)
  | [] => if atEnd then some (line.reverse, []) else none
  | [b] =>
    if b = 0x0a || (b = 0x0d && atEnd) then some (line.reverse, [])
    else if b = 0x0d then none
    else if atEnd then some ((b :: line).reverse, [])
    else none
  | b :: c :: rest =>
    if b = 0x0a then some (line.reverse, c :: rest)
    else if b = 0x0d then some (line.reverse, if c = 0x0a then rest else c :: rest)
    else takeReady atEnd (b :: line) (c :: rest)

def pieceSize : Nat := 8192

/-- Reads a line of shared input, taking pieces of the rest until it has one. The input is assumed
to be UTF-8: bytes that are not, which a reader may as well refuse or keep as lone surrogates, are
read as U+FFFD here. -/
def readShared (ready rest : Bytes) : ReadResult × LineInput :=
  let found (line ready : Bytes) (rest : Bytes) : ReadResult × LineInput :=
    (.line (String.ofList (Text.decodeReplacing line)), .shared ready rest)
  match rest with
  | [] =>
    if ready = [] then (.endOfInput, .shared [] [])
    else
      match takeReady true [] ready with
      | some (line, ready) => found line ready []
      | none => (.endOfInput, .shared [] [])
  | b :: more =>
    match takeReady false [] ready with
    | some (line, ready) => found line ready (b :: more)
    | none => readShared (ready ++ (b :: more).take pieceSize) ((b :: more).drop pieceSize)
termination_by rest.length
decreasing_by
  simp only [List.length_drop, List.length_cons, pieceSize]
  omega

def readLine (editor : Editor) (history : List String) (prompt : String) :
    LineInput → ReadResult × Editor × LineInput × String
  | .terminal events =>
    let (result, editor, rest, written) := editor.readTerminal history prompt events
    (result, editor, .terminal rest, written)
  | .plain events =>
    let (result, rest) := readPlain events
    (result, editor, .plain rest, prompt)
  | .shared ready rest =>
    let (result, left) := readShared ready rest
    (result, editor, left, prompt)

/-- Looks up the programs on the search path before a line is edited. Only a terminal has
completion. -/
def refresh (editor : Editor) (machine : Machine) (path : String) : LineInput → Except Fault Editor
  | .plain _ | .shared _ _ => .ok editor
  | .terminal _ =>
    match editor.completer with
    | none => .ok editor
    | some completer =>
      match completer.refresh machine path with
      | .ok completer => .ok { editor with completer }
      | .error fault => .error fault

end Editor

/-- A text as the lines that reading it gives: each ends after its newline. -/
def plainLines (done : List PlainEvent) (line : List Char) : List Char → List PlainEvent
  | [] =>
    (if line = [] then done else .line (String.ofList line.reverse) :: done).reverse
  | c :: rest =>
    if c = '\n' then plainLines (.line (String.ofList (c :: line).reverse) :: done) [] rest
    else plainLines done (c :: line) rest

end CommandShell
