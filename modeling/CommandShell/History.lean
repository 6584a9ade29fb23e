import CommandShell.Machine
import CommandShell.Text.Blank
import CommandShell.Text.Raw

/-! The log of command lines. Entries are only ever added at the end. Lines that
came from a history file are marked as imported, so that appending to a file
writes only lines of this session, and each file has its own mark of how far it
is written. -/
namespace CommandShell

/-- What can stand as a line in a history: every text, and whatever else there may be. It
is encoded when it is written to a file. -/
class Recorded (Line : Type) where
  ofText : String → Line
  encode : Line → Except Fault Bytes
  encode_ofText : ∀ text, encode (ofText text) = .ok (Text.encodeText text)

instance : Recorded String where
  ofText text := text
  encode text := .ok (Text.encodeText text)
  encode_ofText _ := rfl

instance : Recorded RawText where
  ofText := RawText.ofText
  encode := RawText.encode
  encode_ofText text := by
    simp [RawText.encode, RawText.isText_ofText, RawText.chars_ofText, Text.encodeText]

structure Entry (Line : Type := String) where
  line : Line
  imported : Bool := false
  deriving DecidableEq, Repr

structure History (Line : Type := String) where
  entries : List (Entry Line) := []
  marks : List (String × Nat) := []
  deriving DecidableEq, Repr

namespace History

variable {Line : Type}

def ofLines (lines : List Line) : History Line :=
  ⟨lines.map fun line => ⟨line, false⟩, []⟩

def lines (history : History Line) : List Line :=
  history.entries.map Entry.line

def length (history : History Line) : Nat :=
  history.entries.length

def extend (history : History Line) (new : List (Entry Line)) : History Line :=
  { history with entries := history.entries ++ new }

def addAll (history : History Line) (lines : List Line) : History Line :=
  history.extend (lines.map fun line => ⟨line, false⟩)

def add (history : History Line) (line : Line) : History Line :=
  history.addAll [line]

/-- The pieces of a text between line ends; `\n`, `\r\n` and a lone `\r` all end a line.
`done` and `line` are newest first. -/
def cutLines (done : List (List Char)) (line : List Char) : List Char → List (List Char)
  | [] => (if line = [] then done else line.reverse :: done).reverse
  | '\r' :: '\n' :: rest => cutLines (line.reverse :: done) [] rest
  | c :: rest =>
    if Text.isLineEnd c then cutLines (line.reverse :: done) [] rest
    else cutLines done (c :: line) rest

def fileLines (text : List Char) : List String :=
  ((cutLines [] [] text).map String.ofList).filter fun line => !Text.isBlankText line

def fileText (lines : List String) : Bytes :=
  lines.flatMap fun line => Text.encodeText line ++ [0x0a]

/-- A refusal by the machine becomes an error of the history file; a path that cannot
reach the machine stays a fault of its own. -/
def fileFault (path : String) : Fault → Fault
  | .system e => .shell (.historyFile path e.text)
  | fault => fault

def load [Recorded Line] (history : History Line) (machine : Machine) (path : String) :
    Except Fault (History Line) :=
  match machine.readFile path with
  | .error fault => .error (fileFault path fault)
  | .ok bytes =>
    match Text.decodeStrict? bytes with
    | none => .error (.shell (.historyFile path "invalid history file"))
    | some text =>
      .ok (history.extend ((fileLines text).map fun line => ⟨Recorded.ofText line, true⟩))

def mark (history : History Line) (path : String) : Nat :=
  (history.marks.lookup path).getD 0

/-- Remembers that the file holds everything up to now. -/
def setMark (history : History Line) (path : String) : History Line :=
  { history with marks := (path, history.length) :: history.marks.filter (·.1 ≠ path) }

/-- The bytes of the lines, each ended by a newline, up to the first that cannot be encoded;
then its fault. -/
def encodeLines [Recorded Line] : List Line → Bytes × Except Fault Unit
  | [] => ([], .ok ())
  | line :: rest =>
    match Recorded.encode line with
    | .error fault => ([], .error fault)
    | .ok bytes =>
      let (others, result) := encodeLines rest
      (bytes ++ 0x0a :: others, result)

theorem encodeLines_ofText [Recorded Line] (texts : List String) :
    encodeLines (texts.map (Recorded.ofText : String → Line)) = (fileText texts, .ok ()) := by
  induction texts with
  | nil => rfl
  | cons text rest ih =>
    rw [List.map_cons, encodeLines, Recorded.encode_ofText, ih]
    simp [fileText]

theorem encodeLines_texts (texts : List String) : encodeLines texts = (fileText texts, .ok ()) := by
  have encoded : encodeLines (texts.map (Recorded.ofText : String → String)) = _ :=
    encodeLines_ofText texts
  rwa [show texts.map (Recorded.ofText : String → String) = texts from List.map_id texts]
    at encoded

/-- Writes lines to a file. It has been emptied by then, and the lines before one that cannot
be encoded are in it. -/
def writeLines [Recorded Line] (machine : Machine) (path : String) (append : Bool)
    (lines : List Line) : Except Fault Unit × Machine :=
  match machine.openFile path append with
  | .error fault => (.error (fileFault path fault), machine)
  | .ok (file, machine) =>
    let (bytes, result) := encodeLines lines
    match file.write bytes machine.files with
    | .error e => (.error (.shell (.historyFile path e.text)), machine)
    | .ok (_, files) => (result, { machine with files })

/-- The last `limit` items, or all of them when `limit` is not positive. -/
def lastOrAll (limit : Int) (items : List α) : List α :=
  if 0 < limit then items.drop (items.length - limit.toNat) else items

def save [Recorded Line] (history : History Line) (machine : Machine) (path : String)
    (limit : Int) : Except Fault (History Line) × Machine :=
  let (written, machine) := writeLines machine path false (lastOrAll limit history.lines)
  (written.map fun _ => history.setMark path, machine)

def unwritten (history : History Line) (path : String) : List Line :=
  ((history.entries.drop (history.mark path)).filter fun entry => !entry.imported).map Entry.line

/-- Appends the lines of this session that the file does not hold yet, and tells how
many there were. -/
def appendTo [Recorded Line] (history : History Line) (machine : Machine) (path : String) :
    Except Fault (Nat × History Line) × Machine :=
  let new := history.unwritten path
  let (written, machine) := writeLines machine path true new
  (written.map fun _ => (new.length, history.setMark path), machine)

def tail (history : History Line) (count : Option Int) : List (Nat × Line) :=
  let numbered := history.lines.zipIdx 1 |>.map fun (line, number) => (number, line)
  match count with
  | none => numbered
  | some count => if 0 < count then lastOrAll count numbered else []

def padLeft (width : Nat) (text : String) : String :=
  String.ofList (List.replicate (width - text.length) ' ') ++ text

def format (history : History) (count : Option Int) : String :=
  String.join ((history.tail count).map fun (number, line) =>
    padLeft 5 (toString number) ++ "  " ++ line ++ "\n")

/-- Negative positions count from the end. -/
def get (history : History Line) (position : Int) : Except Fault Line :=
  let index := if position < 0 then position + history.length else position
  if index < 0 then .error .outOfRange
  else
    match history.lines[index.toNat]? with
    | some line => .ok line
    | none => .error .outOfRange

/-- Loads the history file of a session that begins, or tells what to warn about. A file
that is missing is no reason to warn. -/
def loadAtStart [Recorded Line] (history : History Line) (machine : Machine) :
    Option String → Except Fault (History Line × Option ShellError)
  | none => .ok (history, none)
  | some path =>
    match history.load machine path with
    | .ok history => .ok (history, none)
    | .error (.shell error) =>
      .ok (history, if machine.pathExists path then some error else none)
    | .error fault => .error fault

/-- Saves the history file of a session that ends, or tells what to warn about. -/
def saveAtEnd [Recorded Line] (history : History Line) (machine : Machine) (limit : Int) :
    Option String → Except Fault (History Line × Option ShellError) × Machine
  | none => (.ok (history, none), machine)
  | some path =>
    match history.save machine path limit with
    | (.ok history, machine) => (.ok (history, none), machine)
    | (.error (.shell error), machine) => (.ok (history, some error), machine)
    | (.error fault, machine) => (.error fault, machine)

end History

end CommandShell
