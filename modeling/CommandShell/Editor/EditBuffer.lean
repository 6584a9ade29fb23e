/-! The line being typed: its characters and the place of the cursor among them. -/
namespace CommandShell

structure EditBuffer where
  letters : List Char := []
  cursor : Nat := 0
  deriving DecidableEq, Repr

namespace EditBuffer

/-- The cursor stands at the end. -/
def ofText (text : String) : EditBuffer :=
  ⟨text.toList, text.toList.length⟩

def text (buffer : EditBuffer) : String :=
  String.ofList buffer.letters

def length (buffer : EditBuffer) : Nat :=
  buffer.letters.length

def atEnd (buffer : EditBuffer) : Bool :=
  buffer.cursor == buffer.letters.length

def insert (buffer : EditBuffer) (text : List Char) : EditBuffer :=
  ⟨buffer.letters.take buffer.cursor ++ text ++ buffer.letters.drop buffer.cursor,
    buffer.cursor + text.length⟩

def backspace? (buffer : EditBuffer) : Option EditBuffer :=
  match buffer.cursor with
  | 0 => none
  | cursor + 1 => some ⟨buffer.letters.eraseIdx cursor, cursor⟩

def moveLeft? (buffer : EditBuffer) : Option EditBuffer :=
  match buffer.cursor with
  | 0 => none
  | cursor + 1 => some { buffer with cursor }

def moveRight? (buffer : EditBuffer) : Option EditBuffer :=
  if buffer.atEnd then none else some { buffer with cursor := buffer.cursor + 1 }

def toStart (buffer : EditBuffer) : EditBuffer :=
  { buffer with cursor := 0 }

def toEnd (buffer : EditBuffer) : EditBuffer :=
  { buffer with cursor := buffer.letters.length }

end EditBuffer

end CommandShell
