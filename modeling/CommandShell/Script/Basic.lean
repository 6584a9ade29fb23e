import CommandShell.Text.Utf8

/-! Scripts as data. Their text is raw: every character stands for one byte. -/
namespace CommandShell.Script

abbrev Raw := List Char

def ofBytes (bytes : Bytes) : Raw :=
  bytes.map fun b => Char.ofNat b.toNat

def toBytes (raw : Raw) : Bytes :=
  raw.map fun c => UInt8.ofNat c.toNat

def ofText (text : String) : Raw :=
  ofBytes (Text.encodeText text)

/-- Text that may not be UTF-8 throughout, as it is shown. -/
def toText (raw : Raw) : String :=
  String.ofList (Text.decodeReplacing (toBytes raw))

/-- A piece of a word: literal text, or the value of a parameter. -/
inductive Piece where
  | literal (text : Raw) (quoted : Bool)
  | parameter (name : Raw) (quoted : Bool)
  deriving DecidableEq, Repr

abbrev Pieces := List Piece

inductive Direction where
  | write
  | append
  | read
  | duplicate
  deriving DecidableEq, Repr

structure Redirect where
  descriptor : Nat
  direction : Direction
  target : Pieces
  deriving DecidableEq, Repr

structure SimpleCommand where
  line : Nat
  assignments : List (Raw × Pieces) := []
  words : List Pieces := []
  redirects : List Redirect := []
  deriving DecidableEq, Repr

inductive Statement where
  | skip
  | simple (command : SimpleCommand)
  | sequence (first second : Statement)
  | both (first second : Statement)
  | either (first second : Statement)
  | negated (body : Statement)
  | branch (condition body otherwise : Statement)
  | loop (wanted : Bool) (condition body : Statement)
  | forEach (name : Raw) (words : List Pieces) (body : Statement)
  deriving DecidableEq, Repr

end CommandShell.Script
