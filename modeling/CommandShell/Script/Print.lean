import CommandShell.Script.State

/-! What the printing commands of a script write. -/
namespace CommandShell.Script

def isOctal (c : Char) : Bool :=
  '0' ≤ c && c ≤ '7'

def octalValue (digits : Raw) : Nat :=
  digits.foldl (fun n c => 8 * n + (c.toNat - '0'.toNat)) 0

def octalChar (digits : Raw) : Char :=
  Char.ofNat (octalValue digits % 256)

def escaped? : Char → Option Char
  | 'a' => some '\x07'
  | 'b' => some '\x08'
  | 'f' => some '\x0c'
  | 'n' => some '\n'
  | 'r' => some '\x0d'
  | 't' => some '\t'
  | 'v' => some '\x0b'
  | '\\' => some '\\'
  | _ => none

/-- The escapes of `echo`. The flag tells that the text ended early. -/
def echoText (done : Raw) : Raw → Raw × Bool
  | [] => (done.reverse, false)
  | '\\' :: 'c' :: _ => (done.reverse, true)
  | '\\' :: '0' :: a :: b :: c :: rest =>
    if isOctal a && isOctal b && isOctal c then echoText (octalChar [a, b, c] :: done) rest
    else if isOctal a && isOctal b then echoText (octalChar [a, b] :: done) (c :: rest)
    else if isOctal a then echoText (octalChar [a] :: done) (b :: c :: rest)
    else echoText ('\x00' :: done) (a :: b :: c :: rest)
  | '\\' :: c :: rest =>
    match escaped? c with
    | some plain => echoText (plain :: done) rest
    | none => echoText (c :: '\\' :: done) rest
  | c :: rest => echoText (c :: done) rest

def echo (words : List Raw) : Raw :=
  let (words, newline) :=
    match words with
    | ['-', 'n'] :: rest => (rest, false)
    | words => (words, true)
  let (text, early) := echoText [] ([' '].intercalate words)
  if newline && !early then text ++ ['\n'] else text

inductive FormatPart where
  | literal (c : Char)
  | argument (flags : Raw) (kind : Char)
  deriving DecidableEq, Repr

def formatParts (done : List FormatPart) : Raw → List FormatPart
  | [] => done.reverse
  | '%' :: '%' :: rest => formatParts (.literal '%' :: done) rest
  | '%' :: kind :: rest => formatParts (.argument [] kind :: done) rest
  | '\\' :: a :: b :: c :: rest =>
    if isOctal a && isOctal b && isOctal c then
      formatParts (.literal (octalChar [a, b, c]) :: done) rest
    else if isOctal a && isOctal b then
      formatParts (.literal (octalChar [a, b]) :: done) (c :: rest)
    else if isOctal a then formatParts (.literal (octalChar [a]) :: done) (b :: c :: rest)
    else
      match escaped? a with
      | some plain => formatParts (.literal plain :: done) (b :: c :: rest)
      | none => formatParts (.literal a :: .literal '\\' :: done) (b :: c :: rest)
  | '\\' :: a :: rest =>
    if isOctal a then formatParts (.literal (octalChar [a]) :: done) rest
    else
      match escaped? a with
      | some plain => formatParts (.literal plain :: done) rest
      | none => formatParts (.literal a :: .literal '\\' :: done) rest
  | c :: rest => formatParts (.literal c :: done) rest

/-- One pass over the parts; every argument part takes the next argument, if there is
one left. -/
def formatOnce (done : Raw) (arguments : List Raw) : List FormatPart → Raw × List Raw
  | [] => (done, arguments)
  | .literal c :: parts => formatOnce (c :: done) arguments parts
  | .argument _ kind :: parts =>
    let value := arguments.head?.getD []
    let shown :=
      match kind with
      | 'd' | 'i' | 'u' => if value = [] then ['0'] else value
      | 'c' => value.take 1
      | 'b' => (echoText [] value).1
      | _ => value
    formatOnce (shown.reverse ++ done) arguments.tail parts

/-- The format is used again as long as arguments are left. -/
def formatAll (fuel : Nat) (done : Raw) (parts : List FormatPart) (arguments : List Raw) : Raw :=
  let (done, left) := formatOnce done arguments parts
  match fuel with
  | 0 => done.reverse
  | fuel + 1 =>
    if left = [] || left.length = arguments.length then done.reverse
    else formatAll fuel done parts left

def printf (format : Raw) (arguments : List Raw) : Raw :=
  formatAll arguments.length [] (formatParts [] format) arguments

end CommandShell.Script
