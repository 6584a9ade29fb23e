import CommandShell.Text.Blank
import CommandShell.Text.Digit

/-! Reading an integer that a person typed: spaces around it, a sign, digits of
any script, and single underscores between digits. -/
namespace CommandShell.Text

/-- Longer digit runs are refused. -/
def maxIntegerDigits : Nat := 4300

/-- The spaces that may surround a number. Of the blank ASCII characters the
information separators are not among them. -/
def isNumberSpace (c : Char) : Bool :=
  isBlank c && !(0x1c ≤ c.toNat && c.toNat ≤ 0x1f)

/-- The value and the number of the digits that are left, when they are digits with
single underscores between them. `afterDigit` says that a digit came just before. -/
def readDigits (value count : Nat) (afterDigit : Bool) : List Char → Option (Nat × Nat)
  | [] => if afterDigit then some (value, count) else none
  | c :: rest =>
    if c == '_' then
      if afterDigit then readDigits value count false rest else none
    else
      match decimalValue? c with
      | some digit => readDigits (10 * value + digit) (count + 1) true rest
      | none => none

def readNatural? (text : List Char) : Option Nat :=
  match readDigits 0 0 false text with
  | some (value, count) => if count ≤ maxIntegerDigits then some value else none
  | none => none

def trimNumber (text : List Char) : List Char :=
  ((text.dropWhile isNumberSpace).reverse.dropWhile isNumberSpace).reverse

def readInteger? (text : String) : Option Int :=
  match trimNumber text.toList with
  | '-' :: digits => (readNatural? digits).map fun n => -(n : Int)
  | '+' :: digits => (readNatural? digits).map Int.ofNat
  | digits => (readNatural? digits).map Int.ofNat

end CommandShell.Text
