import CommandShell.Fault
import CommandShell.Text.Utf8

/-! Texts with lone surrogates. Everywhere else a text is a string, which holds Unicode scalar
values only; but a reader that has to keep bytes it cannot decode stands them for surrogates,
and these cannot be encoded again. -/
namespace CommandShell

/-- `surrogate k` is the code point U+D800 + k. -/
inductive CodePoint where
  | char (c : Char)
  | surrogate (k : Fin 2048)
  deriving DecidableEq, Repr

def CodePoint.char? : CodePoint → Option Char
  | .char c => some c
  | .surrogate _ => none

def RawText := List CodePoint
  deriving DecidableEq, Repr

namespace RawText

def ofText (text : String) : RawText :=
  text.toList.map CodePoint.char

def chars (text : RawText) : List Char :=
  List.filterMap CodePoint.char? text

def isText (text : RawText) : Bool :=
  List.all text fun point => point.char?.isSome

/-- The place of the first surrogates, and which ones stand there. -/
def firstSurrogates (position : Nat) : RawText → Nat × List (Fin 2048)
  | [] => (position, [])
  | .char _ :: rest => firstSurrogates (position + 1) rest
  | .surrogate k :: rest =>
    (position, k :: (List.takeWhile (·.char?.isNone) rest).filterMap fun
      | .surrogate k => some k
      | .char _ => none)

def surrogateName (k : Fin 2048) : String :=
  "'\\u" ++ String.ofList (Nat.toDigits 16 (0xd800 + k)) ++ "'"

def refusal (text : RawText) : String :=
  let (position, surrogates) := firstSurrogates 0 text
  let subject := match surrogates with
    | [k] => "character " ++ surrogateName k ++ " in position " ++ toString position
    | _ => "characters in position " ++ toString position ++ "-" ++
        toString (position + surrogates.length - 1)
  "'utf-8' codec can't encode " ++ subject ++ ": surrogates not allowed"

def encode (text : RawText) : Except Fault Bytes :=
  if text.isText then .ok (Text.encode text.chars) else .error (.unencodable text.refusal)

theorem isText_ofText (text : String) : (ofText text).isText = true := by
  simp [isText, ofText, CodePoint.char?]

theorem chars_ofText (text : String) : (ofText text).chars = text.toList := by
  simp [chars, ofText, List.filterMap_map, Function.comp_def, CodePoint.char?]

end RawText

end CommandShell
