/-! UTF-8 decoding one byte at a time. Malformed input is cut into maximal
subparts of well-formed sequences, each of which decodes to one mark; the
replacing decoder shows a mark as U+FFFD and the strict one refuses it. -/
namespace CommandShell

abbrev Bytes := List UInt8

namespace Text

/-- Between characters, or inside a sequence that still owes `more + 1` bytes, of
which the next one lies between `low` and `high`. -/
inductive Utf8State where
  | start
  | inside (more : Nat) (low high : UInt8) (value : Nat)
  deriving DecidableEq, Repr

/-- A decoded character, or the mark of a malformed subpart. -/
abbrev Decoded := Option Char

def utf8Start (b : UInt8) : List Decoded × Utf8State :=
  if b ≤ 0x7f then ([some (Char.ofNat b.toNat)], .start)
  else if b < 0xc2 then ([none], .start)
  else if b ≤ 0xdf then ([], .inside 0 0x80 0xbf (b.toNat - 0xc0))
  else if b = 0xe0 then ([], .inside 1 0xa0 0xbf 0)
  else if b = 0xed then ([], .inside 1 0x80 0x9f 0xd)
  else if b ≤ 0xef then ([], .inside 1 0x80 0xbf (b.toNat - 0xe0))
  else if b = 0xf0 then ([], .inside 2 0x90 0xbf 0)
  else if b ≤ 0xf3 then ([], .inside 2 0x80 0xbf (b.toNat - 0xf0))
  else if b = 0xf4 then ([], .inside 2 0x80 0x8f 4)
  else ([none], .start)

def utf8Step : Utf8State → UInt8 → List Decoded × Utf8State
  | .start, b => utf8Start b
  | .inside more low high value, b =>
    if low ≤ b && b ≤ high then
      let value := value * 64 + (b.toNat - 0x80)
      match more with
      | 0 => ([some (Char.ofNat value)], .start)
      | more + 1 => ([], .inside more 0x80 0xbf value)
    else
      let (decoded, state) := utf8Start b
      (none :: decoded, state)

/-- What a sequence cut off by the end of the input decodes to. -/
def utf8Finish : Utf8State → List Decoded
  | .start => []
  | .inside .. => [none]

/-- Decodes from `state` on; `done` holds what is decoded so far, newest first. -/
def utf8Run (state : Utf8State) (done : List Decoded) : Bytes → List Decoded
  | [] => done.reverse ++ utf8Finish state
  | b :: rest =>
    let (decoded, state) := utf8Step state b
    utf8Run state (decoded.reverse ++ done) rest

def replacement : Char := '�'

def shown (decoded : Decoded) : Char :=
  decoded.getD replacement

/-- Decodes all of `bytes`, with U+FFFD for every malformed subpart. -/
def decodeReplacing (bytes : Bytes) : List Char :=
  (utf8Run .start [] bytes).map shown

/-- The characters of `bytes`, or nothing when they are not UTF-8 throughout. -/
def decodeStrict? (bytes : Bytes) : Option (List Char) :=
  let decoded := utf8Run .start [] bytes
  if decoded.all Option.isSome then some (decoded.map shown) else none

def encode (text : List Char) : Bytes :=
  text.flatMap String.utf8EncodeChar

/-- A string holds Unicode scalar values only, so that it can always be encoded. -/
def encodeText (text : String) : Bytes :=
  encode text.toList

end Text

end CommandShell
