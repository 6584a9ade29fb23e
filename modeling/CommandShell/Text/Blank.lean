import CommandShell.Text.CodeRange

/-! Blank characters separate words. Besides the characters with the Unicode
property White_Space the four information separators U+001C to U+001F count. -/
namespace CommandShell.Text

def blankRanges : List CodeRange :=
  [⟨0x9, 0xd⟩, ⟨0x1c, 0x20⟩, ⟨0x85, 0x85⟩, ⟨0xa0, 0xa0⟩, ⟨0x1680, 0x1680⟩,
   ⟨0x2000, 0x200a⟩, ⟨0x2028, 0x2029⟩, ⟨0x202f, 0x202f⟩, ⟨0x205f, 0x205f⟩,
   ⟨0x3000, 0x3000⟩]

def isBlank (c : Char) : Bool :=
  inRanges blankRanges c

/-- A text with no character, or with blank characters only. -/
def isBlankText (text : String) : Bool :=
  text.toList.all isBlank

def isLineEnd (c : Char) : Bool :=
  c == '\r' || c == '\n'

def dropLineEnd (text : List Char) : List Char :=
  (text.reverse.dropWhile isLineEnd).reverse

end CommandShell.Text
