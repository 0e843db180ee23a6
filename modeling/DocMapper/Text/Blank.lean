import DocMapper.Text.Ranges

/-! # Blank characters

A character is blank when Unicode gives it the property `White_Space`. Input that a person typed
(identifiers, operator names, sort directions, settings) is read without the blanks around it. -/

namespace DocMapper.Text

/-- The code points with the property `White_Space`. -/
def blankSpans : Spans := [
  (0x9, 0xd), (0x20, 0x20), (0x85, 0x85), (0xa0, 0xa0), (0x1680, 0x1680), (0x2000, 0x200a),
  (0x2028, 0x2029), (0x202f, 0x202f), (0x205f, 0x205f), (0x3000, 0x3000)]

def isBlank (c : Char) : Bool := blankSpans.contains c

/-- A list of characters without the blanks at its start. -/
def dropBlanks (cs : List Char) : List Char := cs.dropWhile isBlank

/-- A list of characters without the blanks at both of its ends. -/
def trimChars (cs : List Char) : List Char := (dropBlanks (dropBlanks cs).reverse).reverse

/-- A text without the blanks at both of its ends. -/
def trim (s : String) : String := String.ofList (trimChars s.toList)

def allBlank (s : String) : Bool := s.toList.all isBlank

end DocMapper.Text
