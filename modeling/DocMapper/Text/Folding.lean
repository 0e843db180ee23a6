import DocMapper.Text.FoldTable

/-! # Sameness up to case

Patterns that ignore case compare characters by simple case folding: each character folds to one
character, and two characters are the same when they fold alike. `orbit` lists everything that is
the same as a given character; the character itself is one of them. -/

namespace DocMapper.Text

/-- The character that stands for all characters equal to `c` up to case. -/
def fold (c : Char) : Char := (Shift.image? foldShifts c).getD c

def sameFold (a b : Char) : Bool := fold a == fold b

/-- The characters that are equal to `c` up to case. -/
def orbit (c : Char) : List Char := fold c :: Shift.sources foldShifts (fold c)

end DocMapper.Text
