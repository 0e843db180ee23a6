import DocMapper.Text.Blank
import DocMapper.Text.Folding
import DocMapper.Text.WordTable

/-! # Sets of characters in patterns

The character classes of a pattern, as expressions that denote sets. `contains` says which
characters a set holds; `folded` closes a set under equality up to case. -/

namespace DocMapper

inductive CharSet where
  | one (c : Char)
  /-- The characters from `first` to `last` by code point. -/
  | span (first last : Char)
  | any
  | word
  | digit
  | blank
  | none
  /-- What is in either set. -/
  | union (a b : CharSet)
  /-- What is in both sets. -/
  | both (a b : CharSet)
  /-- What is not in the set. -/
  | except (a : CharSet)
  /-- What is equal up to case to a member of the set. -/
  | folded (a : CharSet)
  deriving DecidableEq, Repr

namespace CharSet

def contains : CharSet → Char → Bool
  | one d, c => c == d
  | span first last, c => first ≤ c && c ≤ last
  | any, _ => true
  | word, c => Text.isWord c
  | digit, c => Text.isDigit c
  | blank, c => Text.isBlank c
  | none, _ => false
  | union a b, c => a.contains c || b.contains c
  | both a b, c => a.contains c && b.contains c
  | except a, c => !a.contains c
  | folded a, c => (Text.orbit c).any a.contains

/-- How many steps it takes to test a character for a set, roughly: one for each byte of a single
character, and as many as their ranges need for the classes. -/
def size : CharSet → Nat
  | one c => c.utf8Size
  | span _ last => last.utf8Size
  | any | blank => 12
  | word => 1400
  | digit => 80
  | none => 1
  | union a b | both a b => a.size + b.size
  | except a => a.size + 12
  | folded a => a.size

/-- The set of the members of a list of sets. -/
def ofList (sets : List CharSet) : CharSet := sets.foldl union none

end CharSet

end DocMapper
