/-! # Sets of characters given by ranges

The properties that Unicode attaches to characters come as long lists of code point ranges. This
module holds the two ways in which such lists are read here:

  * a **span** `(first, last)` names every code point from `first` to `last`; a list of spans is a
    set of characters, and `Spans.contains` tests membership;
  * a **shift** names every `step`-th code point from `first` to `last` and says how far each of
    them moves; a list of shifts is a map between characters, read by `Shift.image?`. -/

namespace DocMapper.Text

/-- A set of characters, as a list of inclusive ranges of code points. -/
abbrev Spans := List (Nat × Nat)

def Spans.contains (spans : Spans) (c : Char) : Bool :=
  spans.any fun (first, last) => first ≤ c.toNat && c.toNat ≤ last

/-- The code points `first`, `first + step`, … up to `last`, each of which maps to itself plus
`offset`. -/
structure Shift where
  first : Nat
  last : Nat
  step : Nat
  offset : Int

namespace Shift

/-- Whether the shift moves the code point `n`. -/
def moves (s : Shift) (n : Nat) : Bool :=
  s.first ≤ n && n ≤ s.last && (n - s.first) % s.step == 0

/-- Where the shift sends a code point that it moves. -/
def target (s : Shift) (n : Nat) : Nat := ((n : Int) + s.offset).toNat

/-- Where a list of shifts sends a character, if one of them moves it; the first that does so
decides. -/
def image? (shifts : List Shift) (c : Char) : Option Char :=
  (shifts.find? (·.moves c.toNat)).map fun s => Char.ofNat (s.target c.toNat)

/-- Every character that a list of shifts sends to `c`. -/
def sources (shifts : List Shift) (c : Char) : List Char :=
  shifts.filterMap fun s =>
    let n := ((c.toNat : Int) - s.offset).toNat
    if s.moves n && s.target n == c.toNat then some (Char.ofNat n) else none

end Shift

end DocMapper.Text
