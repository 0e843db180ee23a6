/-! # Powers

Powers of two bound the integers of a fixed width. Powers with an exponent that may be negative
scale ratios: a ratio is multiplied by `base ^ e` by scaling its numerator by `power base e` and its
denominator by `power base (-e)`, of which at most one is not 1. -/

namespace DocMapper

/-- The power of two, which is how many values `bits` bits have. -/
def twoTo (bits : Nat) : Nat := Nat.pow 2 bits

/-- The power of a base, where a negative exponent counts as zero. -/
def power (base : Nat) (exponent : Int) : Nat := Nat.pow base exponent.toNat

end DocMapper
