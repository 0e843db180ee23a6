import DocMapper.Number.Power

/-! # Binary floating-point numbers

Numbers with a fraction are kept as binary floating-point numbers of 64 bits. A number is held by
its sign and its **magnitude**, the 63 bits below the sign read as a natural number. The magnitude
splits into an exponent field and 52 bits of fraction, and it has two useful properties:

  * larger magnitudes stand for larger absolute values, so comparing numbers is comparing integers
    (`order`), and
  * the next magnitude up is the next number up, also across a power of two, so rounding may carry
    without a special case (`ofRatio`).

Arithmetic is exact on ratios of natural numbers and then rounds once, to the nearest number, where
a tie goes to the one with an even magnitude. -/

namespace DocMapper

/-- A binary floating-point number of 64 bits. -/
structure Binary64 where
  negative : Bool
  magnitude : Nat
  deriving DecidableEq, Repr

namespace Binary64

/-- The magnitude of infinity; all finite numbers are below it. -/
def infinite : Nat := 2047 * twoTo 52

def isFinite (x : Binary64) : Bool := x.magnitude < infinite

def zero : Binary64 := ⟨false, 0⟩

def neg (x : Binary64) : Binary64 := ⟨!x.negative, x.magnitude⟩

/-- The natural number `m` of the decomposition `m * 2 ^ exponent` of a finite absolute value. -/
def mantissa (x : Binary64) : Nat :=
  if x.magnitude / twoTo 52 = 0 then x.magnitude else twoTo 52 + x.magnitude % twoTo 52

/-- The exponent of the decomposition `mantissa * 2 ^ e` of a finite absolute value. -/
def exponent (x : Binary64) : Int :=
  if x.magnitude / twoTo 52 = 0 then -1074 else (x.magnitude / twoTo 52 : Nat) - 1075

/-- The place of a number on the number line: numbers compare as these integers do. The two zeros
share a place. -/
def order (x : Binary64) : Int := if x.negative then -x.magnitude else x.magnitude

/-- Whether a number is zero, of either sign. -/
def isZero (x : Binary64) : Bool := x.magnitude = 0

/-! ## Rounding -/

/-- `num / den` rounded to the nearest natural number, a tie to the even one. -/
def roundHalfEven (num den : Nat) : Nat :=
  let q := num / den
  let r := num % den
  if 2 * r < den then q else if den < 2 * r then q + 1 else q + q % 2

/-- The exponent at which `num / den` has a mantissa of 53 bits, or the least one there is. -/
def ratioExponent (num den : Nat) : Int :=
  let e : Int := (num.log2 : Int) - den.log2 - 52
  let reaches := twoTo 52 * den * power 2 e ≤ num * power 2 (-e)
  max (-1074) (if reaches then e else e - 1)

/-- The magnitude nearest to `num / den`. -/
def ratioMagnitude (num den : Nat) : Nat :=
  if num = 0 then 0
  else
    let e := ratioExponent num den
    let m := roundHalfEven (num * power 2 (-e)) (den * power 2 e)
    min infinite ((e + 1074).toNat * twoTo 52 + m)

/-- The number nearest to `num / den`, with the given sign. -/
def ofRatio (negative : Bool) (num den : Nat) : Binary64 := ⟨negative, ratioMagnitude num den⟩

def ofInt (i : Int) : Binary64 := ofRatio (i < 0) i.natAbs 1

/-- The number nearest to `digits * 10 ^ exponent`. An exponent outside the range that any decimal of
this many digits can use is cut short: beyond it the answer is zero or infinity anyway. -/
def ofDecimal (negative : Bool) (digits : Nat) (exponent : Int) : Binary64 :=
  let e := max (-(400 + digits.log2 : Int)) (min exponent 400)
  ofRatio negative (digits * power 10 e) (power 10 (-e))

/-! ## Arithmetic -/

/-- The sum of two numbers. An infinite operand is the answer; a sum of zero is negative only if
both operands are. -/
def add (x y : Binary64) : Binary64 :=
  if !x.isFinite then x
  else if !y.isFinite then y
  else
    let e := min x.exponent y.exponent
    let part (z : Binary64) : Int :=
      let m : Int := z.mantissa * power 2 (z.exponent - e)
      if z.negative then -m else m
    let s := part x + part y
    if s = 0 then ⟨x.negative && y.negative, 0⟩
    else ofRatio (s < 0) (s.natAbs * power 2 e) (power 2 (-e))

def divNat (x : Binary64) (n : Nat) : Binary64 :=
  if !x.isFinite then x
  else ofRatio x.negative (x.mantissa * power 2 x.exponent) (n * power 2 (-x.exponent))

/-- The integer that a finite number stands for, if it is one. -/
def toInt? (x : Binary64) : Option Int :=
  let num := x.mantissa * power 2 x.exponent
  let den := power 2 (-x.exponent)
  if x.isFinite && num % den == 0 then
    some (if x.negative then -(num / den : Nat) else (num / den : Nat))
  else none

end Binary64

end DocMapper
