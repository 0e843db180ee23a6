import DocMapper.Number.Binary64

/-! # The shortest decimal of a floating-point number

A floating-point number is written with the fewest digits that read back as the same number; of two
such decimals the nearer one is written, and of two equally near ones the one with an even last
digit. The decimals that read back as a number fill an interval around it, which reaches half way
to its neighbours and holds its ends when the mantissa is even.

Fewest digits means coarsest grid: the search walks the grids `10 ^ k` from coarse to fine and stops
at the first one that has a point in the interval. If any point of a grid lies in the interval, then
so does one of the two points next to the number, so only these are tried. -/

namespace DocMapper

/-- The number `digits * 10 ^ exponent`. -/
structure Decimal where
  digits : Nat
  exponent : Int
  deriving DecidableEq, Repr

namespace Binary64

/-- Whether a decimal reads back as the absolute value of `x`. All four sides of the
comparison are scaled by the same factor to stay natural numbers. -/
def readsBack (x : Binary64) (d : Decimal) : Bool :=
  let m := x.mantissa
  let e := x.exponent - 2
  let scale (n : Nat) : Nat := n * power 2 e * power 10 (-d.exponent)
  let low := scale (4 * m - if m == twoTo 52 && x.exponent != -1074 then 1 else 2)
  let high := scale (4 * m + 2)
  let value := d.digits * power 10 d.exponent * power 2 (-e)
  if m % 2 == 0 then low ≤ value && value ≤ high else low < value && value < high

/-- The point of the grid `10 ^ k` that reads back as the absolute value of `x`, if there is
one; the nearer one, if there are two. -/
def onGrid? (x : Binary64) (k : Int) : Option Decimal :=
  let num := x.mantissa * power 2 x.exponent * power 10 (-k)
  let den := power 2 (-x.exponent) * power 10 k
  let below : Decimal := ⟨num / den, k⟩
  let above : Decimal := ⟨num / den + 1, k⟩
  match x.readsBack below, x.readsBack above with
  | true, true => some ⟨roundHalfEven num den, k⟩
  | true, false => some below
  | false, true => some above
  | false, false => none

/-- Walks the grids downwards from `10 ^ k`, at most `steps` of them. -/
def searchGrids (x : Binary64) : (steps : Nat) → (k : Int) → Decimal
  | 0, k => ⟨0, k⟩
  | steps + 1, k =>
    match x.onGrid? k with
    | some d => d
    | none => searchGrids x steps (k - 1)

/-- A power of ten above the absolute value of `x`, at most a few steps too high. -/
def gridStart (x : Binary64) : Int := ((x.mantissa.log2 : Int) + x.exponent + 1) * 30103 / 100000 + 2

/-- The shortest decimal that reads back as the absolute value of a finite number. No number needs
more than 17 digits, so the search ends before its steps do. -/
def shortest (x : Binary64) : Decimal :=
  if x.isZero then ⟨0, 0⟩ else x.searchGrids 24 x.gridStart

end Binary64

/-! ## Writing a decimal -/

/-- How decimals are laid out: those whose leading digit stands at a power of ten from `least` to
`most` are written positionally and with at least one fraction digit, all others with an exponent,
which always has a sign. -/
structure Layout where
  least : Int
  most : Int

namespace Decimal

def write (layout : Layout) (d : Decimal) : String :=
  let ds := Nat.toDigits 10 d.digits
  let lead : Int := d.exponent + ds.length - 1
  String.ofList <|
    if d.digits = 0 then ['0', '.', '0']
    else if layout.least ≤ lead && lead ≤ layout.most then
      if 0 ≤ d.exponent then ds ++ List.replicate d.exponent.toNat '0' ++ ['.', '0']
      else if 0 ≤ lead then ds.take (lead + 1).toNat ++ ['.'] ++ ds.drop (lead + 1).toNat
      else ['0', '.'] ++ List.replicate (-lead - 1).toNat '0' ++ ds
    else
      let fraction := if ds.length = 1 then [] else '.' :: ds.drop 1
      let sign := if lead < 0 then '-' else '+'
      ds.take 1 ++ fraction ++ ['e', sign] ++ Nat.toDigits 10 lead.natAbs

end Decimal

/-- The text of a finite floating-point number: its sign and its shortest decimal. -/
def Binary64.write (layout : Layout) (x : Binary64) : String :=
  (if x.negative then "-" else "") ++ x.shortest.write layout

end DocMapper
