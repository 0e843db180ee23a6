/-! # Hexadecimal digits

Writing a number with a fixed count of lower-case digits, and reading digits of either case. -/

namespace DocMapper.Text.Hex

/-- The lower-case digit of a number below 16. -/
def digit (n : Nat) : Char := Nat.digitChar (n % 16)

def value? (c : Char) : Option Nat :=
  if '0' ≤ c && c ≤ '9' then some (c.toNat - '0'.toNat)
  else if 'a' ≤ c && c ≤ 'f' then some (c.toNat - 'a'.toNat + 10)
  else if 'A' ≤ c && c ≤ 'F' then some (c.toNat - 'A'.toNat + 10)
  else none

/-- The last `count` digits of a number, the most significant one first. -/
def write : (count : Nat) → Nat → List Char
  | 0, _ => []
  | count + 1, n => write count (n / 16) ++ [digit n]

/-- The number that digits spell after those read so far. -/
def readFrom? (sofar : Nat) : List Char → Option Nat
  | [] => some sofar
  | c :: cs => (value? c).bind fun d => readFrom? (sofar * 16 + d) cs

/-- The number that digits spell, if all of them are digits. -/
def read? (cs : List Char) : Option Nat := readFrom? 0 cs

end DocMapper.Text.Hex
