import DocMapper.Json.Basic
import DocMapper.Text.Hex

/-! # Reading values from JSON text

The reader keeps what plain JSON readers lose: the order of keys and the form of numbers.

  * A number without fraction and exponent that fits a signed or an unsigned integer of 64 bits is
    an integer; every other number, and `-0`, is a floating-point number.
  * A key that occurs twice keeps its first place and its last value.

Reading works on the list of characters that are left. Every step but the last uses up at least one
of them, so the length of the text bounds the depth of the recursion. -/

namespace DocMapper.Json

/-- The characters after the blanks that JSON allows between tokens. -/
def skipBlanks (cs : List Char) : List Char :=
  cs.dropWhile fun c => c == ' ' || c == '\n' || c == '\r' || c == '\t'

/-! ## Numbers -/

def isDigit (c : Char) : Bool := '0' ≤ c && c ≤ '9'

def digitsToNat (cs : List Char) : Nat := cs.foldl (fun n c => n * 10 + (c.toNat - '0'.toNat)) 0

/-- The number with the given sign, digits before and after the point, and power of ten. -/
def numberOf (negative : Bool) (whole fraction : List Char) (power : Int) (plain : Bool) : Number :=
  let digits := digitsToNat (whole ++ fraction)
  let fits := if negative then 0 < digits && digits ≤ twoTo 63 else digits < twoTo 64
  if plain && fits then .int (if negative then -digits else digits)
  else .float (Binary64.ofDecimal negative digits (power - fraction.length))

/-- Reads the exponent of a number, if there is one: its value and what follows it. -/
def readExponent : List Char → Option (Option Int × List Char)
  | c :: cs =>
    if c == 'e' || c == 'E' then
      let (negative, cs) := match cs with
        | '-' :: cs => (true, cs)
        | '+' :: cs => (false, cs)
        | cs => (false, cs)
      let ds := cs.takeWhile isDigit
      if ds.isEmpty then none
      else
        let n : Int := digitsToNat ds
        some (some (if negative then -n else n), cs.dropWhile isDigit)
    else some (none, c :: cs)
  | [] => some (none, [])

def readNumber (cs : List Char) : Option (Number × List Char) :=
  let (negative, cs) := match cs with
    | '-' :: cs => (true, cs)
    | cs => (false, cs)
  let whole := cs.takeWhile isDigit
  if whole.isEmpty || (whole.length > 1 && whole.head? == some '0') then none
  else
    let rest := cs.dropWhile isDigit
    let (fraction, rest) := match rest with
      | '.' :: more => (some (more.takeWhile isDigit), more.dropWhile isDigit)
      | rest => (none, rest)
    if fraction == some [] then none
    else do
      let (power, rest) ← readExponent rest
      let plain := fraction.isNone && power.isNone
      return (numberOf negative whole (fraction.getD []) (power.getD 0) plain, rest)

/-! ## Texts -/

def readUnit (cs : List Char) : Option (Nat × List Char) :=
  if (cs.take 4).length = 4 then
    (Text.Hex.read? (cs.take 4)).map fun n => (n, cs.drop 4)
  else none

/-- Reads what follows `\u`: one unit, or two that together name a character beyond the first
65536. -/
def readUnicode (cs : List Char) : Option (Char × List Char) := do
  let (high, rest) ← readUnit cs
  if 0xd800 ≤ high && high < 0xdc00 then
    match rest with
    | '\\' :: 'u' :: rest =>
      let (low, rest) ← readUnit rest
      if 0xdc00 ≤ low && low < 0xe000 then
        return (Char.ofNat (0x10000 + (high - 0xd800) * 0x400 + (low - 0xdc00)), rest)
      else none
    | _ => none
  else if 0xdc00 ≤ high && high < 0xe000 then none
  else return (Char.ofNat high, rest)

/-- Reads the rest of a text up to its closing quote; `read` holds the characters so far, the last
one first. -/
def readString : (fuel : Nat) → (read : List Char) → List Char → Option (String × List Char)
  | 0, _, _ => none
  | _ + 1, _, [] => none
  | _ + 1, read, '"' :: rest => some (String.ofList read.reverse, rest)
  | fuel + 1, read, '\\' :: c :: rest =>
    match c with
    | '"' => readString fuel ('"' :: read) rest
    | '\\' => readString fuel ('\\' :: read) rest
    | '/' => readString fuel ('/' :: read) rest
    | 'b' => readString fuel ('\x08' :: read) rest
    | 'f' => readString fuel ('\x0c' :: read) rest
    | 'n' => readString fuel ('\n' :: read) rest
    | 'r' => readString fuel ('\r' :: read) rest
    | 't' => readString fuel ('\t' :: read) rest
    | 'u' =>
      match readUnicode rest with
      | some (c, rest) => readString fuel (c :: read) rest
      | none => none
    | _ => none
  | fuel + 1, read, c :: rest =>
    if c.toNat < 0x20 || c == '\\' then none else readString fuel (c :: read) rest

/-! ## Values -/

mutual

def readValue : (fuel : Nat) → List Char → Option (Json × List Char)
  | 0, _ => none
  | fuel + 1, cs =>
    match skipBlanks cs with
    | 'n' :: 'u' :: 'l' :: 'l' :: rest => some (.null, rest)
    | 't' :: 'r' :: 'u' :: 'e' :: rest => some (.bool true, rest)
    | 'f' :: 'a' :: 'l' :: 's' :: 'e' :: rest => some (.bool false, rest)
    | '"' :: rest => (readString fuel [] rest).map fun (s, rest) => (.string s, rest)
    | '[' :: rest =>
      match skipBlanks rest with
      | ']' :: rest => some (.array [], rest)
      | rest => readItems fuel [] rest
    | '\x7b' :: rest =>
      match skipBlanks rest with
      | '\x7d' :: rest => some (.object [], rest)
      | rest => readEntries fuel [] rest
    | cs => (readNumber cs).map fun (n, rest) => (.number n, rest)

/-- Reads the items of an array up to its closing bracket; `read` holds those before, the last one
first. -/
def readItems : (fuel : Nat) → (read : List Json) → List Char → Option (Json × List Char)
  | 0, _, _ => none
  | fuel + 1, read, cs =>
    match readValue fuel cs with
    | none => none
    | some (v, rest) =>
      match skipBlanks rest with
      | ',' :: rest => readItems fuel (v :: read) rest
      | ']' :: rest => some (.array (v :: read).reverse, rest)
      | _ => none

/-- Reads the entries of an object up to its closing brace; `read` holds those before. -/
def readEntries : (fuel : Nat) → (read : Document) → List Char → Option (Json × List Char)
  | 0, _, _ => none
  | fuel + 1, read, cs =>
    match skipBlanks cs with
    | '"' :: rest =>
      match readString fuel [] rest with
      | none => none
      | some (key, rest) =>
        match skipBlanks rest with
        | ':' :: rest =>
          match readValue fuel rest with
          | none => none
          | some (v, rest) =>
            let read := read.insert key v
            match skipBlanks rest with
            | ',' :: rest => readEntries fuel read rest
            | '\x7d' :: rest => some (.object read, rest)
            | _ => none
        | _ => none
    | _ => none

end

/-- The value that a text spells, if it spells one. -/
def read? (s : String) : Option Json :=
  let cs := s.toList
  match readValue (cs.length + 1) cs with
  | some (v, rest) => if (skipBlanks rest).isEmpty then some v else none
  | none => none

end DocMapper.Json
