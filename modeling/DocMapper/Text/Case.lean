import DocMapper.Text.CaseTable
import DocMapper.Text.CasedTable

/-! # Lower case and upper case

Texts change case by the full mappings of Unicode, so a text may grow: `ß` becomes `SS`. One letter
looks at its neighbours. A capital sigma at the end of a word becomes the final form `ς`, where

  * the sigma ends a word if a cased character precedes it and none follows it, and
  * characters that case looks through (apostrophes, accents, …) do not count on either side. -/

namespace DocMapper.Text

def lowerChar (c : Char) : List Char :=
  match lowerExpansions.find? (·.1 == c.toNat) with
  | some (_, cs) => cs.map Char.ofNat
  | none => [(Shift.image? lowerShifts c).getD c]

def upperChar (c : Char) : List Char :=
  match upperExpansions.find? (·.1 == c.toNat) with
  | some (_, cs) => cs.map Char.ofNat
  | none => [(Shift.image? upperShifts c).getD c]

/-- Whether the first character that case does not look through is a cased one. -/
def startsCased (cs : List Char) : Bool :=
  match cs.dropWhile caseIgnorableSpans.contains with
  | c :: _ => casedSpans.contains c
  | [] => false

/-- The lower-case form of a capital sigma between the characters `before` it (nearest first) and
those `after` it. -/
def lowerSigma (before after : List Char) : Char :=
  if startsCased before && !startsCased after then 'ς' else 'σ'

/-- The lower-case form of `rest` where the characters `before` it (nearest first) have been read. -/
def lowerFrom (before : List Char) : (rest : List Char) → List Char
  | [] => []
  | c :: cs =>
    (if c == 'Σ' then [lowerSigma before cs] else lowerChar c) ++ lowerFrom (c :: before) cs

def lower (s : String) : String := String.ofList (lowerFrom [] s.toList)

def upper (s : String) : String := String.ofList (s.toList.flatMap upperChar)

end DocMapper.Text
