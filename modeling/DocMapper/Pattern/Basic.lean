import DocMapper.Pattern.CharSet

/-! # Patterns

A pattern describes stretches of a text. Matching works on positions: `ends` takes the positions at
which a stretch may begin and gives those at which it may end. A text matches a pattern when some
stretch of it does, so anchors are part of the pattern and nothing else ties it to the whole text.

Sets of positions are lists without repetitions. A repetition without an upper bound stops when a
round adds no position; a text of `n` characters has `n + 1` positions, so that takes at most
`n + 1` rounds. -/

namespace DocMapper

/-- A condition on a position that takes up no characters. -/
inductive Anchor where
  /-- Before the first character. -/
  | textStart
  /-- After the last character. -/
  | textEnd
  /-- Before the first character or after a line break. -/
  | lineStart
  /-- After the last character or before a line break. -/
  | lineEnd
  /-- Between a member of the set and something else, in either order. -/
  | wordBoundary (inside : CharSet)
  /-- Not such a place. -/
  | noWordBoundary (inside : CharSet)
  /-- After something else and before a member of the set. -/
  | wordStart (inside : CharSet)
  /-- After a member of the set and before something else. -/
  | wordEnd (inside : CharSet)
  /-- Not after a member of the set. -/
  | wordStartHalf (inside : CharSet)
  /-- Not before a member of the set. -/
  | wordEndHalf (inside : CharSet)
  deriving DecidableEq, Repr

inductive Pattern where
  /-- The empty stretch. -/
  | empty
  /-- One character of a set. -/
  | set (s : CharSet)
  /-- The empty stretch at a position that meets a condition. -/
  | anchor (a : Anchor)
  /-- A stretch of the first pattern and then one of the second. -/
  | seq (p q : Pattern)
  /-- A stretch of either pattern. -/
  | alt (p q : Pattern)
  /-- At least `least` and at most `most` stretches of a pattern in a row. -/
  | repeats (p : Pattern) (least : Nat) (most : Option Nat)
  deriving DecidableEq, Repr

def Anchor.holds (t : Array Char) (i : Nat) : Anchor → Bool
  | textStart => i == 0
  | textEnd => i == t.size
  | lineStart => i == 0 || t[i - 1]? == some '\n'
  | lineEnd => i == t.size || t[i]? == some '\n'
  | wordBoundary w => before w != after w
  | noWordBoundary w => before w == after w
  | wordStart w => !before w && after w
  | wordEnd w => before w && !after w
  | wordStartHalf w => !before w
  | wordEndHalf w => !after w
where
  /-- Whether the character before the position is in a set. -/
  before (w : CharSet) : Bool := i != 0 && (t[i - 1]?.map w.contains).getD false
  /-- Whether the character after the position is in a set. -/
  after (w : CharSet) : Bool := (t[i]?.map w.contains).getD false

namespace Pattern

/-- Adds positions to a list of positions, each at most once. -/
def addPositions (s extra : List Nat) : List Nat :=
  extra.foldl (fun s i => if s.contains i then s else s ++ [i]) s

/-- Adds what one step reaches, again and again until nothing new is reached, at most `rounds`
times. -/
def closure (step : List Nat → List Nat) : (rounds : Nat) → List Nat → List Nat
  | 0, s => s
  | rounds + 1, s =>
    let reached := addPositions s (step s)
    if reached.length = s.length then s else closure step rounds reached

/-- Takes a step the given number of times. Once a step changes nothing, no further one does. -/
def iterate (step : List Nat → List Nat) : (count : Nat) → List Nat → List Nat
  | 0, s => s
  | count + 1, s =>
    let t := step s
    if t = s then s else iterate step count t

/-- The positions at which a stretch of the pattern may end that begins at one of the given
positions. -/
def ends (t : Array Char) : Pattern → List Nat → List Nat
  | empty, s => s
  | set cs, s => (s.filter fun i => (t[i]?.map cs.contains).getD false).map (· + 1)
  | anchor a, s => s.filter fun i => a.holds t i
  | seq p q, s => ends t q (ends t p s)
  | alt p q, s => addPositions (ends t p s) (ends t q s)
  | repeats p least most, s =>
    let rounds := match most with
      | some m => min (m - least) (t.size + 1)
      | none => t.size + 1
    closure (fun s => ends t p s) rounds (iterate (fun s => ends t p s) least s)

def matchesText (p : Pattern) (s : String) : Bool :=
  let t := s.toList.toArray
  !(p.ends t (List.range (t.size + 1))).isEmpty

/-! ## Size -/

/-- How many steps a pattern has when its repetitions are written out. Bounds make a pattern much
larger than its text. -/
def size : Pattern → Nat
  | empty => 0
  | set s => s.size
  | anchor _ => 1
  | seq p q => p.size + q.size
  | alt p q => p.size + q.size + 1
  | repeats p least none => max 1 least * p.size + 1
  | repeats p least (some most) => most * p.size + (most - least)

/-- The size up to which a repetition with bounds is read. -/
def sizeLimit : Nat := 327680

/-! ## Lists of patterns -/

def sequence : List Pattern → Pattern
  | [] => empty
  | [p] => p
  | p :: ps => seq p (sequence ps)

def choice : List Pattern → Pattern
  | [] => empty
  | [p] => p
  | p :: ps => alt p (choice ps)

end Pattern

end DocMapper
