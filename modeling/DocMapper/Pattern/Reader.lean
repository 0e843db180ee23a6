import DocMapper.Pattern.Basic
import DocMapper.Text.Hex

/-! # Reading patterns

The notation of patterns: literals, `.`, anchors, groups, alternatives, repetitions, classes in
brackets with nesting and set operations, escapes, and flags that hold up to the end of the group in
which they are set. Look-around and references to groups are not part of the notation, and a
repetition with bounds is refused where writing it out would make it too large.

The reader walks the characters of a pattern from left to right. It keeps the items read so far of
the current alternative and the alternatives before it, so that an alternation needs no recursion of
its own; groups and nested classes recurse. A pattern is read with as much fuel as it has
characters, and every step uses up at least one. -/

namespace DocMapper.Pattern

/-- What holds from some place in a pattern on. -/
structure Flags where
  /-- Letters match in either case. -/
  ignoreCase : Bool := false
  /-- `^` and `$` match at line breaks. -/
  multiLine : Bool := false
  /-- `.` matches a line break. -/
  dotAll : Bool := false
  /-- Blanks in the pattern do not count, and `#` starts a comment. -/
  verbose : Bool := false
  /-- Classes named by a letter are those of Unicode. -/
  unicode : Bool := true

namespace Flags

/-- Switches the flag that a letter names on or off. -/
def set (f : Flags) (on : Bool) : Char → Option Flags
  | 'i' => some { f with ignoreCase := on }
  | 'm' => some { f with multiLine := on }
  | 's' => some { f with dotAll := on }
  | 'x' => some { f with verbose := on }
  | 'u' => some { f with unicode := on }
  | 'U' => some f
  | 'R' => some f
  | _ => none

/-- A set, closed under equality up to case if case is ignored. -/
def fold (f : Flags) (s : CharSet) : CharSet := if f.ignoreCase then .folded s else s

def word (f : Flags) : CharSet :=
  if f.unicode then .word
  else .ofList [.span 'a' 'z', .span 'A' 'Z', .span '0' '9', .one '_']

def digit (f : Flags) : CharSet := if f.unicode then .digit else .span '0' '9'

def blank (f : Flags) : CharSet :=
  if f.unicode then .blank else .ofList [.span '\t' '\r', .one ' ']

end Flags

/-! ## Characters with a meaning of their own -/

/-- Whether a character means something else than itself in a pattern or may come to do so. -/
def isMeta (c : Char) : Bool := "\\.+*?()|[]\x7b\x7d^$#&-~".toList.contains c

/-- A character as a pattern that matches it alone. -/
def escapeChar (c : Char) : List Char := if isMeta c then ['\\', c] else [c]

/-- A text as a pattern that matches it alone. -/
def escape (cs : List Char) : List Char := cs.flatMap escapeChar

/-- The characters of a pattern without the blanks and comments at its start, where these do not
count. -/
def skip (f : Flags) : (fuel : Nat) → List Char → List Char
  | 0, cs => cs
  | _ + 1, [] => []
  | fuel + 1, c :: cs =>
    if !f.verbose then c :: cs
    else if Text.isBlank c then skip f fuel cs
    else if c == '#' then skip f fuel (cs.dropWhile (· != '\n'))
    else c :: cs

/-- The same without a bound of its own. -/
def skipAll (f : Flags) (cs : List Char) : List Char := skip f cs.length cs

/-! ## Escapes -/

/-- What follows a backslash. -/
inductive Escape where
  | literal (c : Char)
  | class (s : CharSet)
  | anchor (a : Anchor)

/-- The character of a code point, if there is one. -/
def charOf? (n : Nat) : Option Char :=
  if n < 0xd800 || (0xe000 ≤ n && n < 0x110000) then some (Char.ofNat n) else none

/-- Reads the code point of a character: digits in braces, or a fixed count of digits. -/
def readCodePoint (count : Nat) : List Char → Option (Char × List Char)
  | '\x7b' :: cs => do
    let ds := cs.takeWhile (· != '\x7d')
    if ds.isEmpty || ds.length > 8 then none
    let n ← Text.Hex.read? ds
    let c ← charOf? n
    match cs.dropWhile (· != '\x7d') with
    | _ :: rest => return (c, rest)
    | [] => none
  | cs => do
    if (cs.take count).length < count then none
    let n ← Text.Hex.read? (cs.take count)
    let c ← charOf? n
    return (c, cs.drop count)

/-- Reads what follows `\b`: the name of a kind of word boundary in braces, or nothing. Braces that
hold something else than a name belong to a repetition. -/
def readBoundary (f : Flags) (cs : List Char) : Option (Anchor × List Char) :=
  let plain := some (Anchor.wordBoundary f.word, cs)
  match cs with
  | '\x7b' :: rest =>
    let name := rest.takeWhile fun c => c.isAlpha || c == '-'
    match rest.drop name.length with
    | '\x7d' :: rest =>
      if name.isEmpty then plain
      else match String.ofList name with
        | "start" => some (.wordStart f.word, rest)
        | "end" => some (.wordEnd f.word, rest)
        | "start-half" => some (.wordStartHalf f.word, rest)
        | "end-half" => some (.wordEndHalf f.word, rest)
        | _ => none
    | _ => plain
  | _ => plain

def readEscape (f : Flags) : List Char → Option (Escape × List Char)
  | [] => none
  | c :: cs =>
    let named (s : CharSet) : Option (Escape × List Char) := some (.class s, cs)
    let coded (count : Nat) : Option (Escape × List Char) :=
      (readCodePoint count cs).map fun (c, rest) => (.literal c, rest)
    match c with
    | 'x' => coded 2
    | 'u' => coded 4
    | 'U' => coded 8
    | 'd' => named f.digit
    | 'D' => named (.except f.digit)
    | 's' => named f.blank
    | 'S' => named (.except f.blank)
    | 'w' => named f.word
    | 'W' => named (.except f.word)
    | 'a' => some (.literal '\x07', cs)
    | 'f' => some (.literal '\x0c', cs)
    | 't' => some (.literal '\t', cs)
    | 'n' => some (.literal '\n', cs)
    | 'r' => some (.literal '\r', cs)
    | 'v' => some (.literal '\x0b', cs)
    | 'A' => some (.anchor .textStart, cs)
    | 'z' => some (.anchor .textEnd, cs)
    | 'b' => (readBoundary f cs).map fun (a, rest) => (.anchor a, rest)
    | 'B' => some (.anchor (.noWordBoundary f.word), cs)
    | '<' => some (.anchor (.wordStart f.word), cs)
    | '>' => some (.anchor (.wordEnd f.word), cs)
    | c => if c.toNat < 128 && !c.isAlphanum then some (.literal c, cs) else none

/-! ## Classes -/

/-- The sets that a name between `[:` and `:]` stands for. -/
def asciiClass? : String → Option CharSet
  | "alnum" => some (.ofList [.span '0' '9', .span 'A' 'Z', .span 'a' 'z'])
  | "alpha" => some (.ofList [.span 'A' 'Z', .span 'a' 'z'])
  | "ascii" => some (.span '\x00' '\x7f')
  | "blank" => some (.ofList [.one '\t', .one ' '])
  | "cntrl" => some (.ofList [.span '\x00' '\x1f', .one '\x7f'])
  | "digit" => some (.span '0' '9')
  | "graph" => some (.span '!' '~')
  | "lower" => some (.span 'a' 'z')
  | "print" => some (.span ' ' '~')
  | "punct" => some (.ofList [.span '!' '/', .span ':' '@', .span '[' (Char.ofNat 0x60),
      .span '\x7b' '~'])
  | "space" => some (.ofList [.span '\t' '\r', .one ' '])
  | "upper" => some (.span 'A' 'Z')
  | "word" => some (.ofList [.span '0' '9', .span 'A' 'Z', .one '_', .span 'a' 'z'])
  | "xdigit" => some (.ofList [.span '0' '9', .span 'A' 'F', .span 'a' 'f'])
  | _ => none

/-- Reads a named class that starts at `[:`, if one does. -/
def readAsciiClass : List Char → Option (CharSet × List Char)
  | '[' :: ':' :: cs =>
    let (negated, cs) := match cs with
      | '^' :: cs => (true, cs)
      | cs => (false, cs)
    match cs.dropWhile (· != ':') with
    | ':' :: ']' :: rest =>
      (asciiClass? (String.ofList (cs.takeWhile (· != ':')))).map fun s =>
        (if negated then .except s else s, rest)
    | _ => none
  | _ => none

/-- Reads one item of a class: a character or an escape. -/
def readClassItem (f : Flags) : List Char → Option (Escape × List Char)
  | '\\' :: cs => readEscape f cs
  | c :: cs => some (.literal c, cs)
  | [] => none

/-- Reads an item of a class or a range of characters. A hyphen before the closing bracket or
before another hyphen does not make a range. -/
def readClassRange (f : Flags) (cs : List Char) : Option (CharSet × List Char) := do
  let (item, rest) ← readClassItem f cs
  let alone : Option CharSet := match item with
    | .literal c => some (.one c)
    | .class s => some s
    | .anchor _ => none
  match skipAll f rest with
  | '-' :: after =>
    match skipAll f after with
    | ']' :: _ | '-' :: _ => return (← alone, skipAll f rest)
    | after =>
      let (last, rest) ← readClassItem f after
      match item, last with
      | .literal a, .literal b => if a ≤ b then return (.span a b, rest) else none
      | _, _ => none
  | rest => return (← alone, rest)

inductive SetOperation where
  | intersection | difference | symmetricDifference

def SetOperation.apply : SetOperation → CharSet → CharSet → CharSet
  | intersection, a, b => .both a b
  | difference, a, b => .both a (.except b)
  | symmetricDifference, a, b => .union (.both a (.except b)) (.both b (.except a))

/-- What an operation still waiting for its right side makes of a set. Where case is ignored it is
ignored on both sides. -/
def applyPending (f : Flags) : Option (CharSet × SetOperation) → CharSet → CharSet
  | none, s => s
  | some (left, op), s => op.apply (f.fold left) (f.fold s)

mutual

/-- Reads a class after its opening bracket. A closing bracket at the start stands for itself. -/
def readClass (f : Flags) : (fuel : Nat) → List Char → Option (CharSet × List Char)
  | 0, _ => none
  | fuel + 1, cs =>
    let cs := skipAll f cs
    let (negated, cs) := match cs with
      | '^' :: cs => (true, skipAll f cs)
      | cs => (false, cs)
    let hyphens := cs.takeWhile (· == '-')
    let cs := cs.drop hyphens.length
    let (start, cs) := match hyphens, cs with
      | [], ']' :: cs => (CharSet.one ']', cs)
      | [], cs => (CharSet.none, cs)
      | _, cs => (CharSet.one '-', cs)
    (readClassBody f fuel none start cs).map fun (s, rest) =>
      (if negated then .except (f.fold s) else f.fold s, rest)

/-- Reads the rest of a class up to its closing bracket; `sofar` holds what was read since the last
operation, and `pending` that operation with what stands before it. -/
def readClassBody (f : Flags) :
    (fuel : Nat) → (pending : Option (CharSet × SetOperation)) → (sofar : CharSet) →
      List Char → Option (CharSet × List Char)
  | 0, _, _, _ => none
  | fuel + 1, pending, sofar, cs =>
    let operate (op : SetOperation) (rest : List Char) : Option (CharSet × List Char) :=
      readClassBody f fuel (some (applyPending f pending sofar, op)) .none rest
    match skipAll f cs with
    | [] => none
    | ']' :: rest => some (applyPending f pending sofar, rest)
    | '&' :: '&' :: rest => operate .intersection rest
    | '-' :: '-' :: rest => operate .difference rest
    | '~' :: '~' :: rest => operate .symmetricDifference rest
    | '[' :: rest =>
      match readAsciiClass ('[' :: rest) with
      | some (s, rest) => readClassBody f fuel pending (.union sofar s) rest
      | none =>
        match readClass f fuel rest with
        | some (s, rest) => readClassBody f fuel pending (.union sofar s) rest
        | none => none
    | cs =>
      match readClassRange f cs with
      | some (s, rest) => readClassBody f fuel pending (.union sofar s) rest
      | none => none

end

/-! ## Repetitions -/

/-- Reads a decimal number with the blanks around it. -/
def readDecimal (cs : List Char) : Option (Nat × List Char) :=
  let cs := Text.dropBlanks cs
  let ds := cs.takeWhile Char.isDigit
  let n := ds.foldl (fun n c => n * 10 + (c.toNat - '0'.toNat)) 0
  if ds.isEmpty || n ≥ 0x100000000 then none
  else some (n, Text.dropBlanks (cs.drop ds.length))

/-- Reads the bounds of a repetition after its opening brace. -/
def readBounds (f : Flags) (cs : List Char) : Option (Nat × Option Nat × List Char) := do
  let (least, rest) ← readDecimal (skipAll f cs)
  let (most, rest) ← match rest with
    | ',' :: rest =>
      match Text.dropBlanks rest with
      | '\x7d' :: _ => some (none, Text.dropBlanks rest)
      | _ => (readDecimal rest).map fun (n, rest) => (some n, rest)
    | rest => some (some least, rest)
  match rest with
  | '\x7d' :: rest => if most.all (least ≤ ·) then return (least, most, rest) else none
  | _ => none

/-- Whether a repetition is refused because it becomes too large when it is written out. -/
def isTooLarge (p : Option Pattern) (least : Nat) (most : Option Nat) : Bool :=
  p.any fun p => sizeLimit < (repeats p least most).size

/-- Reads a mark after a repetition that asks for few stretches before many. It has no influence on
whether a text matches. -/
def dropLazy (f : Flags) (cs : List Char) : List Char :=
  match skipAll f cs with
  | '?' :: rest => rest
  | _ => cs

/-! ## Groups and flags -/

/-- Reads flags up to the character that ends them. No flag may occur twice, and a minus must
precede some flag. -/
def readFlags : (seen : List Char) → (on : Bool) → Flags → List Char →
    Option (Flags × Bool × List Char)
  | _, _, _, [] => none
  | seen, on, f, c :: cs =>
    if c == ':' || c == ')' then
      if seen.head? == some '-' then none else some (f, !seen.isEmpty, c :: cs)
    else if seen.contains c then none
    else if c == '-' then readFlags ('-' :: seen) false f cs
    else match f.set on c with
      | some f => readFlags (c :: seen) on f cs
      | none => none

/-- Whether a character may stand in the name of a group. -/
def isNameChar (first : Bool) (c : Char) : Bool :=
  c == '_' || (if first then Text.isWord c && !Text.isDigit c
    else Text.isWord c || c == '.' || c == '[' || c == ']')

/-- Reads the name of a group up to its closing bracket. -/
def readName (cs : List Char) : Option (String × List Char) :=
  let name := cs.takeWhile (· != '>')
  match name, cs.drop name.length with
  | c :: more, _ :: rest =>
    if isNameChar true c && more.all (isNameChar false) then some (String.ofList name, rest)
    else none
  | _, _ => none

/-! ## Patterns -/

/-- The alternatives of a group: those before, and the items of the last one, the last item first.
An item that only sets flags is absent. -/
def alternatives (before : List Pattern) (items : List (Option Pattern)) : Pattern :=
  choice (before.reverse ++ [sequence (items.reverse.filterMap id)])

/-- What `.` matches. -/
def dot (f : Flags) : CharSet := if f.dotAll then .any else .except (.one '\n')

/-- Reads a pattern up to the end or to a closing parenthesis that it does not open. `names` holds
the names of the groups before, `before` the alternatives before, and `items` the items of the
current one. -/
def readAlternatives :
    (fuel : Nat) → Flags → (names : List String) → (before : List Pattern) →
      (items : List (Option Pattern)) → List Char → Option (Pattern × List String × List Char)
  | 0, _, _, _, _, _ => none
  | fuel + 1, f, names, before, items, cs =>
    let next (p : Pattern) (rest : List Char) : Option (Pattern × List String × List Char) :=
      readAlternatives fuel f names before (some p :: items) rest
    let repeated (least : Nat) (most : Option Nat) (rest : List Char) :
        Option (Pattern × List String × List Char) :=
      match items with
      | some p :: items =>
        readAlternatives fuel f names before (some (.repeats p least most) :: items)
          (dropLazy f rest)
      | _ => none
    let group (inner : Flags) (names : List String) (rest : List Char) :
        Option (Pattern × List String × List Char) :=
      match readAlternatives fuel inner names [] [] rest with
      | some (p, names, ')' :: rest) => readAlternatives fuel f names before (some p :: items) rest
      | _ => none
    match skipAll f cs with
    | [] => some (alternatives before items, names, [])
    | ')' :: rest => some (alternatives before items, names, ')' :: rest)
    | '|' :: rest =>
      readAlternatives fuel f names (sequence (items.reverse.filterMap id) :: before) [] rest
    | '(' :: rest =>
      match skipAll f rest with
      | '?' :: 'P' :: '<' :: rest | '?' :: '<' :: rest =>
        match readName rest with
        | some (name, rest) =>
          if names.contains name then none else group f (name :: names) rest
        | none => none
      | '?' :: rest =>
        match readFlags [] true f rest with
        | some (inner, given, ')' :: rest) =>
          if given then readAlternatives fuel inner names before (none :: items) rest else none
        | some (inner, _, ':' :: rest) => group inner names rest
        | _ => none
      | rest => group f names rest
    | '[' :: rest =>
      match readClass f fuel rest with
      | some (s, rest) => next (.set s) rest
      | none => none
    | '?' :: rest => repeated 0 (some 1) rest
    | '*' :: rest => repeated 0 none rest
    | '+' :: rest => repeated 1 none rest
    | '\x7b' :: rest =>
      match readBounds f rest with
      | some (least, most, rest) =>
        if isTooLarge (items.headD none) least most then none else repeated least most rest
      | none => none
    | '\\' :: rest =>
      match readEscape f rest with
      | some (.literal c, rest) => next (.set (f.fold (.one c))) rest
      | some (.class s, rest) => next (.set s) rest
      | some (.anchor a, rest) => next (.anchor a) rest
      | none => none
    | '.' :: rest => next (.set (dot f)) rest
    | '^' :: rest => next (.anchor (if f.multiLine then .lineStart else .textStart)) rest
    | '$' :: rest => next (.anchor (if f.multiLine then .lineEnd else .textEnd)) rest
    | c :: rest => next (.set (f.fold (.one c))) rest

/-- The pattern that a text spells, if it spells one. -/
def read? (f : Flags) (s : String) : Option Pattern :=
  let cs := s.toList
  match readAlternatives (cs.length + 1) f [] [] [] cs with
  | some (p, _, []) => some p
  | _ => none

end DocMapper.Pattern
