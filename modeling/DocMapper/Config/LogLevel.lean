import DocMapper.Text.Blank
import DocMapper.Text.Split
import DocMapper.Text.WordTable

/-! # Log level directives

The log level of the settings is a list of directives separated by commas. A directive names a
level, or a target, a span, or both, with a level of their own:

    info        store=debug        store[read]=trace        [read{id=1,kind}]=5

The level after an equals sign must be one; without an equals sign the text may be either a level or
a target. Only whether a list of directives is well-formed matters here, so the reader is an
automaton that says yes or no. -/

namespace DocMapper.LogLevel

/-- The names of levels; a level is also a number from 0 to 5. -/
def names : List String := ["off", "error", "warn", "info", "debug", "trace"]

/-- Whether a text names a level, in any case; nothing at all stands for the finest level. -/
def isLevel (cs : List Char) : Bool :=
  cs.isEmpty || names.contains (String.ofList (cs.map Char.toLower)) ||
    (let digits := match cs with
      | '+' :: ds => ds
      | ds => ds
    match digits.dropWhile (· == '0') with
      | [] => !digits.isEmpty
      | [d] => '0' ≤ d && d ≤ '5'
      | _ => false)

/-- Where the reader of a directive stands. -/
inductive Place where
  /-- Before the first character. -/
  | start
  /-- In a level or a target. -/
  | name
  /-- In the name of a span. -/
  | span
  /-- In a field of a span; whether it holds a character yet. -/
  | field (nonempty : Bool)
  /-- After the fields of a span. -/
  | fields
  /-- After a span. -/
  | target
  deriving DecidableEq

/-- Whether the rest of a directive is well-formed. -/
def accepts : Place → List Char → Bool
  | .start, [] => false
  | .name, [] => true
  | .target, [] => true
  | .span, [] => false
  | .field _, [] => false
  | .fields, [] => false
  | .start, c :: cs =>
    if c == '[' then accepts .span cs
    else (c == '-' || c == ':' || Text.isWord c) && accepts .name cs
  | .name, c :: cs =>
    if c == '=' then isLevel cs else if c == '[' then accepts .span cs else accepts .name cs
  | .target, c :: cs => c == '=' && isLevel cs
  | .span, c :: cs =>
    if c == ']' then accepts .target cs
    else if c == '\x7b' then accepts (.field false) cs
    else accepts .span cs
  | .field nonempty, c :: cs =>
    if c == '\x7d' then nonempty && accepts .fields cs else accepts (.field true) cs
  | .fields, c :: cs => c == ']' && accepts .target cs

/-- Whether a text is a well-formed list of directives; empty ones do not count. -/
def isValid (s : String) : Bool :=
  (Text.splitChars ',' s.toList).all fun cs => cs.isEmpty || accepts .start (Text.trimChars cs)

end DocMapper.LogLevel
