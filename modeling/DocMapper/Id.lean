import DocMapper.Error
import DocMapper.Text.Blank

/-! # Document identifiers

A document is identified by 128 bits. Documents store an identifier in one **canonical** form: 32
lower-case hexadecimal digits in five groups, joined by hyphens. Where an identifier is taken in, it
may also come

  * in digits of either case, with or without the hyphens,
  * with hyphens and in braces, or with hyphens after `urn:uuid:`,
  * with blanks around it, and
  * as the text under `$oid` or `$uuid` of an object.

Whatever form it came in, it is brought into the canonical one before it is compared or stored. -/

namespace DocMapper

/-- The identifier of a document. -/
structure DocumentId where
  bits : BitVec 128
  deriving DecidableEq

namespace DocumentId

/-- The sizes of the groups of digits in the canonical form. -/
def groups : List Nat := [8, 4, 4, 4, 12]

/-- Cuts digits into groups and joins them by hyphens. -/
def hyphenate : List Nat → List Char → List Char
  | [], _ => []
  | [_], cs => cs
  | n :: sizes, cs => cs.take n ++ '-' :: hyphenate sizes (cs.drop n)

/-- The digits of groups joined by hyphens, if the groups have the given sizes. -/
def unhyphenate? : List Nat → List Char → Option (List Char)
  | [], _ => none
  | [n], cs => if cs.length = n then some cs else none
  | n :: sizes, cs =>
    match cs.drop n with
    | '-' :: rest => (unhyphenate? sizes rest).map (cs.take n ++ ·)
    | _ => none

def canonical (id : DocumentId) : String :=
  String.ofList (hyphenate groups (Text.Hex.write 32 id.bits.toNat))

/-- The value that documents store. -/
def toJson (id : DocumentId) : Json := .string id.canonical

def isNil (id : DocumentId) : Bool := id.bits.toNat == 0

def compare (a b : DocumentId) : Ordering := Ord.compare a.bits.toNat b.bits.toNat

def ofDigits? (cs : List Char) : Option DocumentId :=
  if cs.length = 32 then (Text.Hex.read? cs).map fun n => ⟨.ofNat 128 n⟩ else none

/-- What stands between braces, if anything does. -/
def unbrace? : List Char → Option (List Char)
  | '\x7b' :: rest => if rest.getLast? = some '\x7d' then some rest.dropLast else none
  | _ => none

/-- What follows `urn:uuid:`, in letters of either case. -/
def afterUrn? (cs : List Char) : Option (List Char) :=
  if (cs.take 9).map Char.toLower == "urn:uuid:".toList then some (cs.drop 9) else none

/-- The digits of an identifier in any of its forms. -/
def digits? (cs : List Char) : Option (List Char) :=
  if cs.length = 32 then some cs
  else
    let bare := (unbrace? cs <|> afterUrn? cs).getD cs
    unhyphenate? groups bare

/-- The identifier that a text spells in any of its forms. -/
def read? (s : String) : Option DocumentId :=
  (digits? (Text.trimChars s.toList)).bind ofDigits?

def parse (s : String) : Except Error DocumentId :=
  match read? s with
  | some id => .ok id
  | none => .error (.invalidArgument (.malformedId s))

/-- Reads an identifier from a value: a text, or an object that holds one. -/
def ofJson : Json → Except Error DocumentId
  | .string s => parse s
  | .object fields =>
    match Document.get? fields "$oid" <|> Document.get? fields "$uuid" with
    | some (.string s) => parse s
    | _ => .error (.invalidArgument (.unsupportedIdObject (.object fields)))
  | v => .error (.invalidArgument (.notAnId v))

/-- Reads an identifier from a value, if it holds one. -/
def ofJson? (v : Json) : Option DocumentId := (ofJson v).toOption

/-- Reads identifiers from values; the first malformed one decides the error. -/
def ofJsons (values : List Json) : Except Error (List DocumentId) := values.mapM ofJson

end DocumentId

/-- An identifier in its canonical form; any other value is left as it is. -/
def Json.canonicalize (v : Json) : Json :=
  match DocumentId.ofJson? v with
  | some id => id.toJson
  | none => v

/-! ## Fresh identifiers -/

/-- A supply of identifiers for documents that come without one, drawn one after the other. -/
structure IdSource where
  nth : Nat → DocumentId
  drawn : Nat

/-- Draws the next identifier. -/
def IdSource.draw (source : IdSource) : DocumentId × IdSource :=
  (source.nth source.drawn, ⟨source.nth, source.drawn + 1⟩)

end DocMapper
