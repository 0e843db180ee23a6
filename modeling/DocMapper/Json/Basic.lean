import DocMapper.Number.Binary64

/-! # Values of documents

Documents hold JSON values. Two points of the format matter everywhere:

  * a number is either an **integer** or a **floating-point number**, and the two stay apart: as
    values `1` and `1.0` differ, although they compare alike;
  * the entries of an object have an **order**, which is part of the document. Setting a key that
    is there keeps its place, setting a new one appends it, and removing a key moves the last entry
    into the gap.

An object is the plain list of its entries. That no key occurs twice is kept by the operations and
stated where it is needed. -/

namespace DocMapper

inductive Number where
  | int (i : Int)
  | float (x : Binary64)
  deriving DecidableEq

/-- A JSON value. -/
inductive Json where
  | null
  | bool (b : Bool)
  | number (n : Number)
  | string (s : String)
  | array (items : List Json)
  | object (fields : List (String × Json))
  deriving Inhabited

/-- A document: the entries of an object in their order. -/
abbrev Document := List (String × Json)

namespace Number

/-- The floating-point number nearest to a number. -/
def toBinary64 : Number → Binary64
  | int i => Binary64.ofInt i
  | float x => x

/-- The place of a number on the number line, by which numbers are compared. -/
def order (n : Number) : Int := n.toBinary64.order

def isZero (n : Number) : Bool := n.order == 0

/-- Whether two numbers are the same value: of the same form and equally large. -/
def same : Number → Number → Bool
  | int i, int j => i == j
  | float x, float y => x.order == y.order
  | _, _ => false

/-- The number as an unsigned integer of 64 bits, if it is written as one. -/
def toNat? : Number → Option Nat
  | int i => if 0 ≤ i && i < twoTo 64 then some i.toNat else none
  | float _ => none

/-- The number as a signed integer of 64 bits, if it is written as one. -/
def toInt64? : Number → Option Int
  | int i => if -(twoTo 63 : Int) ≤ i && i < twoTo 63 then some i else none
  | float _ => none

end Number

/-! ## Entries of a document -/

namespace Document

def get? : Document → String → Option Json
  | [], _ => none
  | (k, v) :: rest, key => if k = key then some v else get? rest key

def contains (d : Document) (key : String) : Bool := (get? d key).isSome

def keys (d : Document) : List String := d.map (·.1)

/-- Sets the value under a key: in its place if the key is there, else at the end. -/
def insert : Document → String → Json → Document
  | [], key, value => [(key, value)]
  | (k, v) :: rest, key, value =>
    if k = key then (key, value) :: rest else (k, v) :: insert rest key value

/-- Removes a key; the last entry moves into its place. -/
def erase : Document → String → Document
  | [], _ => []
  | (k, v) :: rest, key =>
    if k = key then
      match rest.getLast? with
      | some last => last :: rest.dropLast
      | none => []
    else (k, v) :: erase rest key

/-- Sets every entry of a second document in turn. -/
def merge (d e : Document) : Document := e.foldl (fun d (k, v) => d.insert k v) d

end Document

/-! ## Sameness

Objects with the same entries are the same value whatever the order of their keys. -/

mutual

/-- Whether two values are the same, disregarding the order of object keys. -/
def Json.same : Json → Json → Bool
  | .null, .null => true
  | .bool a, .bool b => a == b
  | .number a, .number b => a.same b
  | .string a, .string b => a == b
  | .array as, .array bs => Json.sameItems as bs
  | .object fs, .object gs => fs.length == gs.length && Json.sameEntries fs gs
  | _, _ => false

/-- Whether two lists hold the same values in the same places. -/
def Json.sameItems : List Json → List Json → Bool
  | [], [] => true
  | a :: as, b :: bs => a.same b && Json.sameItems as bs
  | _, _ => false

/-- Whether a document holds each of the given entries. -/
def Json.sameEntries : List (String × Json) → Document → Bool
  | [], _ => true
  | (k, v) :: rest, d =>
    (match Document.get? d k with
      | some w => v.same w
      | none => false) && Json.sameEntries rest d

end

instance : BEq Json := ⟨Json.same⟩

/-- Whether two documents hold the same entries, whatever their order. -/
def Document.same (d e : Document) : Bool := (Json.object d).same (.object e)

/-! ## Views of a value -/

namespace Json

def int (i : Int) : Json := .number (.int i)

def single (key : String) (value : Json) : Json := .object [(key, value)]

def strings (texts : List String) : Json := .array (texts.map .string)

def string? : Json → Option String
  | .string s => some s
  | _ => none

def bool? : Json → Option Bool
  | .bool b => some b
  | _ => none

def number? : Json → Option Number
  | .number n => some n
  | _ => none

def array? : Json → Option (List Json)
  | .array items => some items
  | _ => none

def object? : Json → Option Document
  | .object fields => some fields
  | _ => none

/-- An unsigned integer of 64 bits. -/
def nat? (v : Json) : Option Nat := v.number?.bind (·.toNat?)

/-- A signed integer of 64 bits. -/
def int64? (v : Json) : Option Int := v.number?.bind (·.toInt64?)

/-- The value under a key, if the value is an object that has it. -/
def field? (v : Json) (key : String) : Option Json := v.object?.bind (·.get? key)

def isNull : Json → Bool
  | .null => true
  | _ => false

def typeName : Json → String
  | .null => "null"
  | .bool _ => "bool"
  | .number _ => "number"
  | .string _ => "string"
  | .array _ => "array"
  | .object _ => "object"

/-- Whether a value counts as true: everything does but null, `false` and zero. -/
def truthy : Json → Bool
  | .null => false
  | .bool b => b
  | .number n => !n.isZero
  | _ => true

/-- The value of a floating-point result: an integer if it is one of 64 bits, null if it is not
finite. -/
def ofResult (x : Binary64) : Json :=
  if !x.isFinite then .null
  else match x.toInt? with
    | some i => if i.natAbs < twoTo 63 then .int i else .number (.float x)
    | none => .number (.float x)

end Json

/-- Whether an optional value counts as true; an absent one does not. -/
def truthy? : Option Json → Bool
  | some v => v.truthy
  | none => false

end DocMapper
