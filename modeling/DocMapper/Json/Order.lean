import DocMapper.Json.Basic

/-! # The order of values

All values stand in one order: null first, then numbers, texts, objects, arrays and booleans.
Numbers compare by size, texts by code points, arrays item by item and objects entry by entry in
the order of their keys, where a shorter one comes before those that it begins. Two values that
compare as equal count as the same for filters, joins and groups. -/

namespace DocMapper.Json

/-- The place of a value's type in the order of types. -/
def rank : Json → Nat
  | .null => 1
  | .number _ => 2
  | .string _ => 3
  | .object _ => 4
  | .array _ => 5
  | .bool _ => 8

mutual

def compare : Json → Json → Ordering
  | .number m, .number n => Ord.compare m.order n.order
  | .string s, .string t => Ord.compare s t
  | .bool a, .bool b => Ord.compare a b
  | .array as, .array bs => compareItems as bs
  | .object fs, .object gs => compareEntries fs gs
  | a, b => Ord.compare a.rank b.rank

def compareItems : List Json → List Json → Ordering
  | [], [] => .eq
  | [], _ :: _ => .lt
  | _ :: _, [] => .gt
  | a :: as, b :: bs => (a.compare b).then (compareItems as bs)

/-- The order of two objects: keys first, then values, entry by entry. -/
def compareEntries : List (String × Json) → List (String × Json) → Ordering
  | [], [] => .eq
  | [], _ :: _ => .lt
  | _ :: _, [] => .gt
  | (k, v) :: fs, (l, w) :: gs =>
    ((Ord.compare k l).then (v.compare w)).then (compareEntries fs gs)

end

def equals (a b : Json) : Bool := a.compare b == .eq

/-- Whether two values are of one type, so that one can be less than the other. -/
def comparable (a b : Json) : Bool := a.rank == b.rank

end DocMapper.Json
