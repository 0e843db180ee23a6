import DocMapper.Json.Basic
import DocMapper.Text.Split

/-! # Paths into a document

A path such as `address.city` names a place inside a document by the keys that lead there. The three
operations on a path treat arrays along the way differently:

  * `get?` looks into every object of an array and collects what it finds there into an array;
  * `set` knows no arrays: whatever is not an object on the way is replaced by one;
  * `remove` removes the rest of the path from every item of an array. -/

namespace DocMapper

/-- The keys of a path. -/
abbrev Path := List String

namespace Path

def ofString (s : String) : Path := Text.split '.' s

def head (s : String) : String := (ofString s).headD ""

/-- Whether one path leads to a place on the way to another, or to the place itself. -/
def leadsTo (p q : Path) : Bool := p.isPrefixOf q

end Path

/-! ## Reading -/

mutual

def Json.get? : Json → Path → Option Json
  | v, [] => some v
  | .object fields, key :: rest => Document.getEntry? fields key rest
  | .array items, key :: rest => some (.array (Json.collect items key rest))
  | _, _ :: _ => none

/-- The value at the path `key :: rest` of a document. -/
def Document.getEntry? : List (String × Json) → String → Path → Option Json
  | [], _, _ => none
  | (k, v) :: fields, key, rest => if k = key then v.get? rest else Document.getEntry? fields key rest

/-- What the objects of an array hold at the path `key :: rest`. Arrays found below the first key
are joined into the result. -/
def Json.collect : List Json → String → Path → List Json
  | [], _, _ => []
  | item :: items, key, rest =>
    (match item with
      | .object fields =>
        match Document.getEntry? fields key rest with
        | some (.array found) => if rest.isEmpty then [.array found] else found
        | some found => [found]
        | none => []
      | _ => []) ++ Json.collect items key rest

end

def Document.at? (d : Document) (path : String) : Option Json :=
  (Json.object d).get? (Path.ofString path)

/-- The values that a condition on a path is tested against: the value found there and, of an array,
each of its items first. -/
def Document.candidates (d : Document) (path : String) : Option (List Json) :=
  (d.at? path).map fun
    | .array items => items ++ [.array items]
    | v => [v]

/-- The values by which a document is joined at a path: the items of an array, and null where there
is nothing. -/
def Document.joinValues (d : Document) (path : String) : List Json :=
  match d.at? path with
  | none => [.null]
  | some (.array items) => items
  | some v => [v]

/-! ## Writing -/

/-- The object under a key, or an empty one. -/
def Document.child (d : Document) (key : String) : Document :=
  match d.get? key with
  | some (.object fields) => fields
  | _ => []

/-- Sets the value at a path given by its keys. -/
def Document.setAt (d : Document) : Path → Json → Document
  | [], _ => d
  | [key], value => d.insert key value
  | key :: rest, value => d.insert key (.object (Document.setAt (d.child key) rest value))

/-- Sets the value at a dotted path, with the objects on the way. -/
def Document.set (d : Document) (path : String) (value : Json) : Document :=
  d.setAt (Path.ofString path) value

/-! ## Removing -/

mutual

def Json.removeAt : Json → Path → Json
  | .object fields, path => .object (Document.removeEntry fields path)
  | .array items, path => .array (Json.removeEach items path)
  | v, _ => v

def Document.removeEntry : List (String × Json) → Path → List (String × Json)
  | fields, [] => fields
  | fields, [key] => Document.erase fields key
  | [], _ :: _ :: _ => []
  | (k, v) :: fields, key :: next :: rest =>
    if k = key then (k, v.removeAt (next :: rest)) :: fields
    else (k, v) :: Document.removeEntry fields (key :: next :: rest)

/-- Removes what a path leads to in each item of an array. -/
def Json.removeEach : List Json → Path → List Json
  | [], _ => []
  | item :: items, path => item.removeAt path :: Json.removeEach items path

end

def Document.remove (d : Document) (path : String) : Document :=
  Document.removeEntry d (Path.ofString path)

end DocMapper
