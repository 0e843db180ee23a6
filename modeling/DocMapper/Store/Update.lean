import DocMapper.Expression

/-! # Updates of documents

An update is an object with up to three operators, each with an object of paths:

  * `$set` gives the values that paths get;
  * `$unset` names the paths that are removed, after the others were set;
  * `$setOnInsert` gives values to a document that is inserted because none matched. -/

namespace DocMapper

/-- What an update does. -/
structure Update where
  set : Document := []
  unset : List String := []
  setOnInsert : Document := []

namespace Update

def operators : List String := ["$set", "$unset", "$setOnInsert"]

/-- The object under an operator; without it, the empty one. -/
def part (fields : Document) (operator : String) : Except QueryFault Document :=
  match fields.get? operator with
  | none => .ok []
  | some (.object entries) => .ok entries
  | some _ => .error (.needsObject operator)

def ofJson : Json → Except QueryFault Update
  | .object fields =>
    match fields.find? fun (key, _) => !operators.contains key with
    | some (key, _) => .error (.unsupportedUpdate key)
    | none => do
      let set ← part fields "$set"
      let unset ← part fields "$unset"
      let setOnInsert ← part fields "$setOnInsert"
      return { set, unset := Document.keys unset, setOnInsert }
  | _ => .error .updateNotObject

/-- Sets each of a list of paths of a document. -/
def setAll (d values : Document) : Document := values.foldl (fun d (path, v) => d.set path v) d

/-- Removes each of a list of paths of a document. -/
def removeAll (d : Document) (paths : List String) : Document :=
  paths.foldl (fun d path => d.remove path) d

/-- The document that an update makes of one that is stored already. -/
def apply (u : Update) (d : Document) : Document := removeAll (setAll d u.set) u.unset

def changes (u : Update) (d : Document) : Bool := !d.same (u.apply d)

/-- Whether a condition of a filter fixes the value at its path, and which. An object with any
operator fixes it only by `$eq`; any other value stands for itself. -/
def fixedValue? : Json → Option Json
  | .object fields =>
    if fields.any fun (key, _) => startsDollar key then Document.get? fields "$eq"
    else some (.object fields)
  | v => some v

/-- The document with the values that a filter fixes. -/
def seed : Json → Document
  | .object entries =>
    entries.foldl (fun d (path, condition) =>
      if startsDollar path then d
      else match fixedValue? condition with
        | some v => d.set path v
        | none => d) []
  | _ => []

/-- The document that is inserted when no document matches a filter. -/
def inserted (u : Update) (filter : Json) : Document :=
  u.apply (setAll (seed filter) u.setOnInsert)

end Update

end DocMapper
