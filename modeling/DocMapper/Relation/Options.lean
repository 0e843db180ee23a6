import DocMapper.Query.Comparison
import DocMapper.SoftDelete

/-! # Options of relations

What may be asked of the related side of a relation: which fields to show, in which order, how many
documents and whether deleted ones count. The same options stand on a declared relation and on a
request to load it; a request is laid over the declaration and wins where both say something, while
lists of fields add up. -/

namespace DocMapper

/-- The options of a relation. -/
structure RelationOptions where
  /-- The only fields to show; wins over `exclude`. -/
  select : Option (List String) := none
  exclude : List String := []
  /-- Hidden fields to show anyway. -/
  makeVisible : List String := []
  sort : Option (String × SortDirection) := none
  skip : Option Nat := none
  limit : Option Nat := none
  trashed : Option TrashedMode := none

namespace RelationOptions

/-! ## Reading -/

def readStrings (key : String) : Json → Except ArgumentFault (List String)
  | .string s => .ok [s]
  | .array items => items.mapM fun item =>
    match item with
    | .string s => .ok s
    | _ => .error (.optionEntries key)
  | _ => .error (.optionNotStrings key)

def readCount (key : String) (v : Json) : Except ArgumentFault Nat :=
  match v.nat? with
  | some n => .ok n
  | none => .error (.optionNotCount key)

def readSort (v : Json) : Except ArgumentFault (String × SortDirection) := do
  match ← readStrings "sort" v with
  | [column] => return (column, .ascending)
  | [column, direction] => return (column, ← SortDirection.parse direction)
  | _ => throw .optionSortShape

def readEntry (o : RelationOptions) (key : String) (v : Json) :
    Except ArgumentFault RelationOptions := do
  match key with
  | "select" => return { o with select := some (← readStrings key v) }
  | "exclude" => return { o with exclude := ← readStrings key v }
  | "makeVisible" => return { o with makeVisible := ← readStrings key v }
  | "sort" => return { o with sort := some (← readSort v) }
  | "skip" => return { o with skip := some (← readCount key v) }
  | "limit" => return { o with limit := some (← readCount key v) }
  | "withTrashed" =>
    return if v.bool? == some true then { o with trashed := some .included } else o
  | "onlyTrashed" =>
    return if v.bool? == some true then { o with trashed := some .only } else o
  | _ => throw (.unknownOption key)

def readEntries (o : RelationOptions) : Document → Except ArgumentFault RelationOptions
  | [] => .ok o
  | (key, v) :: rest => do (← o.readEntry key v).readEntries rest

def ofJson : Json → Except ArgumentFault RelationOptions
  | .object fields => readEntries {} fields
  | _ => .error .optionsNotObject

/-! ## Combining -/

/-- Lays a request over the options. -/
def mergedWith (o request : RelationOptions) : RelationOptions where
  select := request.select <|> o.select
  exclude := o.exclude ++ request.exclude
  makeVisible := o.makeVisible ++ request.makeVisible
  sort := request.sort <|> o.sort
  skip := request.skip <|> o.skip
  limit := request.limit <|> o.limit
  trashed := request.trashed <|> o.trashed

/-- Adds to a list what it does not hold yet. -/
def addNew (fields : List String) (field : String) : List String :=
  if fields.contains field then fields else fields ++ [field]

/-- The fields not to show, where a model declares some as hidden: those and the excluded ones,
each once, but for those made visible. A selection leaves nothing to hide. -/
def hiddenFields (o : RelationOptions) (declared : List String) : List String :=
  if o.select.isSome then []
  else ((declared ++ o.exclude).filter fun f => !o.makeVisible.contains f).foldl addNew []

end RelationOptions

end DocMapper
