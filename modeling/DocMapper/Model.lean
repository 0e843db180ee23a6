import DocMapper.Config
import DocMapper.Id
import DocMapper.SoftDelete
import DocMapper.Text.Case

/-! # Models

A model describes the documents of one collection: the name of their type, which polymorphic
relations store to tell owners apart, the field of their key, whether they are deleted softly and
carry time stamps, and which fields are hidden from output.

Models that choose no field names of their own take those of the settings. -/

namespace DocMapper

/-- The fields by which a document is deleted softly. -/
structure SoftDelete where
  /-- Says whether the document is deleted. -/
  marker : String
  /-- Holds the time of the deletion. -/
  stamp : String
  deriving DecidableEq

/-- The fields that hold when a document was created and last updated. -/
structure Timestamps where
  created : String
  updated : String
  deriving DecidableEq

/-- The description of the documents of a collection. -/
structure Model where
  typeName : String
  collection : String
  primaryKey : String
  softDelete : Option SoftDelete
  timestamps : Option Timestamps
  hidden : List String
  deriving DecidableEq

/-- The soft deletion that the settings name. -/
def Config.softDelete (c : Config) : SoftDelete := ⟨c.softDeleteField, c.deletedAtField⟩

def Config.timestamps (c : Config) : Timestamps := ⟨c.createdAtField, c.updatedAtField⟩

namespace Model

/-- A plain model with the key of the settings. -/
def plain (c : Config) (typeName collection : String) : Model :=
  ⟨typeName, collection, c.primaryKey, none, none, []⟩

def usesSoftDeletes (m : Model) : Bool := m.softDelete.isSome

/-- Whether two models describe the same documents. -/
def isSame (m n : Model) : Bool := m.typeName == n.typeName && m.collection == n.collection

/-- What a read of the collection sees. -/
def policy (m : Model) (mode : TrashedMode) : TrashedPolicy :=
  ⟨m.softDelete.map (·.marker), mode⟩

def keyFilter (m : Model) (id : DocumentId) : Json := .single m.primaryKey id.toJson

/-- How an error names the document with a key. -/
def describe (m : Model) (id : DocumentId) : String := s!"{m.collection}({id.canonical})"

end Model

/-! ## Conventional names -/

/-- The field that refers to documents of a type: the name of the type with its first letter in
lower case, and `Id`. -/
def foreignKeyFor (typeName : String) : String :=
  match typeName.toList with
  | [] => "id"
  | c :: cs => String.ofList (Text.lowerChar c ++ cs ++ ['I', 'd'])

/-- The collection that pairs documents of two types: the names of the types in lower case and in
order, joined by an underscore. -/
def pivotNameFor (a b : String) : String :=
  let a := Text.lower a
  let b := Text.lower b
  if compare b a == .lt then b ++ "_" ++ a else a ++ "_" ++ b

end DocMapper
