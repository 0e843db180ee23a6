import DocMapper.Model
import DocMapper.Relation.EagerLoad

/-! # Entities

An entity is a document of a model in the hands of a program. Besides its current attributes it
keeps the attributes that were last stored and the set of fields that changed since:

  * a field is in that set exactly if its value, or its absence, differs from what was stored;
  * setting a changed field back to its stored value takes it out of the set again.

Related documents that were loaded with an entity are not attributes. They are kept apart, by alias,
until they are asked for as entities of their own. -/

namespace DocMapper

/-- What was loaded under an alias, and what was loaded under that. -/
structure LoadedRelation where
  value : Json
  children : List EagerAlias

/-- A document of a model, with what changed since it was stored. -/
structure Entity where
  model : Model
  attributes : Document := []
  /-- The attributes as last stored. -/
  stored : Document := []
  changes : List String := []
  /-- What was loaded, by alias and in the order of aliases. -/
  relations : List (String × LoadedRelation) := []
  /-- Whether the document is stored. -/
  isStored : Bool := false

/-! ## Sorted names -/

def insertName (name : String) : List String → List String
  | [] => [name]
  | n :: rest =>
    match compare name n with
    | .lt => name :: n :: rest
    | .eq => n :: rest
    | .gt => n :: insertName name rest

/-- Sets the value under a name of a list sorted by names. -/
def insertNamed (name : String) (value : α) : List (String × α) → List (String × α)
  | [] => [(name, value)]
  | (n, old) :: rest =>
    match compare name n with
    | .lt => (name, value) :: (n, old) :: rest
    | .eq => (n, value) :: rest
    | .gt => (n, old) :: insertNamed name value rest

namespace Entity

/-! ## Making entities -/

/-- A new entity with attributes, all of which count as changed. -/
def ofAttributes (m : Model) (attributes : Document) : Entity where
  model := m
  attributes := attributes
  changes := attributes.keys.foldl (fun names name => insertName name names) []

def ofJson (m : Model) : Json → Except Error Entity
  | .object fields => .ok (ofAttributes m fields)
  | v => .error (.invalidArgument (.attributesNotObject m.typeName v))

/-- What stands under an alias that holds nothing. -/
def nothingUnder (a : EagerAlias) : Json := if a.single then .null else .array []

/-- Takes what was loaded under aliases out of a document. -/
def splitRelations (d : Document) (relations : List (String × LoadedRelation)) :
    List EagerAlias → Document × List (String × LoadedRelation)
  | [] => (d, relations)
  | a :: rest =>
    let loaded : LoadedRelation := ⟨(d.get? a.name).getD (nothingUnder a), a.children⟩
    splitRelations (d.erase a.name) (insertNamed a.name loaded relations) rest

/-- The entity of a stored document with what was loaded along with it. -/
def ofDocument (m : Model) (d : Document) (aliases : List EagerAlias) : Entity :=
  let (attributes, relations) := splitRelations d [] aliases
  { model := m, attributes, stored := attributes, relations, isStored := true }

/-! ## Reading -/

def get? (e : Entity) (key : String) : Option Json := e.attributes.get? key

/-- The value that keys lead to, through objects only. -/
def follow (v : Json) : List String → Option Json
  | [] => some v
  | key :: rest => (v.field? key).bind fun child => follow child rest

/-- The value at a dotted path, through objects only. -/
def valueAt (e : Entity) (path : String) : Option Json :=
  follow (.object e.attributes) (Path.ofString path)

def id? (e : Entity) : Option DocumentId := (e.get? e.model.primaryKey).bind DocumentId.ofJson?

/-- The identifier, which must be there and well-formed. -/
def requireId (e : Entity) : Except Error DocumentId :=
  match e.id? with
  | some id => .ok id
  | none => .error .missingKey

def isTrashed (e : Entity) : Bool :=
  match e.model.softDelete with
  | some s => e.get? s.marker == some (.bool true)
  | none => false

/-- Whether two entities hold the same attributes and the same loaded documents. -/
def same (e f : Entity) : Bool :=
  e.model.isSame f.model && e.attributes.same f.attributes &&
    e.relations.length == f.relations.length &&
    (e.relations.zip f.relations).all fun ((a, x), (b, y)) =>
      a == b && x.value == y.value && EagerAlias.sameAll x.children y.children

/-! ## Changing -/

def set (e : Entity) (key : String) (value : Json) : Entity :=
  { e with
    attributes := e.attributes.insert key value
    changes :=
      if e.stored.get? key == some value then e.changes.filter (· != key)
      else insertName key e.changes }

def unset (e : Entity) (key : String) : Entity :=
  { e with
    attributes := e.attributes.erase key
    changes :=
      if e.stored.contains key then insertName key e.changes
      else e.changes.filter (· != key) }

def fill (e : Entity) (attributes : Document) : Entity :=
  attributes.foldl (fun e (key, v) => e.set key v) e

def revert (e : Entity) : Entity := { e with attributes := e.stored, changes := [] }

/-- Counts the attributes as stored. -/
def settled (e : Entity) : Entity :=
  { e with stored := e.attributes, changes := [], isStored := true }

def isDirty (e : Entity) : Bool := !e.changes.isEmpty

/-- The changed fields that are still there, with their values. -/
def changed (e : Entity) : Document :=
  e.changes.filterMap fun key => (e.get? key).map fun v => (key, v)

def removed (e : Entity) : List String := e.changes.filter fun key => !e.attributes.contains key

/-! ## Loaded relations -/

/-- Puts a value under an alias as if it had been loaded. -/
def setRelation (e : Entity) (name : String) (value : Json) : Entity :=
  { e with relations := insertNamed name ⟨value, []⟩ e.relations }

/-- Takes over what was loaded with another entity. -/
def absorb (e f : Entity) : Entity :=
  { e with
    relations := f.relations.foldl (fun rs (name, x) => insertNamed name x rs) e.relations }

/-- What was loaded under an alias, as a list. -/
def loadedItems : Json → List Json
  | .null => []
  | .array items => items
  | v => [v]

/-- The documents that were loaded under an alias, as entities of a model. -/
def related (e : Entity) (name : String) (m : Model) : Except Error (List Entity) := do
  match e.relations.lookup name with
  | none => throw (.relationNotFound e.model.typeName name)
  | some loaded =>
    (loadedItems loaded.value).mapM fun item =>
      match item with
      | .object fields => .ok (ofDocument m fields loaded.children)
      | v => .error (.query (.relatedNotDocument name v))

def relatedOne (e : Entity) (name : String) (m : Model) : Except Error (Option Entity) := do
  return (← e.related name m).head?

/-! ## Output -/

def withRelations (d : Document) (relations : List (String × LoadedRelation)) : Document :=
  relations.foldl (fun d (name, x) => d.insert name x.value) d

/-- What is shown of an entity: its attributes without the hidden ones, and what was loaded. -/
def shown (e : Entity) : Json :=
  .object (withRelations (e.model.hidden.foldl (fun d key => d.erase key) e.attributes)
    e.relations)

/-- The shapes that a typed reader can ask for: an object whose values are all of one type. -/
inductive Shape where
  | integers | texts | anything

/-- Whether a value has the type that a shape asks for. -/
def Shape.fits : Shape → Json → Bool
  | integers, v => v.int64?.isSome
  | texts, v => v.string?.isSome
  | anything, _ => true

/-- Attributes and loaded documents as one object of a shape. -/
def typed (e : Entity) (shape : Shape) : Except Error Json :=
  let all := withRelations e.attributes e.relations
  if all.all fun (_, v) => shape.fits v then .ok (.object all) else .error .serialization

end Entity

end DocMapper
