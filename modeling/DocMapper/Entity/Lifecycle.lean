import DocMapper.Query.Run

/-! # The life of an entity

An entity is new, stored, perhaps deleted softly and restored, and at last removed. Saving a stored
entity writes only what changed; saving one without changes writes nothing.

Every operation here gives the entity and the store after it, also where it fails: a save that the
store refuses has already stamped the entity. The current time is given as a text. -/

namespace DocMapper

namespace Entity

/-- What an operation leaves of an entity and a store, and whether it succeeded. -/
structure Outcome where
  result : Except Error Unit
  entity : Entity
  store : Store

/-! ## Inserting -/

def setMissing (e : Entity) (key : String) (value : Json) : Entity :=
  if (e.get? key).isSome then e else e.set key value

/-- The entity with the fields that a new document carries: when it was created, unless it says so,
and updated, and that it is not deleted, unless it says something about that. -/
def stampNew (now : String) (e : Entity) : Entity :=
  let e := match e.model.timestamps with
    | some t => (e.setMissing t.created (.string now)).set t.updated (.string now)
    | none => e
  match e.model.softDelete with
  | some s => e.setMissing s.marker (.bool false)
  | none => e

/-- The identifier under which a new entity is stored: its own, or a fresh one if it has none. -/
def newId (e : Entity) : Action DocumentId := fun s =>
  match e.get? e.model.primaryKey with
  | none | some .null => let (id, s) := s.freshId; (.ok id, s)
  | some v =>
    match DocumentId.ofJson? v with
    | some id => (.ok id, s)
    | none => (.error (.invalidArgument (.malformedKey e.model.typeName e.model.primaryKey)), s)

def insert (now : String) (e : Entity) (s : Store) : Outcome :=
  let e := e.stampNew now
  match e.newId s with
  | (.error err, s) => ⟨.error err, e, s⟩
  | (.ok id, s) =>
    let e := e.set e.model.primaryKey id.toJson
    match Store.insertOne e.model.collection (e.attributes.insert "_id" id.toJson) s with
    | (.error err, s) => ⟨.error err, e, s⟩
    | (.ok _, s) => ⟨.ok (), e.settled, s⟩

/-! ## Updating -/

/-- An operator of an update with its fields; none without fields. -/
def updatePart (operator : String) (fields : Document) : Document :=
  if fields.isEmpty then [] else [(operator, .object fields)]

/-- The update that makes the stored document what the entity holds. -/
def pendingUpdate (e : Entity) : Json :=
  .object (updatePart "$set" e.changed ++
    updatePart "$unset" (e.removed.map fun key => (key, .string "")))

def update (now : String) (e : Entity) (s : Store) : Outcome :=
  if !e.isDirty then ⟨.ok (), e, s⟩
  else
    let e := match e.model.timestamps with
      | some t => e.set t.updated (.string now)
      | none => e
    match e.requireId with
    | .error err => ⟨.error err, e, s⟩
    | .ok id =>
      match Store.updateMany e.model.collection (e.model.keyFilter id) e.pendingUpdate s with
      | (.error err, s) => ⟨.error err, e, s⟩
      | (.ok _, s) => ⟨.ok (), e.settled, s⟩

/-- Inserts a new entity, and writes the changes of a stored one. -/
def save (now : String) (e : Entity) (s : Store) : Outcome :=
  if e.isStored then e.update now s else e.insert now s

/-! ## Deleting and restoring -/

def forceDelete (e : Entity) (s : Store) : Outcome :=
  match e.requireId with
  | .error err => ⟨.error err, e, s⟩
  | .ok id =>
    match Store.deleteMany e.model.collection (e.model.keyFilter id) s with
    | (.error err, s) => ⟨.error err, e, s⟩
    | (.ok _, s) => ⟨.ok (), { e with isStored := false }, s⟩

/-- Deletes an entity: softly if its model does so, else by removing its document. -/
def delete (now : String) (e : Entity) (s : Store) : Outcome :=
  match e.model.softDelete with
  | none => e.forceDelete s
  | some d => ((e.set d.marker (.bool true)).set d.stamp (.string now)).save now s

def restore (now : String) (e : Entity) (s : Store) : Outcome :=
  match e.model.softDelete with
  | none => ⟨.error (.invalidArgument (.noSoftDeletes e.model.typeName)), e, s⟩
  | some d => ((e.set d.marker (.bool false)).unset d.stamp).save now s

/-! ## Reading again -/

/-- The query for the stored document of an entity, deleted or not. -/
def byId (m : Model) (id : DocumentId) : Query :=
  { model := m, trashed := .included : Query }.whereEqual m.primaryKey id.toJson

/-- The stored document of an entity, read again. -/
def reloaded (schema : Schema) (s : Store) (e : Entity) : Except Error Entity := do
  let id ← e.requireId
  (byId e.model id).firstOr schema s (e.model.describe id)

def withLoaded (schema : Schema) (s : Store) (e : Entity) (paths : List String) :
    Except Error Entity := do
  let id ← e.requireId
  let fresh ← (paths.foldl Query.withPath (byId e.model id)).firstOr schema s (e.model.describe id)
  return e.absorb fresh

end Entity

/-! ## Documents of a model -/

namespace Model

def query (m : Model) : Query := { model := m }

/-- The visible document with an identifier, if there is one. -/
def findId (schema : Schema) (s : Store) (m : Model) (id : DocumentId) :
    Except Error (Option Entity) :=
  (m.query.whereEqual m.primaryKey id.toJson).first schema s

/-- The visible document with an identifier in any form, if there is one. -/
def find (schema : Schema) (s : Store) (m : Model) (id : Json) : Except Error (Option Entity) := do
  m.findId schema s (← DocumentId.ofJson id)

/-- The visible document with an identifier in any form, which must be there. -/
def findOrFail (schema : Schema) (s : Store) (m : Model) (id : Json) : Except Error Entity := do
  let id ← DocumentId.ofJson id
  match ← m.findId schema s id with
  | some e => return e
  | none => throw (.notFound (m.describe id))

def create (now : String) (m : Model) (attributes : Json) : Action Entity := fun s =>
  match Entity.ofJson m attributes with
  | .error err => (.error err, s)
  | .ok e =>
    let o := e.save now s
    (o.result.map fun _ => o.entity, o.store)

/-- Stores new documents one after the other, up to the first that fails. -/
def createAll (now : String) (m : Model) : List Json → Action (List Entity)
  | [], s => (.ok [], s)
  | attributes :: rest, s =>
    match m.create now attributes s with
    | (.error err, s) => (.error err, s)
    | (.ok e, s) =>
      let (others, s) := createAll now m rest s
      (others.map (e :: ·), s)

def deletionUpdate (now : String) (d : SoftDelete) : Json :=
  .single "$set" (.object (Document.insert [(d.marker, .bool true)] d.stamp (.string now)))

/-- Deletes the documents with the given identifiers, softly if the model does so, and gives the
number of documents that changed or went. -/
def destroy (now : String) (m : Model) (ids : List Json) : Action Nat := fun s =>
  match DocumentId.ofJsons ids with
  | .error err => (.error err, s)
  | .ok [] => (.ok 0, s)
  | .ok ids =>
    let filter : Json := .single m.primaryKey (.single "$in" (.array (ids.map (·.toJson))))
    match m.softDelete with
    | some d =>
      let (outcome, s) := Store.updateMany m.collection filter (deletionUpdate now d) s
      (outcome.map (·.modified), s)
    | none => Store.deleteMany m.collection filter s

end Model

end DocMapper
