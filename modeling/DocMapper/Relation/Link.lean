import DocMapper.Relation.Handle

/-! # Writing through a relation

Where related documents hold the owner's key, they can be created and saved through the owner's
handle, which fills the key in. Where the owner holds the key, it can be set to that of a related
document and cleared again; the owner is then to be saved. -/

namespace DocMapper

namespace RelationHandle

/-! ## Documents that hold the owner's key -/

/-- An entity with the fields that tie it to the owner. -/
def link (h : RelationHandle) (e : Entity) : Except Error Entity := do
  match h.relation.keys with
  | .owning foreignKey localKey =>
    let owner ← h.requireOwnerValue localKey
    return e.set foreignKey owner
  | .morph typeField idField localKey =>
    let owner ← h.requireOwnerValue localKey
    return (e.set typeField (.string h.relation.owner.typeName)).set idField owner
  | _ => throw (.query (.cannotLink h.relation.name))

/-- Saves an entity as belonging to the owner. -/
def save (now : String) (h : RelationHandle) (e : Entity) (s : Store) : Entity.Outcome :=
  match h.link e with
  | .error err => ⟨.error err, e, s⟩
  | .ok e => e.save now s

/-- Stores a new document that belongs to the owner. -/
def create (now : String) (h : RelationHandle) (attributes : Json) : Action Entity := fun s =>
  match Entity.ofJson h.relation.related attributes with
  | .error err => (.error err, s)
  | .ok e =>
    let o := h.save now e s
    (o.result.map fun _ => o.entity, o.store)

/-- Stores new documents that belong to the owner one after the other, up to the first that
fails. -/
def createAll (now : String) (h : RelationHandle) : List Json → Action (List Entity)
  | [], s => (.ok [], s)
  | attributes :: rest, s =>
    match h.create now attributes s with
    | (.error err, s) => (.error err, s)
    | (.ok e, s) =>
      let (others, s) := createAll now h rest s
      (others.map (e :: ·), s)

/-! ## Owners that hold the key -/

/-- The keys of an inverse relation. -/
def inverseKeys (h : RelationHandle) : Except Error (String × String) :=
  match h.relation.keys with
  | .inverse foreignKey ownerKey => .ok (foreignKey, ownerKey)
  | _ => .error (.query (.notInverse h.relation.name))

/-- The owner with its foreign key set to that of a related document. -/
def associate (h : RelationHandle) (owner parent : Entity) : Except Error Entity := do
  let (foreignKey, ownerKey) ← h.inverseKeys
  match parent.get? ownerKey with
  | none | some .null => throw .missingKey
  | some v => return owner.set foreignKey v

/-- The owner without its foreign key. -/
def dissociate (h : RelationHandle) (owner : Entity) : Except Error Entity := do
  let (foreignKey, _) ← h.inverseKeys
  return owner.unset foreignKey

end RelationHandle

end DocMapper
