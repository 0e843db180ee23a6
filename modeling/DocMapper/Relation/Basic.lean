import DocMapper.Model
import DocMapper.Relation.EagerLoad

/-! # Relations

A relation ties documents of an owner model to documents of a related model. It says by which fields
the two are tied (its keys, whose layout depends on the kind of the relation), under which alias the
related documents are put when they are loaded with the owner, and with which options. -/

namespace DocMapper

/-- The fields by which the rows of a pivot collection are deleted softly. The time of deletion may
not be kept. -/
structure PivotSoftDelete where
  marker : String
  stamp : Option String

/-- How the rows of a pivot collection tie owners to related documents. -/
structure PivotKeys where
  collection : String
  /-- The field of a row that refers to the owner. -/
  foreignPivotKey : String
  /-- The field of a row that refers to the related document. -/
  relatedPivotKey : String
  /-- The field of the owner that rows refer to. -/
  parentKey : String := "_id"
  /-- The field of the related document that rows refer to. -/
  relatedKey : String := "_id"
  /-- The field of a row that holds a type, and the type that it must hold. -/
  morphType : Option (String × String) := none
  softDelete : Option PivotSoftDelete := none
  timestamps : Option Timestamps := none

inductive RelationKeys where
  /-- The related document's foreign key equals the owner's local key. -/
  | owning (foreignKey localKey : String)
  /-- The owner's foreign key equals the related document's owner key. -/
  | inverse (foreignKey ownerKey : String)
  /-- Rows of a pivot collection refer to both. -/
  | pivot (keys : PivotKeys)
  /-- An intermediate document's first key equals the owner's local key, and the related document's
  second key equals the intermediate document's second local key. -/
  | through (firstKey secondKey localKey secondLocalKey : String)
  /-- The related document holds the owner's type, and its id field equals the owner's local key. -/
  | morph (typeField idField localKey : String)

/-- A relation between an owner model and a related model. -/
structure Relation where
  kind : RelationKind
  name : String
  /-- Where loaded documents are put, if not under the name. -/
  alias? : Option String := none
  owner : Model
  related : Model
  /-- The intermediate model. -/
  through : Option Model := none
  keys : RelationKeys
  options : RelationOptions := {}

namespace Relation

/-- Where loaded documents are put. -/
def aliasName (r : Relation) : String := r.alias?.getD r.name

/-- Which related documents are seen. -/
def trashed (r : Relation) : TrashedMode := r.options.trashed.getD .hidden

/-- The field of the owner from which the relation starts. -/
def ownerKey (r : Relation) : String :=
  match r.keys with
  | .owning _ localKey => localKey
  | .inverse foreignKey _ => foreignKey
  | .pivot keys => keys.parentKey
  | .through _ _ localKey _ => localKey
  | .morph _ _ localKey => localKey

/-- The keys of the pivot collection, if there is one. -/
def pivot? (r : Relation) : Option PivotKeys :=
  match r.keys with
  | .pivot keys => some keys
  | _ => none

/-- Changes the keys of the pivot collection, if there is one. -/
def mapPivot (r : Relation) (f : PivotKeys → PivotKeys) : Relation :=
  match r.keys with
  | .pivot keys => { r with keys := .pivot (f keys) }
  | _ => r

/-- Whether the keys are laid out as the kind needs them. -/
def keysFit (r : Relation) : Bool :=
  match r.keys, r.kind with
  | .owning _ _, .hasOne | .owning _ _, .hasMany => true
  | .inverse _ _, .belongsTo => true
  | .pivot _, kind => kind.hasPivot
  | .through _ _ _ _, .hasManyThrough => r.through.isSome
  | .morph _ _ _, .morphTo | .morph _ _ _, .morphMany => true
  | _, _ => false

/-- Whether loaded documents can be put under a name: it is a single key. -/
def isAlias (name : String) : Bool := !name.isEmpty && !name.toList.contains '.'

/-- Checks that the keys fit the kind and that the alias is a single key. -/
def validate (r : Relation) : Except QueryFault Unit :=
  if !r.keysFit then .error (.keysDoNotFit r.name r.owner.typeName r.kind)
  else if !isAlias r.aliasName then .error (.invalidAlias r.aliasName r.name)
  else .ok ()

/-! ## Overriding keys -/

/-- Sets the field that refers to the owner or, for the inverse kind, to the related document. -/
def withForeignKey (r : Relation) (key : String) : Relation :=
  { r with keys := match r.keys with
    | .owning _ localKey => .owning key localKey
    | .inverse _ ownerKey => .inverse key ownerKey
    | .through first _ localKey secondLocal => .through first key localKey secondLocal
    | .morph typeField _ localKey => .morph typeField key localKey
    | .pivot keys => .pivot { keys with foreignPivotKey := key } }

/-- Sets the field of the owner from which the relation starts; the inverse kind has none. -/
def withLocalKey (r : Relation) (key : String) : Relation :=
  { r with keys := match r.keys with
    | .owning foreignKey _ => .owning foreignKey key
    | .through first second _ secondLocal => .through first second key secondLocal
    | .morph typeField idField _ => .morph typeField idField key
    | .pivot keys => .pivot { keys with parentKey := key }
    | keys => keys }

/-- Sets the field of the related document that an inverse relation refers to. -/
def withOwnerKey (r : Relation) (key : String) : Relation :=
  { r with keys := match r.keys with
    | .inverse foreignKey _ => .inverse foreignKey key
    | keys => keys }

/-- Sets the field of the intermediate document that refers to the owner. -/
def withFirstKey (r : Relation) (key : String) : Relation :=
  { r with keys := match r.keys with
    | .through _ second localKey secondLocal => .through key second localKey secondLocal
    | keys => keys }

/-- Sets the field of the intermediate document that the related document refers to. -/
def withSecondLocalKey (r : Relation) (key : String) : Relation :=
  { r with keys := match r.keys with
    | .through first second localKey _ => .through first second localKey key
    | keys => keys }

/-- Takes the pivot collection, and how its rows are deleted and stamped, from a model. -/
def withPivotModel (r : Relation) (m : Model) : Relation :=
  r.mapPivot fun keys =>
    { keys with
      collection := m.collection
      softDelete := m.softDelete.map fun s => ⟨s.marker, some s.stamp⟩
      timestamps := m.timestamps }

def withOptions (r : Relation) (options : RelationOptions) : Relation :=
  { r with options := r.options.mergedWith options }

/-! ## Conventional relations

The relations with the conventional names of fields and collections. The name of a relation is at
first that of the related collection. -/

/-- The related document refers to the owner; there is one. -/
def hasOne (owner related : Model) : Relation where
  kind := .hasOne
  name := related.collection
  owner := owner
  related := related
  keys := .owning (foreignKeyFor owner.typeName) owner.primaryKey

/-- The related documents refer to the owner. -/
def hasMany (owner related : Model) : Relation :=
  { hasOne owner related with kind := .hasMany }

/-- The owner refers to the related document. -/
def belongsTo (owner related : Model) : Relation where
  kind := .belongsTo
  name := related.collection
  owner := owner
  related := related
  keys := .inverse (foreignKeyFor related.typeName) related.primaryKey

/-- Rows of the pivot collection named after both types refer to both sides. They are deleted as the
settings say. -/
def belongsToMany (c : Config) (owner related : Model) : Relation where
  kind := .belongsToMany
  name := related.collection
  owner := owner
  related := related
  keys := .pivot {
    collection := pivotNameFor owner.typeName related.typeName
    foreignPivotKey := foreignKeyFor owner.typeName
    relatedPivotKey := foreignKeyFor related.typeName
    parentKey := owner.primaryKey
    relatedKey := related.primaryKey
    softDelete := some ⟨c.softDeleteField, some c.deletedAtField⟩ }

/-- The related documents refer to an intermediate document, which refers to the owner. -/
def hasManyThrough (owner related through : Model) : Relation where
  kind := .hasManyThrough
  name := related.collection
  owner := owner
  related := related
  through := some through
  keys := .through (foreignKeyFor owner.typeName) (foreignKeyFor through.typeName)
    owner.primaryKey through.primaryKey

/-- The related document holds the type and the key of the owner under fields named for `morph`;
there is one. -/
def morphTo (owner related : Model) (morph : String) : Relation where
  kind := .morphTo
  name := related.collection
  owner := owner
  related := related
  keys := .morph (morph ++ "Type") (morph ++ "Id") owner.primaryKey

/-- The related documents hold the type and the key of the owner. -/
def morphMany (owner related : Model) (morph : String) : Relation :=
  { morphTo owner related morph with kind := .morphMany }

/-- Rows of the pivot collection named for `morph` refer to both sides and hold the owner's type. -/
def morphToMany (owner related : Model) (morph : String) : Relation where
  kind := .morphToMany
  name := related.collection
  owner := owner
  related := related
  keys := .pivot {
    collection := morph ++ "s"
    foreignPivotKey := morph ++ "Id"
    relatedPivotKey := foreignKeyFor related.typeName
    parentKey := owner.primaryKey
    relatedKey := related.primaryKey
    morphType := some (morph ++ "Type", owner.typeName) }

/-- The same rows seen from the other side: they hold the related type. -/
def morphedByMany (owner related : Model) (morph : String) : Relation where
  kind := .morphedByMany
  name := related.collection
  owner := owner
  related := related
  keys := .pivot {
    collection := morph ++ "s"
    foreignPivotKey := foreignKeyFor owner.typeName
    relatedPivotKey := morph ++ "Id"
    parentKey := owner.primaryKey
    relatedKey := related.primaryKey
    morphType := some (morph ++ "Type", related.typeName) }

end Relation

end DocMapper
