import DocMapper.Entity.Lifecycle

/-! # Handles on a relation

A handle is a relation of one owner: the relation, the owner's attributes at the time when the
handle was made, and what a caller asks of the related documents. Reading through a handle needs no
joins. The owner's key is put into a query for the related documents instead; where the relation
leads over a pivot collection or an intermediate model, the documents there are read first.

An owner without a key has no related documents. -/

namespace DocMapper

/-- A relation of one owner. -/
structure RelationHandle where
  relation : Relation
  /-- The attributes of the owner. -/
  owner : Document
  /-- What the caller asks of the related documents. -/
  query : Query

namespace RelationHandle

def ofEntity (r : Relation) (e : Entity) : RelationHandle :=
  ⟨r, e.attributes, r.related.query⟩

def mapRelation (h : RelationHandle) (f : Relation → Relation) : RelationHandle :=
  { h with relation := f h.relation }

def mapOptions (h : RelationHandle) (f : RelationOptions → RelationOptions) : RelationHandle :=
  h.mapRelation fun r => { r with options := f r.options }

def mapQuery (h : RelationHandle) (f : Query → Query) : RelationHandle :=
  { h with query := f h.query }

/-! ## The owner's key -/

/-- The value of a field of the owner, in canonical form; null counts as nothing. -/
def ownerValue? (h : RelationHandle) (key : String) : Option Json :=
  match h.owner.get? key with
  | none | some .null => none
  | some v => some v.canonicalize

/-- The value of a field of the owner, which must be there. -/
def requireOwnerValue (h : RelationHandle) (key : String) : Except Error Json :=
  match h.ownerValue? key with
  | some v => .ok v
  | none => .error .missingKey

/-! ## The query for the related documents -/

/-- A query with the order, window and fields that options ask for; fields that are hidden are those
of the options and of the model. -/
def withRelationOptions (q : Query) (o : RelationOptions) : Query :=
  let q := match o.sort with
    | some (column, direction) => q.orderedBy column direction
    | none => q
  let q := { q with skip := o.skip <|> q.skip, limit := o.limit <|> q.limit }
  match o.select with
  | some fields => { q with select := some fields }
  | none => q.without (o.hiddenFields q.model.hidden)

/-- What the caller and the options ask of the related documents. -/
def baseQuery (h : RelationHandle) : Query :=
  withRelationOptions { h.query with trashed := h.relation.trashed } h.relation.options

/-- The condition that a column equals a value; nothing does if there is none. -/
def equalOrNone (column : String) : Option Json → List Term
  | some v => [⟨.and, column, .compare .equal v⟩]
  | none => [⟨.and, column, .isIn []⟩]

/-- The values of a field of documents, in canonical form and each once. -/
def linkValues (field : String) (docs : List Document) : List Json :=
  let values := (docs.filterMap (·.get? field)).filter fun v => !v.isNull
  values.foldl (fun found v =>
    let v := v.canonicalize
    if found.any (· == v) then found else found ++ [v]) []

/-- The values of a field of the documents that stages find in a collection. -/
def readLinks (s : Store) (source : String) (stages : List Stage) (field : String) :
    Except Error (List Json) := do
  return linkValues field (← s.aggregate source stages)

/-- The stages that find the rows of a pivot collection that belong to an owner. -/
def pivotStages (keys : PivotKeys) (owner : Json) : List Stage :=
  .filter (.single keys.foreignPivotKey owner) ::
    Relation.conditionStages (Relation.pivotConditions keys)

/-- The stages that find the intermediate documents that belong to an owner. -/
def throughStages (m : Model) (firstKey : String) (owner : Json) : List Stage :=
  (m.policy .hidden).stage?.toList ++ [.filter (.single firstKey owner)]

/-- The links that are read for an owner; none without one. -/
def linksOf (owner : Option Json) (read : Json → Except Error (List Json)) :
    Except Error (List Json) :=
  match owner with
  | some v => read v
  | none => .ok []

/-- The conditions that tie related documents to the owner. -/
def scope (h : RelationHandle) (s : Store) : Except Error (List Term) := do
  match h.relation.keys with
  | .owning foreignKey localKey => return equalOrNone foreignKey (h.ownerValue? localKey)
  | .inverse foreignKey ownerKey => return equalOrNone ownerKey (h.ownerValue? foreignKey)
  | .pivot keys =>
    let ids ← linksOf (h.ownerValue? keys.parentKey) fun owner =>
      readLinks s keys.collection (pivotStages keys owner) keys.relatedPivotKey
    return [⟨.and, keys.relatedKey, .isIn ids⟩]
  | .through firstKey secondKey localKey secondLocalKey =>
    match h.relation.through with
    | none => throw (.query (.noIntermediate h.relation.name))
    | some m =>
      let ids ← linksOf (h.ownerValue? localKey) fun owner =>
        readLinks s m.collection (throughStages m firstKey owner) secondLocalKey
      return [⟨.and, secondKey, .isIn ids⟩]
  | .morph typeField idField localKey =>
    match h.ownerValue? localKey with
    | some v =>
      return [⟨.and, typeField, .compare .equal (.string h.relation.owner.typeName)⟩,
        ⟨.and, idField, .compare .equal v⟩]
    | none => return equalOrNone idField none

/-- The query for the related documents of the owner. -/
def resolve (h : RelationHandle) (s : Store) : Except Error Query := do
  return h.baseQuery.scopedBy (← h.scope s)

/-- The related documents of the owner. -/
def get (schema : Schema) (s : Store) (h : RelationHandle) : Except Error (List Entity) := do
  (← h.resolve s).get schema s

/-- The first of the related documents of the owner. -/
def first (schema : Schema) (s : Store) (h : RelationHandle) : Except Error (Option Entity) := do
  (← h.resolve s).first schema s

end RelationHandle

/-! ## Declaring the relation of a handle -/

/-- Declares the relation of a handle under a name, in place of what its owner's model declares under
that name. What a caller asks of the related documents is not declared. -/
def Schema.declare (schema : Schema) (name : String) (h : RelationHandle) : Schema where
  registry type :=
    if type = h.relation.owner.typeName then (schema.registry type).define name h.relation
    else schema.registry type

end DocMapper
