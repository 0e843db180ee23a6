import DocMapper.Relation.Schema

/-! # Loading relations in a pipeline

Related documents are loaded along with their owners by stages at the end of the owners' pipeline. A
relation becomes

  1. lookups that follow its keys, of which the last puts the related documents under the alias.
     That lookup has a pipeline of its own, which keeps the documents that are seen, sorts and
     limits them, and loads what is nested under the relation;
  2. for kinds with at most one related document, a stage that unwinds the alias;
  3. stages that leave out what is not to be shown of the related documents.

Nothing is read from a store for this. -/

namespace DocMapper

namespace Relation

/-! ## The pipeline of the related side -/

/-- The condition that a related document holds the owner's type. -/
def typeCondition? (r : Relation) : Option Json :=
  match r.keys with
  | .morph typeField _ _ => some (fieldEquals typeField (.string r.owner.typeName))
  | _ => none

/-- The stage that keeps what meets all conditions; none without conditions. -/
def conditionStages (conditions : List Json) : List Stage :=
  if conditions.isEmpty then [] else [.filterAll conditions]

/-- The stages that sort and limit related documents. -/
def windowStages (o : RelationOptions) : List Stage :=
  (o.sort.map fun (column, direction) => Stage.sortBy [(column, direction.toInt)]).toList ++
    (o.skip.map Stage.skip).toList ++ (o.limit.map Stage.limit).toList

/-- The pipeline of the related side, given the stages that load what is nested. -/
def relatedPipeline (r : Relation) (nested : List Stage) : List Stage :=
  conditionStages (r.typeCondition?.toList ++ (r.related.policy r.trashed).condition?.toList) ++
    windowStages r.options ++ nested

/-! ## The lookups -/

/-- The conditions under which a row of a pivot collection ties two documents: it holds the right
type and is not deleted. -/
def pivotConditions (keys : PivotKeys) : List Json :=
  (keys.morphType.map fun (field, name) => fieldEquals field (.string name)).toList ++
    (keys.softDelete.map fun s => fieldEquals s.marker (.bool false)).toList

/-- The lookup that puts related documents under the alias. -/
def relatedLookup (r : Relation) (here there : String) (pipeline : List Stage) : Stage :=
  .lookup r.related.collection (some (here, there)) r.aliasName pipeline

/-- The field that holds the documents in between until the related ones are found. -/
def temporary (r : Relation) (suffix : String) : String := r.aliasName ++ "_" ++ suffix

/-- The lookup that puts the documents in between under a temporary field, the lookup that follows
them, and the stage that drops the field. -/
def lookupsThrough (r : Relation) (suffix source here there : String) (conditions : List Json)
    (onward target : String) (pipeline : List Stage) : List Stage :=
  let field := r.temporary suffix
  [.lookup source (some (here, there)) field (conditionStages conditions),
    r.relatedLookup (field ++ "." ++ onward) target pipeline,
    .exclude [field]]

/-- The stages that put the related documents under the alias. -/
def joinStages (r : Relation) (pipeline : List Stage) : List Stage :=
  match r.keys with
  | .owning foreignKey localKey => [r.relatedLookup localKey foreignKey pipeline]
  | .inverse foreignKey ownerKey => [r.relatedLookup foreignKey ownerKey pipeline]
  | .morph _ idField localKey => [r.relatedLookup localKey idField pipeline]
  | .pivot keys =>
    r.lookupsThrough "pivot" keys.collection keys.parentKey keys.foreignPivotKey
      (pivotConditions keys) keys.relatedPivotKey keys.relatedKey pipeline
  | .through firstKey secondKey localKey secondLocalKey =>
    match r.through with
    | some m =>
      r.lookupsThrough "through" m.collection localKey firstKey
        (m.policy .hidden).condition?.toList secondLocalKey secondKey pipeline
    | none => []

/-- The stages that leave at most one related document under the alias. -/
def unwindStages (r : Relation) : List Stage :=
  if r.kind.isSingle then [.unwindAlias r.aliasName] else []

/-! ## What is shown -/

/-- The field under which a document waits while its related documents are cut down. -/
def savedField : String := "_document"

/-- The stages that leave out what is not to be shown. A selection builds the related documents anew
from the selected fields and those that hold nested loads, and puts them back into the owner. -/
def projectionStages (r : Relation) (nested : List EagerAlias) : List Stage :=
  match r.options.select with
  | some fields =>
    let paths := (fields ++ nested.map (·.name)).map fun field => r.aliasName ++ "." ++ field
    let spec := paths.foldl (fun (d : Document) path => d.insert path (.int 1))
      [(savedField, .string "$$ROOT")]
    [.project spec,
      .replaceRoot (.single "$mergeObjects" (.array [.string ("$" ++ savedField),
        .single r.aliasName (.string ("$" ++ r.aliasName))]))]
  | none =>
    match r.options.hiddenFields r.related.hidden with
    | [] => []
    | hidden => [.exclude (hidden.map fun field => r.aliasName ++ "." ++ field)]

/-! ## Relations and trees of relations -/

/-- Stages that load relations, and where they put what they load. -/
structure Loaded where
  stages : List Stage := []
  aliases : List EagerAlias := []

/-- The stages that load a relation, given those that load what is nested under it. -/
def loadWith (r : Relation) (nested : Loaded) : List Stage :=
  r.joinStages (r.relatedPipeline nested.stages) ++ r.unwindStages ++
    r.projectionStages nested.aliases

/-- Where a relation puts what it loads. -/
def aliasWith (r : Relation) (nested : Loaded) : EagerAlias :=
  ⟨r.aliasName, r.kind.isSingle, nested.aliases⟩

/-- A relation that a model declares, with the options of a request laid over its own. -/
def requested (schema : Schema) (owner : Model) (name : String)
    (options : Option RelationOptions) : Except Error Relation := do
  let r ← schema.resolve owner name
  return match options with
    | some o => r.withOptions o
    | none => r

/-- The stages that load requested relations of a model, one request after the other. No two may be
put under the same alias; `seen` holds the aliases so far with the relations under them. -/
def loadAll (schema : Schema) (owner : Model) (seen : List (String × String)) :
    List EagerLoad → Except Error Loaded
  | [] => .ok {}
  | ⟨name, options, children⟩ :: rest => do
    let r ← requested schema owner name options
    match seen.lookup r.aliasName with
    | some first => throw (.query (.sharedAlias first name owner.typeName r.aliasName))
    | none =>
      r.validate.mapError .query
      let nested ← loadAll schema r.related [] children
      let others ← loadAll schema owner ((r.aliasName, name) :: seen) rest
      return {
        stages := r.loadWith nested ++ others.stages
        aliases := r.aliasWith nested :: others.aliases }

/-- The stages that load a relation together with what is requested under it, and where they put
it. -/
def load (schema : Schema) (r : Relation) (nested : List EagerLoad) :
    Except Error (List Stage × EagerAlias) := do
  r.validate.mapError .query
  let nested ← loadAll schema r.related [] nested
  return (r.loadWith nested, r.aliasWith nested)

end Relation

end DocMapper
