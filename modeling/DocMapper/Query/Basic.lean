import DocMapper.Query.Condition
import DocMapper.Relation.Compile

/-! # Queries

A query describes a read of the documents of one model: the conditions that they must meet, their
order, which stretch of them is wanted, which fields are shown, whether deleted documents are seen
and which relations are loaded along with them.

A query is put together step by step and becomes a pipeline when it is used. A step that cannot be
understood does not fail at once: its fault is kept, and using the query reports the first one.

The pipeline has its stages in the order

    deleted documents, scope, conditions, order, skip, limit, relations, fields

except that relations are loaded before the conditions if a condition or a sort reads what they
load. -/

namespace DocMapper

/-- A column to sort by. -/
structure SortKey where
  column : String
  direction : SortDirection
  /-- Whether letters of either case are sorted as equal. -/
  foldsCase : Bool

/-- A read of the documents of a model. -/
structure Query where
  model : Model
  conditions : List Term := []
  /-- What every document must meet, whatever the conditions of the caller are. -/
  scope : List Term := []
  ordering : List SortKey := []
  skip : Option Nat := none
  limit : Option Nat := none
  /-- The only fields to show; wins over `exclude`. -/
  select : Option (List String) := none
  exclude : List String := []
  trashed : TrashedMode := .hidden
  eager : List EagerLoad := []
  /-- The first fault of a step that put the query together. -/
  fault : Option QueryFault := none

namespace Query

/-! ## Putting a query together -/

/-- Keeps a fault, unless there is an earlier one. -/
def withFault (q : Query) (fault : QueryFault) : Query := { q with fault := q.fault <|> some fault }

def withCondition (q : Query) (connector : Connector) (column : String) (test : Test) : Query :=
  { q with conditions := q.conditions ++ [⟨connector, column, test⟩] }

def whereEqual (q : Query) (column : String) (value : Json) : Query :=
  q.withCondition .and column (.compare .equal value)

/-- Adds the condition that a column is one of several values. -/
def whereIn (q : Query) (column : String) (values : List Json) : Query :=
  q.withCondition .and column (.isIn values)

/-- Adds a comparison that is spelled out. -/
def withComparison (q : Query) (connector : Connector) (column symbol : String) (value : Json) :
    Query :=
  match Comparison.parse symbol with
  | .ok comparison => q.withCondition connector column (.compare comparison value)
  | .error fault => q.withFault fault

/-- Adds a column to sort by, which decides where those before it do not. -/
def orderedBy (q : Query) (column : String) (direction : SortDirection) (foldsCase : Bool := false) :
    Query :=
  { q with ordering := q.ordering ++ [⟨column, direction, foldsCase⟩] }

/-- Adds relations to load. -/
def withLoads (q : Query) : Except QueryFault (List EagerLoad) → Query
  | .ok loads => { q with eager := EagerLoad.mergeAll q.eager loads }
  | .error fault => q.withFault fault

def withPath (q : Query) (path : String) : Query := q.withLoads (EagerLoad.ofPath path none)

/-- Loads the relations on a path, with options for the last. -/
def withOptions (q : Query) (path : String) (options : RelationOptions) : Query :=
  q.withLoads (EagerLoad.ofPath path (some options))

/-- Loads the relations on a path and others nested under the last. -/
def withNested (q : Query) (path : String) (nested : List String) : Query :=
  q.withLoads (EagerLoad.ofEntry path (.strings nested))

def without (q : Query) (fields : List String) : Query := { q with exclude := q.exclude ++ fields }

/-- Adds conditions that hold whatever the conditions of the caller are. -/
def scopedBy (q : Query) (scope : List Term) : Query := { q with scope := q.scope ++ scope }

/-! ## Order and window -/

/-- The field that holds the folded text of the sort column at a position. -/
def foldedField (position : Nat) : String := s!"__order_{position}"

/-- The field by which a sort column at a position is sorted. -/
def sortField (key : SortKey) (position : Nat) : String :=
  if key.foldsCase then foldedField position else key.column

/-- The temporary fields of a sort, with the expressions that they hold. -/
def foldedFields (ordering : List SortKey) : Document :=
  (ordering.zipIdx.filter (·.1.foldsCase)).map fun (key, position) =>
    (foldedField position, .single "$toLower" (.string ("$" ++ key.column)))

/-- The stages that sort. Columns sorted without regard to case get temporary fields. -/
def orderingStages (ordering : List SortKey) : List Stage :=
  let sort := Stage.sortBy (ordering.zipIdx.map fun (key, position) =>
    (sortField key position, key.direction.toInt))
  match ordering, foldedFields ordering with
  | [], _ => []
  | _, [] => [sort]
  | _, folded => [.addFields folded, sort, .exclude folded.keys]

/-- The stages that sort and cut out the wanted stretch. -/
def windowStages (q : Query) : List Stage :=
  orderingStages q.ordering ++ (q.skip.map Stage.skip).toList ++ (q.limit.map Stage.limit).toList

/-! ## Fields -/

/-- The stage that shows or leaves out fields. What was loaded is shown with selected fields. -/
def projectionStage? (q : Query) (aliases : List EagerAlias) : Option Stage :=
  match q.select with
  | some fields => some (.project (Stage.entries (fields ++ aliases.map (·.name)) (.int 1)))
  | none => if q.exclude.isEmpty then none else some (.exclude q.exclude)

/-! ## The pipeline -/

/-- Whether a condition of the caller or a sort reads what is loaded under an alias. -/
def readsAlias (q : Query) (aliases : List EagerAlias) : Bool :=
  (q.conditions.map (·.column) ++ q.ordering.map (·.column)).any fun column =>
    aliases.any fun a => a.name == Path.head column

/-- The stages that load the relations of a query, and where they put them. -/
def loaded (schema : Schema) (q : Query) : Except Error Relation.Loaded :=
  Relation.loadAll schema q.model [] q.eager

/-- Reports the fault of a query, if there is one. -/
def check (q : Query) : Except QueryFault Unit :=
  match q.fault with
  | some fault => .error (.deferred fault)
  | none => .ok ()

/-- The stage that keeps what meets a list of conditions; none without conditions. -/
def conditionStage? (terms : List Term) : Except QueryFault (Option Stage) :=
  (Term.filterAll terms).map fun filter => filter.map Stage.filter

/-- The stages of a query up to its projection: with the given window, and with the stages that load
relations last, unless they are needed earlier. -/
def stagesWith (q : Query) (loads : Relation.Loaded) (window last : List Stage) :
    Except QueryFault (List Stage) := do
  q.check
  let scope ← conditionStage? q.scope
  let conditions ← conditionStage? q.conditions
  let root := (q.model.policy q.trashed).stage?.toList ++ scope.toList
  if q.readsAlias loads.aliases then
    return root ++ loads.stages ++ conditions.toList ++ window
  else
    return root ++ conditions.toList ++ window ++ last

/-- The pipeline of a query, and where it puts loaded relations. -/
def plan (schema : Schema) (q : Query) : Except Error Relation.Loaded := do
  let loads ← q.loaded schema
  let stages ← (q.stagesWith loads q.windowStages loads.stages).mapError .query
  return ⟨stages ++ (q.projectionStage? loads.aliases).toList, loads.aliases⟩

/-- The pipeline that finds all documents of a query, without order, window and fields. Relations
are loaded only where a condition reads them. -/
def filterStages (schema : Schema) (q : Query) : Except Error (List Stage) := do
  let loads ← q.loaded schema
  (q.stagesWith loads [] []).mapError .query

end Query

end DocMapper
