import DocMapper.Pivot.Plan
import DocMapper.Relation.Basic
import DocMapper.Store.Program

/-! # Pivot rows

The rows of a pivot collection that belong to one owner, and what is done with them. A target is
attached by one conditional write: if it has a row, the row is restored, and if it has none, one is
inserted. Rows are removed for good.

Reading rows and writing them are calls of their own. Two programs for the same owner may both plan
to insert a row for the same target; the condition of the write keeps the second from doing so. -/

namespace DocMapper

/-- The rows that belong to an owner. -/
structure PivotRows where
  keys : PivotKeys
  owner : Json

namespace PivotRows

/-! ## Filters -/

def ownerFilter (rows : PivotRows) : Document :=
  match rows.keys.morphType with
  | some (field, name) => Document.insert [(rows.keys.foreignPivotKey, rows.owner)] field (.string name)
  | none => [(rows.keys.foreignPivotKey, rows.owner)]

/-- The filter for the rows of targets that meet a condition. -/
def targetFilter (rows : PivotRows) (condition : Json) : Document :=
  rows.ownerFilter.insert rows.keys.relatedPivotKey condition

/-! ## Reading -/

def isTrashed (rows : PivotRows) (row : Document) : Bool :=
  match rows.keys.softDelete with
  | some d => row.get? d.marker == some (.bool true)
  | none => false

/-- Adds a target to a list unless it is there. -/
def addTarget (ids : List DocumentId) (id : DocumentId) : List DocumentId :=
  if ids.contains id then ids else ids ++ [id]

/-- Takes in one row. A row without a usable target is passed over. -/
def observe (rows : PivotRows) (snapshot : PivotSnapshot) (row : Document) : PivotSnapshot :=
  match (row.get? rows.keys.relatedPivotKey).bind DocumentId.ofJson? with
  | none => snapshot
  | some id =>
    if rows.isTrashed row then { snapshot with trashed := addTarget snapshot.trashed id }
    else { snapshot with active := addTarget snapshot.active id }

def snapshot (rows : PivotRows) : Action PivotSnapshot := fun s =>
  let found := s.aggregate rows.keys.collection [.filter (.object rows.ownerFilter)]
  (found.map fun docs => docs.foldl rows.observe {}, s)

/-! ## Attaching -/

/-- Whether a field of a row is set by attaching itself. -/
def isReserved (rows : PivotRows) (field : String) : Bool :=
  field == rows.keys.foreignPivotKey || field == rows.keys.relatedPivotKey ||
    rows.keys.softDelete.any fun d => field == d.marker

/-- The fields that a new row gets besides its keys. -/
def newFields (rows : PivotRows) (extra : Document) (now : String) : Document :=
  let fields : Document := extra.filter fun (field, _) => !rows.isReserved field
  match rows.keys.timestamps with
  | some t => (Document.insert fields t.created (.string now)).insert t.updated (.string now)
  | none => fields

/-- The part of the write that restores a row. -/
def restoring (rows : PivotRows) : Document :=
  match rows.keys.softDelete with
  | some d =>
    ("$set", .single d.marker (.bool false)) ::
      match d.stamp with
      | some stamp => [("$unset", .single stamp (.string ""))]
      | none => []
  | none => []

/-- The write that attaches a target. It always has an operator with a field. -/
def attachUpdate (rows : PivotRows) (extra : Document) (now : String) (id : DocumentId) : Json :=
  let restore := rows.restoring
  let fields := rows.newFields extra now
  .object (restore ++
    if !fields.isEmpty then [("$setOnInsert", .object fields)]
    else if restore.isEmpty then [("$setOnInsert", .object (rows.targetFilter id.toJson))]
    else [])

def attachOne (rows : PivotRows) (extra : Document) (now : String) (id : DocumentId) :
    Action UpdateOutcome :=
  Store.upsertOne rows.keys.collection (.object (rows.targetFilter id.toJson))
    (rows.attachUpdate extra now id)

/-- Takes in what attaching a target did. -/
def report (changes : PivotChanges) (id : DocumentId) (outcome : UpdateOutcome) : PivotChanges :=
  if outcome.upserted.isSome then { changes with attached := changes.attached ++ [id] }
  else if 0 < outcome.modified then { changes with restored := changes.restored ++ [id] }
  else changes

/-! ## Removing -/

def removeTargets (rows : PivotRows) (ids : List DocumentId) : Action Nat :=
  let oneOf : Json := .single "$in" (.array (ids.map (·.toJson)))
  Store.deleteMany rows.keys.collection (.object (rows.targetFilter oneOf))

def clear (rows : PivotRows) : Action Nat :=
  Store.deleteMany rows.keys.collection (.object rows.ownerFilter)

/-! ## Carrying out a plan -/

/-- Removes the rows of targets, if there are any to remove. -/
def removing (rows : PivotRows) (ids : List DocumentId) (changes : PivotChanges) :
    Program PivotChanges :=
  if ids.isEmpty then .done (.ok changes)
  else .call (rows.removeTargets ids) fun _ => .done (.ok { changes with detached := ids })

/-- Attaches targets one after the other and then removes the rows of others. -/
def attaching (rows : PivotRows) (extra : Document) (now : String) (delete : List DocumentId) :
    List DocumentId → PivotChanges → Program PivotChanges
  | [], changes => rows.removing delete changes
  | id :: rest, changes =>
    .call (rows.attachOne extra now id) fun outcome =>
      attaching rows extra now delete rest (report changes id outcome)

/-- Carries out a plan; new rows get extra attributes. -/
def applying (rows : PivotRows) (extra : Document) (now : String) (plan : PivotPlan) :
    Program PivotChanges :=
  rows.attaching extra now plan.delete (plan.insert ++ plan.restore) {}

/-- Reads the rows, makes a plan and carries it out. -/
def reconciling (rows : PivotRows) (extra : Document) (now : String)
    (plan : PivotSnapshot → PivotPlan) : Program PivotChanges :=
  .call rows.snapshot fun snapshot => rows.applying extra now (plan snapshot)

/-- Reads the rows and removes them all. -/
def clearing (rows : PivotRows) : Program PivotChanges :=
  .call rows.snapshot fun snapshot =>
    .call rows.clear fun _ => .done (.ok { detached := snapshot.all })

end PivotRows

end DocMapper
