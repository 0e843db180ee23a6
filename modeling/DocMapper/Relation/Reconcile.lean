import DocMapper.Pivot.Rows
import DocMapper.Relation.Handle

/-! # Changing many-to-many relations

Through a handle on a relation with a pivot collection, related documents are attached to the owner
and detached from it by their identifiers, which may come in any form and more than once. What is
malformed is found before anything is read from the store. -/

namespace DocMapper

inductive Reconciliation where
  /-- Attaches targets; new rows get extra attributes. -/
  | attach (ids : List Json) (extra : Json)
  /-- Detaches targets. -/
  | detach (ids : List Json)
  /-- Detaches all targets. -/
  | detachAll
  /-- Attaches targets and detaches all others. -/
  | sync (ids : List Json) (extra : Json)
  /-- Attaches targets as `sync` does, and detaches nothing. -/
  | syncWithoutDetaching (ids : List Json) (extra : Json)
  /-- Detaches the targets that are attached and attaches the others. -/
  | toggle (ids : List Json)

namespace RelationHandle

/-- Reads targets and drops repeats. -/
def targetIds (ids : List Json) : Except Error (List DocumentId) := do
  return (← DocumentId.ofJsons ids).foldl PivotRows.addTarget []

/-- Reads the extra attributes of new rows; there may be none. -/
def extraAttributes : Json → Except Error Document
  | .object fields => .ok fields
  | .null => .ok []
  | v => .error (.invalidArgument (.pivotAttributesNotObject v))

def pivotRows (h : RelationHandle) : Except Error PivotRows := do
  match h.relation.pivot? with
  | none => throw (.query (.noPivot h.relation.name))
  | some keys => return ⟨keys, ← h.requireOwnerValue keys.parentKey⟩

/-- The program of a change with the targets and extra attributes that it names. -/
def planned (h : RelationHandle) (now : String) (ids : List Json) (extra : Json)
    (plan : PivotSnapshot → List DocumentId → PivotPlan) : Program PivotChanges :=
  .given (targetIds ids) fun ids =>
    .given (extraAttributes extra) fun extra =>
      .given h.pivotRows fun rows => rows.reconciling extra now (plan · ids)

def program (h : RelationHandle) (now : String) : Reconciliation → Program PivotChanges
  | .attach ids extra => h.planned now ids extra PivotPlan.attach
  | .detach ids => h.planned now ids .null PivotPlan.detach
  | .detachAll => .given h.pivotRows PivotRows.clearing
  | .sync ids extra => h.planned now ids extra (PivotPlan.sync true)
  | .syncWithoutDetaching ids extra => h.planned now ids extra (PivotPlan.sync false)
  | .toggle ids => h.planned now ids .null PivotPlan.toggle

/-- Carries out a change while no other program runs. -/
def reconcile (now : String) (h : RelationHandle) (change : Reconciliation) :
    Action PivotChanges :=
  (h.program now change).run

/-- The rows of the owner as they are. -/
def pivotSnapshot (h : RelationHandle) : Action PivotSnapshot := fun s =>
  match h.pivotRows with
  | .error e => (.error e, s)
  | .ok rows => rows.snapshot s

/-- The conditions that a row must meet to count. -/
def pivotConditions (h : RelationHandle) : List Json :=
  match h.relation.pivot? with
  | some keys => Relation.pivotConditions keys
  | none => []

end RelationHandle

end DocMapper
