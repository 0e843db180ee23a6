import DocMapper.Id

/-! # Plans for pivot rows

The rows of a pivot collection that belong to one owner are either active or deleted softly. From a
snapshot of them and the targets that are asked for, each operation makes a plan: which rows to
insert, which to restore, and which to delete. Making a plan reads and writes nothing. -/

namespace DocMapper

/-- The targets of an owner's rows. -/
structure PivotSnapshot where
  active : List DocumentId := []
  trashed : List DocumentId := []

namespace PivotSnapshot

def isActive (p : PivotSnapshot) (id : DocumentId) : Bool := p.active.contains id

/-- Whether a target has only rows that are deleted softly. -/
def isTrashed (p : PivotSnapshot) (id : DocumentId) : Bool :=
  !p.isActive id && p.trashed.contains id

/-- All targets that have a row, those with an active one first. -/
def all (p : PivotSnapshot) : List DocumentId :=
  p.active ++ p.trashed.filter fun id => !p.isActive id

end PivotSnapshot

/-- The rows to write and to delete, by their targets. -/
structure PivotPlan where
  insert : List DocumentId := []
  restore : List DocumentId := []
  delete : List DocumentId := []

namespace PivotPlan

def isEmpty (p : PivotPlan) : Bool := p.insert.isEmpty && p.restore.isEmpty && p.delete.isEmpty

/-- Restores the targets whose rows are deleted and inserts those without a row. -/
def attach (snapshot : PivotSnapshot) (ids : List DocumentId) : PivotPlan where
  insert := ids.filter fun id => !snapshot.isActive id && !snapshot.isTrashed id
  restore := ids.filter snapshot.isTrashed

def detach (snapshot : PivotSnapshot) (ids : List DocumentId) : PivotPlan where
  delete := snapshot.all.filter ids.contains

/-- Attaches the targets and, if asked to, deletes the rows of all others. -/
def sync (detaching : Bool) (snapshot : PivotSnapshot) (ids : List DocumentId) : PivotPlan :=
  { attach snapshot ids with
    delete := if detaching then snapshot.all.filter fun id => !ids.contains id else [] }

/-- Attaches the targets that are not active and deletes the rows of those that are. -/
def toggle (snapshot : PivotSnapshot) (ids : List DocumentId) : PivotPlan :=
  { attach snapshot ids with delete := ids.filter snapshot.isActive }

end PivotPlan

structure PivotChanges where
  /-- The targets that got a new row. -/
  attached : List DocumentId := []
  /-- The targets whose row was restored. -/
  restored : List DocumentId := []
  /-- The targets whose rows were deleted. -/
  detached : List DocumentId := []

def PivotChanges.isEmpty (c : PivotChanges) : Bool :=
  c.attached.isEmpty && c.restored.isEmpty && c.detached.isEmpty

end DocMapper
