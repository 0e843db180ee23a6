import DocMapper.Pipeline.Stage

/-! # Soft deletion

A collection may mark documents as deleted instead of removing them: a boolean field, the marker,
says whether a document is deleted. What a read sees of such a collection is decided by a
`TrashedMode`. The same decision is put into three forms: a filter, an expression, and a stage. -/

namespace DocMapper

/-- Which documents a read sees. -/
inductive TrashedMode where
  /-- Those that are not deleted. -/
  | hidden
  /-- All. -/
  | included
  /-- Those that are deleted. -/
  | only
  deriving DecidableEq, Inhabited

/-- What the marker must be for a document to be seen, if that matters. -/
def TrashedMode.marker? : TrashedMode → Option Bool
  | hidden => some false
  | only => some true
  | included => none

/-- The expression that is true where a path leads to a value. -/
def fieldEquals (path : String) (value : Json) : Json :=
  .single "$eq" (.array [.string ("$" ++ path), value])

/-- The marker of a collection, if it has one, with what a read sees. -/
structure TrashedPolicy where
  field : Option String
  mode : TrashedMode

namespace TrashedPolicy

/-- The marker with the value that it must have, if that matters. -/
def requirement? (p : TrashedPolicy) : Option (String × Bool) := do
  return (← p.field, ← p.mode.marker?)

def filter? (p : TrashedPolicy) : Option Json :=
  p.requirement?.map fun (field, marker) => .single field (.bool marker)

/-- The expression that is true of what a read sees. -/
def condition? (p : TrashedPolicy) : Option Json :=
  p.requirement?.map fun (field, marker) => fieldEquals field (.bool marker)

def stage? (p : TrashedPolicy) : Option Stage := p.filter?.map .filter

end TrashedPolicy

end DocMapper
