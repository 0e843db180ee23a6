import DocMapper.Entity.Basic
import DocMapper.Query.Basic
import DocMapper.Query.Page
import DocMapper.Store.Basic

/-! # Running a query

What can be asked of the documents that a query describes. None of this changes the store. That no
document is found is an answer and not a failure, except where the first document must be there. -/

namespace DocMapper

/-- A number that summarises a column. -/
inductive Aggregate where
  | sum | average | least | greatest

namespace Aggregate

def all : List Aggregate := [sum, average, least, greatest]

def name : Aggregate → String
  | sum => "sum"
  | average => "avg"
  | least => "min"
  | greatest => "max"

def operator (a : Aggregate) : String := "$" ++ a.name

end Aggregate

namespace Query

def get (schema : Schema) (s : Store) (q : Query) : Except Error (List Entity) := do
  let plan ← q.plan schema
  let docs ← s.aggregate q.model.collection plan.stages
  return docs.map fun d => Entity.ofDocument q.model d plan.aliases

def first (schema : Schema) (s : Store) (q : Query) : Except Error (Option Entity) := do
  return (← { q with limit := some 1 }.get schema s).head?

/-- The first entity, which must be there; `missing` says what was not found. -/
def firstOr (schema : Schema) (s : Store) (q : Query) (missing : String) : Except Error Entity := do
  match ← q.first schema s with
  | some e => return e
  | none => throw (.notFound missing)

/-- The first entity, which must be there. -/
def firstOrFail (schema : Schema) (s : Store) (q : Query) : Except Error Entity :=
  q.firstOr schema s q.model.collection

def count (schema : Schema) (s : Store) (q : Query) : Except Error Nat := do
  let stages ← q.filterStages schema
  let docs ← s.aggregate q.model.collection (stages ++ [.count "count"])
  return ((docs.head?.bind (·.get? "count")).bind (·.nat?)).getD 0

def hasAny (schema : Schema) (s : Store) (q : Query) : Except Error Bool := do
  return 0 < (← q.count schema s)

/-- The stages that summarise the numbers of a column into one document. -/
def aggregateStages (column : String) (a : Aggregate) : List Stage := [
  .filter (.single column (.single "$type" (.string "number"))),
  .group [("_id", .null), ("value", .single a.operator (.string ("$" ++ column)))]]

/-- A summary of the numbers of a column; zero if there are none. -/
def aggregate (schema : Schema) (s : Store) (q : Query) (column : String) (a : Aggregate) :
    Except Error Binary64 := do
  let stages ← q.filterStages schema
  let docs ← s.aggregate q.model.collection (stages ++ aggregateStages column a)
  match (docs.head?.bind (·.get? "value")).bind (·.number?) with
  | some n => return n.toBinary64
  | none => return Binary64.ofInt 0

/-- The values of a column, where there is one. -/
def pluck (schema : Schema) (s : Store) (q : Query) (column : String) : Except Error (List Json) := do
  return (← q.get schema s).filterMap (·.valueAt column)

def paginate (schema : Schema) (s : Store) (q : Query) (page size : Nat) :
    Except Error (Page Entity) := do
  let window ← (Window.ofPage page size).mapError .invalidArgument
  let total ← q.count schema s
  let items ← { q with skip := some window.skip, limit := some window.limit }.get schema s
  return { items, total, size, number := page }

end Query

end DocMapper
