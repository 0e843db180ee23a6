import DocMapper.Filter
import DocMapper.Pipeline.Grouping
import DocMapper.Pipeline.Projection
import DocMapper.Pipeline.Stage

/-! # Running a pipeline

Stages run one after the other over a list of documents. A lookup reaches other collections, which
are given as a function from names to documents, and runs its own pipeline once for each document
that it joins to. The first failure ends the run. -/

namespace DocMapper

/-- The documents of every collection. -/
abbrev Collections := String → List Document

namespace Stage

/-! ## Joins -/

/-- Whether two documents agree: one of the values at a path of the first equals one of those at a
path of the second, where nothing counts as null. -/
def agree (here there : String) (d e : Document) : Bool :=
  let values := d.joinValues here
  (e.joinValues there).any fun w => values.any fun v => v.equals w

/-- The documents that a lookup joins to a document, before its own pipeline. -/
def joined (docs : List Document) (on : Option (String × String)) (d : Document) :
    List Document :=
  match on with
  | some (here, there) => docs.filter (agree here there d)
  | none => docs

/-! ## Unwinding -/

def unwound (path : String) (preserve : Bool) (d : Document) : List Document :=
  match d.at? path with
  | some (.array []) => if preserve then [d.remove path] else []
  | some (.array items) => items.map fun item => d.set path item
  | none | some .null => if preserve then [d] else []
  | some _ => [d]

/-! ## Fields -/

def replaced (expression : Json) (d : Document) : Except QueryFault Document := do
  match ← Expression.eval d expression with
  | some (.object fields) => return fields
  | _ => throw .rootNotDocument

/-- A document with added fields. All expressions see the document as it was. -/
def extended (spec : Document) (d : Document) : Except QueryFault Document := do
  let values ← spec.mapM fun (path, e) => do return (path, ← Expression.eval d e)
  return values.foldl (fun d (path, found) =>
    match found with
    | some v => d.set path v
    | none => d) d

/-! ## Sorting -/

/-- Reads the keys of a sort: paths, and whether they are descending. -/
def sortKeys : Document → Except QueryFault (List (String × Bool))
  | [] => .ok []
  | (path, direction) :: rest =>
    match direction.int64? with
    | some 1 => do return (path, false) :: (← sortKeys rest)
    | some (-1) => do return (path, true) :: (← sortKeys rest)
    | _ => .error (.invalidSortDirection path)

/-- The order of two documents by sort keys: the first key on which they differ decides. Nothing
at a path counts as null. -/
def compareBy : List (String × Bool) → Document → Document → Ordering
  | [], _, _ => .eq
  | (path, descending) :: keys, d, e =>
    let order := ((d.at? path).getD .null).compare ((e.at? path).getD .null)
    (if descending then order.swap else order).then (compareBy keys d e)

/-- The documents in the order of sort keys; those that agree on all keys keep their order. -/
def sorted (keys : List (String × Bool)) (docs : List Document) : List Document :=
  docs.mergeSort fun d e => compareBy keys d e != .gt

/-! ## Stages and pipelines -/

def matching (filter : Json) (docs : List Document) : Except QueryFault (List Document) :=
  docs.filterM fun d => Filter.accepts d filter

mutual

/-- What a stage makes of documents. -/
def run (db : Collections) : Stage → List Document → Except QueryFault (List Document)
  | .filter f, docs => matching f docs
  | .lookup source on target pipeline, docs =>
    docs.mapM fun d => do
      let found ← runAll db pipeline (joined (db source) on d)
      return d.set target (.array (found.map .object))
  | .unwind path preserve, docs => .ok (docs.flatMap (unwound path preserve))
  | .project spec, docs => do
    let projection ← Projection.ofSpec spec
    docs.mapM projection.apply
  | .replaceRoot expression, docs => docs.mapM (replaced expression)
  | .addFields spec, docs => docs.mapM (extended spec)
  | .sort spec, docs => do return sorted (← sortKeys spec) docs
  | .skip n, docs => .ok (docs.drop n)
  | .limit n, docs => .ok (docs.take n)
  | .count field, docs =>
    .ok (if docs.isEmpty then [] else [[(field, .int docs.length)]])
  | .group spec, docs => do (← Grouping.ofSpec spec).run docs
  | .faulty fault, _ => .error fault

/-- What a pipeline makes of documents. -/
def runAll (db : Collections) : List Stage → List Document → Except QueryFault (List Document)
  | [], docs => .ok docs
  | stage :: rest, docs => do runAll db rest (← stage.run db docs)

end

end Stage

end DocMapper
