import DocMapper.Expression

/-! # Groups of documents

Grouping collects the documents for which a key expression finds equal values, and computes fields
of each group by accumulators. Groups stand in the order in which their keys first occur, and a
group keeps the first of its equal keys.

An accumulator is fed the value that its expression finds in each document of the group, in order. -/

namespace DocMapper

/-- What has been gathered of a group's values so far. -/
inductive Accumulator where
  | sum (total : Binary64)
  | average (total : Binary64) (count : Nat)
  /-- The least value that is not null. -/
  | least (best : Option Json)
  /-- The greatest value that is not null. -/
  | greatest (best : Option Json)
  | first (value : Option Json)
  | last (value : Option Json)
  | all (values : List Json)

namespace Accumulator

def start : String → Except QueryFault Accumulator
  | "$sum" | "$count" => .ok (sum .zero)
  | "$avg" => .ok (average .zero 0)
  | "$min" => .ok (least none)
  | "$max" => .ok (greatest none)
  | "$first" => .ok (first none)
  | "$last" => .ok (last none)
  | "$push" => .ok (all [])
  | operator => .error (.unsupportedAccumulator operator)

/-- The better of the best value so far and a new one: the new one only if it stands as wanted to
the best, or is the first that is not null. -/
def better (wanted : Ordering) (best : Option Json) : Option Json → Option Json
  | none | some .null => best
  | some v =>
    match best with
    | none => some v
    | some b => if v.compare b == wanted then some v else some b

def feed (value : Option Json) : Accumulator → Accumulator
  | sum total =>
    match value.bind (·.number?) with
    | some n => sum (total.add n.toBinary64)
    | none => sum total
  | average total count =>
    match value.bind (·.number?) with
    | some n => average (total.add n.toBinary64) (count + 1)
    | none => average total count
  | least best => least (better .lt best value)
  | greatest best => greatest (better .gt best value)
  | first none => first (some (value.getD .null))
  | first (some v) => first (some v)
  | last _ => last (some (value.getD .null))
  | all values => all (values ++ [value.getD .null])

def result : Accumulator → Json
  | sum total => .ofResult total
  | average total count => if count = 0 then .null else .ofResult (total.divNat count)
  | least v | greatest v | first v | last v => v.getD .null
  | all values => .array values

end Accumulator

/-- A computed field of groups: its name, its accumulator and the expression that feeds it. -/
structure GroupField where
  name : String
  operator : String
  argument : Json

structure Grouping where
  key : Json
  fields : List GroupField

/-- The documents with one key: the key and what was gathered of them. -/
abbrev Group := Json × List Accumulator

namespace Grouping

/-- Reads one computed field: an object whose one key is the operator. -/
def fieldOf (name : String) : Json → Except QueryFault GroupField
  | .object [(operator, argument)] => .ok ⟨name, operator, argument⟩
  | v => .error (.notSingleKey v)

/-- Reads a grouping. The entry for `_id` is the key, and all others are computed fields. -/
def ofSpec (spec : Document) : Except QueryFault Grouping := do
  match spec.get? "_id" with
  | none => throw .groupNeedsId
  | some key =>
    let fields ← (spec.filter (·.1 != "_id")).mapM fun (name, v) => fieldOf name v
    return ⟨key, fields⟩

/-- Feeds a document to the accumulators of its group. Counting takes in a one. -/
def feedAll (d : Document) : List GroupField → List Accumulator → Except QueryFault (List Accumulator)
  | field :: fields, acc :: accs => do
    let value ← if field.operator == "$count" then pure (some (.int 1))
      else Expression.eval d field.argument
    return acc.feed value :: (← feedAll d fields accs)
  | _, _ => .ok []

/-- Puts a document with the given key into its group, or into a new one at the end. -/
def add (g : Grouping) (d : Document) (key : Json) : List Group → Except QueryFault (List Group)
  | [] => do
    let accs ← g.fields.mapM fun field => Accumulator.start field.operator
    return [(key, ← feedAll d g.fields accs)]
  | (k, accs) :: rest => do
    if k.equals key then return (k, ← feedAll d g.fields accs) :: rest
    else return (k, accs) :: (← g.add d key rest)

/-- The groups of documents after some that were grouped before. -/
def groupsFrom (g : Grouping) (groups : List Group) : List Document → Except QueryFault (List Group)
  | [] => .ok groups
  | d :: rest => do
    let key ← Expression.eval d g.key
    let groups ← g.add d (key.getD .null) groups
    g.groupsFrom groups rest

/-- The document of a group: its key and its computed fields. -/
def document (g : Grouping) (group : Group) : Document :=
  ("_id", group.1) :: (g.fields.zip group.2).map fun (field, acc) => (field.name, acc.result)

/-- The documents of the groups of a list of documents. -/
def run (g : Grouping) (docs : List Document) : Except QueryFault (List Document) :=
  (g.groupsFrom [] docs).map fun groups => groups.map g.document

end Grouping

end DocMapper
