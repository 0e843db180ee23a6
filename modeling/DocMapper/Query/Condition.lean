import DocMapper.Pattern.Reader
import DocMapper.Query.Comparison

/-! # Conditions of a query

A query's conditions stand in the order in which they were added, each with the connector that ties
it to those before. AND binds tighter than OR, so the list is cut before every OR; a document must
meet all conditions of one of the parts. The connector of the first condition ties it to nothing and
has no influence.

The conditions are put together into one filter. -/

namespace DocMapper

/-- What a condition asks of a column. -/
inductive Test where
  | compare (comparison : Comparison) (value : Json)
  | isIn (values : List Json)
  | notIn (values : List Json)
  | isNull
  | notNull
  /-- Both bounds count. -/
  | between (low high : Json)

/-- How a condition is tied to those before it. -/
inductive Connector where
  | and | or
  deriving DecidableEq

/-- A condition with its connector. -/
structure Term where
  connector : Connector
  column : String
  test : Test

/-! ## LIKE -/

/-- A character of a LIKE pattern as a pattern of texts: `%` is any stretch, `_` any character, and
everything else stands for itself. -/
def likeChar (c : Char) : List Char :=
  if c == '%' then ['.', '*'] else if c == '_' then ['.'] else Pattern.escapeChar c

/-- A LIKE pattern as a pattern of whole texts. -/
def likePattern (s : String) : String :=
  String.ofList ('^' :: s.toList.flatMap likeChar ++ ['$'])

/-! ## Filters -/

namespace Test

def names : List String :=
  Comparison.all.map (·.symbol) ++ ["IN", "NOT IN", "IS NULL", "IS NOT NULL", "BETWEEN"]

/-- The operators of a filter that make a test of a column. -/
def operators (column : String) : Test → Except QueryFault Document
  | compare .equal v => .ok [("$eq", v)]
  | compare .notEqual v => .ok [("$ne", v)]
  | compare .greater v => .ok [("$gt", v)]
  | compare .atLeast v => .ok [("$gte", v)]
  | compare .less v => .ok [("$lt", v)]
  | compare .atMost v => .ok [("$lte", v)]
  | compare .like (.string pattern) =>
    .ok [("$regex", .string (likePattern pattern)), ("$options", .string "i")]
  | compare .like _ => .error (.likeNotString column)
  | isIn values => .ok [("$in", .array values)]
  | notIn values => .ok [("$nin", .array values)]
  | isNull => .ok [("$eq", .null)]
  | notNull => .ok [("$ne", .null)]
  | between low high => .ok [("$gte", low), ("$lte", high)]

end Test

namespace Term

def filter (t : Term) : Except QueryFault Json :=
  (t.test.operators t.column).map fun operators => .single t.column (.object operators)

/-- Cuts a list before every item that is tied by OR. -/
def cut : List (Connector × α) → List (List (Connector × α))
  | [] => []
  | t :: rest =>
    match cut rest with
    | (u :: part) :: parts =>
      if u.1 = .and then (t :: u :: part) :: parts else [t] :: (u :: part) :: parts
    | parts => [t] :: parts

/-- The filter of a list of conditions; there is none if the list is empty. -/
def filterAll (terms : List Term) : Except QueryFault (Option Json) := do
  let tied ← terms.mapM fun t => do return (t.connector, ← t.filter)
  let all (part : List (Connector × Json)) : Json :=
    .single "$and" (.array (part.map (·.2)))
  match cut tied with
  | [] => return none
  | [part] => return some (all part)
  | parts => return some (.single "$or" (.array (parts.map all)))

end Term

end DocMapper
