import DocMapper.Error
import DocMapper.Json.Order
import DocMapper.Json.Path
import DocMapper.Text.Case

/-! # Expressions

Expressions compute values from a document. They are values themselves:

  * a text `$path` refers to what the document holds there, and `$$ROOT` to the document;
  * an object with one key that starts with `$` applies an operator to its arguments;
  * any other object and any array is evaluated inside, and everything else stands for itself.

A reference may find nothing. An object leaves out the fields whose expression finds nothing; arrays
and operators take null in its place. `&&` and `||` stop at the first argument that decides, so
arguments are handed to operators as a list of outcomes of which a failed one counts only if it is
looked at. -/

namespace DocMapper

/-- Whether a key names an operator or a text refers to something: whether it starts with `$`. -/
def startsDollar (s : String) : Bool := s.toList.head? == some '$'

/-- The outcomes of a list up to the first failed one, or all of them. -/
def sequenceOutcomes (outcomes : List (Except QueryFault α)) : Except QueryFault (List α) :=
  outcomes.mapM id

/-- Whether every outcome is true. The first one that is not decides. -/
def allOutcomes : List (Except QueryFault Bool) → Except QueryFault Bool
  | [] => .ok true
  | r :: rs => do if ← r then allOutcomes rs else return false

/-- Whether some outcome is true. The first one that is decides. -/
def anyOutcome : List (Except QueryFault Bool) → Except QueryFault Bool
  | [] => .ok false
  | r :: rs => do if ← r then return true else anyOutcome rs

namespace Expression

/-- What an expression finds, if it finds anything. -/
abbrev Outcome := Except QueryFault (Option Json)

/-- What a variable, with the path after it, refers to. -/
def lookUpVariable (root : Document) (name : String) : Outcome :=
  let parts := Text.splitChars '.' (name.toList.drop 2)
  let var := String.ofList (parts.headD [])
  if var == "ROOT" || var == "CURRENT" then
    match parts.drop 1 with
    | [] => .ok (some (.object root))
    | path => .ok ((Json.object root).get? (path.map String.ofList))
  else .error (.unknownVariable var)

/-- What a text stands for: a reference, or itself. -/
def reference (root : Document) (s : String) : Outcome :=
  match s.toList with
  | '$' :: '$' :: _ => lookUpVariable root s
  | '$' :: path => .ok (root.at? (String.ofList path))
  | _ => .ok (some (.string s))

/-- The two arguments of a comparison, null where nothing was found. -/
def pair (operator : String) (args : List Outcome) : Except QueryFault (Json × Json) := do
  match ← sequenceOutcomes args with
  | [a, b] => return (a.getD .null, b.getD .null)
  | _ => throw (.needsTwoArguments operator)

def compares (operator : String) (accept : Ordering → Bool) (args : List Outcome) : Outcome := do
  let (a, b) ← pair operator args
  return some (.bool (accept (a.compare b)))

/-- The text of a value whose case is changed: of a text itself, of nothing the empty one. -/
def caseText : Option Json → String
  | none | some .null => ""
  | some (.string s) => s
  | some v => v.write

/-- The object that has the entries of all the given ones; a later entry replaces an earlier. -/
def mergeObjects : (sofar : Document) → List (Option Json) → Outcome
  | sofar, [] => .ok (some (.object sofar))
  | sofar, some (.object fields) :: rest => mergeObjects (sofar.merge fields) rest
  | sofar, none :: rest => mergeObjects sofar rest
  | sofar, some .null :: rest => mergeObjects sofar rest
  | _, some v :: _ => .error (.mergeNeedsObjects v)

/-- Applies an operator to its arguments. `raw` is how they are written; `args` is what they
evaluate to. -/
def apply (operator : String) (raw : Json) (args : List Outcome) : Outcome :=
  let truth (r : Outcome) : Except QueryFault Bool := r.map truthy?
  let bool (b : Bool) : Option Json := some (.bool b)
  match operator with
  | "$literal" => .ok (some raw)
  | "$and" => (allOutcomes (args.map truth)).map bool
  | "$or" => (anyOutcome (args.map truth)).map bool
  | "$not" => do
    let values ← sequenceOutcomes args
    return bool (!truthy? (values.head?.getD none))
  | "$eq" => compares operator (· == .eq) args
  | "$ne" => compares operator (· != .eq) args
  | "$gt" => compares operator (· == .gt) args
  | "$gte" => compares operator (· != .lt) args
  | "$lt" => compares operator (· == .lt) args
  | "$lte" => compares operator (· != .gt) args
  | "$in" => do
    match ← pair operator args with
    | (needle, .array items) => return bool (items.any (·.equals needle))
    | _ => throw (.needsArray operator)
  | "$toLower" => do
    let values ← sequenceOutcomes args
    return some (.string (Text.lower (caseText (values.head?.getD none))))
  | "$toUpper" => do
    let values ← sequenceOutcomes args
    return some (.string (Text.upper (caseText (values.head?.getD none))))
  | "$ifNull" => do
    let values ← sequenceOutcomes args
    return some (((values.filterMap id).find? (!·.isNull)).getD .null)
  | "$size" => do
    match (← sequenceOutcomes args).head? with
    | some (some (.array items)) => return some (.int items.length)
    | _ => throw (.needsArray operator)
  | "$mergeObjects" => do mergeObjects [] (← sequenceOutcomes args)
  | _ => .error (.unsupportedExpression operator)

mutual

/-- What an expression finds in a document. -/
def eval (root : Document) : Json → Outcome
  | .string s => reference root s
  | .array items => do
    let values ← sequenceOutcomes (evalEach root items)
    return some (.array (values.map (·.getD .null)))
  | .object [(key, .array args)] =>
    if startsDollar key then apply key (.array args) (evalEach root args)
    else (evalFields root [(key, .array args)]).map fun fields => some (.object fields)
  | .object [(key, arg)] =>
    if startsDollar key then apply key arg [eval root arg]
    else (evalFields root [(key, arg)]).map fun fields => some (.object fields)
  | .object fields => (evalFields root fields).map fun fields => some (.object fields)
  | v => .ok (some v)

def evalEach (root : Document) : List Json → List Outcome
  | [] => []
  | e :: rest => eval root e :: evalEach root rest

/-- The fields whose expressions find something, with what they find. -/
def evalFields (root : Document) : List (String × Json) → Except QueryFault Document
  | [] => .ok []
  | (key, e) :: rest => do
    let value ← eval root e
    let others ← evalFields root rest
    match value with
    | some v => return (key, v) :: others
    | none => return others

end

end Expression

end DocMapper
