import DocMapper.Expression
import DocMapper.Pattern.Reader

/-! # Filters

A filter is an object whose entries must all hold of a document:

  * `$and`, `$or` and `$nor` combine filters, and `$expr` asks whether an expression is true;
  * any other key is a path, and its value a condition on what the document holds there.

A condition is an object of operators, which must all hold, or a value to be equal to. What a path
leads to may be an array; most operators hold of it if they hold of the array or of one of its
items. Entries are tested in order, and testing stops at the first that does not hold: an ill-formed
entry after it is not found. -/

namespace DocMapper.Filter

/-- Whether what a path leads to equals a value; null equals nothing at all. -/
def equals (d : Document) (path : String) (expected : Json) : Bool :=
  match d.candidates path with
  | none => expected.isNull
  | some values => values.any (·.equals expected)

/-- Whether what a path leads to is of the operand's type and stands to it as wanted. -/
def inRange (d : Document) (path : String) (operand : Json) (accept : Ordering → Bool) : Bool :=
  ((d.candidates path).getD []).any fun v => v.comparable operand && accept (v.compare operand)

/-- Whether what a path leads to equals a member of a list. -/
def isMember (d : Document) (path : String) : Json → Except QueryFault Bool
  | .array items => .ok (items.any (equals d path))
  | _ => .error .membershipNeedsArray

def matchesPattern (d : Document) (path : String) (options : String) :
    Json → Except QueryFault Bool
  | .string s =>
    let given (c : Char) : Bool := options.toList.contains c
    match Pattern.read? { ignoreCase := given 'i', multiLine := given 'm' } s with
    | some p => .ok (((d.candidates path).getD []).any fun v => v.string?.any p.matchesText)
    | none => .error (.invalidRegex s)
  | _ => .error .regexNeedsString

/-- Whether an operator other than `$not` holds of what a path leads to. `options` is what the
condition says about patterns. -/
def holds (d : Document) (path options operator : String) (operand : Json) :
    Except QueryFault Bool :=
  match operator with
  | "$options" => .ok true
  | "$eq" => .ok (equals d path operand)
  | "$ne" => .ok (!equals d path operand)
  | "$gt" => .ok (inRange d path operand (· == .gt))
  | "$gte" => .ok (inRange d path operand (· != .lt))
  | "$lt" => .ok (inRange d path operand (· == .lt))
  | "$lte" => .ok (inRange d path operand (· != .gt))
  | "$in" => isMember d path operand
  | "$nin" => (isMember d path operand).map not
  | "$exists" => .ok ((d.at? path).isSome == operand.truthy)
  | "$type" =>
    match operand with
    | .string name => .ok (((d.candidates path).getD []).any (·.typeName == name))
    | _ => .error .typeNeedsName
  | "$regex" => matchesPattern d path options operand
  | _ => .error (.unsupportedOperator operator)

/-- Whether an object is a list of operators: it is not empty and all its keys start with `$`. -/
def areOperators (fields : Document) : Bool :=
  !fields.isEmpty && fields.all fun (key, _) => startsDollar key

/-- What the operators of a condition say about patterns. -/
def patternOptions (operators : Document) : String :=
  ((operators.get? "$options").bind (·.string?)).getD ""

mutual

/-- Whether a condition holds of what a path leads to. -/
def conditionHolds (d : Document) (path : String) : Json → Except QueryFault Bool
  | .object fields =>
    if areOperators fields then operatorsHold d path (patternOptions fields) fields
    else .ok (equals d path (.object fields))
  | v => .ok (equals d path v)

/-- Whether all operators of a condition hold of what a path leads to. -/
def operatorsHold (d : Document) (path options : String) :
    List (String × Json) → Except QueryFault Bool
  | [] => .ok true
  | (operator, operand) :: rest => do
    let ok ← if operator == "$not" then
        match operand with
        | .object fields => (conditionHolds d path (.object fields)).map not
        | _ => .error .notNeedsOperators
      else holds d path options operator operand
    if ok then operatorsHold d path options rest else return false

end

mutual

/-- Whether a document matches a filter. -/
def accepts (d : Document) : Json → Except QueryFault Bool
  | .object entries => entriesHold d entries
  | v => .error (.filterNotObject v)

/-- Whether all entries of a filter hold of a document. -/
def entriesHold (d : Document) : List (String × Json) → Except QueryFault Bool
  | [] => .ok true
  | (key, condition) :: rest => do
    let ok ← match key, condition with
      | "$and", .array filters => allOutcomes (acceptsEach d filters)
      | "$or", .array filters => anyOutcome (acceptsEach d filters)
      | "$nor", .array filters => (anyOutcome (acceptsEach d filters)).map not
      | key, condition =>
        if key == "$and" || key == "$or" || key == "$nor" then .error (.needsArray key)
        else if key == "$expr" then (Expression.eval d condition).map truthy?
        else if startsDollar key then .error (.unsupportedTopLevel key)
        else conditionHolds d key condition
    if ok then entriesHold d rest else return false

/-- Whether a document matches each of a list of filters. -/
def acceptsEach (d : Document) : List Json → List (Except QueryFault Bool)
  | [] => []
  | filter :: rest => accepts d filter :: acceptsEach d rest

end

end DocMapper.Filter
