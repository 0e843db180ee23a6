import DocMapper.Expression

/-! # Stages of a pipeline

A pipeline is a list of stages, each of which turns a list of documents into another one. A stage
has a form as a value, an object whose one key names the operator:

    { "$match": … }    { "$lookup": … }    { "$sort": { "likes": -1 } }

`toJson` gives that form and `ofJson` reads it. Whatever is wrong with a stage counts only when the
stage is run, and the stages before it run first; so reading never fails, and what cannot be read
becomes a `faulty` stage, which fails when it is run. -/

namespace DocMapper

/-- One step of a pipeline. -/
inductive Stage where
  | filter (filter : Json)
  /-- Puts documents of another collection under a path: those that agree in the two given paths
  (or all, without paths), after a pipeline of their own. -/
  | lookup (source : String) (on : Option (String × String)) (target : String)
      (pipeline : List Stage)
  /-- Replaces a document by copies, one for each item of the array at a path. What has no item is
  kept only if `preserve` says so. -/
  | unwind (path : String) (preserve : Bool)
  /-- Keeps, drops or computes fields. -/
  | project (spec : Document)
  | replaceRoot (expression : Json)
  | addFields (spec : Document)
  | sort (spec : Document)
  | skip (count : Nat)
  | limit (count : Nat)
  /-- Replaces the documents by one that holds their number; none at all by none. -/
  | count (field : String)
  | group (spec : Document)
  /-- What is no stage. -/
  | faulty (fault : QueryFault)

/-! ## Common stages -/

namespace Stage

/-- The entries with the given keys, all with one value. -/
def entries (keys : List String) (value : Json) : Document :=
  keys.foldl (fun d key => d.insert key value) []

/-- Keeps the documents for which all expressions are true. -/
def filterAll (conditions : List Json) : Stage :=
  .filter (.single "$expr" (.single "$and" (.array conditions)))

def exclude (fields : List String) : Stage := .project (entries fields (.int 0))

/-- Sorts by paths, each with 1 for ascending or -1 for descending. -/
def sortBy (keys : List (String × Int)) : Stage :=
  .sort (keys.foldl (fun d (key, direction) => d.insert key (.int direction)) [])

/-- Unwinds the array under an alias and keeps the documents where it is empty. -/
def unwindAlias (name : String) : Stage := .unwind name true

/-! ## The form of a stage -/

/-- The paths on which a lookup joins, as entries of its form. -/
def joinEntries : Option (String × String) → Document
  | some (here, there) => [("localField", .string here), ("foreignField", .string there)]
  | none => []

mutual

/-- The form of a stage. A faulty stage has none. -/
def toJson : Stage → Json
  | .filter f => .single "$match" f
  | .lookup source on target pipeline =>
    .single "$lookup" (.object (
      ("from", .string source) :: joinEntries on ++ ("as", .string target) ::
        (match pipeline with
          | [] => []
          | stage :: rest => [("pipeline", .array (stage.toJson :: formsOf rest))])))
  | .unwind path preserve =>
    .single "$unwind" (.object [("path", .string ("$" ++ path)),
      ("preserveNullAndEmptyArrays", .bool preserve)])
  | .project spec => .single "$project" (.object spec)
  | .replaceRoot expression => .single "$replaceRoot" (.single "newRoot" expression)
  | .addFields spec => .single "$addFields" (.object spec)
  | .sort spec => .single "$sort" (.object spec)
  | .skip n => .single "$skip" (.int n)
  | .limit n => .single "$limit" (.int n)
  | .count field => .single "$count" (.string field)
  | .group spec => .single "$group" (.object spec)
  | .faulty _ => .null

def formsOf : List Stage → List Json
  | [] => []
  | stage :: rest => stage.toJson :: formsOf rest

end

/-- The operator of a stage: the key of its form. -/
def operator (s : Stage) : String :=
  match s.toJson with
  | .object ((key, _) :: _) => key
  | _ => ""

/-- The body of a stage: the value of its form. -/
def body (s : Stage) : Json :=
  match s.toJson with
  | .object ((_, value) :: _) => value
  | _ => .null

/-! ## Reading a stage -/

/-- The text under a key of the body of a stage. -/
def textOf (operator key : String) (body : Json) : Except QueryFault String :=
  match (body.field? key).bind (·.string?) with
  | some s => .ok s
  | none => .error (.missingField operator key)

/-- The lookup that a body describes, given the pipeline in it. -/
def lookupOf (body : Json) (pipeline : Except QueryFault (List Stage)) :
    Except QueryFault Stage := do
  let source ← textOf "$lookup" "from" body
  let target ← textOf "$lookup" "as" body
  let pipeline ← pipeline
  let side (key : String) : Option String := (body.field? key).bind (·.string?)
  match side "localField", side "foreignField" with
  | some here, some there => return .lookup source (some (here, there)) target pipeline
  | none, none => return .lookup source none target pipeline
  | _, _ => throw .lookupHalfJoined

def unwindOf (body : Json) : Except QueryFault Stage := do
  let (path, preserve) ← match body with
    | .string path => pure (path, false)
    | .object fields =>
      let path ← textOf "$unwind" "path" body
      let preserve := (Document.get? fields "preserveNullAndEmptyArrays").bind (·.bool?)
      pure (path, preserve.getD false)
    | _ => throw .invalidUnwind
  match path.toList with
  | '$' :: rest => return .unwind (String.ofList rest) preserve
  | _ => throw .unwindNotReference

/-- The stage that an operator and a body without a pipeline describe. -/
def ofBody (operator : String) (body : Json) : Except QueryFault Stage :=
  let fields (name : String) (make : Document → Stage) : Except QueryFault Stage :=
    match body with
    | .object fields => .ok (make fields)
    | _ => .error (.needsObject name)
  let number (make : Nat → Stage) : Except QueryFault Stage :=
    match body.nat? with
    | some n => .ok (make n)
    | none => .error (.needsCount operator)
  match operator with
  | "$match" => .ok (.filter body)
  | "$lookup" => lookupOf body (.ok [])
  | "$unwind" => unwindOf body
  | "$project" => fields "$project" .project
  | "$replaceRoot" =>
    match body.field? "newRoot" with
    | some expression => .ok (.replaceRoot expression)
    | none => .error (.missingField "$replaceRoot" "newRoot")
  | "$addFields" | "$set" => fields "$addFields" .addFields
  | "$sort" => fields "$sort" .sort
  | "$skip" => number .skip
  | "$limit" => number .limit
  | "$count" =>
    match body with
    | .string field => .ok (.count field)
    | _ => .error .countNeedsName
  | "$group" => fields "$group" .group
  | _ => .error (.unsupportedStage operator)

/-- A stage that was read, or the faulty one. -/
def orFaulty : Except QueryFault Stage → Stage
  | .ok stage => stage
  | .error fault => .faulty fault

mutual

def ofJson : Json → Stage
  | .object [(operator, .object fields)] =>
    if operator == "$lookup" then orFaulty (lookupOf (.object fields) (pipelineOf fields))
    else orFaulty (ofBody operator (.object fields))
  | .object [(operator, body)] => orFaulty (ofBody operator body)
  | v => .faulty (.notSingleKey v)

/-- The pipeline inside the body of a lookup; without one it is empty. -/
def pipelineOf : List (String × Json) → Except QueryFault (List Stage)
  | [] => .ok []
  | (key, .array items) :: rest => if key == "pipeline" then .ok (ofJsons items) else pipelineOf rest
  | (key, _) :: rest =>
    if key == "pipeline" then .error .lookupPipelineNotArray else pipelineOf rest

def ofJsons : List Json → List Stage
  | [] => []
  | v :: rest => ofJson v :: ofJsons rest

end

end Stage

def pipelineToJson (stages : List Stage) : Json := .array (Stage.formsOf stages)

end DocMapper
