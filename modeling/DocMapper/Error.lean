import DocMapper.Json.Text
import DocMapper.Relation.Kind

/-! # Errors

Every way in which an operation can fail is a value that names the cause and what caused it. Causes
are grouped by the part that finds them:

  * `QueryFault` — a filter, an expression, a pipeline, a query or a relation is ill-formed;
  * `ArgumentFault` — a value handed in by the caller cannot be used;
  * `ConfigError` — settings are missing or invalid;
  * `Error` — these, and what a lookup or the store itself refuses.

The wording of each cause is in its `message` and nowhere else. -/

namespace DocMapper

/-! ## Queries -/

/-- Why a filter, an expression, a pipeline, a query or a relation cannot be used. -/
inductive QueryFault where
  -- filters
  | filterNotObject (got : Json)
  | needsArray (operator : String)
  | unsupportedTopLevel (operator : String)
  | membershipNeedsArray
  | typeNeedsName
  | regexNeedsString
  | invalidRegex (pattern : String)
  | notNeedsOperators
  | unsupportedOperator (operator : String)
  -- expressions
  | unknownVariable (name : String)
  | needsTwoArguments (operator : String)
  | mergeNeedsObjects (got : Json)
  | unsupportedExpression (operator : String)
  -- stages
  | notSingleKey (got : Json)
  | unsupportedStage (operator : String)
  | missingField (operator field : String)
  | needsCount (operator : String)
  | needsObject (operator : String)
  | lookupPipelineNotArray
  | lookupHalfJoined
  | invalidUnwind
  | unwindNotReference
  | mixedProjection (field : String)
  | rootNotDocument
  | invalidSortDirection (field : String)
  | countNeedsName
  | groupNeedsId
  | unsupportedAccumulator (operator : String)
  -- updates
  | updateNotObject
  | unsupportedUpdate (operator : String)
  -- queries
  | unsupportedComparison (text : String)
  | likeNotString (column : String)
  -- relations
  | invalidRelationPath (path : String)
  | loadsNotObject
  | nestedNotStrings (relation : String)
  | keysDoNotFit (relation owner : String) (kind : RelationKind)
  | invalidAlias (name relation : String)
  | sharedAlias (first second owner name : String)
  | relatedNotDocument (name : String) (got : Json)
  | noPivot (relation : String)
  | notInverse (relation : String)
  | noIntermediate (relation : String)
  | cannotLink (relation : String)
  /-- A fault found while a query was put together and reported when it is used. -/
  | deferred (fault : QueryFault)
  /-- A fault stated in free words. -/
  | stated (text : String)

def QueryFault.text : QueryFault → String
  | filterNotObject got => s!"filter must be an object, got {got.write}"
  | needsArray operator => s!"{operator} requires an array"
  | unsupportedTopLevel operator => s!"unsupported top-level operator '{operator}'"
  | membershipNeedsArray => "$in/$nin require an array"
  | typeNeedsName => "$type requires a type name"
  | regexNeedsString => "$regex requires a string"
  | invalidRegex pattern => s!"invalid $regex '{pattern}'"
  | notNeedsOperators => "$not requires an operator document"
  | unsupportedOperator operator => s!"unsupported query operator '{operator}'"
  | unknownVariable name => s!"unknown variable '$${name}'"
  | needsTwoArguments operator => s!"{operator} expects exactly two arguments"
  | mergeNeedsObjects got => s!"$mergeObjects requires objects, got {got.write}"
  | unsupportedExpression operator => s!"unsupported expression operator '{operator}'"
  | notSingleKey got => s!"a stage must be a single-key object, got {got.write}"
  | unsupportedStage operator => s!"unsupported pipeline stage '{operator}'"
  | missingField operator field => s!"{operator} requires '{field}'"
  | needsCount operator => s!"{operator} requires a non-negative integer"
  | needsObject operator => s!"{operator} requires an object"
  | lookupPipelineNotArray => "$lookup pipeline must be an array"
  | lookupHalfJoined => "$lookup requires both localField and foreignField"
  | invalidUnwind => "invalid $unwind"
  | unwindNotReference => "$unwind path must start with '$'"
  | mixedProjection field => s!"cannot exclude '{field}' in an inclusion projection"
  | rootNotDocument => "$replaceRoot newRoot must be a document"
  | invalidSortDirection field => s!"invalid sort direction for '{field}'"
  | countNeedsName => "$count requires a field name"
  | groupNeedsId => "$group requires an '_id'"
  | unsupportedAccumulator operator => s!"unsupported accumulator '{operator}'"
  | updateNotObject => "update must be an object"
  | unsupportedUpdate operator => s!"unsupported update operator '{operator}'"
  | unsupportedComparison text => s!"unsupported operator '{text}'"
  | likeNotString column => s!"LIKE pattern for '{column}' must be a string"
  | invalidRelationPath path => s!"invalid relation path '{path}'"
  | loadsNotObject => "eager-load map must be an object"
  | nestedNotStrings relation => s!"nested relations of '{relation}' must be strings"
  | keysDoNotFit relation owner kind =>
    s!"relation '{relation}' on '{owner}' has keys that do not fit a {kind.name} relationship"
  | invalidAlias name relation => s!"invalid alias '{name}' for relation '{relation}'"
  | sharedAlias first second owner name =>
    s!"relations '{first}' and '{second}' of '{owner}' both load into '{name}'"
  | relatedNotDocument name got => s!"relation '{name}' holds a non-document value: {got.write}"
  | noPivot relation => s!"'{relation}' has no pivot collection"
  | notInverse relation => s!"'{relation}' is not an inverse relation"
  | noIntermediate relation => s!"'{relation}' is missing its intermediate model"
  | cannotLink relation => s!"'{relation}' cannot link related documents"
  | deferred fault => "Query error: " ++ fault.text
  | stated text => text

/-! ## Arguments -/

/-- Why a value handed in by the caller cannot be used. -/
inductive ArgumentFault where
  | malformedId (text : String)
  | unsupportedIdObject (got : Json)
  | notAnId (got : Json)
  | sortDirection (text : String)
  | pageOutOfRange (page perPage : Int)
  | optionsNotObject
  | optionEntries (key : String)
  | optionNotStrings (key : String)
  | optionNotCount (key : String)
  | optionSortShape
  | unknownOption (key : String)
  | attributesNotObject (model : String) (got : Json)
  | malformedKey (model field : String)
  | noSoftDeletes (model : String)
  | pivotAttributesNotObject (got : Json)
  /-- A fault stated in free words. -/
  | stated (text : String)

def ArgumentFault.text : ArgumentFault → String
  | malformedId text => s!"invalid document id '{text}'"
  | unsupportedIdObject got => s!"unsupported id object: {got.write}"
  | notAnId got => s!"expected a document id, got {got.write}"
  | sortDirection text => s!"sort direction must be 'asc' or 'desc', got '{text}'"
  | pageOutOfRange page perPage =>
    s!"page and per_page must be at least 1, got page={page} per_page={perPage}"
  | optionsNotObject => "relation options must be an object"
  | optionEntries key => s!"'{key}' entries must be strings"
  | optionNotStrings key => s!"'{key}' must be a string or an array of strings"
  | optionNotCount key => s!"'{key}' must be a non-negative integer"
  | optionSortShape => "'sort' must be [column] or [column, direction]"
  | unknownOption key => s!"unknown relation option '{key}'"
  | attributesNotObject model got => s!"{model} attributes must be a JSON object, got {got.write}"
  | malformedKey model field => s!"{model} has a malformed '{field}'"
  | noSoftDeletes model => s!"{model} does not use soft deletes"
  | pivotAttributesNotObject got => s!"pivot attributes must be an object, got {got.write}"
  | stated text => text

/-! ## Settings -/

inductive ConfigError where
  | missingVariable (name : String)
  | invalidValue (field value expected : String)
  | rejected (field reason : String)
  | alreadyInstalled
  deriving DecidableEq

namespace ConfigError

def name : ConfigError → String
  | missingVariable _ => "MissingEnvVar"
  | invalidValue _ _ _ => "InvalidValue"
  | rejected _ _ => "ValidationFailed"
  | alreadyInstalled => "AlreadyInstalled"

def message : ConfigError → String
  | missingVariable name => s!"Missing required environment variable: {name}"
  | invalidValue field value expected =>
    s!"Invalid value for {field}: '{value}', expected {expected}"
  | rejected field reason => s!"Validation failed for {field}: {reason}"
  | alreadyInstalled => "Configuration already installed"

end ConfigError

/-! ## Operations -/

/-- What the store refuses. -/
inductive StoreFault where
  | duplicateId (id : String)
  /-- A refusal stated in free words, perhaps because of an error in the settings. -/
  | stated (text : String) (cause : Option ConfigError)

def StoreFault.text : StoreFault → String
  | duplicateId id => s!"duplicate _id '{id}'"
  | stated text _ => text

/-- Why settings keep an operation from running. -/
inductive SettingsFault where
  | unusable (error : ConfigError)
  /-- A reason stated in free words. -/
  | stated (text : String)

def SettingsFault.text : SettingsFault → String
  | unusable error => error.message
  | stated text => text

inductive Error where
  /-- A lookup that must find a document found none. -/
  | notFound (what : String)
  /-- A model does not declare a relation of this name. -/
  | relationNotFound (model relation : String)
  | invalidArgument (fault : ArgumentFault)
  /-- A document has no usable identifier where one is needed. -/
  | missingKey
  | configuration (fault : SettingsFault)
  | query (fault : QueryFault)
  | database (fault : StoreFault)
  /-- A value does not have the shape that a typed reader asks for. -/
  | serialization

/-- The coarse classification of errors. -/
inductive ErrorKind where
  | notFound | relationNotFound | invalidArgument | configuration | query | database | serialization
  deriving DecidableEq

def ErrorKind.name : ErrorKind → String
  | notFound => "NotFound"
  | relationNotFound => "RelationNotFound"
  | invalidArgument => "InvalidArgument"
  | configuration => "Configuration"
  | query => "Query"
  | database => "Database"
  | serialization => "Serialization"

namespace Error

/-- The class of an error; a missing key is an invalid argument. -/
def kind : Error → ErrorKind
  | notFound _ => .notFound
  | relationNotFound _ _ => .relationNotFound
  | invalidArgument _ | missingKey => .invalidArgument
  | configuration _ => .configuration
  | query _ => .query
  | database _ => .database
  | serialization => .serialization

def message : Error → String
  | notFound what => s!"Record not found in collection '{what}'"
  | relationNotFound model relation =>
    s!"Relationship '{relation}' is not defined on model '{model}'"
  | invalidArgument fault => "Invalid argument: " ++ fault.text
  | missingKey => "Primary key is missing or invalid"
  | configuration fault => "Configuration error: " ++ fault.text
  | query fault => "Query error: " ++ fault.text
  | database fault => "Database error: " ++ fault.text
  | serialization => "Serialization error"

/-- The error in the settings behind an error, if there is one. -/
def cause? : Error → Option ConfigError
  | configuration (.unusable error) => some error
  | database (.stated _ cause) => cause
  | _ => none

def isNotFound : Error → Bool
  | notFound _ => true
  | _ => false

end Error

end DocMapper
