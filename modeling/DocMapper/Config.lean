import DocMapper.Error
import DocMapper.Config.LogLevel
import DocMapper.Text.Case

/-! # Settings

The settings name the database and give the field names that models use unless they choose their
own. They are read from environment variables, where a variable that is not set leaves the default,
and are checked before they are used:

  * no name may be blank, and
  * no field name may hold a dot, because a dot separates the keys of a path. -/

namespace DocMapper

inductive LogFormat where
  | pretty | json
  deriving DecidableEq

namespace LogFormat

def parse (s : String) : Except ConfigError LogFormat :=
  match Text.lower s with
  | "pretty" | "text" => .ok .pretty
  | "json" => .ok .json
  | _ => .error (.invalidValue "log_format" s "pretty or json")

end LogFormat

/-- The settings. -/
structure Config where
  database : String := "elif"
  primaryKey : String := "_id"
  softDeleteField : String := "isDeleted"
  deletedAtField : String := "deletedAt"
  createdAtField : String := "createdAt"
  updatedAtField : String := "updatedAt"
  logLevel : String := "info"
  logFormat : LogFormat := .pretty

namespace Config

/-- The names in the settings with what they are called, in the order in which they are checked.
The first is no field name and may hold a dot. -/
def named (c : Config) : List (String × String) := [
  ("database", c.database), ("primary_key", c.primaryKey),
  ("soft_delete_field", c.softDeleteField), ("deleted_at_field", c.deletedAtField),
  ("created_at_field", c.createdAtField), ("updated_at_field", c.updatedAtField)]

def checkName (field value : String) : Except ConfigError Unit :=
  if Text.allBlank value then .error (.rejected field "value cannot be empty")
  else if field != "database" && value.toList.contains '.' then
    .error (.rejected field "field names cannot contain '.'")
  else .ok ()

/-- Checks the settings; the first name that is not usable decides the error. -/
def validate (c : Config) : Except ConfigError Unit := do
  c.named.forM fun (field, value) => checkName field value
  if !LogLevel.isValid c.logLevel then throw (.rejected "log_level" "invalid filter directive")

/-- Makes the settings those of the whole program. That can happen only once, and it has happened
when `installed` holds some. -/
def install (installed : Option Config) (c : Config) : Except ConfigError Config := do
  c.validate
  match installed with
  | some _ => throw .alreadyInstalled
  | none => return c

/-! ## Reading settings -/

/-- The settings with the given values under their names, where those that have no value are the
default ones. The log format is read first. -/
def ofFields (value : String → Option String) : Except ConfigError Config := do
  let d : Config := {}
  let logFormat ← match value "log_format" with
    | some s => LogFormat.parse s
    | none => .ok d.logFormat
  return {
    database := (value "database").getD d.database
    primaryKey := (value "primary_key").getD d.primaryKey
    softDeleteField := (value "soft_delete_field").getD d.softDeleteField
    deletedAtField := (value "deleted_at_field").getD d.deletedAtField
    createdAtField := (value "created_at_field").getD d.createdAtField
    updatedAtField := (value "updated_at_field").getD d.updatedAtField
    logLevel := (value "log_level").getD d.logLevel
    logFormat }

/-- The settings with the variables that they are read from. -/
def variableNames : List (String × String) := [
  ("database", "ODM_DATABASE"), ("primary_key", "ODM_PRIMARY_KEY"),
  ("soft_delete_field", "ODM_SOFT_DELETE_FIELD"), ("deleted_at_field", "ODM_DELETED_AT_FIELD"),
  ("created_at_field", "ODM_CREATED_AT_FIELD"), ("updated_at_field", "ODM_UPDATED_AT_FIELD"),
  ("log_level", "ODM_LOG_LEVEL"), ("log_format", "ODM_LOG_FORMAT")]

/-- Where the value of a setting comes from. -/
inductive Source where
  | environment (name : String)
  | default (field : String)
  deriving DecidableEq

def sources (env : String → Option String) : List (String × Source) :=
  variableNames.map fun (field, name) =>
    (field, if (env name).isSome then .environment name else .default field)

def ofEnvironment (env : String → Option String) : Except ConfigError Config := do
  let c ← ofFields fun field => (variableNames.lookup field).bind env
  c.validate
  return c

end Config

end DocMapper
