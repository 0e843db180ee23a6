import DocMapper.Relation.Basic

/-! # Declared relations

A model declares its relations under names. A name that is declared again keeps its place in the
order of names and gets the new relation. A schema holds the declared relations of every model, so
that relations of related models can be looked up in turn. -/

namespace DocMapper

/-- The relations that a model declares, by name and in order. -/
abbrev Registry := List (String × Relation)

namespace Registry

/-- Declares a relation under a name, which becomes its name. -/
def define (registry : Registry) (name : String) (r : Relation) : Registry :=
  let declared := { r with name }
  match registry with
  | [] => [(name, declared)]
  | (n, old) :: rest => if n = name then (name, declared) :: rest else (n, old) :: define rest name r

def names (registry : Registry) : List String := registry.map (·.1)

def contains (registry : Registry) (name : String) : Bool := registry.names.contains name

/-- The relation under a name, which must be declared and valid. -/
def resolve (registry : Registry) (model : Model) (name : String) : Except Error Relation := do
  match registry.lookup name with
  | none => throw (.relationNotFound model.typeName name)
  | some r =>
    r.validate.mapError .query
    return r

end Registry

/-- The declared relations of every model, by the name of its type. -/
structure Schema where
  registry : String → Registry

/-- The relation that a model declares under a name. -/
def Schema.resolve (schema : Schema) (model : Model) (name : String) : Except Error Relation :=
  (schema.registry model.typeName).resolve model name

end DocMapper
