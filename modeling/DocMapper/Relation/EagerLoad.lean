import DocMapper.Relation.Options
import DocMapper.Text.Split

/-! # Requests to load relations

A query may ask for related documents to be loaded along with its own, by paths of relation names
such as `posts.comments.author`. Requests are merged into a tree: what two paths have in common is
loaded once, and options asked for the same relation twice are laid over each other. -/

namespace DocMapper

/-- A relation to load, and those to load with what it leads to. -/
structure EagerLoad where
  name : String
  options : Option RelationOptions
  children : List EagerLoad

/-- Where loaded documents are found: under an alias, one or a list of them, each with what was
loaded under it. -/
structure EagerAlias where
  name : String
  single : Bool
  children : List EagerAlias

mutual

def EagerAlias.same : EagerAlias → EagerAlias → Bool
  | ⟨a, s, cs⟩, ⟨b, t, ds⟩ => a == b && s == t && EagerAlias.sameAll cs ds

def EagerAlias.sameAll : List EagerAlias → List EagerAlias → Bool
  | [], [] => true
  | a :: as, b :: bs => a.same b && EagerAlias.sameAll as bs
  | _, _ => false

end

namespace EagerLoad

/-! ## Trees -/

def child? (load : EagerLoad) (name : String) : Option EagerLoad :=
  load.children.find? (·.name == name)

mutual

def count : EagerLoad → Nat
  | ⟨_, _, children⟩ => 1 + countAll children

def countAll : List EagerLoad → Nat
  | [] => 0
  | load :: rest => load.count + countAll rest

end

/-- Changes the first request with a name, or adds one at the end. -/
def upsert (name : String) (change : EagerLoad → EagerLoad) (new : EagerLoad) :
    List EagerLoad → List EagerLoad
  | [] => [new]
  | load :: rest =>
    if load.name = name then change load :: rest else load :: upsert name change new rest

/-- Options with more options laid over them; either may be absent. -/
def mergeOptions : Option RelationOptions → Option RelationOptions → Option RelationOptions
  | current, none => current
  | none, some options => some options
  | some current, some options => some (current.mergedWith options)

mutual

def mergeInto (tree : List EagerLoad) : EagerLoad → List EagerLoad
  | ⟨name, options, children⟩ =>
    upsert name
      (fun load => ⟨load.name, mergeOptions load.options options, mergeAll load.children children⟩)
      ⟨name, options, children⟩ tree

/-- Merges requests one after the other into a list of requests. -/
def mergeAll (tree : List EagerLoad) : List EagerLoad → List EagerLoad
  | [] => tree
  | load :: rest => mergeAll (mergeInto tree load) rest

end

/-! ## Reading -/

/-- The names on a path, without the blanks around them. No name may be empty. -/
def segments (path : String) : Except QueryFault (List String) :=
  let names := (Text.split '.' path).map Text.trim
  if names.any (·.isEmpty) then .error (.invalidRelationPath path) else .ok names

/-- The request for relations that lead to one another; options and children go to the last. -/
def chain (options : Option RelationOptions) (children : List EagerLoad) :
    List String → List EagerLoad
  | [] => children
  | [name] => [⟨name, options, children⟩]
  | name :: rest => [⟨name, none, chain options children rest⟩]

def ofPath (path : String) (options : Option RelationOptions) :
    Except QueryFault (List EagerLoad) := do
  return chain options [] (← segments path)

def mergePaths (tree : List EagerLoad) : List String → Except QueryFault (List EagerLoad)
  | [] => .ok tree
  | path :: rest => do mergePaths (mergeAll tree (← ofPath path none)) rest

/-- The paths nested under a relation: a list of texts, where anything else is passed over, one
text, or none. -/
def nestedPaths (relation : String) : Json → Except QueryFault (List String)
  | .array items => .ok (items.filterMap (·.string?))
  | .string path => .ok [path]
  | .null => .ok []
  | _ => .error (.nestedNotStrings relation)

/-- Reads the request for a path and the paths nested under it. -/
def ofEntry (path : String) (nested : Json) : Except QueryFault (List EagerLoad) := do
  let names ← segments path
  let paths ← nestedPaths path nested
  return chain none (← mergePaths [] paths) names

/-- Merges the entries of an object of requests into a list of requests. -/
def ofEntries (tree : List EagerLoad) : Document → Except QueryFault (List EagerLoad)
  | [] => .ok tree
  | (path, nested) :: rest => do ofEntries (mergeAll tree (← ofEntry path nested)) rest

/-- Reads an object of requests: paths, each with the paths nested under it. -/
def ofJson : Json → Except QueryFault (List EagerLoad)
  | .object fields => ofEntries [] fields
  | _ => .error .loadsNotObject

end EagerLoad

end DocMapper
