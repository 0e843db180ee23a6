import DocMapper.Expression

/-! # Projections

A projection is described by an object of paths. It is one of two things:

  * an **exclusion** drops what its paths lead to and keeps the rest. All its entries are switched
    off (`false` or zero), where the entry for `_id` does not count;
  * an **inclusion** builds a new document from the paths that are switched on and from computed
    ones, in their order. `_id` is kept as well, in front, unless it is switched off.

The paths of an inclusion are merged into a tree first, so that paths with a common start fill one
object. Arrays on the way keep the objects among their items. -/

namespace DocMapper

/-- What an inclusion puts under a key. -/
inductive Inclusion where
  /-- What the document holds there. -/
  | whole
  /-- What an expression finds. -/
  | computed (expression : Json)
  /-- An object of some of the fields there. -/
  | fields (children : List (String × Inclusion))

namespace Inclusion

def children : List (String × Inclusion) → String → List (String × Inclusion)
  | [], _ => []
  | (k, node) :: rest, key =>
    if k = key then
      match node with
      | .fields nodes => nodes
      | _ => []
    else children rest key

/-- Puts a node under a key of a tree: in its place if the key is there, else at the end. -/
def put : List (String × Inclusion) → String → Inclusion → List (String × Inclusion)
  | [], key, node => [(key, node)]
  | (k, old) :: rest, key, node =>
    if k = key then (k, node) :: rest else (k, old) :: put rest key node

def insert (tree : List (String × Inclusion)) : Path → Inclusion → List (String × Inclusion)
  | [], _ => tree
  | [key], node => put tree key node
  | key :: rest, node => put tree key (.fields (insert (children tree key) rest node))

mutual

/-- What an inclusion makes of what the source document holds under its key. Expressions refer to
the document that is projected, `root`. -/
def apply (root : Document) : Inclusion → Option Json → Except QueryFault (Option Json)
  | .whole, found => .ok found
  | .computed expression, _ => Expression.eval root expression
  | .fields nodes, some (.object source) => do
    return some (.object (← applyAll root nodes source))
  | .fields nodes, some (.array items) => do
    let projected ← (items.filterMap (·.object?)).mapM fun source => applyAll root nodes source
    return some (.array (projected.map .object))
  | .fields _, _ => .ok none

/-- The document that a tree makes of a source document. -/
def applyAll (root : Document) :
    List (String × Inclusion) → Document → Except QueryFault Document
  | [], _ => .ok []
  | (key, node) :: rest, source => do
    let value ← node.apply root (source.get? key)
    let others ← applyAll root rest source
    match value with
    | some v => return (key, v) :: others
    | none => return others

end

end Inclusion

/-- What a projection does to a document. -/
inductive Projection where
  | exclusion (paths : List String)
  | inclusion (tree : List (String × Inclusion))

namespace Projection

/-- Whether an entry is switched on or off, if it is either. -/
def switch? : Json → Option Bool
  | .bool b => some b
  | .number n => some (!n.isZero)
  | _ => none

def isExclusion (spec : Document) : Bool :=
  !spec.isEmpty && spec.all fun (key, v) => key == "_id" || switch? v == some false

/-- Merges the entries of a description into a tree. -/
def treeOf (tree : List (String × Inclusion)) :
    Document → Except QueryFault (List (String × Inclusion))
  | [] => .ok tree
  | (key, v) :: rest =>
    match switch? v with
    | some true => treeOf (Inclusion.insert tree (Path.ofString key) .whole) rest
    | some false => if key == "_id" then treeOf tree rest else .error (.mixedProjection key)
    | none => treeOf (Inclusion.insert tree (Path.ofString key) (.computed v)) rest

def ofSpec (spec : Document) : Except QueryFault Projection :=
  if isExclusion spec then .ok (.exclusion spec.keys)
  else
    let start := if spec.contains "_id" then [] else [("_id", Inclusion.whole)]
    (treeOf start spec).map .inclusion

def apply : Projection → Document → Except QueryFault Document
  | .exclusion paths, d => .ok (paths.foldl (fun d path => d.remove path) d)
  | .inclusion tree, d => Inclusion.applyAll d tree d

end Projection

end DocMapper
