import DocMapper.Id
import DocMapper.Pipeline.Run
import DocMapper.Store.Update

/-! # The store

A store holds named collections of documents, and counts the writes that changed something. Every
document has an identifier under `_id`, which no other document of its collection has; a document
that comes without one gets the next one from the store's supply.

An operation gives its outcome together with the store after it, because a failing one may have
changed the store too:

  * inserting is all or nothing;
  * a failing update of many documents keeps the documents that it had changed by then;
  * a failing removal leaves its collection empty.

Only a successful operation counts as a write. -/

namespace DocMapper

/-- Named collections of documents. -/
structure Store where
  collections : List (String × List Document) := []
  /-- How many operations have changed something. -/
  writes : Nat := 0
  /-- Where missing identifiers come from. -/
  ids : IdSource

/-- What an update found and did. -/
structure UpdateOutcome where
  /-- How many documents matched. -/
  matched : Nat := 0
  modified : Nat := 0
  /-- The identifier of the document that was inserted because none matched. -/
  upserted : Option DocumentId := none

/-- Something that reads and writes a store: its outcome, and the store after it. -/
abbrev Action (α : Type) := Store → Except Error α × Store

namespace Store

/-- The documents of a collection; a collection that was never written to has none. -/
def documents (s : Store) (name : String) : List Document := (s.collections.lookup name).getD []

def putIn : List (String × List Document) → String → List Document →
    List (String × List Document)
  | [], name, docs => [(name, docs)]
  | (n, old) :: rest, name, docs =>
    if n = name then (n, docs) :: rest else (n, old) :: putIn rest name docs

def put (s : Store) (name : String) (docs : List Document) : Store :=
  { s with collections := putIn s.collections name docs }

def counted (s : Store) : Store := { s with writes := s.writes + 1 }

def countedIf (changed : Bool) (s : Store) : Store := if changed then s.counted else s

def resetWrites (s : Store) : Store := { s with writes := 0 }

def freshId (s : Store) : DocumentId × Store :=
  let (id, ids) := s.ids.draw
  (id, { s with ids })

/-! ## Reading -/

def aggregate (s : Store) (name : String) (stages : List Stage) : Except Error (List Document) :=
  (Stage.runAll s.documents stages (s.documents name)).mapError .query

/-! ## Inserting -/

def hasId (id : DocumentId) (d : Document) : Bool := (d.get? "_id").any (·.equals id.toJson)

/-- Gives a document its identifier, in the canonical form, unless one of the documents beside it
has the same. -/
def prepare (d : Document) (beside : List Document) : Action (DocumentId × Document) := fun s =>
  let (id, s) := match d.get? "_id" with
    | some v => (DocumentId.ofJson v, s)
    | none => let (id, s) := s.freshId; (.ok id, s)
  match id with
  | .error e => (.error e, s)
  | .ok id =>
    if beside.any (hasId id) then (.error (.database (.duplicateId id.canonical)), s)
    else (.ok (id, d.insert "_id" id.toJson), s)

def insertOne (name : String) (d : Document) : Action DocumentId := fun s =>
  match prepare d (s.documents name) s with
  | (.error e, s) => (.error e, s)
  | (.ok (id, d), s) => (.ok id, (s.put name (s.documents name ++ [d])).counted)

/-- Gives every document of a list its identifier, where those before count as being beside. -/
def prepareAll (beside : List Document) : List Document → Action (List (DocumentId × Document))
  | [], s => (.ok [], s)
  | d :: rest, s =>
    match prepare d beside s with
    | (.error e, s) => (.error e, s)
    | (.ok (id, d), s) =>
      match prepareAll (beside ++ [d]) rest s with
      | (.error e, s) => (.error e, s)
      | (.ok prepared, s) => (.ok ((id, d) :: prepared), s)

def insertMany (name : String) (docs : List Document) : Action (List DocumentId) := fun s =>
  match prepareAll (s.documents name) docs s with
  | (.error e, s) => (.error e, s)
  | (.ok prepared, s) =>
    if prepared.isEmpty then (.ok [], s)
    else
      (.ok (prepared.map (·.1)),
        (s.put name (s.documents name ++ prepared.map (·.2))).counted)

/-! ## Updating -/

/-- Updates the documents that match a filter, up to the first one that cannot be tested. -/
def updateEach (filter : Json) (u : Update) :
    List Document → Except QueryFault UpdateOutcome × List Document
  | [] => (.ok {}, [])
  | d :: rest =>
    match Filter.accepts d filter with
    | .error fault => (.error fault, d :: rest)
    | .ok false =>
      let (outcome, rest) := updateEach filter u rest
      (outcome, d :: rest)
    | .ok true =>
      let (outcome, rest) := updateEach filter u rest
      let count (o : UpdateOutcome) : UpdateOutcome :=
        { o with
          matched := o.matched + 1
          modified := o.modified + if u.changes d then 1 else 0 }
      (outcome.map count, u.apply d :: rest)

def updateMany (name : String) (filter update : Json) : Action UpdateOutcome := fun s =>
  match Update.ofJson update with
  | .error fault => (.error (.query fault), s)
  | .ok u =>
    match updateEach filter u (s.documents name) with
    | (.error fault, docs) => (.error (.query fault), s.put name docs)
    | (.ok outcome, docs) => (.ok outcome, (s.put name docs).countedIf (0 < outcome.modified))

/-- The place of the first document that matches a filter, if one does. -/
def findMatch (filter : Json) : List Document → Except QueryFault (Option Nat)
  | [] => .ok none
  | d :: rest => do
    if ← Filter.accepts d filter then return some 0
    else return (← findMatch filter rest).map (· + 1)

/-- Updates the first document that matches a filter, or inserts one that the filter, the update and
its values for inserting describe. -/
def upsertOne (name : String) (filter update : Json) : Action UpdateOutcome := fun s =>
  match Update.ofJson update with
  | .error fault => (.error (.query fault), s)
  | .ok u =>
    let docs := s.documents name
    match findMatch filter docs with
    | .error fault => (.error (.query fault), s)
    | .ok (some i) =>
      let changed := (docs[i]?.map u.changes).getD false
      (.ok { matched := 1, modified := if changed then 1 else 0 },
        (s.put name (docs.modify i u.apply)).countedIf changed)
    | .ok none =>
      match prepare (u.inserted filter) docs s with
      | (.error e, s) => (.error e, s)
      | (.ok (id, d), s) => (.ok { upserted := some id }, (s.put name (docs ++ [d])).counted)

/-! ## Removing -/

/-- Removes every document that matches a filter and gives their number. -/
def deleteMany (name : String) (filter : Json) : Action Nat := fun s =>
  let docs := s.documents name
  match docs.filterM fun d => (Filter.accepts d filter).map not with
  | .error fault => (.error (.query fault), s.put name [])
  | .ok kept =>
    let removed := docs.length - kept.length
    (.ok removed, (s.put name kept).countedIf (0 < removed))

end Store

end DocMapper
