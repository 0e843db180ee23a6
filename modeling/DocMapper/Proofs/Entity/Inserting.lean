import DocMapper.Entity.Lifecycle
import DocMapper.Proofs.Insertion

/-! # Entities that are inserted

A new entity is filled in before it is stored: with the times at which it was made and updated,
unless it says when it was made, and with the mark that it is not deleted, unless it says something
about that (`Entity.stampNew_eq`). All other fields stay as they were (`Entity.get?_stampNew`). It
brings its identifier or is given a fresh one, and then it is appended to its collection, under that
identifier in canonical form (`Entity.exists_of_insert`). -/

namespace DocMapper

/-! ## New documents -/

namespace Model

/-- The fields that say when a document was created and updated. -/
def stampFields (m : Model) : List String :=
  m.timestamps.toList.flatMap fun t => [t.created, t.updated]

/-- The fields that a model fills in itself in a new document. -/
def ownFields (m : Model) : List String :=
  "_id" :: m.primaryKey :: m.stampFields ++ (m.softDelete.map (·.marker)).toList

theorem ne_of_not_mem_ownFields {m : Model} {key : String} (h : key ∉ m.ownFields) :
    key ≠ "_id" ∧ key ≠ m.primaryKey := by
  simp only [ownFields, List.cons_append, List.mem_cons, not_or] at h
  exact ⟨h.1, h.2.1⟩

end Model

namespace Entity

variable {e : Entity} {key other : String} {v : Json} {now : String} {s t : Store}

theorem get?_set_of_ne (h : key ≠ other) (e : Entity) (v : Json) :
    (e.set key v).get? other = e.get? other := Document.get?_insert_of_ne h _ _

theorem get?_set_self (e : Entity) (key : String) (v : Json) : (e.set key v).get? key = some v :=
  Document.get?_insert_self _ _ _

theorem get?_setMissing_of_ne (h : key ≠ other) (e : Entity) (v : Json) :
    (e.setMissing key v).get? other = e.get? other := by
  unfold setMissing
  split
  · rfl
  · exact get?_set_of_ne h e v

theorem get?_setMissing_self (h : e.get? key = none) (v : Json) :
    (e.setMissing key v).get? key = some v := by
  rw [setMissing, h]
  exact get?_set_self e key v

theorem model_setMissing (e : Entity) (key : String) (v : Json) :
    (e.setMissing key v).model = e.model := by
  unfold setMissing
  split <;> rfl

theorem unique_setMissing (h : e.attributes.Unique) (key : String) (v : Json) :
    (e.setMissing key v).attributes.Unique := by
  unfold setMissing
  split
  · exact h
  · exact h.insert key v

/-- An entity with the times of a new document, where its model asks for them. -/
def timed (now : String) (e : Entity) : Entity :=
  match e.model.timestamps with
  | some t => (e.setMissing t.created (.string now)).set t.updated (.string now)
  | none => e

theorem model_timed (now : String) (e : Entity) : (e.timed now).model = e.model := by
  unfold timed
  split
  · exact model_setMissing e _ _
  · rfl

theorem get?_timed (h : key ∉ e.model.stampFields) (now : String) :
    (e.timed now).get? key = e.get? key := by
  unfold timed
  split
  · next t ht =>
    rw [Model.stampFields, ht] at h
    simp only [Option.toList_some, List.flatMap_singleton, List.mem_cons, List.not_mem_nil,
      or_false, not_or] at h
    rw [get?_set_of_ne (Ne.symm h.2), get?_setMissing_of_ne (Ne.symm h.1)]
  · rfl

theorem unique_timed (h : e.attributes.Unique) (now : String) :
    (e.timed now).attributes.Unique := by
  unfold timed
  split
  · exact (unique_setMissing h _ _).insert _ _
  · exact h

theorem stampNew_eq (now : String) (e : Entity) : e.stampNew now =
    match e.model.softDelete with
    | some x => (e.timed now).setMissing x.marker (.bool false)
    | none => e.timed now := by
  rw [← model_timed now e]
  rfl

theorem model_stampNew (now : String) (e : Entity) : (e.stampNew now).model = e.model := by
  rw [stampNew_eq]
  split
  · rw [model_setMissing, model_timed]
  · exact model_timed now e

theorem unique_stampNew (h : e.attributes.Unique) (now : String) :
    (e.stampNew now).attributes.Unique := by
  rw [stampNew_eq]
  split
  · exact unique_setMissing (unique_timed h now) _ _
  · exact unique_timed h now

/-- Filling in what a new document carries leaves all fields as they were but the times and the
marker. -/
theorem get?_stampNew_of_ne (htimes : key ∉ e.model.stampFields)
    (hmarker : ∀ x, e.model.softDelete = some x → x.marker ≠ key) (now : String) :
    (e.stampNew now).get? key = e.get? key := by
  rw [stampNew_eq]
  split
  · next x hx => rw [get?_setMissing_of_ne (hmarker x hx), get?_timed htimes]
  · exact get?_timed htimes now

theorem get?_stampNew (h : key ∉ e.model.ownFields) (now : String) :
    (e.stampNew now).get? key = e.get? key := by
  simp only [Model.ownFields, List.cons_append, List.mem_cons, List.mem_append, not_or] at h
  obtain ⟨-, -, htimes, hmarker⟩ := h
  refine get?_stampNew_of_ne htimes (fun x hx => ?_) now
  rw [hx, Option.map_some, Option.toList_some, List.mem_singleton] at hmarker
  exact Ne.symm hmarker

/-- A new document that says nothing about its deletion is not deleted. -/
theorem get?_stampNew_marker {x : SoftDelete} (hx : e.model.softDelete = some x)
    (h : x.marker ∉ e.model.stampFields) (hmissing : e.get? x.marker = none) :
    (e.stampNew now).get? x.marker = some (.bool false) := by
  rw [stampNew_eq, hx]
  exact get?_setMissing_self ((get?_timed h now).trans hmissing) _

/-! ## Inserting -/

/-- Looking for an identifier leaves all documents as they are, also where there is none. -/
theorem documents_newId (e : Entity) (s : Store) : (e.newId s).2.documents = s.documents := by
  unfold newId
  split
  · rfl
  · rfl
  · split <;> rfl

/-- The identifier of a new entity is the one that it brings, if it brings one. -/
theorem newId_eq_ok {id : DocumentId} (h : e.newId s = (.ok id, t)) {v : Json}
    (hv : e.get? e.model.primaryKey = some v) (hne : v ≠ .null) : DocumentId.ofJson? v = some id := by
  unfold newId at h
  split at h
  · next hnone =>
    rw [hnone] at hv
    cases hv
  · next hnull => exact absurd (Option.some.inj (hv.symm.trans hnull)) hne
  · next w _ hw =>
    obtain rfl : v = w := Option.some.inj (hv.symm.trans hw)
    split at h
    · next id' hid =>
      cases h
      exact hid
    · cases h

/-- What is left after an entity was inserted under an identifier: the entity holds what a new
document carries and its identifier, and a document with the same is appended to its collection,
where the identifier was not in use. -/
structure Inserts (now : String) (e : Entity) (s : Store) (id : DocumentId) (left : Entity)
    (t : Store) : Prop where
  attributes : left.attributes = (e.stampNew now).attributes.insert e.model.primaryKey id.toJson
  brought : ∀ v, (e.stampNew now).get? e.model.primaryKey = some v → v ≠ .null →
    DocumentId.ofJson? v = some id
  unused : ∀ d ∈ s.documents e.model.collection, Store.hasId id d = false
  documents : t.documents e.model.collection =
    s.documents e.model.collection ++ [left.attributes.insert "_id" id.toJson]
  others : ∀ name ≠ e.model.collection, t.documents name = s.documents name

theorem exists_of_insert {left : Entity} (h : e.insert now s = ⟨.ok (), left, t⟩) :
    ∃ id, Inserts now e s id left t := by
  rw [insert] at h
  cases hnew : (e.stampNew now).newId s with
  | mk outcome s' =>
    have hdocs : s'.documents = s.documents := by rw [← documents_newId (e.stampNew now) s, hnew]
    rw [hnew] at h
    cases outcome with
    | error err => cases h
    | ok id =>
      have hid := fun v => newId_eq_ok hnew (v := v)
      rw [model_stampNew] at hid
      simp only [model_stampNew] at h
      have hmodel : ((e.stampNew now).set e.model.primaryKey id.toJson).model = e.model :=
        model_stampNew now e
      rw [hmodel] at h
      cases hinsert : Store.insertOne e.model.collection
          (((e.stampNew now).set e.model.primaryKey id.toJson).attributes.insert "_id" id.toJson)
          s' with
      | mk outcome t' =>
        rw [hinsert] at h
        cases outcome with
        | error err => cases h
        | ok id' =>
          cases h
          have happends := Store.appends_of_insertOne hinsert
          -- The identifier is under `_id` already, so the store takes it over.
          have htaken : id' = id := by
            cases happends.taken with
            | cons htakes _ =>
              cases htakes with
              | own hget hread =>
                rw [Document.get?_insert_self] at hget
                cases hget
                exact Except.ok.inj (hread.symm.trans (DocumentId.ofJson_toJson id))
              | drawn hnone =>
                rw [Document.get?_insert_self] at hnone
                cases hnone
          refine ⟨id, rfl, hid, ?_, ?_, fun name hne => ?_⟩
          · rw [← hdocs, ← htaken]
            exact Store.unused_of_insertOne hinsert
          · rw [happends.documents, congrFun hdocs, htaken]
            exact congrArg (fun d => _ ++ [d]) (Document.insert_insert _ _ _ _)
          · rw [happends.others name hne, congrFun hdocs]

/-- An entity that says nothing about its deletion is inserted as one that is not deleted. -/
theorem Inserts.get?_marker {id : DocumentId} {left : Entity} (h : Inserts now e s id left t)
    {x : SoftDelete} (hx : e.model.softDelete = some x) (htimes : x.marker ∉ e.model.stampFields)
    (hmissing : e.get? x.marker = none) : left.get? x.marker = some (.bool false) := by
  have hstamped : (e.stampNew now).get? x.marker = some (.bool false) :=
    get?_stampNew_marker hx htimes hmissing
  -- A marker would not do for a key, so the key does not stand in its place.
  have hne : x.marker ≠ e.model.primaryKey := by
    intro heq
    have hread := h.brought (.bool false) (heq ▸ hstamped) Json.noConfusion
    cases hread
  rw [get?, h.attributes, Document.get?_insert_of_ne (Ne.symm hne)]
  exact hstamped

/-- An entity that could not be inserted leaves all documents as they were. -/
theorem documents_of_insert_error (h : (e.insert now s).result ≠ .ok ()) (name : String) :
    (e.insert now s).store.documents name = s.documents name := by
  have hdocs := documents_newId (e.stampNew now) s
  rw [insert] at h ⊢
  cases hnew : (e.stampNew now).newId s with
  | mk outcome s' =>
    rw [hnew] at h hdocs
    cases outcome with
    | error err => exact congrFun hdocs name
    | ok id =>
      dsimp only at h ⊢
      cases hinsert : Store.insertOne ((e.stampNew now).set (e.stampNew now).model.primaryKey
          id.toJson).model.collection (((e.stampNew now).set (e.stampNew now).model.primaryKey
            id.toJson).attributes.insert "_id" id.toJson) s' with
      | mk outcome t =>
        rw [hinsert] at h
        cases outcome with
        | error err =>
          exact ((Store.agrees_of_insertOne_error hinsert).documents name).symm.trans
            (congrFun hdocs name)
        | ok id' => exact absurd rfl h

end Entity

end DocMapper
