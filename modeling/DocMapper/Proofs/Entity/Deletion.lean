import DocMapper.Proofs.Entity.Merging

/-! # The life of a document that is deleted softly

A program edits an entity and then saves, deletes or restores it, over and over (`Entity.live`).
Deleting and restoring are edits of two fields, the marker and the stamp of the deletion, and a save;
so each turn is a save of an edited entity (`Entity.Turn.run_eq`). A save that succeeds sends the
changes to the documents under the key of the entity (`Entity.save_cases`) and makes them hold what
it holds (`Entity.save_follows`).

In the hands of the program, all goes well: the last deletion or restoration decides what the entity
holds in both fields (`Entity.Held.live`). The stored document follows the entity as long as it is
found under the canonical form of its key (`Entity.Follows`). Where the key is stored in another
spelling, every turn succeeds and leaves the document as it was. -/

namespace DocMapper

/-! ## Reads that return an entity -/

namespace Model

/-- A read in some mode succeeds and returns so many entities with an identifier. -/
def Returns (schema : Schema) (s : Store) (m : Model) (mode : TrashedMode) (id : DocumentId)
    (times : Nat) : Prop :=
  ∃ es, { m.query with trashed := mode }.get schema s = .ok es ∧
    es.countP (fun e => e.id? == some id) = times

/-- The primary key and the fields in which a soft deletion is kept. -/
def lifeFields (m : Model) (x : SoftDelete) : List String := [m.primaryKey, x.marker, x.stamp]

/-- A model deletes softly, and its key, the marker, the stamp of a deletion and the time of an
update stand in different fields that filters take for fields. -/
structure DeletesIn (m : Model) (x : SoftDelete) : Prop where
  soft : m.softDelete = some x
  key : IsPlain m.primaryKey
  marker : IsPlain x.marker
  stamp : IsField x.stamp
  nodup : (m.lifeFields x).Nodup
  updated : ∀ key, m.Stamps key → IsField key ∧ key ∉ m.lifeFields x

/-- A plain field in which neither the key nor a soft deletion is kept. -/
def OtherField (m : Model) (x : SoftDelete) (key : String) : Prop :=
  IsField key ∧ key ∉ m.lifeFields x

variable {schema : Schema} {s : Store} {m : Model} {x : SoftDelete} {id : DocumentId} {d : Document}

theorem idOf?_of_key {e : Document} (h : e.get? m.primaryKey = d.get? m.primaryKey) :
    m.idOf? e = m.idOf? d := by
  rw [idOf?, idOf?, h]

namespace DeletesIn

variable (h : m.DeletesIn x)

include h

theorem marker_ne_key : x.marker ≠ m.primaryKey := by
  have hnodup := h.nodup
  rintro heq
  simp [lifeFields, heq] at hnodup

theorem stamp_ne_key : x.stamp ≠ m.primaryKey := by
  have hnodup := h.nodup
  rintro heq
  simp [lifeFields, heq] at hnodup

theorem stamp_ne_marker : x.stamp ≠ x.marker := by
  have hnodup := h.nodup
  rintro heq
  simp [lifeFields, heq] at hnodup

/-- When a document was updated is not kept in the fields of its life. -/
theorem not_stamps {key : String} (hkey : key ∈ m.lifeFields x) : ¬ m.Stamps key :=
  fun hstamps => (h.updated key hstamps).2 hkey

/-- Of the documents with an identifier, the filter for it finds those that hold it in its canonical
form. -/
theorem accepts_keyFilter_iff (hid : m.idOf? d = some id) :
    Filter.accepts d (m.keyFilter id) = .ok true ↔ d.get? m.primaryKey = some id.toJson := by
  obtain ⟨v, hv, hread⟩ := Option.bind_eq_some_iff.mp hid
  have hitems : ∀ items, v ≠ .array items := by
    rintro items rfl
    cases hread
  rw [keyFilter, Filter.accepts_single h.key.noDollar
    (Filter.conditionHolds_of_scalar rfl d m.primaryKey), Except.ok.injEq, hv, Option.some.injEq]
  exact Filter.equals_string_iff h.key.field hv hitems _

/-- A read returns the one document with an identifier if its mode asks for the mark of it. -/
theorem returns (schema : Schema) {before after : List Document} {marked : Bool}
    (hdocs : s.documents m.collection = before ++ d :: after) (hid : m.idOf? d = some id)
    (honly : ∀ other ∈ before ++ after, m.idOf? other ≠ some id)
    (hmarker : d.get? x.marker = some (.bool marked)) (mode : TrashedMode) :
    m.Returns schema s mode id (if mode.marker?.all (· == marked) then 1 else 0) := by
  have hdollar : ∀ f, (m.policy mode).field = some f → startsDollar f = false := by
    intro f hf
    rw [policy, h.soft] at hf
    cases hf
    exact h.marker.noDollar
  have hrun : Stage.runAll s.documents ((m.policy mode).stage?.toList ++ [] ++ [] ++ [] ++ [] ++ [])
      (s.documents m.collection) = .ok ((s.documents m.collection).filter (m.policy mode).sees) := by
    simp only [List.append_assoc]
    exact TrashedPolicy.runAll_stage hdollar _ _ _
  refine ⟨_, Query.get_eq_ok.mpr ⟨{}, _, _, Relation.loadAll_nil _ _ _,
    (Query.stagesWith_eq_ok (Query.readsAlias_nil _)).mpr ⟨none, none, rfl, rfl, rfl, rfl⟩, hrun,
    rfl⟩, ?_⟩
  obtain ⟨hbefore, hafter⟩ := List.forall_mem_append.mp honly
  have hnone : ∀ docs : List Document, (∀ other ∈ docs, m.idOf? other ≠ some id) →
      docs.countP (fun e => m.idOf? e == some id && (m.policy mode).sees e) = 0 := by
    intro docs hdocs
    refine List.countP_eq_zero.mpr fun other hother => ?_
    simp [hdocs other hother]
  have hentity : ∀ e : Document, (Entity.ofDocument m e []).id? = m.idOf? e := fun _ => rfl
  rw [List.countP_map, List.countP_filter, hdocs]
  show List.countP (fun e => m.idOf? e == some id && (m.policy mode).sees e) _ = _
  rw [List.countP_append, List.countP_cons, hnone before hbefore, hnone after hafter, hid,
    TrashedPolicy.sees_of_marker h.soft h.marker.field hmarker]
  simp

end DeletesIn

end Model

namespace Entity

variable {e f left : Entity} {schema : Schema} {s₀ s : Store} {m : Model} {x : SoftDelete}
  {id : DocumentId} {marked : Bool} {before after : List Document} {c c' d : Document}
  {key now : String} {touched : String → Prop}

/-! ## A save and the documents under its key -/

/-- A stored entity without changes. -/
structure AtRest (e : Entity) : Prop where
  tracked : e.Tracked
  distinct : (Json.object e.stored).distinctKeys = true
  isStored : e.isStored = true
  changes : e.changes = []

theorem Fresh.atRest (h : e.Fresh) (hstored : (Json.object e.stored).distinctKeys = true) :
    e.AtRest := ⟨h.tracked hstored, hstored, h.isStored, h.changes⟩

/-- An entity without changes holds what was stored. -/
theorem AtRest.same (h : e.AtRest) : e.stored.same e.attributes = true :=
  (h.tracked.isDirty_eq_false_iff (Json.distinctKeys_object.mp h.distinct).1).mp
    (isDirty_eq_false.mpr h.changes)

/-- Settling an entity puts it at rest. -/
theorem Tracked.atRest_settled (h : e.Tracked) : e.settled.AtRest :=
  Fresh.atRest ⟨rfl, rfl, rfl⟩ h.attributes

/-- What becomes of a document while an entity with an identifier passes from one state to another:
if it holds the identifier in its canonical form, it goes on to hold what the entity holds, and
otherwise it stays as it was. Its key stays in any case. -/
structure Follows (m : Model) (id : DocumentId) (e left : Entity) (c c' : Document) : Prop where
  unique : c'.Unique
  key : c'.get? m.primaryKey = c.get? m.primaryKey
  missed : Filter.accepts c (m.keyFilter id) ≠ .ok true → c' = c
  hit : Filter.accepts c (m.keyFilter id) = .ok true → c.same e.stored = true →
    c'.same left.stored = true

theorem Follows.refl (hc : c.Unique) : Follows m id e e c c :=
  ⟨hc, rfl, fun _ => rfl, fun _ h => h⟩

theorem Follows.trans (hm : IsField m.primaryKey) {c'' : Document} (h : Follows m id e f c c')
    (h' : Follows m id f left c' c'') : Follows m id e left c c'' where
  unique := h'.unique
  key := h'.key.trans h.key
  missed hmiss := by
    obtain rfl := h.missed hmiss
    exact h'.missed hmiss
  hit hhit hsame :=
    h'.hit (Filter.accepts_text_congr hm id.startsDollar_canonical h.key hhit) (h.hit hhit hsame)

/-- What is sent to the documents under a key makes each of them follow the entity. -/
theorem follows_revised (h : e.Tracked) (hstored : e.stored.Unique)
    (hfields : ∀ key ∈ e.changes, IsField key) (hkey : m.primaryKey ∉ e.changes) {e₀ : Entity}
    (hsame : e.stored = e₀.stored) (hc : c.Unique) :
    Follows m id e₀ e.settled c (Store.revised (m.keyFilter id) e.pending c) := by
  unfold Store.revised
  split
  · next hhit =>
    refine ⟨Update.unique_apply hc _, ?_, fun hmiss => absurd hhit hmiss, fun _ hc' => ?_⟩
    · rw [get?_apply_pending hc hfields, if_neg hkey]
    · exact same_apply_pending h hc hstored (hsame ▸ hc') hfields
  · next hmiss => exact ⟨hc, rfl, fun _ => rfl, fun hhit _ => absurd hhit hmiss⟩

/-- The entity that is left after a save of changes. -/
theorem entity_save (hflag : e.isStored = true) (hdirty : e.isDirty = true)
    (hok : (e.save now s).result = .ok ()) : (e.save now s).entity = (e.stamped now).settled := by
  rw [save, if_pos hflag, update_eq] at hok ⊢
  simp only [hdirty, Bool.not_true, Bool.false_eq_true, if_false] at hok ⊢
  split at hok
  · cases hok
  · split at hok
    · cases hok
    · rfl

/-- A save that succeeds, of an entity that had no changes before it was edited, either finds none
now, or sends them to the documents under the identifier of the entity. -/
theorem save_cases (he : e.AtRest) (hf : Revises touched e f) (hkey : ¬ touched m.primaryKey)
    (hmodel : e.model = m) (hstamp : ∀ key, m.Stamps key → touched key)
    (hok : (f.save now s).result = .ok ()) :
    (f.changes = [] ∧ f.save now s = ⟨.ok (), f, s⟩) ∨
      ∃ id, e.id? = some id ∧ Revises touched e (f.stamped now) ∧
        (f.save now s).entity = (f.stamped now).settled ∧
        (f.save now s).store.documents m.collection =
          (s.documents m.collection).map
            (Store.revised (m.keyFilter id) (f.stamped now).pending) := by
  have hflag : f.isStored = true := hf.isStored.trans he.isStored
  have hfmodel : f.model = m := hf.model.trans hmodel
  rcases save_succeeds hflag hok with ⟨hclean, hsave⟩ | ⟨hdirty, id, hid, -, hchanged⟩
  · exact .inl ⟨isDirty_eq_false.mp hclean, hsave⟩
  · have hstamped := hf.stamped (fun t ht => hstamp _ ⟨t, hmodel ▸ ht, rfl⟩) now
    -- The key is not touched, so the changes go to the identifier that the entity had.
    rw [hstamped.requireId_eq (hmodel ▸ hkey), requireId_eq_ok_iff] at hid
    refine .inr ⟨id, hid, hstamped, entity_save hflag hdirty hok, ?_⟩
    rw [hchanged, hfmodel, Store.documents_put_self]

/-- A save that succeeds, of an entity that had no changes before it was edited, leaves an entity
without changes that holds what was edited, and the documents follow it. -/
theorem save_follows (he : e.AtRest) (hf : Revises touched e f)
    (htouched : ∀ key, touched key → IsField key ∧ key ≠ m.primaryKey) (hmodel : e.model = m)
    (hstamp : ∀ key, m.Stamps key → touched key) (hid : e.id? = some id)
    (hdocs : ∀ c ∈ s.documents m.collection, c.Unique) (hok : (f.save now s).result = .ok ()) :
    (f.save now s).entity.AtRest ∧ (f.save now s).entity.model = m ∧
      (∀ key, ¬ m.Stamps key → (f.save now s).entity.get? key = f.get? key) ∧
      List.Forall₂ (Follows m id e (f.save now s).entity) (s.documents m.collection)
        ((f.save now s).store.documents m.collection) := by
  obtain ⟨hstoredUnique, -⟩ := Json.distinctKeys_object.mp he.distinct
  have hfmodel : f.model = m := hf.model.trans hmodel
  rcases save_cases he hf (fun hkey => (htouched _ hkey).2 rfl) hmodel hstamp hok with
    ⟨hclean, hsave⟩ | ⟨id', hid', hstamped, hleft, hdocs'⟩
  · rw [hsave]
    refine ⟨⟨hf.tracked, hf.stored ▸ he.distinct, hf.isStored.trans he.isStored, hclean⟩, hfmodel,
      fun _ _ => rfl, List.forall₂_same.mpr fun c hc => ?_⟩
    exact ⟨hdocs c hc, rfl, fun _ => rfl, fun _ hsame => hf.stored ▸ hsame⟩
  · cases hid'.symm.trans hid
    rw [hleft]
    refine ⟨hstamped.tracked.atRest_settled, (model_stamped now f).trans hfmodel,
      fun key hkey => get?_stamped (hfmodel ▸ hkey) now, ?_⟩
    rw [hdocs', List.forall₂_map_right_iff, List.forall₂_same]
    have hchanges : ∀ key ∈ (f.stamped now).changes, touched key := fun key hkey =>
      hstamped.touched_of_mem_changes he.tracked he.changes hkey
    exact fun c hc => follows_revised hstamped.tracked (hstamped.stored ▸ hstoredUnique)
      (fun key hkey => (htouched key (hchanges key hkey)).1)
      (fun hkey => (htouched _ (hchanges _ hkey)).2 rfl) hstamped.stored (hdocs c hc)

/-! ## Turns -/

/-- An entity that is marked as not deleted and has no stamp of a deletion. -/
def cleared (x : SoftDelete) (e : Entity) : Entity :=
  (e.set x.marker (.bool false)).unset x.stamp

theorem Revises.cleared (h : Revises touched e f) (hne : x.stamp ≠ x.marker)
    (hmarker : touched x.marker) (hstamp : touched x.stamp) :
    Revises touched e (f.cleared x) ∧ (f.cleared x).get? x.marker = some (.bool false) ∧
      (f.cleared x).get? x.stamp = none := by
  have hmarked : Revises touched e (f.set x.marker (.bool false)) := h.set hmarker rfl
  have hunique := hmarked.tracked.unique
  refine ⟨hmarked.unset hstamp, ?_, Document.get?_erase_self hunique _⟩
  exact (Document.get?_erase_of_ne hunique hne.symm).trans (Document.get?_insert_self _ _ _)

theorem restore_eq (h : e.model.softDelete = some x) (now : String) (s : Store) :
    e.restore now s = (e.cleared x).save now s := by
  rw [restore, h]
  rfl

/-- What a program can do with a stored entity that it keeps. -/
inductive Call where
  | save | delete | restore

/-- Some edits, and a call at some time. -/
structure Turn where
  edits : List Edit
  call : Call
  now : String

namespace Turn

def run (t : Turn) (e : Entity) (s : Store) : Outcome :=
  match t.call with
  | .save => (e.edited t.edits).save t.now s
  | .delete => (e.edited t.edits).delete t.now s
  | .restore => (e.edited t.edits).restore t.now s

/-- The entity that is saved in a turn. -/
def written (x : SoftDelete) (t : Turn) (e : Entity) : Entity :=
  match t.call with
  | .save => e.edited t.edits
  | .delete => ((e.edited t.edits).set x.marker (.bool true)).set x.stamp (.string t.now)
  | .restore => (e.edited t.edits).cleared x

/-- Whether the document is marked as deleted after a turn. -/
def mark (marked : Bool) (t : Turn) : Bool :=
  match t.call with
  | .save => marked
  | .delete => true
  | .restore => false

end Turn

/-- What is left after some turns, up to the first that fails. -/
def live : List Turn → Entity → Store → Outcome
  | [], e, s => ⟨.ok (), e, s⟩
  | t :: turns, e, s =>
    match (t.run e s).result with
    | .ok () => live turns (t.run e s).entity (t.run e s).store
    | .error _ => t.run e s

/-- Whether the last call that deleted or restored was one that deleted; nothing is marked before
the first one. -/
def lastMark (turns : List Turn) : Bool := turns.foldl Turn.mark false

variable {t : Turn} {turns : List Turn}

/-- Deleting and restoring are saves of an entity whose marker and stamp were set. -/
theorem Turn.run_eq (h : (e.edited t.edits).model.softDelete = some x) (s : Store) :
    t.run e s = (t.written x e).save t.now s := by
  unfold run written
  split
  · rfl
  · rw [delete, h]
  · exact restore_eq h _ s

/-- A stored entity without changes that has an identifier, and a stamp of its deletion exactly if it
is marked as deleted. -/
structure Held (m : Model) (x : SoftDelete) (id : DocumentId) (marked : Bool) (e : Entity) :
    Prop where
  atRest : e.AtRest
  model : e.model = m
  id : e.id? = some id
  marker : e.get? x.marker = some (.bool marked)
  stamp : (e.get? x.stamp).isSome = marked

theorem id?_of_get? (hmodel : f.model = e.model)
    (h : f.get? e.model.primaryKey = e.get? e.model.primaryKey) : f.id? = e.id? := by
  rw [id?, id?, hmodel, h]

/-- What is saved in a turn comes from the entity by edits of fields other than the key, and is
marked as the turn asks for. -/
theorem Held.written (hm : m.DeletesIn x) (h : Held m x id marked e)
    (hedits : ∀ edit ∈ t.edits, edit.Within (m.OtherField x)) :
    Revises (fun key => IsField key ∧ key ≠ m.primaryKey) e (t.written x e) ∧
      (t.written x e).get? x.marker = some (.bool (t.mark marked)) ∧
      ((t.written x e).get? x.stamp).isSome = t.mark marked := by
  have hother := revises_edited (.refl h.atRest.tracked) hedits
  have hedited : Revises (fun key => IsField key ∧ key ≠ m.primaryKey) e (e.edited t.edits) :=
    revises_edited (.refl h.atRest.tracked) fun edit hedit => (hedits edit hedit).mono
      fun key hkey => ⟨hkey.1, List.ne_of_not_mem_cons hkey.2⟩
  have hmarkerTouched : IsField x.marker ∧ x.marker ≠ m.primaryKey :=
    ⟨hm.marker.field, hm.marker_ne_key⟩
  have hstampTouched : IsField x.stamp ∧ x.stamp ≠ m.primaryKey := ⟨hm.stamp, hm.stamp_ne_key⟩
  unfold Turn.written Turn.mark
  cases t.call with
  | save =>
    refine ⟨hedited, ?_, ?_⟩
    · rw [hother.untouched x.marker fun hkey => hkey.2 (by simp [Model.lifeFields]), h.marker]
    · rw [hother.untouched x.stamp fun hkey => hkey.2 (by simp [Model.lifeFields]), h.stamp]
  | delete =>
    refine ⟨(hedited.set hmarkerTouched rfl).set hstampTouched rfl, ?_, ?_⟩
    · exact (Document.get?_insert_of_ne hm.stamp_ne_marker _ _).trans
        (Document.get?_insert_self _ _ _)
    · exact congrArg Option.isSome (Document.get?_insert_self _ _ _)
  | restore =>
    obtain ⟨hcleared, hmarker, hstamp⟩ :=
      hedited.cleared hm.stamp_ne_marker hmarkerTouched hstampTouched
    exact ⟨hcleared, hmarker, congrArg Option.isSome hstamp⟩

/-- A turn that succeeds leaves an entity that is marked as the turn asks for, and the documents
follow it. -/
theorem Held.turn (hm : m.DeletesIn x) (h : Held m x id marked e)
    (hedits : ∀ edit ∈ t.edits, edit.Within (m.OtherField x))
    (hdocs : ∀ c ∈ s.documents m.collection, c.Unique) (hok : (t.run e s).result = .ok ()) :
    Held m x id (t.mark marked) (t.run e s).entity ∧
      List.Forall₂ (Follows m id e (t.run e s).entity) (s.documents m.collection)
        ((t.run e s).store.documents m.collection) := by
  obtain ⟨hwritten, hmarker, hstamp⟩ := h.written hm hedits
  have hsoft : (e.edited t.edits).model.softDelete = some x := by
    rw [(revises_edited (.refl h.atRest.tracked) hedits).model, h.model, hm.soft]
  rw [Turn.run_eq hsoft] at hok ⊢
  have hnotStamps : ∀ {key}, key ∈ m.lifeFields x → ¬ m.Stamps key := hm.not_stamps
  obtain ⟨hrest, hmodel, hkept, hfollows⟩ := save_follows h.atRest hwritten (fun _ hkey => hkey)
    h.model (fun key hkey => ⟨(hm.updated key hkey).1, List.ne_of_not_mem_cons (hm.updated key hkey).2⟩)
    h.id hdocs hok
  refine ⟨⟨hrest, hmodel, ?_, ?_, ?_⟩, hfollows⟩
  · rw [← h.id]
    refine id?_of_get? (hmodel.trans h.model.symm) ?_
    rw [h.model, hkept _ (hnotStamps List.mem_cons_self), hwritten.untouched _ fun hkey => hkey.2 rfl]
  · rw [hkept _ (hnotStamps (by simp [Model.lifeFields])), hmarker]
  · rw [hkept _ (hnotStamps (by simp [Model.lifeFields])), hstamp]

/-- Turns that all succeed leave an entity that is marked as the last of them asks for that says
something about it, and the documents follow it. -/
theorem Held.live (hm : m.DeletesIn x) (h : Held m x id marked e)
    (hturns : ∀ t ∈ turns, ∀ edit ∈ t.edits, edit.Within (m.OtherField x))
    (hdocs : ∀ c ∈ s.documents m.collection, c.Unique)
    (hok : (Entity.live turns e s).result = .ok ()) :
    Held m x id (turns.foldl Turn.mark marked) (Entity.live turns e s).entity ∧
      List.Forall₂ (Follows m id e (Entity.live turns e s).entity) (s.documents m.collection)
        ((Entity.live turns e s).store.documents m.collection) := by
  induction turns generalizing e s marked with
  | nil => exact ⟨h, List.forall₂_same.mpr fun c hc => .refl (hdocs c hc)⟩
  | cons t turns ih =>
    obtain ⟨hedits, hturns⟩ := List.forall_mem_cons.mp hturns
    rw [Entity.live] at hok ⊢
    cases hrun : (t.run e s).result with
    | error err =>
      rw [hrun] at hok
      cases hrun.symm.trans hok
    | ok =>
      rw [hrun] at hok
      obtain ⟨hheld, hfollows⟩ := h.turn hm hedits hdocs hrun
      have hdocs' : ∀ c ∈ (t.run e s).store.documents m.collection, c.Unique := by
        intro c' hc'
        obtain ⟨c, -, hc⟩ := exists_of_mem_forall₂ hfollows hc'
        exact hc.unique
      obtain ⟨hlast, hfollows'⟩ := ih hheld hturns hdocs' hok
      refine ⟨hlast, (forall₂_trans hfollows hfollows').imp ?_⟩
      rintro c c'' ⟨c', hc, hc'⟩
      exact hc.trans hm.key.field hc'

/-! ## The document after all turns -/

/-- A document reflects an entity that was marked, or marked as not deleted: it is stored once and
holds what the entity holds, the mark and a stamp just if it is marked, and a read returns it if its
mode asks for that. -/
structure Reflects (schema : Schema) (m : Model) (x : SoftDelete) (id : DocumentId)
    (before after : List Document) (marked : Bool) (o : Outcome) (d' : Document) : Prop where
  stored : ∃ before' after', o.store.documents m.collection = before' ++ d' :: after' ∧
    before'.map m.idOf? = before.map m.idOf? ∧ after'.map m.idOf? = after.map m.idOf?
  fields : d'.same o.entity.attributes = true
  marker : d'.get? x.marker = some (.bool marked)
  stamp : (d'.get? x.stamp).isSome = marked
  visible : m.Returns schema o.store .hidden id (if marked then 0 else 1)
  trashed : m.Returns schema o.store .only id (if marked then 1 else 0)
  included : m.Returns schema o.store .included id 1

/-- An entity that is read from a document holds its identifier, and its mark as not deleted. -/
theorem Obtained.held (hobtained : Obtained schema s₀ m e)
    (hstored : (Json.object e.stored).distinctKeys = true)
    (hd : (Json.object d).distinctKeys = true) (hsame : d.same e.stored = true)
    (hmarker : d.get? x.marker = some (.bool false)) (hstamp : d.get? x.stamp = none)
    (hid : m.idOf? d = some id) : Held m x id false e := by
  obtain ⟨hfresh, hmodel⟩ := hobtained.fresh
  obtain ⟨hunique, -⟩ := Json.distinctKeys_object.mp hd
  obtain ⟨hunique', -⟩ := Json.distinctKeys_object.mp hstored
  refine ⟨hfresh.atRest hstored, hmodel, ?_, ?_, ?_⟩
  · rw [← hid, Model.idOf?_eq_of_same hd hstored hsame m, id?, hmodel, get?, ← hfresh.stored]
    rfl
  · rw [get?, ← hfresh.stored]
    exact (Document.get?_eq_bool_iff_of_same hunique hunique' hsame).mp hmarker
  · rw [get?, ← hfresh.stored, ← Document.isSome_get?_of_same hunique hunique' hsame, hstamp]
    rfl

section Life

variable (hm : m.DeletesIn x) (hobtained : Obtained schema s₀ m e)
  (hstored : (Json.object e.stored).distinctKeys = true)
  (hs : ∀ c ∈ s.documents m.collection, c.Unique)
  (hdocs : s.documents m.collection = before ++ d :: after)
  (hd : (Json.object d).distinctKeys = true) (hsame : d.same e.stored = true)
  (hmarker : d.get? x.marker = some (.bool false)) (hstamp : d.get? x.stamp = none)
  (hid : m.idOf? d = some id)
  (hturns : ∀ t ∈ turns, ∀ edit ∈ t.edits, edit.Within (m.OtherField x))
  (hok : (live turns e s).result = .ok ())

include hm hobtained hstored hs hdocs hd hsame hmarker hstamp hid hturns hok

/-- Only a document under the canonical form of its key comes to reflect the entity, unless it holds
what the entity holds in the end from the beginning. -/
theorem Reflects.found_or_same {d' : Document}
    (h : Reflects schema m x id before after (lastMark turns) (live turns e s) d') :
    d.get? m.primaryKey = some id.toJson ∨ d.same (live turns e s).entity.attributes = true := by
  have hheld := hobtained.held hstored hd hsame hmarker hstamp hid
  obtain ⟨-, hfollows⟩ := hheld.live hm hturns hs hok
  rw [hdocs] at hfollows
  obtain ⟨before', c', after', hsplit, hbefore, hc', -⟩ := exists_split_of_forall₂ hfollows
  obtain ⟨before'', after'', hsplit', hkeys, -⟩ := h.stored
  have hlength : before'.length = before''.length := by
    have hlength := congrArg List.length hkeys
    rw [List.length_map, List.length_map] at hlength
    rw [hlength, hbefore.length_eq]
  cases (List.append_inj (hsplit.symm.trans hsplit') hlength).2
  by_cases hhit : Filter.accepts d (m.keyFilter id) = .ok true
  · exact .inl ((hm.accepts_keyFilter_iff hid).mp hhit)
  · exact .inr (hc'.missed hhit ▸ h.fields)

/-- **The life of a document that is deleted softly.** An entity was read in full from the one
document with its key, which is not deleted. After any turns that all succeed, the document reflects
the entity, marked as the last call asks for that deleted or restored, exactly if it is stored under
the canonical form of its key, or holds what the entity holds in the end anyway. -/
theorem life_reflected_iff (honly : ∀ other ∈ before ++ after, m.idOf? other ≠ some id) :
    (∃ d', Reflects schema m x id before after (lastMark turns) (live turns e s) d') ↔
      d.get? m.primaryKey = some id.toJson ∨
        d.same (live turns e s).entity.attributes = true := by
  constructor
  · rintro ⟨d', h⟩
    exact h.found_or_same hm hobtained hstored hs hdocs hd hsame hmarker hstamp hid hturns hok
  · intro hfound
    have hheld := hobtained.held hstored hd hsame hmarker hstamp hid
    obtain ⟨hlast, hfollows⟩ := hheld.live hm hturns hs hok
    rw [hdocs] at hfollows
    obtain ⟨before', d', after', hsplit, hbefore, hd', hafter⟩ := exists_split_of_forall₂ hfollows
    have hfields : d'.same (live turns e s).entity.attributes = true := by
      by_cases hhit : Filter.accepts d (m.keyFilter id) = .ok true
      · exact Json.same_trans _ (hd'.hit hhit hsame) hlast.atRest.same
      · rw [hd'.missed hhit]
        exact hfound.resolve_left fun hkey => hhit ((hm.accepts_keyFilter_iff hid).mpr hkey)
    have hunique := hlast.atRest.tracked.unique
    have hmarker' : d'.get? x.marker = some (.bool (lastMark turns)) :=
      (Document.get?_eq_bool_iff_of_same hd'.unique hunique hfields).mpr hlast.marker
    have hstamp' : (d'.get? x.stamp).isSome = lastMark turns :=
      (Document.isSome_get?_of_same hd'.unique hunique hfields _).trans hlast.stamp
    have honly' : ∀ other ∈ before' ++ after', m.idOf? other ≠ some id := by
      intro other hother
      obtain ⟨c, hc, hfollows⟩ := exists_of_mem_forall₂ (List.rel_append hbefore hafter) hother
      exact Model.idOf?_of_key hfollows.key ▸ honly c hc
    have hreturns :=
      hm.returns schema hsplit ((Model.idOf?_of_key hd'.key).trans hid) honly' hmarker'
    have hkeys : before'.map m.idOf? = before.map m.idOf? :=
      map_eq_of_forall₂ (hbefore.imp fun _ _ hfollows => Model.idOf?_of_key hfollows.key)
    have hkeys' : after'.map m.idOf? = after.map m.idOf? :=
      map_eq_of_forall₂ (hafter.imp fun _ _ hfollows => Model.idOf?_of_key hfollows.key)
    refine ⟨d', ⟨before', after', hsplit, hkeys, hkeys'⟩, hfields, hmarker', hstamp', ?_, ?_, ?_⟩
    · cases hmark : lastMark turns <;> simpa [TrashedMode.marker?, hmark] using hreturns .hidden
    · simpa [TrashedMode.marker?] using hreturns .only
    · simpa [TrashedMode.marker?] using hreturns .included

end Life

end Entity

/-! ## An account that is deleted -/

namespace EditingSample

open Entity

/-- A program writes a note and deletes the account, restores it, and writes another note. -/
def restoring : List Turn :=
  [⟨[.set "note" (.string "new")], .delete, "now"⟩, ⟨[], .restore, "later"⟩,
    ⟨[.set "note" (.string "newer")], .save, "last"⟩]

def deleting : List Turn := [⟨[], .delete, "now"⟩]

theorem accountModel_deletesIn : accountModel.DeletesIn ⟨"archived", "archivedAt"⟩ where
  soft := rfl
  key := ⟨by decide, by decide⟩
  marker := ⟨by decide, by decide⟩
  stamp := by decide
  nodup := by decide
  updated := by
    rintro _ ⟨t, ⟨⟩, rfl⟩
    decide

theorem account_unique (key : String) :
    ∀ c ∈ (storeOf (account key)).documents accountModel.collection, c.Unique :=
  List.forall_mem_singleton.mpr (Json.distinctKeys_object.mp (account_distinct key)).1

theorem account_same (key : String) : (account key).same (found (account key)).stored = true :=
  Json.same_self _ (account_distinct key)

theorem restoring_within : ∀ t ∈ restoring, ∀ edit ∈ t.edits,
    edit.Within (accountModel.OtherField ⟨"archived", "archivedAt"⟩) := by
  have hnote : accountModel.OtherField ⟨"archived", "archivedAt"⟩ "note" :=
    ⟨by decide, by decide⟩
  simp only [restoring, List.forall_mem_cons, List.not_mem_nil, false_imp_iff, implies_true,
    and_true, true_and]
  exact ⟨.set hnote rfl, .set hnote rfl⟩

theorem result_eq_ok {o : Outcome} (h : o.result.isOk = true) : o.result = .ok () := by
  cases hr : o.result with
  | ok => rfl
  | error =>
    rw [hr] at h
    cases h

/-- An account under the canonical form of its key is there again after it was deleted and
restored. -/
theorem canonical_account_restored :
    ∃ d', Reflects schema accountModel ⟨"archived", "archivedAt"⟩ uid [] [] false
      (live restoring (found (account uid.canonical)) (storeOf (account uid.canonical))) d' := by
  have hok := result_eq_ok (o := live restoring (found (account uid.canonical))
    (storeOf (account uid.canonical))) (by decide +kernel)
  have hid : accountModel.idOf? (account uid.canonical) = some uid :=
    DocumentId.ofJson?_toJson uid
  exact (life_reflected_iff accountModel_deletesIn (obtained_found _) (account_distinct _)
    (account_unique _) rfl (account_distinct _) (account_same _) rfl rfl hid restoring_within hok
    fun _ hother => absurd hother List.not_mem_nil).mpr (.inl rfl)

/-- If the key is stored in upper case, deleting the account succeeds and leaves it there. -/
theorem upper_account_not_deleted :
    (live deleting (found (account upperKey)) (storeOf (account upperKey))).result = .ok () ∧
      accountModel.idOf? (account upperKey) = some uid ∧
      ¬ ∃ d', Reflects schema accountModel ⟨"archived", "archivedAt"⟩ uid [] [] true
        (live deleting (found (account upperKey)) (storeOf (account upperKey))) d' := by
  have hok := result_eq_ok (o := live deleting (found (account upperKey))
    (storeOf (account upperKey))) (by decide +kernel)
  have hid : accountModel.idOf? (account upperKey) = some uid := by decide +kernel
  refine ⟨hok, hid, fun ⟨d', h⟩ => ?_⟩
  have hwithin : ∀ t ∈ deleting, ∀ edit ∈ t.edits,
      edit.Within (accountModel.OtherField ⟨"archived", "archivedAt"⟩) :=
    List.forall_mem_singleton.mpr fun _ hedit => absurd hedit List.not_mem_nil
  rcases h.found_or_same accountModel_deletesIn (obtained_found _) (account_distinct _)
    (account_unique _) rfl (account_distinct _) (account_same _) rfl rfl hid hwithin hok
    with hkey | hsame
  · have hupper : upperKey = uid.canonical := Json.string.inj (Option.some.inj hkey)
    exact absurd hupper (by decide +kernel)
  · revert hsame
    decide +kernel

end EditingSample

end DocMapper
