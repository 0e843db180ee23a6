import DocMapper.Proofs.Entity.Counting
import DocMapper.Proofs.Entity.Deletion
import DocMapper.Proofs.Entity.Finding

/-! # Deleting many documents at once

The documents with some identifiers can be deleted in two ways: at once, by one change of the
collection that is addressed to all of the identifiers (`Model.destroy`), or one by one, by loading
each of them and deleting its entity (`Model.deleteEach`). Where documents are removed, both leave the
same documents. Where they are marked as deleted, both mark and stamp the documents that are not marked
and stamped yet; but an entity is also stamped as updated when its changes are saved. So the two ways
agree exactly if every document that a deletion changes was stamped as updated at the same time before
(`Model.destroy_agrees_iff`).

What a deletion writes under a field does not depend on the document (`Model.Assigns`), so it does not
matter that an entity sends its changes to all documents with its key, nor that a document is loaded
several times: what several deletions leave of a document is what some of them write, and else what
it held (`Model.Deleted`). -/

namespace DocMapper

namespace Store

/-- Of two changes of a collection, the later one counts. -/
theorem documents_put_put (s : Store) (name : String) (docs docs' : List Document) :
    ((s.put name docs).put name docs').documents = (s.put name docs').documents := by
  funext other
  rw [documents_put, documents_put, documents_put]
  split <;> rfl

end Store

/-! ## Deleting one by one -/

/-- Deletes entities one after the other, up to the first that fails. -/
def Entity.deleteAll (now : String) : List Entity → Action Unit
  | [], s => (.ok (), s)
  | e :: es, s =>
    match (e.delete now s).result with
    | .ok () => deleteAll now es (e.delete now s).store
    | .error err => (.error err, (e.delete now s).store)

namespace Model

/-- Loads the documents with each of the given identifiers in full, deleted or not, and then deletes
them one after the other. -/
def deleteEach (schema : Schema) (now : String) (m : Model) (ids : List Json) : Action Unit := fun s =>
  let loaded : Except Error (List (List Entity)) := do
    (← DocumentId.ofJsons ids).mapM fun id => (Entity.byId m id).get schema s
  match loaded with
  | .error err => (.error err, s)
  | .ok found => Entity.deleteAll now found.flatten s

variable {m : Model} {s t : Store} {docs : List Document} {id : DocumentId} {ids : List DocumentId}
  {c d : Document} {now : String}

/-! ## Documents with an identifier -/

/-- Under the primary key, documents hold identifiers in their canonical form, if anything. -/
def CanonicalKeys (m : Model) (docs : List Document) : Prop :=
  ∀ d ∈ docs, ∀ v, d.get? m.primaryKey = some v → ∃ id : DocumentId, v = id.toJson

/-- A document holds an identifier in its canonical form. -/
def hasKey (m : Model) (id : DocumentId) (d : Document) : Bool :=
  d.textAt m.primaryKey == some id.canonical

/-- A document holds one of some identifiers. -/
def addresses (m : Model) (ids : List DocumentId) (d : Document) : Bool :=
  ids.any fun id => m.hasKey id d

theorem hasKey_iff : m.hasKey id d = true ↔ d.get? m.primaryKey = some id.toJson := by
  rw [hasKey, beq_iff_eq]
  exact ⟨Document.get?_of_textAt, Document.textAt_of_get?⟩

theorem equals_key (hfield : IsField m.primaryKey) (h : m.CanonicalKeys docs) (hd : d ∈ docs)
    (id : DocumentId) : Filter.equals d m.primaryKey id.toJson = m.hasKey id d := by
  refine Filter.equals_string hfield (fun items hitems => ?_) _
  obtain ⟨_, hid⟩ := h d hd _ hitems
  cases hid

/-- The filter for an identifier finds the documents that hold it. -/
theorem accepts_keyFilter (hkey : IsPlain m.primaryKey) (h : m.CanonicalKeys docs) (hd : d ∈ docs)
    (id : DocumentId) : Filter.accepts d (m.keyFilter id) = .ok (m.hasKey id d) := by
  rw [keyFilter, ← equals_key hkey.field h hd id]
  exact Filter.accepts_single hkey.noDollar (Filter.conditionHolds_of_scalar rfl d _)

/-- The filter for several identifiers finds the documents that hold one of them. -/
theorem accepts_anyKey (hkey : IsPlain m.primaryKey) (h : m.CanonicalKeys docs) (hd : d ∈ docs)
    (ids : List DocumentId) :
    Filter.accepts d (.single m.primaryKey (.single "$in" (.array (ids.map (·.toJson))))) =
      .ok (m.addresses ids d) := by
  have hany : (ids.map (·.toJson)).any (Filter.equals d m.primaryKey) = m.addresses ids d := by
    rw [List.any_map, addresses]
    exact congrArg _ (funext (equals_key hkey.field h hd))
  rw [← hany]
  exact Filter.accepts_single hkey.noDollar (Filter.conditionHolds_in d _ _)

/-- The documents that are loaded for an identifier are those that hold it. -/
theorem get_byId (schema : Schema) (hkey : IsPlain m.primaryKey)
    (h : m.CanonicalKeys (s.documents m.collection)) (id : DocumentId) :
    (Entity.byId m id).get schema s =
      .ok (((s.documents m.collection).filter (m.hasKey id)).map (Entity.ofDocument m · [])) := by
  obtain ⟨stage, hstage, hrun⟩ := Query.run_equalStage hkey.noDollar id.toJson
  have hfound : (s.documents m.collection).filter
      (fun d => Filter.equals d m.primaryKey id.toJson) =
        (s.documents m.collection).filter (m.hasKey id) :=
    List.filter_congr fun d hd => equals_key hkey.field h hd id
  have hnone : (m.policy .included).stage? = none := by
    rw [policy]
    cases m.softDelete <;> rfl
  refine Query.get_eq_ok.mpr ⟨{}, _, _, Relation.loadAll_nil _ _ _,
    (Query.stagesWith_eq_ok (Query.readsAlias_nil _)).mpr ⟨none, stage, rfl, rfl, hstage, rfl⟩,
    ?_, rfl⟩
  show Stage.runAll s.documents ((m.policy .included).stage?.toList ++ [] ++ stage.toList ++ [] ++ [] ++
    []) (s.documents m.collection) = _
  rw [hnone]
  simp only [Option.toList_none, List.append_nil, List.nil_append]
  rw [← List.append_nil stage.toList, hrun, hfound]
  rfl

/-- What is loaded for several identifiers are the entities of documents of the collection that hold
one of them, and of all of these. -/
theorem exists_loaded (schema : Schema) (hkey : IsPlain m.primaryKey)
    (h : m.CanonicalKeys (s.documents m.collection)) (ids : List DocumentId) :
    ∃ (found : List (List Entity)) (loaded : List Document), ids.mapM (fun id => (Entity.byId m id).get schema s) = .ok found ∧
      found.flatten = loaded.map (Entity.ofDocument m · []) ∧
      ∀ d, d ∈ loaded ↔ d ∈ s.documents m.collection ∧ m.addresses ids d = true := by
  refine ⟨_, ids.flatMap fun id => (s.documents m.collection).filter (m.hasKey id),
    mapM_ok fun id _ => get_byId schema hkey h id, ?_, fun d => ?_⟩
  · rw [List.map_flatMap, List.flatMap_def]
  · simp only [addresses, List.mem_flatMap, List.mem_filter, List.any_eq_true]
    tauto

/-- Two documents have the same key, and it is a text. -/
def sharesKey (m : Model) (c d : Document) : Bool := c.textAt m.primaryKey == d.textAt m.primaryKey

theorem sharesKey_of_hasKey (hid : m.hasKey id d = true) (c : Document) :
    m.sharesKey c d = m.hasKey id c := by
  rw [hasKey, beq_iff_eq] at hid
  rw [sharesKey, hasKey, hid]

/-- A document shares its key with one of those that hold one of some identifiers exactly if it holds
one of them. -/
theorem any_sharesKey {loaded : List Document} (hc : c ∈ docs)
    (hloaded : ∀ d, d ∈ loaded ↔ d ∈ docs ∧ m.addresses ids d = true) :
    loaded.any (m.sharesKey c) = m.addresses ids c := by
  rw [Bool.eq_iff_iff, List.any_eq_true]
  constructor
  · rintro ⟨d, hd, hshares⟩
    obtain ⟨id, hid, hhas⟩ := List.any_eq_true.mp ((hloaded d).mp hd).2
    rw [sharesKey_of_hasKey hhas] at hshares
    exact List.any_eq_true.mpr ⟨id, hid, hshares⟩
  · intro haddressed
    exact ⟨c, (hloaded c).mpr ⟨hc, haddressed⟩, beq_self_eq_true _⟩

end Model

namespace Entity

variable {m : Model} {x : SoftDelete} {s : Store} {id : DocumentId} {c c' c'' d : Document}
  {loaded : List Document} {now key : String} {v : Json}

theorem deleteAll_cons {e : Entity} (h : (e.delete now s).result = .ok ()) (es : List Entity) :
    deleteAll now (e :: es) s = deleteAll now es (e.delete now s).store := by
  rw [deleteAll, h]

theorem requireId_ofDocument (hid : m.hasKey id d = true) :
    (ofDocument m d []).requireId = .ok id := by
  have hread : (ofDocument m d []).id? = some id := by
    show (d.get? m.primaryKey).bind DocumentId.ofJson? = some id
    rw [Model.hasKey_iff.mp hid, Option.bind_some, DocumentId.ofJson?_toJson]
  rw [requireId, hread]

/-! ## Removing -/

/-- Deleting an entity whose model does not delete softly removes the documents with its key. -/
theorem delete_removes (now : String) (hkey : IsPlain m.primaryKey) (hhard : m.softDelete = none)
    (h : m.CanonicalKeys (s.documents m.collection)) (hid : m.hasKey id d = true) :
    ((ofDocument m d []).delete now s).result = .ok () ∧
      ((ofDocument m d []).delete now s).store.documents = (s.put m.collection
        ((s.documents m.collection).filter fun c => !m.sharesKey c d)).documents := by
  obtain ⟨n, t, hrun, -, hdocs, hothers⟩ := Store.deleteMany_ok
    fun c hc => Model.accepts_keyFilter hkey h hc id
  have hdelete : (ofDocument m d []).delete now s =
      ⟨.ok (), { ofDocument m d [] with isStored := false }, t⟩ := by
    have hsoft : (ofDocument m d []).model.softDelete = none := hhard
    rw [delete, hsoft]
    have hremoved : Store.deleteMany (ofDocument m d []).model.collection
        ((ofDocument m d []).model.keyFilter id) s = (.ok n, t) := hrun
    show forceDelete _ s = _
    rw [forceDelete, requireId_ofDocument hid]
    simp only [hremoved]
  rw [hdelete]
  refine ⟨rfl, funext fun name => ?_⟩
  simp only [Model.sharesKey_of_hasKey hid]
  by_cases hname : name = m.collection
  · rw [hname, hdocs, Store.documents_put_self]
  · rw [hothers name hname, Store.documents_put_of_ne hname]

/-- Deleting loaded entities one by one removes the documents with one of their keys. -/
theorem deleteAll_removes (now : String) (hkey : IsPlain m.primaryKey) (hhard : m.softDelete = none)
    (h : m.CanonicalKeys (s.documents m.collection))
    (hloaded : ∀ d ∈ loaded, ∃ id, m.hasKey id d = true) :
    ∃ t, deleteAll now (loaded.map (ofDocument m · [])) s = (.ok (), t) ∧
      t.documents = (s.put m.collection
        ((s.documents m.collection).filter fun c => !loaded.any (m.sharesKey c))).documents := by
  induction loaded generalizing s with
  | nil =>
    refine ⟨s, rfl, ?_⟩
    simp [Store.documents_put_documents]
  | cons d loaded ih =>
    obtain ⟨⟨id, hid⟩, hrest⟩ := List.forall_mem_cons.mp hloaded
    obtain ⟨hok, hdocs⟩ := delete_removes now hkey hhard h hid
    have hleft : ((ofDocument m d []).delete now s).store.documents m.collection =
        (s.documents m.collection).filter fun c => !m.sharesKey c d := by
      rw [hdocs, Store.documents_put_self]
    obtain ⟨t, hrun, ht⟩ := ih (s := ((ofDocument m d []).delete now s).store)
      (fun c hc => h c (List.mem_of_mem_filter (hleft ▸ hc))) hrest
    refine ⟨t, ?_, ?_⟩
    · rw [List.map_cons, deleteAll_cons hok]
      exact hrun
    · rw [ht, hleft, List.filter_filter, Store.documents_put_congr hdocs, Store.documents_put_put]
      simp only [List.any_cons, Bool.not_or, Bool.and_comm]

end Entity

/-! ## Marking as deleted -/

namespace Model

variable {m : Model} {x : SoftDelete} {c c' c'' d : Document} {loaded : List Document}
  {now key : String} {v w : Json}

/-- What a deletion writes under a field: that a document is deleted, and when it was deleted and
updated. -/
def Assigns (m : Model) (x : SoftDelete) (now key : String) (v : Json) : Prop :=
  key = x.marker ∧ v = .bool true ∨ (key = x.stamp ∨ m.Stamps key) ∧ v = .string now

/-- A deletion changes a document, unless it is marked as deleted and was deleted at this time. -/
def ChangedBy (x : SoftDelete) (now : String) (d : Document) : Prop :=
  d.get? x.marker ≠ some (.bool true) ∨ d.get? x.stamp ≠ some (.string now)

/-- Deleting the entity of a document writes a value under a field that does not hold it yet. -/
structure Writes (m : Model) (x : SoftDelete) (now : String) (d : Document) (key : String)
    (v : Json) : Prop where
  assigns : m.Assigns x now key v
  changed : ChangedBy x now d
  differs : d.get? key ≠ some v

/-- What is left of a document after entities of documents were deleted: what the deletions of those
with its key write, and under other fields what it held. -/
structure Deleted (m : Model) (x : SoftDelete) (now : String) (loaded : List Document)
    (c c' : Document) : Prop where
  unique : c'.Unique
  written : ∀ d ∈ loaded, m.sharesKey c d = true → ∀ key v, m.Writes x now d key v →
    c'.get? key = some v
  kept : ∀ key, (∀ d ∈ loaded, m.sharesKey c d = true → ∀ v, ¬ m.Writes x now d key v) →
    c'.get? key = c.get? key

section Plain

variable (hm : m.DeletesIn x)

include hm

/-- The field says what is written under it. -/
theorem Assigns.eq (h : m.Assigns x now key v) (h' : m.Assigns x now key w) : v = w := by
  have hmarker : ¬ (x.marker = x.stamp ∨ m.Stamps x.marker) := by
    rintro (heq | hstamps)
    · exact hm.stamp_ne_marker heq.symm
    · exact hm.not_stamps (by simp [lifeFields]) hstamps
  rcases h with ⟨hkey, rfl⟩ | ⟨hkey, rfl⟩
  · rcases h' with ⟨-, rfl⟩ | ⟨hkey', -⟩
    · rfl
    · exact absurd (hkey ▸ hkey') hmarker
  · rcases h' with ⟨hkey', -⟩ | ⟨-, rfl⟩
    · exact absurd (hkey' ▸ hkey) hmarker
    · rfl

/-- Nothing is written under the primary key. -/
theorem Assigns.ne_key (h : m.Assigns x now key v) : key ≠ m.primaryKey := by
  rcases h with ⟨rfl, -⟩ | ⟨rfl | hstamps, -⟩
  · exact hm.marker_ne_key
  · exact hm.stamp_ne_key
  · exact List.ne_of_not_mem_cons (hm.updated _ hstamps).2

theorem Assigns.isField (h : m.Assigns x now key v) : IsField key := by
  rcases h with ⟨rfl, -⟩ | ⟨rfl | hstamps, -⟩
  · exact hm.marker.field
  · exact hm.stamp
  · exact (hm.updated _ hstamps).1

theorem Deleted.get?_key (h : m.Deleted x now loaded c c') :
    c'.get? m.primaryKey = c.get? m.primaryKey :=
  h.kept _ fun _ _ _ _ hwrites => hwrites.assigns.ne_key hm rfl

theorem Deleted.sharesKey (h : m.Deleted x now loaded c c') (d : Document) :
    m.sharesKey c' d = m.sharesKey c d := by
  rw [Model.sharesKey, Model.sharesKey, Document.textAt, h.get?_key hm, Document.textAt]
  rfl

/-- One deletion and then several others. -/
theorem Deleted.cons (h : m.Deleted x now [d] c c') (h' : m.Deleted x now loaded c' c'') :
    m.Deleted x now (d :: loaded) c c'' := by
  refine ⟨h'.unique, fun e he hshares key v hwrites => ?_, fun key hnone => ?_⟩
  · by_cases hlater : ∃ e ∈ loaded, m.sharesKey c e = true ∧ ∃ w, m.Writes x now e key w
    · obtain ⟨e', he', hshares', w, hwrites'⟩ := hlater
      rw [hwrites.assigns.eq hm hwrites'.assigns]
      exact h'.written e' he' ((h.sharesKey hm e').trans hshares') key w hwrites'
    · -- Nothing is written under the field later, so it is this one document that counts.
      have hnone : ∀ e' ∈ loaded, m.sharesKey c e' = true → ∀ w, ¬ m.Writes x now e' key w :=
        fun e' he' hshares' w hwrites' => hlater ⟨e', he', hshares', w, hwrites'⟩
      rw [h'.kept key fun e' he' hshares' => hnone e' he' ((h.sharesKey hm e').symm.trans hshares')]
      rcases List.mem_cons.mp he with rfl | he
      · exact h.written e List.mem_cons_self hshares key v hwrites
      · exact absurd hwrites (hnone e he hshares v)
  · obtain ⟨hfirst, hrest⟩ := List.forall_mem_cons.mp hnone
    rw [h'.kept key fun e he hshares => hrest e he ((h.sharesKey hm e).symm.trans hshares)]
    exact h.kept key (List.forall_mem_singleton.mpr hfirst)

end Plain

end Model

namespace Entity

variable {m : Model} {x : SoftDelete} {s : Store} {id : DocumentId} {c d : Document}
  {loaded : List Document} {now key : String} {v : Json}

/-- The entity that deleting the entity of a document saves. -/
def markedOf (m : Model) (x : SoftDelete) (now : String) (d : Document) : Entity :=
  (ofDocument m d []).marked x now

theorem revises_markedOf {P : String → Prop} (hmarker : P x.marker) (hstamp : P x.stamp)
    (hd : (Json.object d).distinctKeys = true) (now : String) :
    Revises P (ofDocument m d []) (markedOf m x now d) :=
  ((Revises.refl ((fresh_ofDocument m d []).tracked hd)).set hmarker rfl).set hstamp rfl

theorem revises_stamped_markedOf (hd : (Json.object d).distinctKeys = true) (now : String) :
    Revises (fun key => ∃ v, m.Assigns x now key v) (ofDocument m d [])
      ((markedOf m x now d).stamped now) :=
  (revises_markedOf ⟨_, .inl ⟨rfl, rfl⟩⟩ ⟨_, .inr ⟨.inl rfl, rfl⟩⟩ hd now).stamped
    (fun t ht => ⟨_, .inr ⟨.inr ⟨t, ht, rfl⟩, rfl⟩⟩) now

/-- The entity that is saved holds what a deletion writes. -/
theorem get?_stamped_markedOf (hm : m.DeletesIn x) (h : m.Assigns x now key v) (d : Document) :
    ((markedOf m x now d).stamped now).get? key = some v := by
  have hmodel : (markedOf m x now d).model = m := rfl
  rcases h with ⟨rfl, rfl⟩ | ⟨hkey, rfl⟩
  · rw [get?_stamped (hm.not_stamps (by simp [Model.lifeFields]))]
    exact (Document.get?_insert_of_ne hm.stamp_ne_marker _ _).trans (Document.get?_insert_self _ _ _)
  · by_cases hstamps : m.Stamps key
    · obtain ⟨t, ht, rfl⟩ := hstamps
      have ht' : (markedOf m x now d).model.timestamps = some t := ht
      rw [stamped, ht']
      exact Document.get?_insert_self _ _ _
    · obtain rfl := hkey.resolve_right hstamps
      rw [get?_stamped hstamps]
      exact Document.get?_insert_self _ _ _

/-- What a deletion writes counts as the same as a value exactly if it is that value. -/
theorem same_assigned_iff (h : m.Assigns x now key v) (found : Option Json) :
    (found == some v) = true ↔ found = some v := by
  cases found with
  | none => simp
  | some w =>
    show w.same v = true ↔ some w = some v
    rw [Option.some.injEq]
    rcases h with ⟨-, rfl⟩ | ⟨-, rfl⟩
    · exact Json.same_bool_iff
    · cases w <;> simp [Json.same]

/-- The changes that are saved are what the deletion writes under fields that do not hold it yet. -/
theorem mem_changes_iff (hm : m.DeletesIn x) (hd : (Json.object d).distinctKeys = true) :
    key ∈ ((markedOf m x now d).stamped now).changes ↔
      ∃ v, m.Assigns x now key v ∧ d.get? key ≠ some v := by
  have hstamped := revises_stamped_markedOf (m := m) (x := x) hd now
  have hstored : ((markedOf m x now d).stamped now).stored = d := hstamped.stored
  constructor
  · intro hkey
    obtain ⟨v, hv⟩ := hstamped.touched_of_mem_changes ((fresh_ofDocument m d []).tracked hd) rfl hkey
    refine ⟨v, hv, fun hsame => ?_⟩
    have hchanged := (hstamped.tracked.changes key).mp hkey
    rw [hstored, ← get?, get?_stamped_markedOf hm hv,
      (same_assigned_iff hv _).mpr hsame] at hchanged
    cases hchanged
  · rintro ⟨v, hv, hdiffers⟩
    rw [hstamped.tracked.changes, hstored, ← get?, get?_stamped_markedOf hm hv, Bool.eq_false_iff]
    exact fun hsame => hdiffers ((same_assigned_iff hv _).mp hsame)

/-- Marking the entity of a document changes it exactly if the deletion changes the document. -/
theorem isDirty_markedOf_iff (hm : m.DeletesIn x) (hd : (Json.object d).distinctKeys = true) :
    (markedOf m x now d).isDirty = true ↔ Model.ChangedBy x now d := by
  have hmem : ∀ key v, key ∈ m.lifeFields x → m.Assigns x now key v →
      (key ∈ (markedOf m x now d).changes ↔ d.get? key ≠ some v) := by
    intro key v hlife hv
    have hstamps : ¬ (markedOf m x now d).model.Stamps key := hm.not_stamps hlife
    rw [← mem_changes_stamped hstamps now, mem_changes_iff hm hd]
    constructor
    · rintro ⟨w, hw, hdiffers⟩
      rwa [hv.eq hm hw]
    · exact fun hdiffers => ⟨v, hv, hdiffers⟩
  have hmarker := hmem x.marker (.bool true) (by simp [Model.lifeFields]) (.inl ⟨rfl, rfl⟩)
  have hstamp := hmem x.stamp (.string now) (by simp [Model.lifeFields]) (.inr ⟨.inl rfl, rfl⟩)
  rw [Model.ChangedBy, ← hmarker, ← hstamp]
  constructor
  · intro hdirty
    obtain ⟨key, hkey⟩ := List.exists_mem_of_ne_nil (markedOf m x now d).changes (fun hnil => by
      rw [isDirty_eq_false.mpr hnil] at hdirty
      cases hdirty)
    have hrevises := revises_markedOf (P := fun key => key = x.marker ∨ key = x.stamp) (m := m)
      (.inl rfl) (.inr rfl) hd now
    have htouched := hrevises.touched_of_mem_changes ((fresh_ofDocument m d []).tracked hd) rfl hkey
    rcases htouched with rfl | rfl
    · exact .inl hkey
    · exact .inr hkey
  · intro hchanged
    refine (Bool.not_eq_false _).mp fun hclean => ?_
    rw [isDirty_eq_false.mp hclean] at hchanged
    simp at hchanged

/-- Deleting the entity of a document writes to the documents with its key. -/
theorem delete_marks (now : String) (hm : m.DeletesIn x) (hd : (Json.object d).distinctKeys = true)
    (h : m.CanonicalKeys (s.documents m.collection))
    (hdocs : ∀ c ∈ s.documents m.collection, c.Unique) (hid : m.hasKey id d = true) :
    ((ofDocument m d []).delete now s).result = .ok () ∧
      ∃ f : Document → Document,
        ((ofDocument m d []).delete now s).store.documents =
          (s.put m.collection ((s.documents m.collection).map f)).documents ∧
        ∀ c ∈ s.documents m.collection, m.Deleted x now [d] c (f c) := by
  have hdelete : (ofDocument m d []).delete now s = (markedOf m x now d).save now s :=
    delete_of_soft hm.soft now s
  rw [hdelete]
  have hflag : (markedOf m x now d).isStored = true := rfl
  cases hdirty : (markedOf m x now d).isDirty with
  | false =>
    rw [save_of_clean hflag hdirty]
    refine ⟨rfl, fun c => c, ?_, fun c hc => ⟨hdocs c hc, ?_, fun _ _ => rfl⟩⟩
    · rw [List.map_id', Store.documents_put_documents]
    · intro e he _ key v hwrites
      rw [List.mem_singleton.mp he] at hwrites
      have hchanged := (isDirty_markedOf_iff hm hd).mpr hwrites.changed
      rw [hdirty] at hchanged
      cases hchanged
  | true =>
    have hstamped := revises_stamped_markedOf (m := m) (x := x) hd now
    have hrequired : ((markedOf m x now d).stamped now).requireId = .ok id := by
      rw [hstamped.requireId_eq fun ⟨v, hv⟩ => hv.ne_key hm rfl, requireId_ofDocument hid]
    have hupdate := Store.updateMany_ok (ofJson_pendingUpdate ((markedOf m x now d).stamped now))
      fun c hc => Model.accepts_keyFilter hm.key h hc id
    have hmodel : ((markedOf m x now d).stamped now).model = m := model_stamped now _
    rw [save, if_pos hflag, update_eq, hdirty, hrequired, hmodel]
    simp only [hupdate]
    refine ⟨rfl, _, Store.documents_countedIf _ _, fun c hc => ?_⟩
    have hfields : ∀ key ∈ ((markedOf m x now d).stamped now).changes, IsField key := by
      intro key hkey
      obtain ⟨v, hv, -⟩ := (mem_changes_iff hm hd).mp hkey
      exact hv.isField hm
    have hget := get?_apply_pending (hdocs c hc) hfields
    by_cases hhas : m.hasKey id c = true
    · rw [if_pos hhas]
      refine ⟨Update.unique_apply (hdocs c hc) _, fun e he _ key v hwrites => ?_, fun key hnone => ?_⟩
      · rw [List.mem_singleton.mp he] at hwrites
        rw [hget, if_pos ((mem_changes_iff hm hd).mpr ⟨v, hwrites.assigns, hwrites.differs⟩),
          get?_stamped_markedOf hm hwrites.assigns]
      · rw [hget, if_neg]
        intro hkey
        obtain ⟨v, hv, hdiffers⟩ := (mem_changes_iff hm hd).mp hkey
        have hshares : m.sharesKey c d = true := (Model.sharesKey_of_hasKey hid c).trans hhas
        exact hnone d List.mem_cons_self hshares v
          ⟨hv, (isDirty_markedOf_iff hm hd).mp hdirty, hdiffers⟩
    · rw [if_neg hhas]
      refine ⟨hdocs c hc, fun e he hshares => ?_, fun _ _ => rfl⟩
      rw [List.mem_singleton.mp he, Model.sharesKey_of_hasKey hid] at hshares
      exact absurd hshares hhas

/-- Deleting loaded entities one by one writes to the documents with one of their keys. -/
theorem deleteAll_marks (now : String) (hm : m.DeletesIn x) (h : m.CanonicalKeys (s.documents m.collection))
    (hdocs : ∀ c ∈ s.documents m.collection, c.Unique)
    (hloaded : ∀ d ∈ loaded, (Json.object d).distinctKeys = true ∧ ∃ id, m.hasKey id d = true) :
    ∃ t f, deleteAll now (loaded.map (ofDocument m · [])) s = (.ok (), t) ∧
      t.documents = (s.put m.collection ((s.documents m.collection).map f)).documents ∧
      ∀ c ∈ s.documents m.collection, m.Deleted x now loaded c (f c) := by
  induction loaded generalizing s with
  | nil =>
    refine ⟨s, fun c => c, rfl, ?_, fun c hc => ⟨hdocs c hc, nofun, fun _ _ => rfl⟩⟩
    rw [List.map_id', Store.documents_put_documents]
  | cons d loaded ih =>
    obtain ⟨⟨hd, id, hid⟩, hrest⟩ := List.forall_mem_cons.mp hloaded
    obtain ⟨hok, f, hmarked, hfirst⟩ := delete_marks now hm hd h hdocs hid
    have hleft : ((ofDocument m d []).delete now s).store.documents m.collection =
        (s.documents m.collection).map f := by
      rw [hmarked, Store.documents_put_self]
    have hkeys : m.CanonicalKeys ((s.documents m.collection).map f) := by
      intro c' hc' v hv
      obtain ⟨c, hc, rfl⟩ := List.mem_map.mp hc'
      exact h c hc v (((hfirst c hc).get?_key hm).symm.trans hv)
    obtain ⟨t, g, hrun, ht, hothers⟩ := ih (s := ((ofDocument m d []).delete now s).store)
      (hleft ▸ hkeys) (by
        rw [hleft]
        exact List.forall_mem_map.mpr fun c hc => (hfirst c hc).unique) hrest
    refine ⟨t, g ∘ f, ?_, ?_, fun c hc => ?_⟩
    · rw [List.map_cons, deleteAll_cons hok]
      exact hrun
    · rw [ht, hleft, List.map_map, Store.documents_put_congr hmarked, Store.documents_put_put]
    · refine (hfirst c hc).cons hm (hothers (f c) ?_)
      rw [hleft]
      exact List.mem_map_of_mem hc

end Entity

namespace Model

variable {m : Model} {x : SoftDelete} {s : Store} {c d c' : Document} {loaded : List Document}
  {ids : List DocumentId} {now key : String}

/-! ## Deleting at once -/

/-- What marks a document as deleted. -/
def deletionOf (x : SoftDelete) (now : String) : Update where
  set := Document.insert [(x.marker, .bool true)] x.stamp (.string now)

theorem ofJson_deletionUpdate (x : SoftDelete) (now : String) :
    Update.ofJson (deletionUpdate now x) = .ok (deletionOf x now) := rfl

/-- A deletion at once writes the mark and the time of the deletion. -/
theorem get?_deletionOf (hm : m.DeletesIn x) (now : String) (c : Document) (key : String) :
    ((deletionOf x now).apply c).get? key =
      if key = x.stamp then some (.string now)
      else if key = x.marker then some (.bool true) else c.get? key := by
  have hset : (deletionOf x now).set = [(x.marker, .bool true), (x.stamp, .string now)] :=
    if_neg hm.stamp_ne_marker.symm
  have happly : (deletionOf x now).apply c =
      (c.insert x.marker (.bool true)).insert x.stamp (.string now) := by
    show Update.setAll c (deletionOf x now).set = _
    rw [hset, Update.setAll_eq_merge]
    · rfl
    · simp [hm.marker.field, hm.stamp]
  rw [happly, Document.get?_insert, Document.get?_insert]
  simp only [eq_comm]

/-- What a deletion at once makes of a document. -/
def destroyed (m : Model) (x : SoftDelete) (now : String) (ids : List DocumentId) (c : Document) :
    Document :=
  if m.addresses ids c then (deletionOf x now).apply c else c

theorem unique_destroyed (hc : c.Unique) : (m.destroyed x now ids c).Unique := by
  rw [destroyed]
  split
  · exact Update.unique_apply hc _
  · exact hc

/-- The documents that a deletion changes were updated at its time already, if their model says when
they were updated. -/
def UpdatedBefore (m : Model) (x : SoftDelete) (now : String) (ids : List DocumentId)
    (docs : List Document) : Prop :=
  ∀ d ∈ docs, m.addresses ids d = true → ChangedBy x now d → ∀ key, m.Stamps key →
    d.get? key = some (.string now)

section Agreement

variable (hm : m.DeletesIn x) (hc : c ∈ s.documents m.collection)
  (hloaded : ∀ d, d ∈ loaded ↔ d ∈ s.documents m.collection ∧ m.addresses ids d = true)
  (hdeleted : m.Deleted x now loaded c c')

include hm hc hloaded hdeleted

/-- A document that was addressed is marked as deleted, and was deleted at this time. -/
theorem Deleted.get?_life (haddressed : m.addresses ids c = true) {v : Json}
    (hv : m.Assigns x now key v) (hkey : key = x.marker ∨ key = x.stamp) :
    c'.get? key = some v := by
  have hself : m.sharesKey c c = true := beq_self_eq_true _
  have hmem := (hloaded c).mpr ⟨hc, haddressed⟩
  by_cases hwritten : ∃ d ∈ loaded, m.sharesKey c d = true ∧ ∃ w, m.Writes x now d key w
  · obtain ⟨d, hd, hshares, w, hwrites⟩ := hwritten
    rw [hdeleted.written d hd hshares key w hwrites, hv.eq hm hwrites.assigns]
  · -- Nothing is written under the field only if it held the value before.
    rw [hdeleted.kept key fun d hd hshares w hwrites => hwritten ⟨d, hd, hshares, w, hwrites⟩]
    refine Classical.byContradiction fun hdiffers => ?_
    have hchanged : ChangedBy x now c := by
      rcases hkey with rfl | rfl
      · exact .inl (hv.eq hm (.inl ⟨rfl, rfl⟩) ▸ hdiffers)
      · exact .inr (hv.eq hm (.inr ⟨.inl rfl, rfl⟩) ▸ hdiffers)
    exact hwritten ⟨c, hmem, hself, v, hv, hchanged, hdiffers⟩

/-- If what a deletion changes was updated at its time already, both ways leave the same. -/
theorem Deleted.same_destroyed (hdistinct : (Json.object c).distinctKeys = true)
    (hupdated : m.UpdatedBefore x now ids (s.documents m.collection)) :
    (m.destroyed x now ids c).same c' = true := by
  have hunique := (Json.distinctKeys_object.mp hdistinct).1
  rw [Document.same_iff (unique_destroyed hunique) hdeleted.unique]
  intro key
  have hshared := any_sharesKey hc hloaded
  cases haddressed : m.addresses ids c with
  | false =>
    rw [haddressed, List.any_eq_false] at hshared
    rw [destroyed, haddressed, if_neg Bool.false_ne_true,
      hdeleted.kept key fun d hd hshares => absurd hshares (hshared d hd)]
    exact Entity.get?_same_self hdistinct key
  | true =>
    have hlife : ∀ {key v}, m.Assigns x now key v → key = x.marker ∨ key = x.stamp →
        c'.get? key = some v := hdeleted.get?_life hm hc hloaded haddressed
    rw [destroyed, haddressed, if_pos rfl, get?_deletionOf hm]
    by_cases hstamp : key = x.stamp
    · have hassigns : m.Assigns x now key (.string now) := .inr ⟨.inl hstamp, rfl⟩
      rw [if_pos hstamp, hlife hassigns (.inr hstamp)]
      exact (Entity.same_assigned_iff hassigns _).mpr rfl
    · by_cases hmarker : key = x.marker
      · have hassigns : m.Assigns x now key (.bool true) := .inl ⟨hmarker, rfl⟩
        rw [if_neg hstamp, if_pos hmarker, hlife hassigns (.inl hmarker)]
        exact (Entity.same_assigned_iff hassigns _).mpr rfl
      · rw [if_neg hstamp, if_neg hmarker, hdeleted.kept key]
        · exact Entity.get?_same_self hdistinct key
        · rintro d hd - v ⟨hassigns, hchanged, hdiffers⟩
          rcases hassigns with ⟨hkey, -⟩ | ⟨hkey, rfl⟩
          · exact hmarker hkey
          · obtain ⟨hmem, haddressed⟩ := (hloaded d).mp hd
            exact hdiffers (hupdated d hmem haddressed hchanged key (hkey.resolve_left hstamp))

/-- If both ways leave the same of a document that a deletion changes, it was updated at the time of
the deletion already. -/
theorem Deleted.get?_updated (hunique : c.Unique) (hsame : (m.destroyed x now ids c).same c' = true)
    (haddressed : m.addresses ids c = true) (hchanged : ChangedBy x now c) (hkey : m.Stamps key) :
    c.get? key = some (.string now) := by
  have hassigns : m.Assigns x now key (.string now) := .inr ⟨.inr hkey, rfl⟩
  refine Classical.byContradiction fun hdiffers => ?_
  have hself : m.sharesKey c c = true := beq_self_eq_true _
  have hwritten := hdeleted.written c ((hloaded c).mpr ⟨hc, haddressed⟩) hself key _
    ⟨hassigns, hchanged, hdiffers⟩
  have hkept : (m.destroyed x now ids c).get? key = c.get? key := by
    rw [destroyed, haddressed, if_pos rfl, get?_deletionOf hm, if_neg, if_neg]
    · rintro rfl
      exact hm.not_stamps (by simp [lifeFields]) hkey
    · rintro rfl
      exact hm.not_stamps (by simp [lifeFields]) hkey
  have hfield := (Document.same_iff (unique_destroyed hunique) hdeleted.unique).mp hsame key
  rw [hkept, hwritten] at hfield
  exact hdiffers ((Entity.same_assigned_iff hassigns _).mp hfield)

end Agreement

section Destroy

variable {values : List Json} (hkeys : m.CanonicalKeys (s.documents m.collection))
  (hread : DocumentId.ofJsons values = .ok ids)

include hkeys hread

/-- Deleting at once marks the documents that are addressed, and counts those that are changed. -/
theorem destroy_marks (now : String) (hm : m.DeletesIn x)
    (hs : ∀ d ∈ s.documents m.collection, d.same d = true) :
    ∃ t, m.destroy now values s = (.ok (s.differing t m.collection), t) ∧
      t.documents =
        (s.put m.collection ((s.documents m.collection).map (m.destroyed x now ids))).documents := by
  have hcount : (s.documents m.collection).countP (fun c => !c.same (m.destroyed x now ids c)) =
      (s.documents m.collection).countP fun c => m.addresses ids c && (deletionOf x now).changes c := by
    refine List.countP_congr fun c hc => ?_
    rw [destroyed, Update.changes]
    cases m.addresses ids c with
    | false => simp [hs c hc]
    | true => simp
  obtain ⟨n, t, hrun, hn, ht⟩ : ∃ n t, m.destroy now values s = (.ok n, t) ∧
      n = (s.documents m.collection).countP (fun c => !c.same (m.destroyed x now ids c)) ∧
      t.documents =
        (s.put m.collection ((s.documents m.collection).map (m.destroyed x now ids))).documents := by
    rw [destroy, hread]
    cases ids with
    | nil =>
      have hsame : (s.documents m.collection).map (m.destroyed x now []) =
          s.documents m.collection := List.map_id' _
      refine ⟨0, s, rfl, ?_, ?_⟩
      · exact (hcount.trans (List.countP_eq_zero.mpr fun _ _ => Bool.false_ne_true)).symm
      · rw [hsame, Store.documents_put_documents]
    | cons id ids =>
      have hupdate := Store.updateMany_ok (ofJson_deletionUpdate x now)
        fun c hc => accepts_anyKey hm.key hkeys hc (id :: ids)
      simp only [hm.soft, hupdate]
      exact ⟨_, _, rfl, hcount.symm, Store.documents_countedIf _ _⟩
  refine ⟨t, ?_, ht⟩
  rw [hrun, hn, Store.differing_map ht]

/-- Deleting at once removes the documents that are addressed, and counts them. -/
theorem destroy_removes (now : String) (hkey : IsPlain m.primaryKey) (hhard : m.softDelete = none) :
    ∃ n t, m.destroy now values s = (.ok n, t) ∧
      n + (t.documents m.collection).length = (s.documents m.collection).length ∧
      t.documents = (s.put m.collection
        ((s.documents m.collection).filter fun c => !m.addresses ids c)).documents := by
  rw [destroy, hread]
  cases ids with
  | nil =>
    refine ⟨0, s, rfl, Nat.zero_add _, ?_⟩
    have hall : (s.documents m.collection).filter (fun c => !m.addresses [] c) =
        s.documents m.collection := List.filter_true _
    rw [hall, Store.documents_put_documents]
  | cons id ids =>
    have hkept : (s.documents m.collection).filterM (fun d => (Filter.accepts d
        (.single m.primaryKey (.single "$in" (.array ((id :: ids).map (·.toJson)))))).map not) =
          .ok ((s.documents m.collection).filter fun c => !m.addresses (id :: ids) c) := by
      refine filterM_ok fun d hd => ?_
      rw [accepts_anyKey hkey hkeys hd, map_ok]
    have hdelete := Store.deleteMany_of_kept hkept
    simp only [hhard, hdelete]
    refine ⟨_, _, rfl, ?_, Store.documents_countedIf _ _⟩
    rw [Store.documents_countedIf, Store.documents_put_self]
    exact Nat.sub_add_cancel (List.length_filter_le _ _)

/-- Deleting one by one loads the documents with the identifiers and deletes their entities. -/
theorem exists_deleteEach (schema : Schema) (hkey : IsPlain m.primaryKey) (now : String) :
    ∃ loaded : List Document, m.deleteEach schema now values s =
        Entity.deleteAll now (loaded.map (Entity.ofDocument m · [])) s ∧
      (∀ d, d ∈ loaded ↔ d ∈ s.documents m.collection ∧ m.addresses ids d = true) ∧
      ∀ d ∈ loaded, ∃ id, m.hasKey id d = true := by
  obtain ⟨found, loaded, hfound, hflatten, hloaded⟩ := exists_loaded schema hkey hkeys ids
  refine ⟨loaded, ?_, hloaded, fun d hd => ?_⟩
  · rw [deleteEach, hread, ok_bind, hfound, ← hflatten]
  · obtain ⟨id, -, hid⟩ := List.any_eq_true.mp ((hloaded d).mp hd).2
    exact ⟨id, hid⟩

/-- Where documents are removed, both ways leave the same. -/
theorem destroy_agrees_of_hard (schema : Schema) (hkey : IsPlain m.primaryKey)
    (hhard : m.softDelete = none) (now : String) : ∃ n t t',
      m.destroy now values s = (.ok n, t) ∧ m.deleteEach schema now values s = (.ok (), t') ∧
      t'.documents = t.documents ∧ (∀ name, (t.documents name).Sublist (s.documents name)) ∧
      n + (t.documents m.collection).length = (s.documents m.collection).length := by
  obtain ⟨loaded, heach, hloaded, hhave⟩ := exists_deleteEach hkeys hread schema hkey now
  obtain ⟨n, t, hrun, hn, ht⟩ := destroy_removes hkeys hread now hkey hhard
  obtain ⟨t', hrun', ht'⟩ := Entity.deleteAll_removes now hkey hhard hkeys hhave
  refine ⟨n, t, t', hrun, heach.trans hrun', ?_, fun name => ?_, hn⟩
  · rw [ht, ht']
    refine congrArg (fun docs => (s.put m.collection docs).documents) (List.filter_congr ?_)
    intro c hc
    rw [any_sharesKey hc hloaded]
  · rw [ht, Store.documents_put]
    split
    · next hname => exact hname ▸ List.filter_sublist
    · exact List.Sublist.refl _

/-- Where documents are marked, both ways leave the same exactly if those that are changed were
updated at the same time already. -/
theorem destroy_agrees_of_soft (schema : Schema) (hm : m.DeletesIn x)
    (hs : ∀ name, ∀ d ∈ s.documents name, (Json.object d).distinctKeys = true) (now : String) :
    ∃ t t', m.destroy now values s = (.ok (s.differing t m.collection), t) ∧
      m.deleteEach schema now values s = (.ok (), t') ∧
      (t.SameDocuments t' ↔ m.UpdatedBefore x now ids (s.documents m.collection)) := by
  have hsame : ∀ name, ∀ d ∈ s.documents name, d.same d = true :=
    fun name d hd => Json.same_self (.object d) (hs name d hd)
  have hunique : ∀ c ∈ s.documents m.collection, c.Unique :=
    fun c hc => (Json.distinctKeys_object.mp (hs _ c hc)).1
  obtain ⟨loaded, heach, hloaded, hhave⟩ := exists_deleteEach hkeys hread schema hm.key now
  obtain ⟨t, hrun, ht⟩ := destroy_marks hkeys hread now hm (hsame _)
  obtain ⟨t', f, hrun', ht', hdeleted⟩ := Entity.deleteAll_marks now hm hkeys hunique
    fun d hd => ⟨hs _ d ((hloaded d).mp hd).1, hhave d hd⟩
  refine ⟨t, t', hrun, heach.trans hrun', ?_⟩
  rw [Store.sameDocuments_map_iff hsame ht ht']
  constructor
  · intro hall c hc haddressed hchanged key hstamps
    exact (hdeleted c hc).get?_updated hm hc hloaded (hunique c hc) (hall c hc) haddressed hchanged
      hstamps
  · intro hupdated c hc
    exact (hdeleted c hc).same_destroyed hm hc hloaded (hs _ c hc) hupdated

end Destroy

/-- **Deleting at once and one by one.** Deleting the documents with some identifiers at once leaves
the same documents as loading each of them and deleting its entity, exactly if the model removes
documents, or does not say when they were updated, or the documents that are changed were updated at
the same time already. It counts the documents that it removes or changes. If an identifier cannot be
read, both fail and leave everything as it was. -/
theorem destroy_agrees_iff (schema : Schema)
    (hs : ∀ name, ∀ d ∈ s.documents name, (Json.object d).distinctKeys = true)
    (hkey : IsPlain m.primaryKey) (hsoft : ∀ x, m.softDelete = some x → m.DeletesIn x)
    (hkeys : m.CanonicalKeys (s.documents m.collection)) (now : String) (values : List Json) :
    (∀ err, DocumentId.ofJsons values = .error err →
      m.destroy now values s = (.error err, s) ∧
        m.deleteEach schema now values s = (.error err, s)) ∧
    ∀ ids, DocumentId.ofJsons values = .ok ids → ∃ n t t',
      m.destroy now values s = (.ok n, t) ∧ m.deleteEach schema now values s = (.ok (), t') ∧
      (t.SameDocuments t' ↔ ∀ x, m.softDelete = some x →
        m.UpdatedBefore x now ids (s.documents m.collection)) ∧
      (m.softDelete = none →
        n + (t.documents m.collection).length = (s.documents m.collection).length) ∧
      (m.softDelete ≠ none → n = s.differing t m.collection) := by
  refine ⟨fun err herr => ⟨by rw [destroy, herr], by rw [deleteEach, herr]; rfl⟩, fun ids hread => ?_⟩
  cases hmodel : m.softDelete with
  | none =>
    obtain ⟨n, t, t', hrun, hrun', heq, hsub, hn⟩ :=
      destroy_agrees_of_hard hkeys hread schema hkey hmodel now
    have hsame := Store.sameDocuments_of_eq (fun name d hd =>
      Json.same_self (.object d) (hs name d ((hsub name).subset hd))) heq
    exact ⟨n, t, t', hrun, hrun', iff_of_true hsame nofun, fun _ => hn, fun hne => absurd rfl hne⟩
  | some x =>
    obtain ⟨t, t', hrun, hrun', hiff⟩ :=
      destroy_agrees_of_soft hkeys hread schema (hsoft x hmodel) hs now
    refine ⟨_, t, t', hrun, hrun', hiff.trans ⟨?_, fun hall => hall x rfl⟩, nofun, fun _ => rfl⟩
    rintro hupdated y ⟨⟩
    exact hupdated

end Model

/-! ## Accounts that are deleted at once -/

namespace EditingSample

/-- The account, as it was updated at some time. -/
def touchedAt (time : String) : Document :=
  account uid.canonical ++ [("touched", .string time)]

theorem touched_distinct (time : String) :
    ∀ name, ∀ d ∈ (storeOf (touchedAt time)).documents name, (Json.object d).distinctKeys = true :=
  Store.forall_documents (by simp [storeOf]; rfl)

theorem touched_canonical (time : String) :
    accountModel.CanonicalKeys ((storeOf (touchedAt time)).documents accountModel.collection) := by
  intro d hd v hv
  obtain rfl := List.mem_singleton.mp hd
  cases hv
  exact ⟨uid, rfl⟩

/-- An account that was updated at the time of its deletion comes out the same either way, also if its
identifier is given twice. -/
theorem touched_account_destroyed : ∃ n t t',
    accountModel.destroy "now" [uid.toJson, uid.toJson] (storeOf (touchedAt "now")) = (.ok n, t) ∧
      accountModel.deleteEach schema "now" [uid.toJson, uid.toJson] (storeOf (touchedAt "now")) =
        (.ok (), t') ∧
      t.SameDocuments t' ∧ n = (storeOf (touchedAt "now")).differing t "accounts" := by
  have hsoft : ∀ x, accountModel.softDelete = some x → accountModel.DeletesIn x := by
    rintro x ⟨⟩
    exact accountModel_deletesIn
  obtain ⟨-, hread⟩ := Model.destroy_agrees_iff schema (touched_distinct "now")
    accountModel_deletesIn.key hsoft (touched_canonical "now") "now" [uid.toJson, uid.toJson]
  have hids : DocumentId.ofJsons [uid.toJson, uid.toJson] = .ok [uid, uid] :=
    DocumentId.ofJsons_toJson [uid, uid]
  obtain ⟨n, t, t', hrun, hrun', hsame, -, hn⟩ := hread [uid, uid] hids
  refine ⟨n, t, t', hrun, hrun', hsame.mpr ?_, hn (by decide)⟩
  rintro x ⟨⟩ d hd - - key ⟨time, ⟨⟩, rfl⟩
  obtain rfl := List.mem_singleton.mp hd
  rfl

/-- An account that was updated before is left with that time if it is deleted at once, and with the
time of the deletion if its entity is deleted. -/
theorem old_account_keeps_time : ¬ ∀ (m : Model) (s : Store) (x : SoftDelete), m.DeletesIn x →
    (∀ name, ∀ d ∈ s.documents name, (Json.object d).distinctKeys = true) →
    m.CanonicalKeys (s.documents m.collection) →
    ∀ (now : String) (values : List Json) (n : Nat) (t t' : Store),
      m.destroy now values s = (.ok n, t) → m.deleteEach schema now values s = (.ok (), t') →
        t.SameDocuments t' := by
  intro h
  have hids : DocumentId.ofJsons [uid.toJson] = .ok [uid] := DocumentId.ofJsons_toJson [uid]
  obtain ⟨t, t', hrun, hrun', hiff⟩ := Model.destroy_agrees_of_soft (touched_canonical "then") hids
    schema accountModel_deletesIn (touched_distinct "then") "now"
  have hsame := h accountModel _ _ accountModel_deletesIn (touched_distinct "then")
    (touched_canonical "then") "now" _ _ t t' hrun hrun'
  have haddressed : accountModel.addresses [uid] (touchedAt "then") = true := by
    rw [Model.addresses, List.any_cons, Model.hasKey_iff.mpr rfl, Bool.true_or]
  have htime := hiff.mp hsame (touchedAt "then") List.mem_cons_self haddressed (.inl nofun) "touched"
    ⟨_, rfl, rfl⟩
  exact absurd (Json.string.inj (Option.some.inj htime)) (by decide)

end EditingSample

end DocMapper
