import DocMapper.Proofs.Revision

/-! # Keys of stored documents

A document is stored under a key of its own: its identifier, in the canonical form, at `_id`. A
collection is **keyed** if each of its documents has one and no two have the same.

Every call keeps all collections keyed, whether it succeeds or fails:

  * what is inserted has been prepared, and a document is prepared under an identifier that none
    beside it has (`Keyed.append`, `keyed_prepareAll`);
  * an update leaves the keys alone as long as no path of it starts at `_id`, also when it fails
    midway (`keepsId_updateEach`);
  * a removal leaves some of the documents, if any.

So all collections are keyed after every sequence of calls that begins with an empty store
(`keyed_after`). -/

namespace DocMapper

namespace Store

variable {docs docs' beside : List Document} {d e : Document} {id : DocumentId} {u : Update}
  {filter : Json} {s : Store}

/-! ## Keyed collections -/

/-- Each document has an identifier in the canonical form, and no two have the same. -/
structure Keyed (docs : List Document) : Prop where
  unique : ∀ d ∈ docs, d.Unique
  canonical : ∀ d ∈ docs, ∃ id : DocumentId, d.get? "_id" = some id.toJson
  distinct : (docs.map (·.get? "_id")).Nodup

theorem keyed_nil : Keyed [] :=
  ⟨fun _ hd => absurd hd List.not_mem_nil, fun _ hd => absurd hd List.not_mem_nil, List.nodup_nil⟩

theorem Keyed.sublist (h : Keyed docs) (hsub : docs'.Sublist docs) : Keyed docs' :=
  ⟨fun d hd => h.unique d (hsub.subset hd), fun d hd => h.canonical d (hsub.subset hd),
    h.distinct.sublist (hsub.map _)⟩

theorem get?_ne_of_hasId_eq_false (h : hasId id d = false) : d.get? "_id" ≠ some id.toJson := by
  intro hget
  rw [hasId, hget, Option.any_some, DocumentId.toJson, Json.equals_string_iff.mpr rfl] at h
  cases h

/-- A document can be appended under an identifier that is not in use. -/
theorem Keyed.append (h : Keyed docs) (hd : d.Unique) (hunused : ∀ b ∈ docs, hasId id b = false) :
    Keyed (docs ++ [d.insert "_id" id.toJson]) := by
  have hkey : (d.insert "_id" id.toJson).get? "_id" = some id.toJson := Document.get?_insert_self _ _ _
  refine ⟨?_, ?_, ?_⟩
  · exact List.forall_mem_append.mpr ⟨h.unique, List.forall_mem_singleton.mpr (hd.insert _ _)⟩
  · exact List.forall_mem_append.mpr ⟨h.canonical, List.forall_mem_singleton.mpr ⟨id, hkey⟩⟩
  · rw [List.map_append, List.map_singleton, hkey]
    refine List.nodup_append.mpr ⟨h.distinct, List.pairwise_singleton _ _, ?_⟩
    intro k hk k' hk' heq
    obtain ⟨b, hb, rfl⟩ := List.mem_map.mp hk
    rw [List.mem_singleton] at hk'
    exact get?_ne_of_hasId_eq_false (hunused b hb) (heq.trans hk')

/-- A document is replaced by one with the same identifier. -/
def KeepsId (d e : Document) : Prop := d.Unique → e.Unique ∧ e.get? "_id" = d.get? "_id"

theorem keepsId_refl (d : Document) : KeepsId d d := fun hd => ⟨hd, rfl⟩

/-- Documents can be replaced by others with the same identifiers. -/
theorem Keyed.of_keepsId (h : Keyed docs) (hkeeps : List.Forall₂ KeepsId docs docs') :
    Keyed docs' := by
  have hmem : ∀ e ∈ docs', ∃ d ∈ docs, e.Unique ∧ e.get? "_id" = d.get? "_id" := by
    intro e he
    obtain ⟨d, hd, hde⟩ := exists_of_mem_forall₂ hkeeps he
    exact ⟨d, hd, hde (h.unique d hd)⟩
  have hkeys : docs'.map (·.get? "_id") = docs.map (·.get? "_id") := by
    have hunique := h.unique
    clear h hmem
    induction hkeeps with
    | nil => rfl
    | cons hde _ ih =>
      obtain ⟨hd, hrest⟩ := List.forall_mem_cons.mp hunique
      rw [List.map_cons, List.map_cons, (hde hd).2, ih hrest]
  refine ⟨fun e he => ?_, fun e he => ?_, hkeys ▸ h.distinct⟩
  · obtain ⟨d, -, he, -⟩ := hmem e he
    exact he
  · obtain ⟨d, hd, -, hkey⟩ := hmem e he
    exact hkey ▸ h.canonical d hd

end Store

/-! ## Updates that leave a field alone -/

/-- No path of an update that sets or removes something starts at a field. -/
structure Update.Spares (u : Update) (field : String) : Prop where
  set : ∀ path ∈ u.set.keys, Path.head path ≠ field
  unset : ∀ path ∈ u.unset, Path.head path ≠ field

namespace Store

variable {docs docs' beside : List Document} {d e : Document} {id : DocumentId} {u : Update}
  {filter : Json} {s : Store}

theorem keepsId_apply (hu : u.Spares "_id") (d : Document) : KeepsId d (u.apply d) :=
  fun hd => ⟨Update.unique_apply hd u, Update.get?_apply_of_head_ne hd hu.set hu.unset⟩

/-- However far an update of many documents gets, it keeps their identifiers. -/
theorem keepsId_updateEach (hu : u.Spares "_id") (docs : List Document) :
    List.Forall₂ KeepsId docs (updateEach filter u docs).2 := by
  induction docs with
  | nil => exact .nil
  | cons d docs ih =>
    rw [updateEach]
    cases Filter.accepts d filter with
    | error fault => exact List.forall₂_same.mpr fun d _ => keepsId_refl d
    | ok b =>
      cases b with
      | false => exact .cons (keepsId_refl d) ih
      | true => exact .cons (keepsId_apply hu d) ih

theorem keepsId_modify (hu : u.Spares "_id") (docs : List Document) (i : Nat) :
    List.Forall₂ KeepsId docs (docs.modify i u.apply) := by
  induction docs generalizing i with
  | nil => cases i <;> exact .nil
  | cons d docs ih =>
    cases i with
    | zero => exact .cons (keepsId_apply hu d) (List.forall₂_same.mpr fun d _ => keepsId_refl d)
    | succ i => exact .cons (keepsId_refl d) (ih i)

/-! ## Preparing several documents -/

theorem prepareAll_cons (beside : List Document) (d : Document) (rest : List Document) (s : Store) :
    prepareAll beside (d :: rest) s =
      match prepare d beside s with
      | (.error e, s) => (.error e, s)
      | (.ok (id, d), s) =>
        match prepareAll (beside ++ [d]) rest s with
        | (.error e, s) => (.error e, s)
        | (.ok prepared, s) => (.ok ((id, d) :: prepared), s) := rfl

/-- Preparing documents changes no collection, and those that are prepared keep the collection keyed
that they are for. -/
theorem keyed_prepareAll (docs beside : List Document) (s : Store) :
    (prepareAll beside docs s).2.documents = s.documents ∧
      ∀ prepared, (prepareAll beside docs s).1 = .ok prepared → Keyed beside →
        (∀ d ∈ docs, d.Unique) → Keyed (beside ++ prepared.map (·.2)) := by
  induction docs generalizing beside s with
  | nil =>
    refine ⟨rfl, ?_⟩
    rintro _ ⟨⟩ hbeside -
    simpa using hbeside
  | cons d docs ih =>
    obtain ⟨hdocs, hprepared⟩ := prepare_spec d beside s
    rw [prepareAll_cons]
    cases hrun : prepare d beside s with
    | mk outcome t =>
      rw [hrun] at hdocs hprepared
      cases outcome with
      | error e => exact ⟨hdocs, nofun⟩
      | ok first =>
        obtain ⟨id, e⟩ := first
        obtain ⟨rfl, hunused⟩ := hprepared id e rfl
        obtain ⟨hrest, hkeyed⟩ := ih (beside ++ [d.insert "_id" id.toJson]) t
        dsimp only
        cases hrun' : prepareAll (beside ++ [d.insert "_id" id.toJson]) docs t with
        | mk outcome t' =>
          rw [hrun'] at hrest hkeyed
          cases outcome with
          | error e => exact ⟨hrest.trans hdocs, nofun⟩
          | ok others =>
            refine ⟨hrest.trans hdocs, ?_⟩
            rintro _ ⟨⟩ hbeside hunique
            obtain ⟨hd, hothers⟩ := List.forall_mem_cons.mp hunique
            have hall := hkeyed others rfl (hbeside.append hd hunused) hothers
            simpa using hall

/-! ## Calls -/

/-- A call that may change the documents of a store. -/
inductive Write where
  | insertOne (name : String) (d : Document)
  | insertMany (name : String) (docs : List Document)
  | updateMany (name : String) (filter update : Json)
  | upsertOne (name : String) (filter update : Json)
  | deleteMany (name : String) (filter : Json)

namespace Write

/-- The store after a call, whether it succeeds or fails. -/
def run (s : Store) : Write → Store
  | insertOne name d => (Store.insertOne name d s).2
  | insertMany name docs => (Store.insertMany name docs s).2
  | updateMany name filter update => (Store.updateMany name filter update s).2
  | upsertOne name filter update => (Store.upsertOne name filter update s).2
  | deleteMany name filter => (Store.deleteMany name filter s).2

/-- A call that gives documents without repeated keys and sets or removes no path at `_id`. -/
inductive SparesKeys : Write → Prop where
  | insertOne {name : String} {d : Document} : d.Unique → SparesKeys (insertOne name d)
  | insertMany {name : String} {docs : List Document} : (∀ d ∈ docs, d.Unique) →
      SparesKeys (insertMany name docs)
  | updateMany {name : String} {filter update : Json} :
      (∀ u, Update.ofJson update = .ok u → u.Spares "_id") →
      SparesKeys (updateMany name filter update)
  | upsertOne {name : String} {filter update : Json} :
      (∀ u, Update.ofJson update = .ok u → u.Spares "_id") →
      SparesKeys (upsertOne name filter update)
  | deleteMany {name : String} {filter : Json} : SparesKeys (deleteMany name filter)

end Write

/-- The store after a sequence of calls. -/
def after (s : Store) (writes : List Write) : Store := writes.foldl Write.run s

/-! ## What a call does -/

variable {name : String} {update : Json}

/-- Inserting a document leaves the documents as they are, or appends it under an identifier that is
not in use. -/
theorem documents_insertOne (name : String) (d : Document) (s : Store) :
    let after := (Store.insertOne name d s).2.documents
    after = s.documents ∨ ∃ id : DocumentId, (∀ b ∈ s.documents name, hasId id b = false) ∧
      after = (s.put name (s.documents name ++ [d.insert "_id" id.toJson])).documents := by
  intro after
  obtain ⟨hdocs, hprepared⟩ := prepare_spec d (s.documents name) s
  cases hrun : prepare d (s.documents name) s with
  | mk outcome t =>
    rw [hrun] at hdocs hprepared
    cases outcome with
    | error e => exact .inl (by simp only [after, insertOne, hrun, hdocs])
    | ok prepared =>
      obtain ⟨id, e⟩ := prepared
      obtain ⟨rfl, hunused⟩ := hprepared id e rfl
      refine .inr ⟨id, hunused, ?_⟩
      simp only [after, insertOne, hrun, documents_counted, hdocs]
      exact documents_put_congr hdocs name _

/-- Inserting several documents leaves the documents as they are, or appends all of them as they
have been prepared. -/
theorem documents_insertMany (name : String) (docs : List Document) (s : Store) :
    let after := (Store.insertMany name docs s).2.documents
    after = s.documents ∨ ∃ prepared, (prepareAll (s.documents name) docs s).1 = .ok prepared ∧
      after = (s.put name (s.documents name ++ prepared.map (·.2))).documents := by
  intro after
  obtain ⟨hdocs, -⟩ := keyed_prepareAll docs (s.documents name) s
  cases hrun : prepareAll (s.documents name) docs s with
  | mk outcome t =>
    rw [hrun] at hdocs
    cases outcome with
    | error e => exact .inl (by simp only [after, insertMany, hrun, hdocs])
    | ok prepared =>
      cases prepared with
      | nil => exact .inl (by simp [after, insertMany, hrun, hdocs])
      | cons first prepared =>
        refine .inr ⟨_, rfl, ?_⟩
        simp only [after, insertMany, hrun, hdocs, List.isEmpty_cons, Bool.false_eq_true, if_false,
          documents_counted]
        exact documents_put_congr hdocs name _

/-- Updating many documents leaves the documents as they are, or puts down how far it got. -/
theorem documents_updateMany (name : String) (filter update : Json) (s : Store) :
    let after := (Store.updateMany name filter update s).2.documents
    after = s.documents ∨ ∃ u, Update.ofJson update = .ok u ∧
      after = (s.put name (updateEach filter u (s.documents name)).2).documents := by
  intro after
  cases hu : Update.ofJson update with
  | error fault => exact .inl (by simp only [after, updateMany, hu])
  | ok u =>
    refine .inr ⟨u, rfl, ?_⟩
    cases hrun : updateEach filter u (s.documents name) with
    | mk outcome docs => cases outcome <;> simp only [after, updateMany, hu, hrun, documents_countedIf]

/-! ## What a call keeps -/

/-- If one collection is replaced by a keyed one, all are keyed. -/
theorem keyed_put (h : ∀ name, Keyed (s.documents name)) (hdocs : Keyed docs) {t : Store}
    (ht : t.documents = (s.put name docs).documents) (other : String) :
    Keyed (t.documents other) := by
  rw [ht, documents_put]
  split
  · exact hdocs
  · exact h other

/-- A call keeps all collections keyed, whether it succeeds or fails. -/
theorem keyed_run {w : Write} (hw : w.SparesKeys) (h : ∀ name, Keyed (s.documents name)) :
    ∀ name, Keyed ((w.run s).documents name) := by
  cases hw with
  | @insertOne name d hd =>
    rcases documents_insertOne name d s with hsame | ⟨id, hunused, happended⟩
    · exact fun other => congrFun hsame other ▸ h other
    · exact keyed_put h ((h name).append hd hunused) happended
  | @insertMany name docs hunique =>
    rcases documents_insertMany name docs s with hsame | ⟨prepared, hprepared, happended⟩
    · exact fun other => congrFun hsame other ▸ h other
    · have hkeyed := (keyed_prepareAll docs (s.documents name) s).2 prepared hprepared
      exact keyed_put h (hkeyed (h name) hunique) happended
  | @updateMany name filter update hupdate =>
    rcases documents_updateMany name filter update s with hsame | ⟨u, hu, hupdated⟩
    · exact fun other => congrFun hsame other ▸ h other
    · exact keyed_put h ((h name).of_keepsId (keepsId_updateEach (hupdate u hu) _)) hupdated
  | @upsertOne name filter update hupdate =>
    rcases documents_upsertOne name filter update s with
      hsame | ⟨u, hu, ⟨i, hmodified⟩ | ⟨-, id, hunused, happended⟩⟩
    · exact fun other => congrFun hsame other ▸ h other
    · exact keyed_put h ((h name).of_keepsId (keepsId_modify (hupdate u hu) _ i)) hmodified
    · exact keyed_put h ((h name).append (Update.unique_inserted u filter) hunused) happended
  | @deleteMany name filter =>
    obtain ⟨kept, hsub, hkept⟩ := documents_deleteMany name filter s
    exact keyed_put h ((h name).sublist hsub) hkept

theorem keyed_after {writes : List Write} (hwrites : ∀ w ∈ writes, w.SparesKeys)
    (h : ∀ name, Keyed (s.documents name)) (name : String) :
    Keyed ((s.after writes).documents name) := by
  induction writes generalizing s with
  | nil => exact h name
  | cons w writes ih =>
    obtain ⟨hw, hrest⟩ := List.forall_mem_cons.mp hwrites
    exact ih hrest (keyed_run hw h)

/-- After every sequence of calls on an empty store, whether they succeed or fail, each document of
each collection has an identifier in the canonical form, and no two of one collection have the
same. -/
theorem keys_of_any_writes (source : IdSource) {writes : List Write}
    (hwrites : ∀ w ∈ writes, w.SparesKeys) (name : String) :
    let docs := (after { ids := source } writes).documents name
    (∀ d ∈ docs, ∃ text, d.get? "_id" = some (.string text) ∧ DocumentId.IsCanonical text) ∧
      docs.Pairwise fun d e => d.get? "_id" ≠ e.get? "_id" := by
  have hkeyed := keyed_after (s := { ids := source }) hwrites (fun _ => keyed_nil) name
  refine ⟨fun d hd => ?_, List.pairwise_map.mp hkeyed.distinct⟩
  obtain ⟨id, hid⟩ := hkeyed.canonical d hd
  exact ⟨id.canonical, hid, id.isCanonical_canonical⟩

end Store

/-! ## Some books -/

namespace BookSample

open Store

def source : IdSource := ⟨fun n => ⟨.ofNat 128 n⟩, 7⟩

/-- The first book comes under an identifier in capitals, the second one without any. The third one
claims the identifier of the first, in another form, and is refused; the fourth gets one that an
upsert gives in braces. -/
def shelving : List Write :=
  [.insertMany "books" [
      [("_id", .string "ABCDEF00-0000-4000-8000-000000000001"), ("title", .string "Emma")],
      [("title", .string "Persuasion")]],
    .insertOne "books" [("_id", .single "$oid" (.string "abcdef00000040008000000000000001"))],
    .upsertOne "books" (.single "title" (.string "Evelina"))
      (.single "$setOnInsert"
        (.single "_id" (.string "\x7b00000000-0000-4000-8000-000000000003\x7d"))),
    .updateMany "books" (.single "title" (.string "Emma"))
      (.single "$set" (.single "year" (.int 1815)))]

theorem shelving_sparesKeys : ∀ w ∈ shelving, w.SparesKeys := by
  simp only [shelving, List.forall_mem_cons]
  refine ⟨.insertMany ?_, .insertOne ?_, .upsertOne ?_, .updateMany ?_, List.forall_mem_nil _⟩
  · decide
  · decide
  · rintro u ⟨⟩
    exact ⟨List.forall_mem_nil _, List.forall_mem_nil _⟩
  · rintro u ⟨⟩
    exact ⟨by decide, List.forall_mem_nil _⟩

/-- Three books are stored in the end, each under a key of its own. -/
theorem three_books_keyed :
    (∀ w ∈ shelving, w.SparesKeys) ∧
      ((after { ids := source } shelving).documents "books").map
          (fun d => (d.textAt "title", d.textAt "_id")) =
        [(some "Emma", some "abcdef00-0000-4000-8000-000000000001"),
          (some "Persuasion", some "00000000-0000-0000-0000-000000000007"),
          (some "Evelina", some "00000000-0000-4000-8000-000000000003")] ∧
      (∀ d ∈ (after { ids := source } shelving).documents "books",
        ∃ text, d.get? "_id" = some (.string text) ∧ DocumentId.IsCanonical text) ∧
      ((after { ids := source } shelving).documents "books").Pairwise
        fun d e => d.get? "_id" ≠ e.get? "_id" :=
  ⟨shelving_sparesKeys, by decide +kernel, keys_of_any_writes source shelving_sparesKeys "books"⟩

end BookSample

end DocMapper
