import DocMapper.Proofs.Entity.Deletion
import DocMapper.Proofs.Query.Sources

/-! # Restoring what was read in part

A query may leave out fields of what it finds. An entity that it gets holds a cut of a stored
document (`Query.exists_source`), and what the query left out counts for the entity as not being
there. Restoring the entity marks it as not deleted and takes the stamp of its deletion away; what a
save sends are the differences from what was read (`Entity.save_rewrites`). The marker is sent unless
it was read as it should be, so the document ends up marked as not deleted either way. The removal of
the stamp is sent only if the stamp was read: if the query left it out, restoring succeeds and leaves
the stamp where it is (`Entity.restore_spares_iff`). -/

namespace DocMapper

theorem Json.Cut.eq_of_isScalar {v w : Json} (h : Cut v w) (hv : v.isScalar = true) : v = w := by
  cases h with
  | refl => rfl
  | array => cases hv
  | object => cases hv

/-- A document is marked as not deleted and has no stamp of a deletion. -/
def SoftDelete.Spares (x : SoftDelete) (d : Document) : Prop :=
  d.get? x.marker = some (.bool false) ∧ d.get? x.stamp = none

namespace Entity

variable {e f : Entity} {schema : Schema} {s : Store} {q : Query} {loads : Relation.Loaded}
  {es : List Entity} {m : Model} {x : SoftDelete} {id : DocumentId} {before after : List Document}
  {c c' d : Document} {now : String} {touched : String → Prop}

/-! ## What a save makes of documents -/

/-- The filter for the identifier of an entity finds a document. -/
def Finds (e : Entity) (c : Document) : Prop :=
  ∃ id, e.id? = some id ∧ Filter.accepts c (e.model.keyFilter id) = .ok true

/-- What a save of changes to an entity makes of a document, apart from the time of the update: the
changes are written if the entity finds the document, and otherwise it stays as it was. -/
structure Rewrites (m : Model) (e f : Entity) (c c' : Document) : Prop where
  key : c'.get? m.primaryKey = c.get? m.primaryKey
  missed : ¬ e.Finds c → c' = c
  hit : e.Finds c → ∀ key, ¬ m.Stamps key →
    c'.get? key = if key ∈ f.changes then f.get? key else c.get? key

/-- A save that succeeds, of an entity that had no changes before it was edited, writes the changes
to the documents that the entity finds. -/
theorem save_rewrites (he : e.AtRest) (hf : Revises touched e f)
    (htouched : ∀ key, touched key → IsField key ∧ key ≠ m.primaryKey) (hmodel : e.model = m)
    (hstamp : ∀ key, m.Stamps key → touched key)
    (hdocs : ∀ c ∈ s.documents m.collection, c.Unique) (hok : (f.save now s).result = .ok ()) :
    List.Forall₂ (Rewrites m e f) (s.documents m.collection)
      ((f.save now s).store.documents m.collection) := by
  have hfmodel : f.model = m := hf.model.trans hmodel
  rcases save_cases he hf (fun hkey => (htouched _ hkey).2 rfl) hmodel hstamp hok with
    ⟨hclean, hsave⟩ | ⟨id, hid, hstamped, -, hdocs'⟩
  · rw [hsave, List.forall₂_same]
    exact fun c _ => ⟨rfl, fun _ => rfl, fun _ key _ => by simp [hclean]⟩
  · rw [hdocs', List.forall₂_map_right_iff, List.forall₂_same]
    intro c hc
    have hfinds : e.Finds c ↔ Filter.accepts c (m.keyFilter id) = .ok true := by
      simp [Finds, hid, hmodel]
    have hchanges : ∀ key ∈ (f.stamped now).changes, IsField key ∧ key ≠ m.primaryKey :=
      fun key hkey => htouched key (hstamped.touched_of_mem_changes he.tracked he.changes hkey)
    have hget := get?_apply_pending (hdocs c hc) fun key hkey => (hchanges key hkey).1
    unfold Store.revised
    split
    · next hhit =>
      refine ⟨?_, fun hmiss => absurd (hfinds.mpr hhit) hmiss, fun _ key hkey => ?_⟩
      · rw [hget, if_neg fun hkey => (hchanges _ hkey).2 rfl]
      · rw [hget, get?_stamped (hfmodel ▸ hkey)]
        simp only [mem_changes_stamped (hfmodel ▸ hkey)]
    · next hmiss => exact ⟨rfl, fun _ => rfl, fun hhit => absurd (hfinds.mp hhit) hmiss⟩

/-! ## What restoring changes -/

/-- Restoring changes the stamp if the entity holds one. -/
theorem stamp_mem_changes_iff (he : e.Fresh) (hf : Revises touched e f)
    (hstamp : f.get? x.stamp = none) : x.stamp ∈ f.changes ↔ (e.get? x.stamp).isSome := by
  rw [hf.tracked.changes, hf.stored, he.stored, ← get?, ← get?, hstamp]
  cases e.get? x.stamp <;> simp

/-- Restoring changes the marker unless the entity is marked as not deleted. -/
theorem get?_marker_of_not_mem_changes (he : e.Fresh) (hf : Revises touched e f)
    (hmarker : f.get? x.marker = some (.bool false)) (h : x.marker ∉ f.changes) :
    e.get? x.marker = some (.bool false) := by
  rw [hf.tracked.changes, hf.stored, he.stored, ← get?, ← get?, hmarker, Bool.not_eq_false] at h
  cases hv : e.get? x.marker with
  | none => simp [hv] at h
  | some v =>
    rw [hv] at h
    exact congrArg some (Json.same_bool_iff.mp h)

/-- A document that the entity finds comes to be marked as not deleted, and to have no stamp if the
entity held one or the document had none. -/
theorem Rewrites.spares_iff (hm : m.DeletesIn x) (h : Rewrites m e f d c') (he : e.Fresh)
    (hf : Revises touched e f) (hmarker : f.get? x.marker = some (.bool false))
    (hstamp : f.get? x.stamp = none)
    (hread : e.get? x.marker = some (.bool false) → d.get? x.marker = some (.bool false))
    (hhit : e.Finds d) :
    x.Spares c' ↔ (e.get? x.stamp).isSome ∨ d.get? x.stamp = none := by
  have hmarked : c'.get? x.marker = some (.bool false) := by
    rw [h.hit hhit _ (hm.not_stamps (by simp [Model.lifeFields]))]
    split
    · exact hmarker
    · next hkept => exact hread (get?_marker_of_not_mem_changes he hf hmarker hkept)
  have hleft : c'.get? x.stamp = if (e.get? x.stamp).isSome then none else d.get? x.stamp := by
    rw [h.hit hhit _ (hm.not_stamps (by simp [Model.lifeFields])), hstamp]
    simp only [stamp_mem_changes_iff he hf hstamp]
  rw [SoftDelete.Spares, and_iff_right hmarked, hleft]
  cases e.get? x.stamp <;> simp

/-! ## Restoring what a query got -/

/-- An entity finds a document that has the same key if the key is in canonical form. -/
theorem finds_iff (hm : m.DeletesIn x) (hmodel : e.model = m)
    (hkey : e.get? m.primaryKey = d.get? m.primaryKey) :
    e.Finds d ↔ ∃ id : DocumentId, d.get? m.primaryKey = some id.toJson := by
  have hid : e.id? = m.idOf? d := by rw [id?, hmodel, hkey, Model.idOf?]
  rw [Finds, hid, hmodel]
  constructor
  · rintro ⟨id, hread, hhit⟩
    exact ⟨id, (hm.accepts_keyFilter_iff hread).mp hhit⟩
  · rintro ⟨id, hcanonical⟩
    have hread : m.idOf? d = some id := by
      rw [Model.idOf?, hcanonical, Option.bind_some, DocumentId.ofJson?_toJson]
    exact ⟨id, hread, (hm.accepts_keyFilter_iff hread).mpr hcanonical⟩

section Restored

variable (hs : ∀ source, ∀ c ∈ s.documents source, c.Unique) (hloads : q.loaded schema = .ok loads)
  (hsaved : Relation.savedField ∉ EagerAlias.allNames loads.aliases)
  (hes : q.get schema s = .ok es) (he : e ∈ es)
  (hdocs : s.documents q.model.collection = before ++ d :: after)
  (hkey : e.get? q.model.primaryKey = d.get? q.model.primaryKey)
  (honly : ∀ other ∈ before ++ after,
    other.get? q.model.primaryKey ≠ d.get? q.model.primaryKey)

include hs hloads hsaved hes he hdocs hkey honly

/-- The scalars that an entity holds under a canonical key are those of the document with the key. -/
theorem get?_of_canonical (hcanonical : d.get? q.model.primaryKey = some id.toJson) {key : String}
    {v : Json} (hv : v.isScalar = true) (hget : e.get? key = some v) : d.get? key = some v := by
  obtain ⟨hfresh, -⟩ := (Obtained.got rfl hes he).fresh
  obtain ⟨-, d₀, hd₀, hcut⟩ := Query.exists_source hs hloads hsaved hes he
  have hread : ∀ {key v}, v.isScalar = true → e.get? key = some v → d₀.get? key = some v := by
    intro key v hv hget
    rw [get?, ← hfresh.stored] at hget
    obtain ⟨w, hw, hvw⟩ := hcut.exists_entry (Document.mem_of_get? hget)
    rw [(Document.get?_eq_some_iff (hs _ d₀ hd₀)).mpr hw, hvw.eq_of_isScalar hv]
  -- The document that was read has the key, and only one has it.
  have hkey₀ : d₀.get? q.model.primaryKey = d.get? q.model.primaryKey :=
    (hread rfl (hkey.trans hcanonical)).trans hcanonical.symm
  rw [hdocs, List.mem_append, List.mem_cons] at hd₀
  rcases hd₀ with hmem | rfl | hmem
  · exact absurd hkey₀ (honly d₀ (List.mem_append_left _ hmem))
  · exact hread hv hget
  · exact absurd hkey₀ (honly d₀ (List.mem_append_right _ hmem))

/-- **Restoring.** A query got an entity with the key of one document, whatever else it shows. If
restoring the entity succeeds, the document is marked as not deleted and has no stamp exactly if that
was so before, or if it is stored under a canonical key and the entity held the stamp or the document
had none. -/
theorem restore_spares_iff (hm : q.model.DeletesIn x)
    (hstored : (Json.object e.stored).distinctKeys = true)
    (hok : (e.restore now s).result = .ok ()) :
    ∃ before' d' after',
      (e.restore now s).store.documents q.model.collection = before' ++ d' :: after' ∧
      before'.map (·.get? q.model.primaryKey) = before.map (·.get? q.model.primaryKey) ∧
      after'.map (·.get? q.model.primaryKey) = after.map (·.get? q.model.primaryKey) ∧
      d'.get? q.model.primaryKey = d.get? q.model.primaryKey ∧
      (x.Spares d' ↔ x.Spares d ∨
        (∃ id : DocumentId, d.get? q.model.primaryKey = some id.toJson) ∧
          ((e.get? x.stamp).isSome ∨ d.get? x.stamp = none)) := by
  obtain ⟨hfresh, hmodel⟩ := (Obtained.got rfl hes he).fresh
  have hrest := hfresh.atRest hstored
  have hkept : Revises (fun key => IsField key ∧ key ≠ q.model.primaryKey) e e :=
    .refl hrest.tracked
  obtain ⟨hf, hmarker, hstamp⟩ := hkept.cleared hm.stamp_ne_marker
    ⟨hm.marker.field, hm.marker_ne_key⟩ ⟨hm.stamp, hm.stamp_ne_key⟩
  rw [restore_eq (hmodel ▸ hm.soft)] at hok ⊢
  have hall := save_rewrites hrest hf (fun _ htouched => htouched) hmodel
    (fun key hkey => ⟨(hm.updated key hkey).1, List.ne_of_not_mem_cons (hm.updated key hkey).2⟩)
    (hs _) hok
  rw [hdocs] at hall
  obtain ⟨before', d', after', hsplit, hbefore, hd', hafter⟩ := exists_split_of_forall₂ hall
  refine ⟨before', d', after', hsplit,
    map_eq_of_forall₂ (hbefore.imp fun _ _ hrewrites => hrewrites.key),
    map_eq_of_forall₂ (hafter.imp fun _ _ hrewrites => hrewrites.key), hd'.key, ?_⟩
  have hfinds := finds_iff hm hmodel hkey
  by_cases hhit : e.Finds d
  · obtain ⟨id, hcanonical⟩ := hfinds.mp hhit
    have hread : e.get? x.marker = some (.bool false) → d.get? x.marker = some (.bool false) :=
      get?_of_canonical hs hloads hsaved hes he hdocs hkey honly hcanonical rfl
    rw [hd'.spares_iff hm hfresh hf hmarker hstamp hread hhit, and_iff_right ⟨id, hcanonical⟩]
    exact ⟨.inr, fun h => h.elim (fun hspared => .inr hspared.2) fun hleft => hleft⟩
  · rw [hd'.missed hhit, or_iff_left fun h => hhit (hfinds.mpr h.1)]

end Restored

end Entity

/-! ## An account that is restored -/

namespace EditingSample

open Entity

/-- An account that was deleted. -/
def archived : Document :=
  [("_id", (⟨1⟩ : DocumentId).toJson), ("uid", uid.toJson), ("note", .string "old"),
    ("archived", .bool true), ("archivedAt", .string "then")]

/-- The accounts that were deleted, with some fields or all. -/
def archives (select : Option (List String)) : Query :=
  { accountModel.query with trashed := .only, select }

/-- What a query for the key alone shows of the account. -/
def archivedKey : Entity :=
  ofDocument accountModel [("_id", (⟨1⟩ : DocumentId).toJson), ("uid", uid.toJson)] []

theorem archives_loaded (select : Option (List String)) : (archives select).loaded schema = .ok {} :=
  Relation.loadAll_nil _ _ _

/-- An account that was read in full is there again when it is restored. -/
theorem archived_account_restored : ∃ d,
    ((found archived).restore "now" (storeOf archived)).store.documents "accounts" = [d] ∧
      SoftDelete.Spares ⟨"archived", "archivedAt"⟩ d := by
  have hget : (archives none).get schema (storeOf archived) = .ok [found archived] :=
    Query.get_eq_ok.mpr ⟨{}, _, _, archives_loaded none, rfl, rfl, rfl⟩
  have hunique : ∀ source, ∀ c ∈ (storeOf archived).documents source, c.Unique :=
    Store.forall_documents (by simp [storeOf]; decide)
  have hok := result_eq_ok (o := (found archived).restore "now" (storeOf archived))
    (by decide +kernel)
  have honly : (storeOf archived).documents accountModel.collection = [] ++ archived :: [] := rfl
  obtain ⟨before, d, after, hdocs, hbefore, hafter, -, hspares⟩ :=
    restore_spares_iff hunique (archives_loaded none) (by decide) hget List.mem_cons_self honly rfl
      (fun _ hother => absurd hother List.not_mem_nil) accountModel_deletesIn rfl hok
  obtain rfl := List.map_eq_nil_iff.mp hbefore
  obtain rfl := List.map_eq_nil_iff.mp hafter
  exact ⟨d, hdocs, hspares.mpr (.inr ⟨⟨uid, rfl⟩, .inl rfl⟩)⟩

/-- If only the key of the account was read, restoring it succeeds and leaves the stamp. -/
theorem archived_account_keeps_stamp :
    (archives (some ["uid"])).get schema (storeOf archived) = .ok [archivedKey] ∧
      archivedKey.get? "uid" = archived.get? "uid" ∧
      (archivedKey.restore "now" (storeOf archived)).result = .ok () ∧
      ∀ d ∈ (archivedKey.restore "now" (storeOf archived)).store.documents "accounts",
        ¬ SoftDelete.Spares ⟨"archived", "archivedAt"⟩ d := by
  have hget : (archives (some ["uid"])).get schema (storeOf archived) = .ok [archivedKey] :=
    Query.get_eq_ok.mpr ⟨{}, _, _, archives_loaded _, rfl, rfl, rfl⟩
  have hstamped : ∀ d ∈ (archivedKey.restore "now" (storeOf archived)).store.documents "accounts",
      (d.get? "archivedAt").isSome = true := by decide +kernel
  refine ⟨hget, rfl, result_eq_ok (by decide +kernel), fun d hd hspares => ?_⟩
  have hsome := hstamped d hd
  rw [hspares.2] at hsome
  cases hsome

end EditingSample

end DocMapper
