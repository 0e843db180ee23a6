import DocMapper.Proofs.Pivot.Snapshot
import DocMapper.Proofs.Removal
import DocMapper.Proofs.Upsert

/-! # Writing rows

What the two writes to a pivot collection do to the map that the collection is. A write touches some
targets of an owner: `Rewrites` says that everything else stays as it is, in its place, and that the
collection stays well-formed. Attaching a target makes it active (`attachOne_absent`,
`attachOne_trashed`), and removing rows makes their targets absent (`removeTargets_run`,
`clear_run`). -/

namespace DocMapper

namespace PivotKeys

variable {keys : PivotKeys} {owner target : DocumentId} {row row' : Document}
  {docs : List Document} {s t u : Store}

/-! ## Rows with the same key -/

theorem textAt_congr {f : String} (h : row'.get? f = row.get? f) :
    row'.textAt f = row.textAt f := by
  rw [Document.textAt, Document.textAt, h]

theorem key_congr (h : ∀ f ∈ keys.keyFields, row'.get? f = row.get? f) :
    keys.key row' = keys.key row :=
  List.map_congr_left fun f hf => textAt_congr (h f hf)

theorem textAt_of_key_eq (h : keys.key row' = keys.key row) {f : String} (hf : f ∈ keys.keyFields) :
    row'.textAt f = row.textAt f :=
  List.map_eq_map_iff.mp h f hf

theorem owns_of_key_eq (h : keys.key row' = keys.key row) (owner : DocumentId) :
    keys.owns owner row' = keys.owns owner row := by
  unfold owns
  rw [textAt_of_key_eq h foreign_mem_keyFields]
  cases hm : keys.morphType with
  | none => rfl
  | some m =>
    show (_ && (row'.textAt m.1 == some m.2)) = (_ && (row.textAt m.1 == some m.2))
    rw [textAt_of_key_eq h (morph_mem_keyFields hm)]

/-- Rows with the same key tie the same owners and targets. -/
theorem ties_of_key_eq (h : keys.key row' = keys.key row) (owner target : DocumentId) :
    keys.ties owner target row' = keys.ties owner target row := by
  rw [ties, ties, owns_of_key_eq h, textAt_of_key_eq h related_mem_keyFields]

/-! ## Markers -/

theorem isTrashed_of_marker
    (h : ∀ d, keys.softDelete = some d → row.get? d.marker = some (.bool false)) :
    keys.isTrashed row = false := by
  rw [isTrashed, PivotRows.isTrashed]
  cases hd : keys.softDelete with
  | none => rfl
  | some d =>
    show (row.get? d.marker == some (.bool true)) = false
    rw [h d hd]
    rfl

theorem exists_marker_of_isTrashed (h : keys.isTrashed row = true) :
    ∃ d, keys.softDelete = some d ∧ row.get? d.marker = some (.bool true) := by
  rw [isTrashed, PivotRows.isTrashed] at h
  cases hd : keys.softDelete with
  | none =>
    simp only [hd] at h
    cases h
  | some d =>
    simp only [hd] at h
    refine ⟨d, rfl, ?_⟩
    cases hget : row.get? d.marker with
    | none =>
      rw [hget] at h
      cases h
    | some v =>
      rw [hget] at h
      rw [Json.same_bool_iff.mp h]

/-! ## Restoring a row -/

/-- A row that is no longer deleted softly. -/
def restored (keys : PivotKeys) (row : Document) : Document :=
  match keys.softDelete with
  | none => row
  | some ⟨marker, none⟩ => row.insert marker (.bool false)
  | some ⟨marker, some stamp⟩ => (row.insert marker (.bool false)).erase stamp

theorem unique_restored (h : row.Unique) : (keys.restored row).Unique := by
  rw [restored]
  split
  · exact h
  · exact h.insert _ _
  · exact (h.insert _ _).erase _

/-- Restoring a row touches no field but those by which it is deleted. -/
theorem get?_restored (h : row.Unique) {f : String} (hf : f ∉ keys.deletionFields) :
    (keys.restored row).get? f = row.get? f := by
  rw [deletionFields] at hf
  rw [restored]
  split
  · rfl
  · next marker hd =>
    rw [hd] at hf
    have hne : marker ≠ f := fun heq => hf (heq ▸ List.mem_cons_self)
    exact Document.get?_insert_of_ne hne row _
  · next marker stamp hd =>
    rw [hd] at hf
    have hmarker : marker ≠ f := fun heq => hf (heq ▸ List.mem_cons_self)
    have hstamp : f ≠ stamp := fun heq => hf (by simp [heq])
    rw [Document.get?_erase_of_ne (h.insert _ _) hstamp, Document.get?_insert_of_ne hmarker]

theorem get?_restored_marker (hk : keys.Tidy) (h : row.Unique) {d : PivotSoftDelete}
    (hd : keys.softDelete = some d) : (keys.restored row).get? d.marker = some (.bool false) := by
  have hnodup := hk.deletionFields_nodup
  rw [deletionFields, hd] at hnodup
  rw [restored, hd]
  obtain ⟨marker, stamp⟩ := d
  cases stamp with
  | none => exact Document.get?_insert_self row marker _
  | some stamp =>
    have hne : marker ≠ stamp := fun heq => (List.nodup_cons.mp hnodup).1 (by simp [heq])
    show (Document.erase (row.insert marker (.bool false)) stamp).get? marker = _
    rw [Document.get?_erase_of_ne (h.insert _ _) hne, Document.get?_insert_self]

theorem isTrashed_restored (hk : keys.Tidy) (h : row.Unique) :
    keys.isTrashed (keys.restored row) = false :=
  isTrashed_of_marker fun _ hd => get?_restored_marker hk h hd

theorem Tidy.not_deletion_of_key (hk : keys.Tidy) {f : String} (hf : f ∈ keys.keyFields) :
    f ∉ keys.deletionFields := by
  intro hmem
  exact (List.nodup_append.mp hk.distinct).2.2 f hf f (List.mem_append_left _ hmem) rfl

theorem Tidy.id_not_deletion (hk : keys.Tidy) : "_id" ∉ keys.deletionFields := by
  intro hmem
  exact hk.notId (List.mem_append_right _ (List.mem_append_left _ hmem))

theorem get?_restored_key (hk : keys.Tidy) (h : row.Unique) {f : String} (hf : f ∈ keys.keyFields) :
    (keys.restored row).get? f = row.get? f := get?_restored h (hk.not_deletion_of_key hf)

theorem key_restored (hk : keys.Tidy) (h : row.Unique) :
    keys.key (keys.restored row) = keys.key row :=
  key_congr fun _ hf => get?_restored_key hk h hf

theorem ties_restored (hk : keys.Tidy) (h : row.Unique) (owner target : DocumentId) :
    keys.ties owner target (keys.restored row) = keys.ties owner target row :=
  ties_of_key_eq (key_restored hk h) owner target

/-- A row fits if its fields of the key hold what those of a row that fits do, and its marker says
something. -/
theorem FitsRow.of_key (h : keys.FitsRow row) (hunique : row'.Unique)
    (hkey : ∀ f ∈ keys.keyFields, row'.get? f = row.get? f)
    (hmarker : ∀ d, keys.softDelete = some d → ∃ b, row'.get? d.marker = some (.bool b)) :
    keys.FitsRow row' := by
  refine ⟨hunique, ?_, ?_, ?_, hmarker⟩
  · rw [hkey _ foreign_mem_keyFields]
    exact h.owner
  · rw [hkey _ related_mem_keyFields]
    exact h.target
  · intro field name hm
    rw [hkey field (morph_mem_keyFields hm)]
    exact h.type field name hm

theorem FitsRow.restored (hk : keys.Tidy) (h : keys.FitsRow row) :
    keys.FitsRow (keys.restored row) :=
  h.of_key (unique_restored h.unique) (fun _ hf => get?_restored_key hk h.unique hf)
    (fun _ hd => ⟨false, get?_restored_marker hk h.unique hd⟩)

end PivotKeys

/-! ## The write that attaches -/

namespace PivotRows

variable {rows : PivotRows} {extra : Document} {now : String} {id : DocumentId}

/-- The write that attaches a target: it restores a row, and gives a new one what the filter does
not say. -/
def attachWrite (rows : PivotRows) (extra : Document) (now : String) (id : DocumentId) :
    Update where
  set := (rows.keys.softDelete.map fun d => (d.marker, .bool false)).toList
  unset := (rows.keys.softDelete.bind (·.stamp)).toList
  setOnInsert :=
    if (rows.newFields extra now).isEmpty then
      if rows.keys.softDelete.isNone then rows.targetFilter id.toJson else []
    else rows.newFields extra now

theorem ofJson_attachUpdate (rows : PivotRows) (extra : Document) (now : String)
    (id : DocumentId) :
    Update.ofJson (rows.attachUpdate extra now id) = .ok (rows.attachWrite extra now id) := by
  rw [attachUpdate, restoring, attachWrite]
  -- Which of the operators there are depends on the layout and on whether there are new fields.
  cases rows.keys.softDelete with
  | none => cases (rows.newFields extra now).isEmpty <;> rfl
  | some d =>
    obtain ⟨marker, stamp⟩ := d
    cases stamp <;> cases (rows.newFields extra now).isEmpty <;> rfl

/-- To a row that is there, attaching does nothing but restore it. -/
theorem apply_attachWrite (hfields : ∀ f ∈ rows.keys.deletionFields, IsField f) (d : Document) :
    (rows.attachWrite extra now id).apply d = rows.keys.restored d := by
  rw [Update.apply, attachWrite, PivotKeys.restored]
  rw [PivotKeys.deletionFields] at hfields
  cases hd : rows.keys.softDelete with
  | none => rfl
  | some d =>
    rw [hd] at hfields
    obtain ⟨marker, stamp⟩ := d
    have hset : ∀ d : Document, Update.setAll d [(marker, .bool false)] =
        d.insert marker (.bool false) :=
      fun d => Document.set_field (hfields marker List.mem_cons_self) d _
    cases stamp with
    | none => exact hset d
    | some stamp =>
      show Document.remove (Update.setAll d [(marker, .bool false)]) stamp = _
      rw [hset, Document.remove_field (hfields stamp (by simp))]

end PivotRows

namespace PivotKeys

variable {keys : PivotKeys} {owner target : DocumentId} {row row' : Document}
  {docs : List Document} {s t u : Store}

theorem Tidy.deletion_isField (hk : keys.Tidy) {f : String} (hf : f ∈ keys.deletionFields) :
    IsField f :=
  (hk.plain f (List.mem_append_right _ (List.mem_append_left _ hf))).field

/-- The entries that only a new row gets. -/
def onInsert (keys : PivotKeys) (owner target : DocumentId) (now : String) : Document :=
  match keys.timestamps, keys.softDelete with
  | some t, _ => [(t.created, .string now), (t.updated, .string now)]
  | none, none => (keys.rowsOf owner).targetFilter target.toJson
  | none, some _ => []

theorem newFields_eq (hk : keys.Tidy) (now : String) :
    (keys.rowsOf owner).newFields [] now =
      match keys.timestamps with
      | some t => [(t.created, .string now), (t.updated, .string now)]
      | none => [] := by
  rw [PivotRows.newFields, rowsOf]
  cases ht : keys.timestamps with
  | none => rfl
  | some t =>
    have hnodup := hk.stampFields_nodup
    rw [stampFields, ht] at hnodup
    have hne : t.created ≠ t.updated := fun heq => (List.nodup_cons.mp hnodup).1 (by simp [heq])
    show Document.insert [(t.created, .string now)] t.updated (.string now) = _
    rw [Document.insert_of_not_mem]
    · rfl
    · simpa using Ne.symm hne

/-- The write that attaches a target restores a row and describes the entries of a new one. -/
theorem ofJson_attachUpdate (hk : keys.Tidy) (owner target : DocumentId) (now : String) :
    ∃ u, Update.ofJson ((keys.rowsOf owner).attachUpdate [] now target) = .ok u ∧
      (∀ d, u.apply d = keys.restored d) ∧ u.setOnInsert = keys.onInsert owner target now := by
  refine ⟨_, PivotRows.ofJson_attachUpdate _ _ _ _,
    PivotRows.apply_attachWrite fun _ hf => hk.deletion_isField hf, ?_⟩
  rw [PivotRows.attachWrite, newFields_eq hk, onInsert, rowsOf_keys]
  cases keys.timestamps with
  | none => cases keys.softDelete <;> rfl
  | some t => rfl

theorem keys_onInsert (hk : keys.Tidy) (owner target : DocumentId) (now : String) :
    ∀ f ∈ Document.keys (keys.onInsert owner target now), f ∈ keys.fields := by
  intro f hf
  rw [onInsert] at hf
  split at hf
  · next _ t ht =>
    have hstamps : f ∈ keys.stampFields := by
      rw [stampFields, ht]
      exact hf
    exact List.mem_append_right _ (List.mem_append_right _ hstamps)
  · rw [keys_targetFilter hk] at hf
    exact mem_fields_of_mem_keyFields hf
  · cases hf

theorem unique_onInsert (hk : keys.Tidy) (owner target : DocumentId) (now : String) :
    (keys.onInsert owner target now).Unique := by
  rw [onInsert]
  split
  · next _ t ht =>
    have hnodup := hk.stampFields_nodup
    rw [stampFields, ht] at hnodup
    exact hnodup
  · exact unique_targetFilter hk _
  · exact Document.unique_nil

/-- What only a new row gets leaves what the filter says about its key. -/
theorem get?_onInsert_key (hk : keys.Tidy) {f : String} (hf : f ∈ keys.keyFields) (now : String) :
    ((keys.onInsert owner target now).get? f <|>
        Document.get? ((keys.rowsOf owner).targetFilter target.toJson) f) =
      Document.get? ((keys.rowsOf owner).targetFilter target.toJson) f := by
  rw [onInsert]
  split
  · next _ t ht =>
    have hnone : Document.get? [(t.created, .string now), (t.updated, .string now)] f = none := by
      rw [Document.get?_eq_none_iff]
      intro hmem
      have hstamps : f ∈ keys.stampFields := by
        rw [stampFields, ht]
        exact hmem
      exact (List.nodup_append.mp hk.distinct).2.2 f hf f (List.mem_append_right _ hstamps) rfl
    rw [hnone]
    rfl
  · cases Document.get? ((keys.rowsOf owner).targetFilter target.toJson) f <;> rfl
  · rfl

/-! ## New rows -/

/-- The row that is appended for a target without one, but for its identifier. -/
def newRow (keys : PivotKeys) (owner target : DocumentId) (now : String) : Document :=
  keys.restored (Document.merge ((keys.rowsOf owner).targetFilter target.toJson)
    (keys.onInsert owner target now))

theorem isScalar_of_mem_targetFilter (hk : keys.Tidy) :
    ∀ e ∈ (keys.rowsOf owner).targetFilter target.toJson, e.2.isScalar = true := by
  intro e he
  rcases PivotRows.mem_targetFilter hk.keyFields_nodup he with rfl | ⟨field, name, -, rfl⟩ | rfl
  · rfl
  · rfl
  · rfl

theorem plain_of_mem_targetFilter (hk : keys.Tidy) :
    ∀ k ∈ Document.keys ((keys.rowsOf owner).targetFilter target.toJson), IsPlain k := by
  intro k hmem
  rw [keys_targetFilter hk] at hmem
  exact hk.plain_of_mem hmem

/-- The filter for a target's rows describes its own entries. -/
theorem seed_targetFilter (hk : keys.Tidy) :
    Update.seed (.object ((keys.rowsOf owner).targetFilter target.toJson)) =
      (keys.rowsOf owner).targetFilter target.toJson :=
  Update.seed_eq (plain_of_mem_targetFilter hk) (isScalar_of_mem_targetFilter hk)
    (unique_targetFilter hk _)

theorem inserted_eq (hk : keys.Tidy) {now : String} {u : Update}
    (happly : ∀ d, u.apply d = keys.restored d)
    (hinsert : u.setOnInsert = keys.onInsert owner target now) :
    u.inserted (.object ((keys.rowsOf owner).targetFilter target.toJson)) =
      keys.newRow owner target now := by
  have hfields : ∀ f ∈ Document.keys (keys.onInsert owner target now), IsField f := fun f hf =>
    (hk.plain f (keys_onInsert hk owner target now f hf)).field
  rw [Update.inserted, happly, hinsert, seed_targetFilter hk, Update.setAll_eq_merge hfields,
    newRow]

theorem unique_newRow (hk : keys.Tidy) (owner target : DocumentId) (now : String) :
    (keys.newRow owner target now).Unique :=
  unique_restored ((unique_targetFilter hk _).merge _)

theorem get?_newRow_key (hk : keys.Tidy) {f : String} (hf : f ∈ keys.keyFields) (now : String) :
    (keys.newRow owner target now).get? f =
      Document.get? ((keys.rowsOf owner).targetFilter target.toJson) f := by
  rw [newRow, get?_restored_key hk ((unique_targetFilter hk _).merge _) hf,
    Document.get?_merge (unique_onInsert hk owner target now), get?_onInsert_key hk hf]

theorem get?_newRow_id (hk : keys.Tidy) (owner target : DocumentId) (now : String) :
    (keys.newRow owner target now).get? "_id" = none := by
  have hinsert : (keys.onInsert owner target now).get? "_id" = none := by
    rw [Document.get?_eq_none_iff]
    exact fun hmem => hk.notId (keys_onInsert hk owner target now _ hmem)
  have hfilter : Document.get? ((keys.rowsOf owner).targetFilter target.toJson) "_id" = none := by
    rw [Document.get?_eq_none_iff, keys_targetFilter hk]
    exact fun hmem => hk.notId (mem_fields_of_mem_keyFields hmem)
  rw [newRow, get?_restored ((unique_targetFilter hk _).merge _) hk.id_not_deletion,
    Document.get?_merge (unique_onInsert hk owner target now), hinsert, hfilter]
  rfl

/-- The filter for a target's rows says what such a row holds. -/
theorem get?_targetFilter (hk : keys.Tidy) (owner target : DocumentId) :
    Document.get? ((keys.rowsOf owner).targetFilter target.toJson) keys.foreignPivotKey
        = some owner.toJson ∧
      Document.get? ((keys.rowsOf owner).targetFilter target.toJson) keys.relatedPivotKey
        = some target.toJson ∧
      ∀ field name, keys.morphType = some (field, name) →
        Document.get? ((keys.rowsOf owner).targetFilter target.toJson) field
          = some (.string name) := by
  have hunique : Document.Unique ((keys.rowsOf owner).targetFilter target.toJson) :=
    unique_targetFilter hk target.toJson
  refine ⟨?_, ?_, ?_⟩
  · rw [Document.get?_eq_some_iff hunique, targetFilter_eq hk, ownerFilter_eq hk]
    exact List.mem_cons_self
  · rw [Document.get?_eq_some_iff hunique, targetFilter_eq hk]
    exact List.mem_append_right _ List.mem_cons_self
  · intro field name hm
    rw [Document.get?_eq_some_iff hunique, targetFilter_eq hk, ownerFilter_eq hk, hm]
    exact List.mem_append_left _ (List.mem_cons_of_mem _ List.mem_cons_self)

theorem Tidy.key_ne_id (hk : keys.Tidy) {f : String} (hf : f ∈ keys.keyFields) : "_id" ≠ f :=
  fun heq => hk.notId (heq ▸ mem_fields_of_mem_keyFields hf)

theorem marker_mem_deletionFields {d : PivotSoftDelete} (hd : keys.softDelete = some d) :
    d.marker ∈ keys.deletionFields := by
  rw [deletionFields, hd]
  exact List.mem_cons_self

theorem Tidy.plain_marker (hk : keys.Tidy) {d : PivotSoftDelete} (hd : keys.softDelete = some d) :
    IsPlain d.marker :=
  hk.plain _ (List.mem_append_right _ (List.mem_append_left _ (marker_mem_deletionFields hd)))

theorem Tidy.marker_ne_id (hk : keys.Tidy) {d : PivotSoftDelete} (hd : keys.softDelete = some d) :
    "_id" ≠ d.marker :=
  fun heq => hk.id_not_deletion (heq ▸ marker_mem_deletionFields hd)

/-- The new row, with its identifier, fits the layout, ties the owner to the target and counts. -/
theorem newRow_spec (hk : keys.Tidy) (owner target : DocumentId) (now : String) (id : Json) :
    keys.FitsRow ((keys.newRow owner target now).insert "_id" id) ∧
      keys.ties owner target ((keys.newRow owner target now).insert "_id" id) = true ∧
      keys.isTrashed ((keys.newRow owner target now).insert "_id" id) = false := by
  obtain ⟨howner, htarget, htype⟩ := get?_targetFilter hk owner target
  have hkey : ∀ f ∈ keys.keyFields, ((keys.newRow owner target now).insert "_id" id).get? f =
      Document.get? ((keys.rowsOf owner).targetFilter target.toJson) f := by
    intro f hf
    rw [Document.get?_insert_of_ne (hk.key_ne_id hf), get?_newRow_key hk hf]
  have hmarker : ∀ d, keys.softDelete = some d →
      ((keys.newRow owner target now).insert "_id" id).get? d.marker = some (.bool false) := by
    intro d hd
    rw [Document.get?_insert_of_ne (hk.marker_ne_id hd), newRow]
    exact get?_restored_marker hk ((unique_targetFilter hk _).merge _) hd
  rw [← hkey _ foreign_mem_keyFields] at howner
  rw [← hkey _ related_mem_keyFields] at htarget
  have htype' : ∀ field name, keys.morphType = some (field, name) →
      ((keys.newRow owner target now).insert "_id" id).get? field = some (.string name) := by
    intro field name hm
    rw [hkey field (morph_mem_keyFields hm)]
    exact htype field name hm
  refine ⟨?_, ?_, isTrashed_of_marker hmarker⟩
  · exact ⟨(unique_newRow hk owner target now).insert _ _, ⟨owner, howner⟩, ⟨target, htarget⟩,
      fun field name hm => ⟨name, htype' field name hm⟩, fun d hd => ⟨false, hmarker d hd⟩⟩
  · rw [ties_iff, owns, Bool.and_eq_true, beq_iff_eq]
    refine ⟨⟨Document.textAt_of_get? howner, ?_⟩, Document.textAt_of_get? htarget⟩
    cases hm : keys.morphType with
    | none => rfl
    | some m =>
      obtain ⟨field, name⟩ := m
      have htext := Document.textAt_of_get? (htype' field name hm)
      show (_ == some name) = true
      rw [htext, beq_self_eq_true]

/-! ## Well-formed collections -/

/-- A row for a target that has none can be appended. -/
theorem WellFormed.append (hwf : keys.WellFormed docs) (hfits : keys.FitsRow row)
    (hties : keys.ties owner target row = true)
    (habsent : keys.status docs owner target = .absent) :
    keys.WellFormed (docs ++ [row]) := by
  refine ⟨?_, ?_⟩
  · intro r hr
    rcases List.mem_append.mp hr with hr | hr
    · exact hwf.rows r hr
    · rw [List.mem_singleton] at hr
      exact hr ▸ hfits
  · rw [List.map_append, List.map_singleton]
    refine List.nodup_append.mpr ⟨hwf.distinct, List.pairwise_singleton _ _, ?_⟩
    intro k hk k' hk' heq
    obtain ⟨r, hr, rfl⟩ := List.mem_map.mp hk
    rw [List.mem_singleton] at hk'
    have hties' := ties_of_key_eq (heq.trans hk') owner target
    rw [status_eq_absent_iff.mp habsent r hr, hties] at hties'
    cases hties'

/-- A row can be replaced by one with the same key. -/
theorem WellFormed.replace {before after : List Document}
    (hwf : keys.WellFormed (before ++ row :: after)) (hfits : keys.FitsRow row')
    (hkey : keys.key row' = keys.key row) : keys.WellFormed (before ++ row' :: after) := by
  refine ⟨?_, ?_⟩
  · intro r hr
    rcases List.mem_append.mp hr with hr | hr
    · exact hwf.rows r (List.mem_append_left _ hr)
    · rcases List.mem_cons.mp hr with rfl | hr
      · exact hfits
      · exact hwf.rows r (List.mem_append_right _ (List.mem_cons_of_mem _ hr))
  · have hdistinct := hwf.distinct
    rw [List.map_append, List.map_cons] at hdistinct ⊢
    rw [hkey]
    exact hdistinct

/-- Rows can be removed. -/
theorem WellFormed.filter (hwf : keys.WellFormed docs) (p : Document → Bool) :
    keys.WellFormed (docs.filter p) :=
  ⟨fun row hrow => hwf.rows row (List.mem_filter.mp hrow).1,
    hwf.distinct.sublist (List.Sublist.map _ List.filter_sublist)⟩

/-! ## What a write touches -/

/-- A write to a store that touches only rows of some targets of an owner: the other rows stay as
they are and in their places, the collection stays well-formed, no other collection changes, and
fresh identifiers stay fresh. -/
structure Rewrites (keys : PivotKeys) (owner : DocumentId) (touched : DocumentId → Prop)
    (s t : Store) : Prop where
  others : ∀ name, name ≠ keys.collection → t.documents name = s.documents name
  untouched : ∀ p : Document → Bool,
    (∀ row id, touched id → keys.ties owner id row = true → p row = false) →
      (t.documents keys.collection).filter p = (s.documents keys.collection).filter p
  wellFormed : keys.WellFormed (t.documents keys.collection)
  fresh : ∀ last, s.FreshIds keys.collection last → t.FreshIds keys.collection last

namespace Rewrites

variable {touched touched' : DocumentId → Prop}

theorem refl (hwf : keys.WellFormed (s.documents keys.collection)) :
    keys.Rewrites owner touched s s :=
  ⟨fun _ _ => rfl, fun _ _ => rfl, hwf, fun _ => id⟩

theorem mono (h : keys.Rewrites owner touched s t) (hsub : ∀ id, touched id → touched' id) :
    keys.Rewrites owner touched' s t :=
  ⟨h.others, fun p hp => h.untouched p fun row id hid => hp row id (hsub id hid), h.wellFormed,
    h.fresh⟩

theorem trans (h : keys.Rewrites owner touched s t) (h' : keys.Rewrites owner touched t u) :
    keys.Rewrites owner touched s u :=
  ⟨fun name hne => (h'.others name hne).trans (h.others name hne),
    fun p hp => (h'.untouched p hp).trans (h.untouched p hp), h'.wellFormed,
    fun last hfresh => h'.fresh last (h.fresh last hfresh)⟩

/-- A target that is not touched keeps its status. -/
theorem status_eq (h : keys.Rewrites owner touched s t) (hid : ¬ touched target) :
    keys.status (t.documents keys.collection) owner target =
      keys.status (s.documents keys.collection) owner target := by
  apply status_congr
  apply h.untouched
  intro row id htouched hties
  refine Bool.eq_false_iff.mpr fun hties' => hid ?_
  rw [target_unique hties' hties]
  exact htouched

end Rewrites

/-! ## Attaching -/

/-- Attaching a target without a row appends the new row, under the next identifier. -/
theorem attachOne_inserts (hk : keys.Tidy) (hwf : keys.WellFormed (s.documents keys.collection))
    {last : Nat} (hfresh : s.FreshIds keys.collection last) (hlast : s.ids.drawn < last)
    (now : String) (habsent : keys.status (s.documents keys.collection) owner target = .absent) :
    ∃ t, (keys.rowsOf owner).attachOne [] now target s =
        (.ok { upserted := some s.ids.draw.1 }, t) ∧
      t.ids = s.ids.draw.2 ∧ (∀ name, name ≠ keys.collection → t.documents name = s.documents name) ∧
      t.documents keys.collection = s.documents keys.collection ++
        [(keys.newRow owner target now).insert "_id" s.ids.draw.1.toJson] := by
  obtain ⟨u, hu, happly, hinsert⟩ := ofJson_attachUpdate hk owner target now
  have hinserted := inserted_eq hk happly hinsert
  have hnone : ∀ row ∈ s.documents keys.collection,
      Filter.accepts row (.object ((keys.rowsOf owner).targetFilter target.toJson)) =
        .ok false := by
    intro row hrow
    rw [accepts_targetFilter hk (hwf.rows row hrow).singleValued,
      status_eq_absent_iff.mp habsent row hrow]
  have hid : (u.inserted (.object ((keys.rowsOf owner).targetFilter target.toJson))).get? "_id"
      = none := by
    rw [hinserted]
    exact get?_newRow_id hk owner target now
  have hrun := Store.upsertOne_missing hu hnone hid hfresh hlast
  rw [hinserted] at hrun
  refine ⟨_, hrun, rfl, ?_, ?_⟩
  · intro name hne
    rw [Store.documents_counted, Store.documents_put_of_ne hne]
    rfl
  · rw [Store.documents_counted, Store.documents_put_self]

/-- Attaching a target without a row makes it active. -/
theorem attachOne_absent (hk : keys.Tidy) (hwf : keys.WellFormed (s.documents keys.collection))
    {last : Nat} (hfresh : s.FreshIds keys.collection last) (hlast : s.ids.drawn < last)
    (now : String) (habsent : keys.status (s.documents keys.collection) owner target = .absent) :
    ∃ id t, (keys.rowsOf owner).attachOne [] now target s = (.ok { upserted := some id }, t) ∧
      t.ids.drawn = s.ids.drawn + 1 ∧ keys.Rewrites owner (· = target) s t ∧
      keys.status (t.documents keys.collection) owner target = .active := by
  obtain ⟨hfits, hties, hcounts⟩ := newRow_spec hk owner target now s.ids.draw.1.toJson
  obtain ⟨t, hrun, hids, hothers, hdocs⟩ := attachOne_inserts hk hwf hfresh hlast now habsent
  refine ⟨_, t, hrun, by rw [hids]; rfl, ⟨hothers, ?_, ?_, ?_⟩, ?_⟩
  · intro p hp
    rw [hdocs, List.filter_append, List.filter_cons, hp _ target rfl hties]
    simp
  · rw [hdocs]
    exact hwf.append hfits hties habsent
  · intro last hfresh
    exact hfresh.of_drawn hids hdocs (Document.get?_insert_self _ _ _)
  · rw [hdocs, status_of_row (hwf.append hfits hties habsent)
      (List.mem_append_right _ List.mem_cons_self) hties, hcounts]
    rfl

/-- Attaching a target that has a row restores the row in its place, and counts it as changed if it
is another one then. -/
theorem attachOne_restores (hk : keys.Tidy) (hwf : keys.WellFormed (s.documents keys.collection))
    (now : String) (hrow : row ∈ s.documents keys.collection)
    (hties : keys.ties owner target row = true) :
    ∃ before after t, s.documents keys.collection = before ++ row :: after ∧
      (keys.rowsOf owner).attachOne [] now target s =
        (.ok { matched := 1, modified := if row.same (keys.restored row) then 0 else 1 }, t) ∧
      t.ids = s.ids ∧ (∀ name, name ≠ keys.collection → t.documents name = s.documents name) ∧
      t.documents keys.collection = before ++ keys.restored row :: after := by
  obtain ⟨u, hu, happly, -⟩ := ofJson_attachUpdate hk owner target now
  have htest : ∀ row ∈ s.documents keys.collection,
      Filter.accepts row (.object ((keys.rowsOf owner).targetFilter target.toJson)) =
        .ok (keys.ties owner target row) :=
    fun row hrow => accepts_targetFilter hk (hwf.rows row hrow).singleValued target
  obtain ⟨before, e, after, hsplit, hties', hrun⟩ := Store.upsertOne_found hu htest hrow hties
  -- The first row that the filter finds is the only one.
  have he : e = row := by
    have hmem : e ∈ s.documents keys.collection := by
      rw [hsplit]
      exact List.mem_append_right _ List.mem_cons_self
    have hfilter := filter_ties hwf hmem hties'
    rw [filter_ties hwf hrow hties] at hfilter
    exact (List.cons.inj hfilter).1.symm
  subst he
  have hchanges : u.changes e = !e.same (keys.restored e) := by rw [Update.changes, happly]
  refine ⟨before, after, (s.put keys.collection (before ++ u.apply e :: after)).countedIf
    (u.changes e), hsplit, ?_, ?_, ?_, ?_⟩
  · rw [PivotRows.attachOne, rowsOf_keys, hrun, hchanges]
    cases e.same (keys.restored e) <;> rfl
  · rw [Store.ids_countedIf, Store.ids_put]
  · intro name hne
    rw [Store.documents_countedIf, Store.documents_put_of_ne hne]
  · rw [Store.documents_countedIf, Store.documents_put_self, happly]

/-- Restoring a row in its place touches its target only, and makes it active. -/
theorem rewrites_restored (hk : keys.Tidy) (hwf : keys.WellFormed (s.documents keys.collection))
    {before after : List Document} (hsplit : s.documents keys.collection = before ++ row :: after)
    (hties : keys.ties owner target row = true) (hids : t.ids = s.ids)
    (hothers : ∀ name, name ≠ keys.collection → t.documents name = s.documents name)
    (hdocs : t.documents keys.collection = before ++ keys.restored row :: after) :
    keys.Rewrites owner (· = target) s t ∧
      keys.status (t.documents keys.collection) owner target = .active := by
  have hrow : row ∈ s.documents keys.collection := by
    rw [hsplit]
    exact List.mem_append_right _ List.mem_cons_self
  have hfits := hwf.rows row hrow
  have hwf' : keys.WellFormed (before ++ keys.restored row :: after) :=
    (hsplit ▸ hwf).replace (hfits.restored hk) (key_restored hk hfits.unique)
  have hties' : keys.ties owner target (keys.restored row) = true := by
    rw [ties_restored hk hfits.unique, hties]
  refine ⟨⟨hothers, ?_, ?_, ?_⟩, ?_⟩
  · -- Neither the row nor what it becomes is kept by a test that drops the rows of the target.
    intro p hp
    rw [hdocs, hsplit, List.filter_append, List.filter_append, List.filter_cons, List.filter_cons,
      hp _ target rfl hties, hp _ target rfl hties', if_neg Bool.false_ne_true,
      if_neg Bool.false_ne_true]
  · rw [hdocs]
    exact hwf'
  · intro last hfresh
    refine hfresh.of_sameIds hids ?_
    rw [hdocs, hsplit]
    intro d hd
    rcases List.mem_append.mp hd with hd | hd
    · exact ⟨d, List.mem_append_left _ hd, rfl⟩
    · rcases List.mem_cons.mp hd with rfl | hd
      · exact ⟨row, List.mem_append_right _ List.mem_cons_self,
          get?_restored hfits.unique hk.id_not_deletion⟩
      · exact ⟨d, List.mem_append_right _ (List.mem_cons_of_mem row hd), rfl⟩
  · rw [hdocs, status_of_row hwf' (List.mem_append_right _ List.mem_cons_self) hties',
      isTrashed_restored hk hfits.unique]
    rfl

/-- Restoring a row that is deleted softly is a change. -/
theorem same_restored_of_isTrashed (hk : keys.Tidy) (hunique : row.Unique)
    (htrash : keys.isTrashed row = true) : row.same (keys.restored row) = false := by
  obtain ⟨d, hd, hmarker⟩ := exists_marker_of_isTrashed htrash
  exact Document.same_eq_false hmarker (get?_restored_marker hk hunique hd) rfl

/-- Attaching a target whose row is deleted softly makes it active. -/
theorem attachOne_trashed (hk : keys.Tidy) (hwf : keys.WellFormed (s.documents keys.collection))
    (now : String) (htrashed : keys.status (s.documents keys.collection) owner target = .trashed) :
    ∃ t, (keys.rowsOf owner).attachOne [] now target s = (.ok { matched := 1, modified := 1 }, t) ∧
      t.ids = s.ids ∧ keys.Rewrites owner (· = target) s t ∧
      keys.status (t.documents keys.collection) owner target = .active := by
  obtain ⟨row, hrow, hties, htrash⟩ := (status_eq_trashed_iff hwf).mp htrashed
  obtain ⟨before, after, t, hsplit, hrun, hids, hothers, hdocs⟩ :=
    attachOne_restores hk hwf now hrow hties
  obtain ⟨hrewrites, hactive⟩ := rewrites_restored hk hwf hsplit hties hids hothers hdocs
  rw [same_restored_of_isTrashed hk (hwf.rows row hrow).unique htrash] at hrun
  exact ⟨t, hrun, hids, hrewrites, hactive⟩

/-! ## Removing -/

/-- Removing the rows that meet a test touches the targets that such rows tie the owner to. -/
theorem remove_rewrites (owner : DocumentId) (touched : DocumentId → Prop) {filter : Json}
    {p : Document → Bool} (hwf : keys.WellFormed (s.documents keys.collection))
    (hfilter : ∀ row ∈ s.documents keys.collection, Filter.accepts row filter = .ok (p row))
    (htouched : ∀ row ∈ s.documents keys.collection, p row = true →
      ∃ id, touched id ∧ keys.ties owner id row = true) :
    ∃ n t, Store.deleteMany keys.collection filter s = (.ok n, t) ∧
      keys.Rewrites owner touched s t ∧
      t.documents keys.collection = (s.documents keys.collection).filter (fun row => !p row) := by
  obtain ⟨n, t, hrun, hids, hdocs, hothers⟩ := Store.deleteMany_ok hfilter
  refine ⟨n, t, hrun, ⟨hothers, ?_, ?_, ?_⟩, hdocs⟩
  · intro q hq
    rw [hdocs, List.filter_filter]
    apply List.filter_congr
    intro row hrow
    cases hp : p row with
    | false => simp
    | true =>
      obtain ⟨id, hid, hties⟩ := htouched row hrow hp
      rw [hq row id hid hties]
      rfl
  · rw [hdocs]
    exact hwf.filter _
  · intro last hfresh
    refine hfresh.of_sameIds hids ?_
    rw [hdocs]
    exact fun d hd => ⟨d, (List.mem_filter.mp hd).1, rfl⟩

/-- Removing the rows of some targets makes those targets absent. -/
theorem removeTargets_run (hk : keys.Tidy) (hwf : keys.WellFormed (s.documents keys.collection))
    (owner : DocumentId) (targets : List DocumentId) :
    ∃ n t, (keys.rowsOf owner).removeTargets targets s = (.ok n, t) ∧
      keys.Rewrites owner (· ∈ targets) s t ∧
      ∀ id ∈ targets, keys.status (t.documents keys.collection) owner id = .absent := by
  obtain ⟨n, t, hrun, hrewrites, hdocs⟩ := remove_rewrites owner (· ∈ targets)
    hwf (fun row hrow => accepts_targetsFilter hk (hwf.rows row hrow).singleValued targets)
    (fun row _ hany => List.any_eq_true.mp hany)
  refine ⟨n, t, hrun, hrewrites, ?_⟩
  intro id hid
  rw [status_eq_absent_iff, hdocs]
  intro row hrow
  have hnone := (List.mem_filter.mp hrow).2
  rw [Bool.not_eq_true', List.any_eq_false] at hnone
  exact Bool.eq_false_iff.mpr (hnone id hid)

/-- Removing all rows of an owner makes every target absent. -/
theorem clear_run (hk : keys.Tidy) (hwf : keys.WellFormed (s.documents keys.collection))
    (owner : DocumentId) :
    ∃ n t, (keys.rowsOf owner).clear s = (.ok n, t) ∧
      keys.Rewrites owner
        (fun id => keys.status (s.documents keys.collection) owner id ≠ .absent) s t ∧
      ∀ id, keys.status (t.documents keys.collection) owner id = .absent := by
  have htouched : ∀ row ∈ s.documents keys.collection, keys.owns owner row = true →
      ∃ id, keys.status (s.documents keys.collection) owner id ≠ .absent ∧
        keys.ties owner id row = true := by
    intro row hrow howns
    obtain ⟨id, -, hties⟩ := (hwf.rows row hrow).exists_ties howns
    refine ⟨id, fun habsent => ?_, hties⟩
    rw [status_eq_absent_iff.mp habsent row hrow] at hties
    cases hties
  obtain ⟨n, t, hrun, hrewrites, hdocs⟩ := remove_rewrites owner _ hwf
    (fun row hrow => accepts_ownerFilter hk (hwf.rows row hrow).singleValued) htouched
  refine ⟨n, t, hrun, hrewrites, ?_⟩
  intro id
  rw [status_eq_absent_iff, hdocs]
  intro row hrow
  have hnot := (List.mem_filter.mp hrow).2
  rw [Bool.not_eq_true'] at hnot
  rw [ties, hnot, Bool.false_and]

end PivotKeys

end DocMapper
