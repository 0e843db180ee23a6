import DocMapper.Proofs.Pivot.Interleaving

/-! # Attaching a target, whatever its status is

A program that attaches targets decides what to write from a snapshot. When it comes to write a row,
the target may have got another status, so what the call does is said for each of them: a target
without a row gets one, a row that was deleted softly is restored, and a row that is as restoring
leaves it stays as it is (`attachOne_settles`). Every row that is written is as restoring leaves it.

Layouts that differ only in the type that they put into rows are **alike**: they are of the same
rows, but for owners of different types. -/

namespace DocMapper

namespace PivotKeys

variable {keys keys' : PivotKeys} {owner target : DocumentId} {row : Document}
  {docs : List Document} {s : Store}

/-! ## Layouts of the same rows -/

/-- Two layouts of the same rows, be it for owners of different types. -/
structure Alike (keys keys' : PivotKeys) : Prop where
  collection : keys'.collection = keys.collection
  foreign : keys'.foreignPivotKey = keys.foreignPivotKey
  related : keys'.relatedPivotKey = keys.relatedPivotKey
  typeField : keys'.morphType.map Prod.fst = keys.morphType.map Prod.fst
  softDelete : keys'.softDelete = keys.softDelete

namespace Alike

theorem refl (keys : PivotKeys) : keys.Alike keys := ⟨rfl, rfl, rfl, rfl, rfl⟩

theorem symm (h : keys.Alike keys') : keys'.Alike keys :=
  ⟨h.collection.symm, h.foreign.symm, h.related.symm, h.typeField.symm, h.softDelete.symm⟩

theorem keyFields_eq (h : keys.Alike keys') : keys'.keyFields = keys.keyFields := by
  rw [keyFields, keyFields, h.foreign, h.related, h.typeField]

theorem isTrashed_eq (h : keys.Alike keys') (row : Document) :
    keys'.isTrashed row = keys.isTrashed row := by
  simp only [isTrashed, PivotRows.isTrashed, h.softDelete]

theorem restored_eq (h : keys.Alike keys') (row : Document) :
    keys'.restored row = keys.restored row := by
  simp only [restored, h.softDelete]

theorem fitsRow (h : keys.Alike keys') (hrow : keys.FitsRow row) : keys'.FitsRow row := by
  refine ⟨hrow.unique, h.foreign ▸ hrow.owner, h.related ▸ hrow.target, ?_, h.softDelete ▸ hrow.marker⟩
  intro field name hm
  have hfield := h.typeField
  rw [hm, Option.map_some] at hfield
  obtain ⟨⟨field', name'⟩, hm', hsame⟩ := Option.map_eq_some_iff.mp hfield.symm
  obtain rfl : field' = field := hsame
  exact hrow.type field' name' hm'

theorem wellFormed (h : keys.Alike keys') (hwf : keys.WellFormed docs) : keys'.WellFormed docs := by
  refine ⟨fun row hrow => h.fitsRow (hwf.rows row hrow), ?_⟩
  have hkey : keys'.key = keys.key := by
    funext row
    rw [key, key, h.keyFields_eq]
  rw [hkey]
  exact hwf.distinct

theorem ties_eq (h : keys.Alike keys') (htype : keys'.morphType = keys.morphType)
    (owner target : DocumentId) : keys'.ties owner target = keys.ties owner target := by
  funext row
  simp only [ties, owns, h.foreign, h.related, htype]

/-- A row says which type of owner it is about. -/
theorem type_unique (h : keys.Alike keys') {owner' target' : DocumentId}
    (hties : keys.ties owner target row = true) (hties' : keys'.ties owner' target' row = true) :
    keys'.morphType = keys.morphType := by
  have hfield := h.typeField
  simp only [ties, owns, Bool.and_eq_true, beq_iff_eq] at hties hties'
  cases hm : keys.morphType with
  | none =>
    rw [hm] at hfield
    exact Option.map_eq_none_iff.mp hfield
  | some m =>
    cases hm' : keys'.morphType with
    | none =>
      rw [hm, hm'] at hfield
      cases hfield
    | some m' =>
      have hsame : m'.1 = m.1 := by simpa [hm, hm'] using hfield
      have htext : row.textAt m.1 = some m.2 := by simpa [hm] using hties.1.2
      have htext' : row.textAt m'.1 = some m'.2 := by simpa [hm'] using hties'.1.2
      rw [hsame, htext] at htext'
      exact congrArg some (Prod.ext hsame (Option.some.inj htext').symm)

end Alike

/-- A row ties owners under layouts of the same rows to one owner only. -/
theorem owner_unique (h : keys'.foreignPivotKey = keys.foreignPivotKey)
    {owner' target' : DocumentId} (hties : keys.ties owner target row = true)
    (hties' : keys'.ties owner' target' row = true) : owner' = owner := by
  simp only [ties, owns, Bool.and_eq_true, beq_iff_eq, h] at hties hties'
  have htext := hties.1.1.symm.trans hties'.1.1
  exact (DocumentId.canonical_injective (Option.some.inj htext)).symm

/-! ## Rows as restoring leaves them -/

theorem get?_restored_stamp (hunique : row.Unique) {d : PivotSoftDelete}
    (hd : keys.softDelete = some d) {stamp : String} (hstamp : d.stamp = some stamp) :
    (keys.restored row).get? stamp = none := by
  obtain ⟨marker, stamp'⟩ := d
  cases hstamp
  rw [restored, hd]
  exact Document.get?_erase_self (hunique.insert _ _) stamp

theorem restored_eq_self
    (hmarker : ∀ d, keys.softDelete = some d → row.get? d.marker = some (.bool false))
    (hstamp : ∀ d stamp, keys.softDelete = some d → d.stamp = some stamp → row.get? stamp = none) :
    keys.restored row = row := by
  unfold restored
  split
  · rfl
  · next marker hd => exact Document.insert_eq_self (hmarker _ hd)
  · next marker stamp hd =>
    rw [Document.insert_eq_self (hmarker _ hd), Document.erase_of_not_mem (hstamp _ _ hd rfl)]

/-- Restoring a row twice is restoring it once. -/
theorem restored_restored (hk : keys.Tidy) (hunique : row.Unique) :
    keys.restored (keys.restored row) = keys.restored row :=
  restored_eq_self (fun _ hd => get?_restored_marker hk hunique hd)
    fun _ _ hd hstamp => get?_restored_stamp hunique hd hstamp

/-- There is nothing to restore about a new row. -/
theorem restored_newRow (hk : keys.Tidy) (owner target : DocumentId) (now : String) (id : Json) :
    keys.restored ((keys.newRow owner target now).insert "_id" id) =
      (keys.newRow owner target now).insert "_id" id := by
  have hunique : Document.Unique (Document.merge ((keys.rowsOf owner).targetFilter target.toJson)
      (keys.onInsert owner target now)) := (unique_targetFilter hk _).merge _
  apply restored_eq_self
  · intro d hd
    rw [Document.get?_insert_of_ne (hk.marker_ne_id hd)]
    exact get?_restored_marker hk hunique hd
  · intro d stamp hd hstamp
    have hne : "_id" ≠ stamp := by
      rintro rfl
      apply hk.id_not_deletion
      rw [deletionFields, hd]
      simp [hstamp]
    rw [Document.get?_insert_of_ne hne]
    exact get?_restored_stamp hunique hd hstamp

/-! ## Rows without repeated keys -/

theorem distinctKeys_restored (hrow : (Json.object row).distinctKeys = true) :
    (Json.object (keys.restored row)).distinctKeys = true := by
  obtain ⟨hunique, hvalues⟩ := Json.distinctKeys_object.mp hrow
  refine Json.distinctKeys_object.mpr ⟨unique_restored hunique, ?_⟩
  have hinsert : ∀ marker, ∀ e ∈ row.insert marker (.bool false), e.2.distinctKeys = true := by
    intro marker e he
    rcases Document.mem_of_mem_insert he with he | rfl
    · exact hvalues e he
    · rfl
  unfold restored
  split
  · exact hvalues
  · exact hinsert _
  · exact fun e he => hinsert _ e (Document.mem_of_mem_erase he)

theorem distinctKeys_newRow (hk : keys.Tidy) (owner target : DocumentId) (now : String)
    (id : DocumentId) :
    (Json.object ((keys.newRow owner target now).insert "_id" id.toJson)).distinctKeys = true := by
  have hfilter : ∀ e ∈ (keys.rowsOf owner).targetFilter target.toJson, e.2.distinctKeys = true := by
    intro e he
    rcases PivotRows.mem_targetFilter hk.keyFields_nodup he with rfl | ⟨field, name, -, rfl⟩ | rfl
    · rfl
    · rfl
    · rfl
  have hnew : ∀ e ∈ keys.onInsert owner target now, e.2.distinctKeys = true := by
    unfold onInsert
    split
    · simp [Json.distinctKeys]
    · exact hfilter
    · simp
  have hmerge : (Json.object (Document.merge ((keys.rowsOf owner).targetFilter target.toJson)
      (keys.onInsert owner target now))).distinctKeys = true := by
    refine Json.distinctKeys_object.mpr ⟨(unique_targetFilter hk _).merge _, ?_⟩
    intro e he
    rcases Document.mem_of_mem_merge he with he | he
    · exact hfilter e he
    · exact hnew e he
  exact Json.distinctKeys_insert (distinctKeys_restored hmerge) "_id" rfl

/-! ## Attaching a target, whatever its status is -/

/-- Attaching a target makes it active and is reported by the status that it had. If it was active,
and its row is as restoring leaves it, nothing changes and nothing is reported. -/
theorem attachOne_settles (hk : keys.Tidy) (hwf : keys.WellFormed (s.documents keys.collection))
    (hdistinct : ∀ row ∈ s.documents keys.collection, (Json.object row).distinctKeys = true)
    {last : Nat} (hfresh : s.FreshIds keys.collection last) (hlast : s.ids.drawn < last)
    (now : String) (hsettled : ∀ row ∈ s.documents keys.collection,
      keys.ties owner target row = true → keys.isTrashed row = false → keys.restored row = row)
    (changes : PivotChanges) :
    ∃ outcome t, (keys.rowsOf owner).attachOne [] now target s = (.ok outcome, t) ∧
      PivotRows.report changes target outcome =
        attachedTo (keys.status (s.documents keys.collection) owner) [target] changes ∧
      t.ids.drawn ≤ s.ids.drawn + 1 ∧ keys.Rewrites owner (· = target) s t ∧
      keys.status (t.documents keys.collection) owner target = .active ∧
      ∀ row ∈ t.documents keys.collection, (Json.object row).distinctKeys = true ∧
        (row ∈ s.documents keys.collection ∨
          keys.ties owner target row = true ∧ keys.restored row = row) := by
  by_cases habsent : keys.status (s.documents keys.collection) owner target = .absent
  · obtain ⟨t, hrun, -, -, hdocs⟩ := attachOne_inserts hk hwf hfresh hlast now habsent
    obtain ⟨id, t', hrun', hdrawn, hrewrites, hactive⟩ :=
      attachOne_absent hk hwf hfresh hlast now habsent
    cases hrun.symm.trans hrun'
    refine ⟨_, t, hrun, ?_, Nat.le_of_eq hdrawn, hrewrites, hactive, ?_⟩
    · simp [PivotRows.report, attachedTo, habsent]
    · rw [hdocs]
      intro row hrow
      rcases List.mem_append.mp hrow with hrow | hrow
      · exact ⟨hdistinct row hrow, .inl hrow⟩
      · rw [List.mem_singleton.mp hrow]
        exact ⟨distinctKeys_newRow hk owner target now _,
          .inr ⟨(newRow_spec hk owner target now _).2.1, restored_newRow hk owner target now _⟩⟩
  · obtain ⟨row, hrow, hties⟩ := exists_row habsent
    have hunique := (hwf.rows row hrow).unique
    obtain ⟨before, after, t, hsplit, hrun, hids, hothers, hdocs⟩ :=
      attachOne_restores hk hwf now hrow hties
    obtain ⟨hrewrites, hactive⟩ := rewrites_restored hk hwf hsplit hties hids hothers hdocs
    refine ⟨_, t, hrun, ?_, by rw [hids]; exact Nat.le_succ _, hrewrites, hactive, ?_⟩
    · -- The row changes exactly if it was deleted softly.
      have hstatus := status_of_row hwf hrow hties
      cases htrash : keys.isTrashed row with
      | true =>
        rw [htrash] at hstatus
        simp [PivotRows.report, attachedTo, hstatus, same_restored_of_isTrashed hk hunique htrash]
      | false =>
        rw [htrash] at hstatus
        have hsame : row.same row = true := Json.same_self (.object row) (hdistinct row hrow)
        simp [PivotRows.report, attachedTo, hstatus, hsettled row hrow hties htrash, hsame]
    · rw [hdocs]
      intro r hr
      rcases List.mem_append.mp hr with hr | hr
      · have hmem : r ∈ s.documents keys.collection := hsplit ▸ List.mem_append_left _ hr
        exact ⟨hdistinct r hmem, .inl hmem⟩
      · rcases List.mem_cons.mp hr with rfl | hr
        · refine ⟨distinctKeys_restored (hdistinct row hrow), .inr ⟨?_, ?_⟩⟩
          · rw [ties_restored hk hunique, hties]
          · exact restored_restored hk hunique
        · have hmem : r ∈ s.documents keys.collection :=
            hsplit ▸ List.mem_append_right _ (List.mem_cons_of_mem _ hr)
          exact ⟨hdistinct r hmem, .inl hmem⟩

end PivotKeys

end DocMapper
