import DocMapper.Proofs.Pivot.Rewrite

/-! # Attaching to rows of any content

What attaching one target does, whatever the rows hold and whatever the extra attributes are
(`attachOne_eq_ok`): it restores a row that the filter finds, in its place, or appends a new one if
none is found. A new row holds what the filter says and then the extra attributes, of which those
under the exact names of the two references and of the marker are left out; `PivotKeys.described` is
the row that they describe. Of the references, an attribute whose path leads into one leaves an
object that is the same for all targets (`get?_described_cases`). -/

namespace DocMapper

/-! ## Rows that a filter finds -/

namespace PivotKeys

variable {keys : PivotKeys} {owner target : DocumentId} {row : Document}
  {extra : Document} {now : String} {s t : Store}

/-- Whether the filter for a target's rows finds a row, of whatever content. -/
def found (keys : PivotKeys) (owner target : DocumentId) (row : Document) : Bool :=
  ((keys.rowsOf owner).targetFilter target.toJson).all fun e => Filter.equals row e.1 e.2

theorem accepts_found (hk : keys.Tidy) (row : Document) :
    Filter.accepts row (.object ((keys.rowsOf owner).targetFilter target.toJson)) =
      .ok (keys.found owner target row) :=
  Filter.accepts_of_conditions
    (fun e he => (plain_of_mem_targetFilter hk e.1 (Document.mem_keys_of_mem he)).noDollar)
    (fun e he => Filter.conditionHolds_of_scalar (isScalar_of_mem_targetFilter hk e he) row e.1)

theorem found_eq_ties (hk : keys.Tidy) (hrow : keys.SingleValued row) :
    keys.found owner target row = keys.ties owner target row :=
  Except.ok.inj ((accepts_found hk row).symm.trans (accepts_targetFilter hk hrow target))

/-- What is found for a target refers to it. -/
theorem equals_of_found (hk : keys.Tidy) (h : keys.found owner target row = true) :
    Filter.equals row keys.relatedPivotKey target.toJson = true := by
  have hmem : (keys.relatedPivotKey, target.toJson) ∈
      (keys.rowsOf owner).targetFilter target.toJson := by
    rw [targetFilter_eq hk]
    exact List.mem_append_right _ (List.mem_singleton.mpr rfl)
  rw [found, List.all_eq_true] at h
  have hentry := h (keys.relatedPivotKey, target.toJson) hmem
  exact hentry

/-! ## New rows -/

/-- The row that the filter and the extra attributes describe. -/
def described (keys : PivotKeys) (owner target : DocumentId) (extra : Document) (now : String) :
    Document :=
  Update.setAll ((keys.rowsOf owner).targetFilter target.toJson)
    ((keys.rowsOf owner).newFields extra now)

/-- A row with the key that the filter and the extra attributes describe, which says that it is not
deleted. -/
structure IsNewRow (keys : PivotKeys) (owner target : DocumentId) (extra : Document) (now : String)
    (row : Document) : Prop where
  key : ∀ f ∈ keys.keyFields, row.get? f = (keys.described owner target extra now).get? f
  marker : ∀ d, keys.softDelete = some d → row.get? d.marker = some (.bool false)

theorem get?_setOnInsert (hk : keys.Tidy) (f : String) :
    (Update.setAll ((keys.rowsOf owner).targetFilter target.toJson)
      ((keys.rowsOf owner).attachWrite extra now target).setOnInsert).get? f =
        (keys.described owner target extra now).get? f := by
  have hunique : Document.Unique ((keys.rowsOf owner).targetFilter target.toJson) :=
    unique_targetFilter hk _
  have hfields : ∀ k ∈ Document.keys ((keys.rowsOf owner).targetFilter target.toJson), IsField k :=
    fun k hmem => (plain_of_mem_targetFilter hk k hmem).field
  rw [described, PivotRows.attachWrite]
  cases hnew : (keys.rowsOf owner).newFields extra now with
  | cons e rest => rfl
  | nil =>
    -- Without new fields, the update gives a new row nothing, or what the filter says once more.
    show (Update.setAll _ (if keys.softDelete.isNone then _ else _)).get? f = _
    split
    · rw [Update.setAll_eq_merge hfields, Document.get?_merge hunique]
      cases hget : Document.get? ((keys.rowsOf owner).targetFilter target.toJson) f <;>
        simp [Update.setAll, hget]
    · rfl

theorem child_targetFilter (hk : keys.Tidy) (f : String) :
    Document.child ((keys.rowsOf owner).targetFilter target.toJson) f = [] := by
  rw [Document.child]
  split
  · next fields hget =>
    have hscalar := isScalar_of_mem_targetFilter hk _ (Document.mem_of_get? hget)
    cases hscalar
  · rfl

/-- An attribute under the exact name of a reference is left out. -/
theorem reference_not_mem_newFields (hk : keys.Tidy) {f : String}
    (hf : f = keys.foreignPivotKey ∨ f = keys.relatedPivotKey) :
    f ∉ Document.keys ((keys.rowsOf owner).newFields extra now) := by
  have hreserved : (keys.rowsOf owner).isReserved f = true := by
    rcases hf with rfl | rfl <;> simp [PivotRows.isReserved]
  have hkey : f ∈ keys.keyFields := by
    rcases hf with rfl | rfl
    · exact foreign_mem_keyFields
    · exact related_mem_keyFields
  have hextra : f ∉ Document.keys (extra.filter fun e =>
      !(keys.rowsOf owner).isReserved e.1) := by
    intro hmem
    obtain ⟨e, he, rfl⟩ := List.mem_map.mp hmem
    have hnot : (!(keys.rowsOf owner).isReserved e.1) = true := (List.mem_filter.mp he).2
    rw [hreserved] at hnot
    cases hnot
  have hstamp : f ∉ keys.stampFields := fun hmem =>
    (List.nodup_append.mp hk.distinct).2.2 f hkey f (List.mem_append_right _ hmem) rfl
  rw [PivotRows.newFields, rowsOf_keys]
  rw [stampFields] at hstamp
  cases ht : keys.timestamps with
  | none => exact hextra
  | some times =>
    simp only [ht, List.mem_cons, List.not_mem_nil, or_false, not_or] at hstamp
    simp only [Document.mem_keys_insert, not_or]
    exact ⟨hstamp.2, hstamp.1, hextra⟩

/-- Of a reference, the extra attributes leave what the filter says, or put the same object in its
place whatever the target is. -/
theorem get?_described_cases (hk : keys.Tidy) (owner : DocumentId) (extra : Document) (now : String)
    {f : String} (hf : f = keys.foreignPivotKey ∨ f = keys.relatedPivotKey) :
    (∀ id, (keys.described owner id extra now).get? f =
        Document.get? ((keys.rowsOf owner).targetFilter id.toJson) f) ∨
      ∃ fields, ∀ id, (keys.described owner id extra now).get? f = some (.object fields) := by
  have hleft : f ∉ Document.keys ((keys.rowsOf owner).newFields extra now) :=
    reference_not_mem_newFields hk hf
  rcases Update.get?_setAll_cases hleft with hkept | ⟨inside, hinside⟩
  · exact .inl fun id => hkept _
  · refine .inr ⟨inside [], fun id => ?_⟩
    rw [described, hinside, child_targetFilter hk]

theorem isNewRow_inserted (hk : keys.Tidy) (owner target : DocumentId) (extra : Document)
    (now : String) (rowId : Json) :
    keys.IsNewRow owner target extra now
      ((((keys.rowsOf owner).attachWrite extra now target).inserted
        (.object ((keys.rowsOf owner).targetFilter target.toJson))).insert "_id" rowId) := by
  have hunique : (Update.setAll ((keys.rowsOf owner).targetFilter target.toJson)
      ((keys.rowsOf owner).attachWrite extra now target).setOnInsert).Unique :=
    Update.unique_setAll (unique_targetFilter hk _) _
  rw [Update.inserted, seed_targetFilter hk,
    PivotRows.apply_attachWrite fun _ hf => hk.deletion_isField hf, rowsOf_keys]
  refine ⟨fun f hf => ?_, fun d hd => ?_⟩
  · rw [Document.get?_insert_of_ne (hk.key_ne_id hf)]
    exact (get?_restored_key hk hunique hf).trans (get?_setOnInsert hk f)
  · rw [Document.get?_insert_of_ne (hk.marker_ne_id hd)]
    exact get?_restored_marker hk hunique hd

/-! ## Attaching -/

/-- Attaching a target restores a row that is found, in its place, or appends a new row. -/
theorem attachOne_eq_ok (hk : keys.Tidy) {outcome : UpdateOutcome}
    (hrun : (keys.rowsOf owner).attachOne extra now target s = (.ok outcome, t)) :
    (outcome.upserted = none ∧ ∃ before row after,
      s.documents keys.collection = before ++ row :: after ∧ keys.found owner target row = true ∧
        t.documents keys.collection = before ++ keys.restored row :: after) ∨
    ((∃ id, outcome.upserted = some id) ∧
      (∀ row ∈ s.documents keys.collection, keys.found owner target row = false) ∧
        ∃ row, keys.IsNewRow owner target extra now row ∧ row.Unique ∧
          t.documents keys.collection = s.documents keys.collection ++ [row]) := by
  have hu := PivotRows.ofJson_attachUpdate (keys.rowsOf owner) extra now target
  have htest : ∀ row ∈ s.documents keys.collection, Filter.accepts row
      (.object ((keys.rowsOf owner).targetFilter target.toJson)) =
        .ok (keys.found owner target row) := fun row _ => accepts_found hk row
  by_cases hany : ∃ row ∈ s.documents keys.collection, keys.found owner target row = true
  · obtain ⟨row, hrow, hfound⟩ := hany
    obtain ⟨before, e, after, hsplit, he, hupsert⟩ := Store.upsertOne_found hu htest hrow hfound
    rw [PivotRows.attachOne, rowsOf_keys, hupsert] at hrun
    cases hrun
    refine .inl ⟨rfl, before, e, after, hsplit, he, ?_⟩
    rw [Store.documents_countedIf, Store.documents_put_self,
      PivotRows.apply_attachWrite fun _ hf => hk.deletion_isField hf, rowsOf_keys]
  · have hnone : ∀ row ∈ s.documents keys.collection, keys.found owner target row = false :=
      fun row hrow => Bool.eq_false_iff.mpr fun hfound => hany ⟨row, hrow, hfound⟩
    obtain ⟨id, hid, hdocs⟩ := Store.upsertOne_appends hu
      (fun row hrow => (htest row hrow).trans (congrArg _ (hnone row hrow))) hrun
    rw [hdocs, Store.documents_put_self]
    exact .inr ⟨⟨id, hid⟩, hnone, _, isNewRow_inserted hk owner target extra now id.toJson,
      (Update.unique_inserted _ _).insert _ _, rfl⟩

end PivotKeys

end DocMapper
