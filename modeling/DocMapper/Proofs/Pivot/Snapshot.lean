import DocMapper.Proofs.Pivot.Status

/-! # Filters and snapshots of an owner's rows

The filters by which the program finds rows find the rows that `owns` and `ties` speak of, and
testing them never fails. So the snapshot that the program takes of an owner's rows lists every
target under its status, each once (`snapshot_shows`). -/

namespace DocMapper

namespace PivotKeys

/-- The rows of an owner, as the program handles them. -/
def rowsOf (keys : PivotKeys) (owner : DocumentId) : PivotRows := ⟨keys, owner.toJson⟩

@[simp] theorem rowsOf_keys (keys : PivotKeys) (owner : DocumentId) :
    (keys.rowsOf owner).keys = keys := rfl

variable {keys : PivotKeys} {owner target : DocumentId} {row : Document} {docs : List Document}

/-! ## Fields of a tidy layout -/

theorem mem_fields_of_mem_keyFields {f : String} (h : f ∈ keys.keyFields) : f ∈ keys.fields :=
  List.mem_append_left _ h

theorem foreign_mem_keyFields : keys.foreignPivotKey ∈ keys.keyFields := List.mem_cons_self

theorem related_mem_keyFields : keys.relatedPivotKey ∈ keys.keyFields := by simp [keyFields]

theorem morph_mem_keyFields {field name : String} (h : keys.morphType = some (field, name)) :
    field ∈ keys.keyFields := by simp [keyFields, h]

theorem Tidy.keyFields_nodup (h : keys.Tidy) : keys.keyFields.Nodup :=
  (List.nodup_append.mp h.distinct).1

theorem Tidy.deletionFields_nodup (h : keys.Tidy) : keys.deletionFields.Nodup :=
  (List.nodup_append.mp (List.nodup_append.mp h.distinct).2.1).1

theorem Tidy.stampFields_nodup (h : keys.Tidy) : keys.stampFields.Nodup :=
  (List.nodup_append.mp (List.nodup_append.mp h.distinct).2.1).2.1

theorem Tidy.plain_of_mem (h : keys.Tidy) {f : String} (hf : f ∈ keys.keyFields) : IsPlain f :=
  h.plain f (mem_fields_of_mem_keyFields hf)

/-! ## Filters -/

/-- The fields that say whose row it is. -/
def ownerFields (keys : PivotKeys) : List String :=
  keys.foreignPivotKey :: (keys.morphType.map (·.1)).toList

theorem mem_keyFields_of_mem_ownerFields {f : String} (h : f ∈ keys.ownerFields) :
    f ∈ keys.keyFields := by
  rw [keyFields, ← List.cons_append]
  exact List.mem_append_left _ h

theorem related_not_mem_ownerFields (h : keys.keyFields.Nodup) :
    keys.relatedPivotKey ∉ keys.ownerFields := by
  rw [keyFields, ← List.cons_append] at h
  intro hmem
  exact (List.nodup_append.mp h).2.2 _ hmem _ (List.mem_singleton.mpr rfl) rfl

theorem Tidy.related_apart (h : keys.Tidy) : keys.relatedPivotKey ∉ keys.ownerFields :=
  related_not_mem_ownerFields h.keyFields_nodup

end PivotKeys

namespace PivotRows

variable {rows : PivotRows} {row : Document}

/-- The entries of the filter for an owner's rows: what each field of the key but the target's must
hold. -/
theorem ownerFilter_eq (h : rows.keys.keyFields.Nodup) : rows.ownerFilter =
    (rows.keys.foreignPivotKey, rows.owner) ::
      (rows.keys.morphType.map fun (field, name) => (field, Json.string name)).toList := by
  rw [ownerFilter]
  cases hm : rows.keys.morphType with
  | none => rfl
  | some m =>
    obtain ⟨field, name⟩ := m
    rw [PivotKeys.keyFields, hm] at h
    have hne : rows.keys.foreignPivotKey ≠ field := by
      rintro heq
      exact (List.nodup_cons.mp h).1 (heq ▸ List.mem_cons_self)
    show Document.insert [(rows.keys.foreignPivotKey, rows.owner)] field (.string name) = _
    rw [Document.insert_of_not_mem]
    · rfl
    · simpa using Ne.symm hne

theorem keys_ownerFilter (h : rows.keys.keyFields.Nodup) :
    Document.keys rows.ownerFilter = rows.keys.ownerFields := by
  rw [ownerFilter_eq h, PivotKeys.ownerFields]
  cases rows.keys.morphType <;> rfl

theorem mem_ownerFields_of_mem_keys {f : String} (h : f ∈ Document.keys rows.ownerFilter) :
    f ∈ rows.keys.ownerFields := by
  rw [ownerFilter] at h
  rw [PivotKeys.ownerFields]
  cases hm : rows.keys.morphType with
  | none =>
    rw [hm] at h
    exact h
  | some m =>
    rw [hm] at h
    rcases Document.mem_keys_insert.mp h with rfl | h
    · exact List.mem_cons_of_mem _ List.mem_cons_self
    · rw [List.mem_singleton.mp h]
      exact List.mem_cons_self

/-- The filter for rows whose target meets a condition says one thing more, unless it takes the
place of another one. -/
theorem targetFilter_eq (h : rows.keys.relatedPivotKey ∉ rows.keys.ownerFields)
    (condition : Json) :
    rows.targetFilter condition = rows.ownerFilter ++ [(rows.keys.relatedPivotKey, condition)] :=
  Document.insert_of_not_mem (fun hmem => h (mem_ownerFields_of_mem_keys hmem)) condition

theorem keys_targetFilter (h : rows.keys.keyFields.Nodup) (condition : Json) :
    Document.keys (rows.targetFilter condition) = rows.keys.keyFields := by
  rw [targetFilter_eq (PivotKeys.related_not_mem_ownerFields h), Document.keys, List.map_append,
    ← Document.keys, keys_ownerFilter h]
  rfl

theorem mem_targetFilter (h : rows.keys.keyFields.Nodup) {condition : Json} {e : String × Json}
    (he : e ∈ rows.targetFilter condition) :
    e = (rows.keys.foreignPivotKey, rows.owner) ∨
      (∃ field name, rows.keys.morphType = some (field, name) ∧ e = (field, .string name)) ∨
      e = (rows.keys.relatedPivotKey, condition) := by
  rw [targetFilter_eq (PivotKeys.related_not_mem_ownerFields h), ownerFilter_eq h] at he
  simp only [List.cons_append, List.mem_cons, List.mem_append, Option.mem_toList,
    Option.map_eq_some_iff, List.not_mem_nil, or_false] at he
  rcases he with rfl | ⟨⟨field, name⟩, hm, rfl⟩ | rfl
  · exact .inl rfl
  · exact .inr (.inl ⟨field, name, hm, rfl⟩)
  · exact .inr (.inr rfl)

/-- If the owner's key has no operators, its filter can be tested on every row. -/
theorem accepts_ownerFilter (h : rows.keys.keyFields.Nodup)
    (hplain : ∀ f ∈ rows.keys.ownerFields, startsDollar f = false)
    (hliteral : Filter.isLiteral rows.owner = true) (row : Document) :
    Filter.accepts row (.object rows.ownerFilter) =
      .ok (rows.ownerFilter.all fun e => Filter.equals row e.1 e.2) := by
  refine Filter.accepts_of_conditions (fun e he => ?_) (fun e he => ?_)
  · exact hplain e.1 (mem_ownerFields_of_mem_keys (Document.mem_keys_of_mem he))
  · apply Filter.conditionHolds_of_literal
    rw [ownerFilter_eq h, List.mem_cons, Option.mem_toList, Option.map_eq_some_iff] at he
    rcases he with rfl | ⟨m, -, rfl⟩
    · exact hliteral
    · rfl

/-- Where the owner's filter can be tested, the filter for rows whose target meets a condition finds
those that it finds and that meet the condition. -/
theorem accepts_targetFilter_of (hdollar : startsDollar rows.keys.relatedPivotKey = false)
    (hapart : rows.keys.relatedPivotKey ∉ rows.keys.ownerFields) {condition : Json} {owned b : Bool}
    (howned : Filter.accepts row (.object rows.ownerFilter) = .ok owned)
    (hc : Filter.conditionHolds row rows.keys.relatedPivotKey condition = .ok b) :
    Filter.accepts row (.object (rows.targetFilter condition)) = .ok (owned && b) := by
  rw [targetFilter_eq hapart, Filter.accepts, Filter.entriesHold_append howned,
    Filter.entriesHold_single hdollar, hc]
  cases owned <;> rfl

end PivotRows

namespace PivotKeys

variable {keys : PivotKeys} {owner target : DocumentId} {row : Document} {docs : List Document}

theorem ownerFilter_eq (h : keys.Tidy) : (keys.rowsOf owner).ownerFilter =
    (keys.foreignPivotKey, owner.toJson) ::
      (keys.morphType.map fun (field, name) => (field, Json.string name)).toList :=
  @PivotRows.ownerFilter_eq (keys.rowsOf owner) h.keyFields_nodup

theorem targetFilter_eq (h : keys.Tidy) (condition : Json) :
    (keys.rowsOf owner).targetFilter condition =
      (keys.rowsOf owner).ownerFilter ++ [(keys.relatedPivotKey, condition)] :=
  @PivotRows.targetFilter_eq (keys.rowsOf owner) h.related_apart condition

theorem keys_targetFilter (h : keys.Tidy) (condition : Json) :
    Document.keys ((keys.rowsOf owner).targetFilter condition) = keys.keyFields :=
  @PivotRows.keys_targetFilter (keys.rowsOf owner) h.keyFields_nodup condition

theorem unique_targetFilter (h : keys.Tidy) (condition : Json) :
    Document.Unique ((keys.rowsOf owner).targetFilter condition) := by
  rw [Document.Unique, keys_targetFilter h]
  exact h.keyFields_nodup

/-- No field of the key holds an array, so each has one value at most. -/
def SingleValued (keys : PivotKeys) (row : Document) : Prop :=
  ∀ f ∈ keys.keyFields, ∀ items, row.get? f ≠ some (.array items)

/-- Of a row that fits, every field of the key holds a text. -/
theorem FitsRow.exists_text (hrow : keys.FitsRow row) {f : String} (hf : f ∈ keys.keyFields) :
    ∃ s, row.get? f = some (.string s) := by
  rw [keyFields, List.mem_cons, List.mem_append, List.mem_singleton] at hf
  rcases hf with rfl | hf | rfl
  · obtain ⟨id, hid⟩ := hrow.owner
    exact ⟨id.canonical, hid⟩
  · rw [Option.mem_toList, Option.map_eq_some_iff] at hf
    obtain ⟨⟨field, name⟩, hm, rfl⟩ := hf
    exact hrow.type field name hm
  · obtain ⟨id, hid⟩ := hrow.target
    exact ⟨id.canonical, hid⟩

theorem FitsRow.singleValued (hrow : keys.FitsRow row) : keys.SingleValued row := by
  intro f hf items hitems
  obtain ⟨s, hs⟩ := hrow.exists_text hf
  rw [hs] at hitems
  cases hitems

/-- Whether the entries of the owner's filter hold of a row is whether the row is the owner's. -/
theorem all_ownerFilter (h : keys.Tidy) (hrow : keys.SingleValued row) :
    ((keys.rowsOf owner).ownerFilter.all fun e => Filter.equals row e.1 e.2) =
      keys.owns owner row := by
  have htext : ∀ f ∈ keys.keyFields, ∀ s,
      Filter.equals row f (.string s) = (row.textAt f == some s) :=
    fun f hf s => Filter.equals_string (h.plain_of_mem hf).field (hrow f hf) s
  rw [ownerFilter_eq h, List.all_cons, owns, DocumentId.toJson, htext _ foreign_mem_keyFields]
  cases hm : keys.morphType with
  | none => rfl
  | some m =>
    obtain ⟨field, name⟩ := m
    have hfield := htext field (morph_mem_keyFields hm) name
    simp [hfield]

/-- The filter for an owner's rows finds the owner's rows. -/
theorem accepts_ownerFilter (h : keys.Tidy) (hrow : keys.SingleValued row) :
    Filter.accepts row (.object (keys.rowsOf owner).ownerFilter) = .ok (keys.owns owner row) := by
  rw [← all_ownerFilter h hrow]
  exact @PivotRows.accepts_ownerFilter (keys.rowsOf owner) h.keyFields_nodup
    (fun _ hf => (h.plain_of_mem (mem_keyFields_of_mem_ownerFields hf)).noDollar) rfl row

/-- The filter for rows of an owner whose target meets a condition finds those rows. -/
theorem accepts_targetFilter_of (h : keys.Tidy) (hrow : keys.SingleValued row) {condition : Json}
    {b : Bool} (hc : Filter.conditionHolds row keys.relatedPivotKey condition = .ok b) :
    Filter.accepts row (.object ((keys.rowsOf owner).targetFilter condition)) =
      .ok (keys.owns owner row && b) :=
  @PivotRows.accepts_targetFilter_of (keys.rowsOf owner) row
    (h.plain_of_mem related_mem_keyFields).noDollar h.related_apart _ _ _
    (accepts_ownerFilter h hrow) hc

/-- The filter for a target's rows finds the rows of the target. -/
theorem accepts_targetFilter (h : keys.Tidy) (hrow : keys.SingleValued row)
    (target : DocumentId) :
    Filter.accepts row (.object ((keys.rowsOf owner).targetFilter target.toJson)) =
      .ok (keys.ties owner target row) := by
  have hrelated := (h.plain_of_mem related_mem_keyFields).field
  apply accepts_targetFilter_of h hrow
  rw [Filter.conditionHolds_of_scalar rfl, DocumentId.toJson,
    Filter.equals_string hrelated (hrow _ related_mem_keyFields)]

/-- The filter for the rows of several targets finds the rows of each of them. -/
theorem accepts_targetsFilter (h : keys.Tidy) (hrow : keys.SingleValued row)
    (targets : List DocumentId) :
    Filter.accepts row (.object ((keys.rowsOf owner).targetFilter
        (.single "$in" (.array (targets.map (·.toJson)))))) =
      .ok (targets.any fun target => keys.ties owner target row) := by
  have hrelated := (h.plain_of_mem related_mem_keyFields).field
  have hin : ∀ target : DocumentId,
      Filter.equals row keys.relatedPivotKey target.toJson =
        (row.textAt keys.relatedPivotKey == some target.canonical) :=
    fun target => Filter.equals_string hrelated (hrow _ related_mem_keyFields) target.canonical
  rw [accepts_targetFilter_of h hrow (Filter.conditionHolds_in _ _ _), List.any_map]
  congr 1
  simp only [ties, Function.comp_def, hin]
  cases keys.owns owner row with
  | false => simp
  | true => simp

end PivotKeys

/-! ## Snapshots -/

/-- A snapshot that lists every target under its status, each once. -/
structure PivotSnapshot.Shows (p : PivotSnapshot) (status : DocumentId → PivotStatus) : Prop where
  active : ∀ id, id ∈ p.active ↔ status id = .active
  trashed : ∀ id, id ∈ p.trashed ↔ status id = .trashed
  activeOnce : p.active.Nodup
  trashedOnce : p.trashed.Nodup

namespace PivotRows

theorem mem_addTarget {ids : List DocumentId} {id other : DocumentId} :
    other ∈ addTarget ids id ↔ other ∈ ids ∨ other = id := by
  rw [addTarget]
  split
  · next h =>
    rw [List.contains_iff_mem] at h
    constructor
    · exact Or.inl
    · rintro (hmem | rfl)
      · exact hmem
      · exact h
  · rw [List.mem_append, List.mem_singleton]

theorem nodup_addTarget {ids : List DocumentId} (h : ids.Nodup) (id : DocumentId) :
    (addTarget ids id).Nodup := nodup_append_new h id

theorem mem_foldl_addTarget (ids : List DocumentId) (found : List DocumentId) (other : DocumentId) :
    other ∈ ids.foldl addTarget found ↔ other ∈ found ∨ other ∈ ids := by
  induction ids generalizing found with
  | nil => simp
  | cons id ids ih =>
    rw [List.foldl_cons, ih, mem_addTarget, List.mem_cons, or_assoc]

theorem length_foldl_addTarget (ids : List DocumentId) (found : List DocumentId) :
    (ids.foldl addTarget found).length ≤ found.length + ids.length := by
  induction ids generalizing found with
  | nil => exact Nat.le_refl _
  | cons id ids ih =>
    have hone : (addTarget found id).length ≤ found.length + 1 := by
      rw [addTarget]
      split
      · exact Nat.le_succ _
      · exact Nat.le_of_eq (by rw [List.length_append, List.length_singleton])
    have hrest := ih (addTarget found id)
    rw [List.foldl_cons, List.length_cons]
    omega

section

variable {rows : PivotRows} {row : Document} {docs : List Document} {p : PivotSnapshot}
  {id : DocumentId}

/-- The target that a row refers to, in whatever form. -/
def targetOf (rows : PivotRows) (row : Document) : Option DocumentId :=
  (row.get? rows.keys.relatedPivotKey).bind DocumentId.ofJson?

/-- A row is listed under its status, by the target that it refers to. -/
theorem observe_of_targetOf (h : rows.targetOf row = some id) (p : PivotSnapshot) :
    rows.observe p row =
      if rows.isTrashed row then { p with trashed := addTarget p.trashed id }
      else { p with active := addTarget p.active id } := by
  rw [targetOf] at h
  rw [observe, h]

theorem observe_of_no_target (h : rows.targetOf row = none) (p : PivotSnapshot) :
    rows.observe p row = p := by
  rw [targetOf] at h
  rw [observe, h]

theorem mem_observe (p : PivotSnapshot) (row : Document) (id : DocumentId) :
    (id ∈ (rows.observe p row).active ↔
      id ∈ p.active ∨ rows.targetOf row = some id ∧ rows.isTrashed row = false) ∧
    (id ∈ (rows.observe p row).trashed ↔
      id ∈ p.trashed ∨ rows.targetOf row = some id ∧ rows.isTrashed row = true) := by
  cases htarget : rows.targetOf row with
  | none => simp [observe_of_no_target htarget]
  | some target =>
    rw [observe_of_targetOf htarget]
    cases rows.isTrashed row <;> simp [mem_addTarget, eq_comm]

theorem nodup_observe (ha : p.active.Nodup) (ht : p.trashed.Nodup) (row : Document) :
    (rows.observe p row).active.Nodup ∧ (rows.observe p row).trashed.Nodup := by
  cases htarget : rows.targetOf row with
  | none =>
    rw [observe_of_no_target htarget]
    exact ⟨ha, ht⟩
  | some target =>
    rw [observe_of_targetOf htarget]
    split
    · exact ⟨ha, nodup_addTarget ht target⟩
    · exact ⟨nodup_addTarget ha target, ht⟩

/-- A snapshot that lists the targets of rows, each once: of the rows that are deleted softly as
trashed, of the others as active. -/
structure Lists (rows : PivotRows) (docs : List Document) (p : PivotSnapshot) : Prop where
  active : ∀ id, id ∈ p.active ↔
    ∃ row ∈ docs, rows.targetOf row = some id ∧ rows.isTrashed row = false
  trashed : ∀ id, id ∈ p.trashed ↔
    ∃ row ∈ docs, rows.targetOf row = some id ∧ rows.isTrashed row = true
  activeOnce : p.active.Nodup
  trashedOnce : p.trashed.Nodup

/-- Taking in one row more lists its target too. -/
theorem Lists.observe (h : rows.Lists docs p) (row : Document) :
    rows.Lists (docs ++ [row]) (rows.observe p row) := by
  obtain ⟨hactive, htrashed⟩ := nodup_observe h.activeOnce h.trashedOnce row
  refine ⟨fun id => ?_, fun id => ?_, hactive, htrashed⟩
  · rw [(mem_observe p row id).1, h.active]
    simp [or_and_right, exists_or]
  · rw [(mem_observe p row id).2, h.trashed]
    simp [or_and_right, exists_or]

/-- Taking in rows one after the other lists the targets of all of them. -/
theorem Lists.foldl (h : rows.Lists docs p) (more : List Document) :
    rows.Lists (docs ++ more) (more.foldl rows.observe p) := by
  -- What is listed already is kept, so the rows that were taken in vary along the others.
  induction more generalizing docs p with
  | nil =>
    rw [List.append_nil]
    exact h
  | cons row more ih =>
    rw [List.append_cons]
    exact ih (h.observe row)

theorem lists_nil (rows : PivotRows) : rows.Lists [] {} :=
  ⟨by simp, by simp, List.nodup_nil, List.nodup_nil⟩

/-- Reading rows changes nothing and takes in those that the owner's filter finds. -/
theorem snapshot_eq {s : Store} {q : Document → Bool}
    (h : ∀ row ∈ s.documents rows.keys.collection,
      Filter.accepts row (.object rows.ownerFilter) = .ok (q row)) :
    rows.snapshot s =
      (.ok (((s.documents rows.keys.collection).filter q).foldl rows.observe {}), s) := by
  have hmatching : Stage.matching (.object rows.ownerFilter) (s.documents rows.keys.collection)
      = .ok ((s.documents rows.keys.collection).filter q) := filterM_ok h
  have hfound : s.aggregate rows.keys.collection [.filter (.object rows.ownerFilter)]
      = .ok ((s.documents rows.keys.collection).filter q) := by
    rw [Store.aggregate, Stage.runAll, Stage.run, hmatching, ok_bind, Stage.runAll, mapError_ok]
  exact congrArg (fun found => (found.map fun docs => docs.foldl rows.observe {}, s)) hfound

theorem snapshot_lists {s : Store} {q : Document → Bool}
    (h : ∀ row ∈ s.documents rows.keys.collection,
      Filter.accepts row (.object rows.ownerFilter) = .ok (q row)) :
    ∃ p, rows.snapshot s = (.ok p, s) ∧
      rows.Lists ((s.documents rows.keys.collection).filter q) p :=
  ⟨_, snapshot_eq h, (lists_nil rows).foldl _⟩

/-- Whether the owner's filter finds a row. -/
def finds (rows : PivotRows) (row : Document) : Bool :=
  (Filter.accepts row (.object rows.ownerFilter)).toOption.getD false

/-- If the rows can be read at all, the owner's filter can be tested on each of them. -/
theorem accepts_of_snapshot {s t : Store} (h : rows.snapshot s = (.ok p, t)) :
    t = s ∧ ∀ row ∈ s.documents rows.keys.collection,
      Filter.accepts row (.object rows.ownerFilter) = .ok (rows.finds row) := by
  rw [snapshot, Prod.mk.injEq] at h
  obtain ⟨hfound, rfl⟩ := h
  obtain ⟨docs, hfound, -⟩ := map_eq_ok.mp hfound
  rw [Store.aggregate, mapError_eq_ok, Stage.runAll, Stage.run] at hfound
  obtain ⟨docs, hmatching, -⟩ := bind_eq_ok.mp hfound
  refine ⟨rfl, fun row hrow => ?_⟩
  obtain ⟨b, hb⟩ := filterM_succeeds_iff.mp ⟨docs, hmatching⟩ row hrow
  rw [finds, hb]
  rfl

end

section

variable {keys : PivotKeys} {owner : DocumentId} {row : Document}

/-- An owner's row refers to the target that it ties the owner to. -/
theorem targetOf_eq_some_iff (hrow : keys.FitsRow row) (howns : keys.owns owner row = true)
    {id : DocumentId} :
    (keys.rowsOf owner).targetOf row = some id ↔ keys.ties owner id row = true := by
  obtain ⟨target, htarget, hties⟩ := hrow.exists_ties howns
  rw [PivotKeys.ties_iff_eq hties, targetOf, PivotKeys.rowsOf_keys, htarget, Option.bind_some,
    DocumentId.ofJson?_toJson, Option.some.injEq, eq_comm]

/-- Reading the rows of an owner changes nothing and shows the status of every target. -/
theorem snapshot_shows (h : keys.Tidy) (owner : DocumentId) {s : Store}
    (hwf : keys.WellFormed (s.documents keys.collection)) :
    ∃ p, (keys.rowsOf owner).snapshot s = (.ok p, s) ∧
      p.Shows (keys.status (s.documents keys.collection) owner) := by
  have haccepts : ∀ row ∈ s.documents (keys.rowsOf owner).keys.collection,
      Filter.accepts row (.object (keys.rowsOf owner).ownerFilter) = .ok (keys.owns owner row) :=
    fun row hrow => PivotKeys.accepts_ownerFilter h (hwf.rows row hrow).singleValued
  obtain ⟨p, hrun, hlists⟩ := snapshot_lists haccepts
  -- A row that ties the owner to a target is the owner's, so the filter drops none that counts.
  have howned : ∀ (id : DocumentId) (b : Bool),
      (∃ row ∈ (s.documents keys.collection).filter (keys.owns owner),
          (keys.rowsOf owner).targetOf row = some id ∧ keys.isTrashed row = b) ↔
        ∃ row ∈ s.documents keys.collection,
          keys.ties owner id row = true ∧ keys.isTrashed row = b := by
    intro id b
    constructor
    · rintro ⟨row, hrow, htarget, hb⟩
      obtain ⟨hmem, howns⟩ := List.mem_filter.mp hrow
      exact ⟨row, hmem, (targetOf_eq_some_iff (hwf.rows row hmem) howns).mp htarget, hb⟩
    · rintro ⟨row, hmem, hties, hb⟩
      have howns := (PivotKeys.ties_iff.mp hties).1
      exact ⟨row, List.mem_filter.mpr ⟨hmem, howns⟩,
        (targetOf_eq_some_iff (hwf.rows row hmem) howns).mpr hties, hb⟩
  refine ⟨p, hrun, fun id => ?_, fun id => ?_, hlists.activeOnce, hlists.trashedOnce⟩
  · rw [PivotKeys.status_eq_active_iff hwf, ← howned]
    exact hlists.active id
  · rw [PivotKeys.status_eq_trashed_iff hwf, ← howned]
    exact hlists.trashed id

end

end PivotRows

end DocMapper
