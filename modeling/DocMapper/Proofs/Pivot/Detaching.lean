import DocMapper.Proofs.Pivot.Reconcile

/-! # What detaching leaves

A snapshot lists a target whatever form a row refers to it in, and so a change plans and reports to
detach it. The removal looks for the canonical form. `RelationHandle.detach_leaves` says what this
comes to, for rows of any content: detaching leaves the rows that refer to a target in another form,
and the target is listed after as it was before. So no target that was to be detached is left
exactly if all rows that refer to one of them do so in the canonical form. -/

namespace DocMapper

theorem PivotSnapshot.mem_all {p : PivotSnapshot} {id : DocumentId} :
    id ∈ p.all ↔ id ∈ p.active ∨ id ∈ p.trashed := by
  rw [all, List.mem_append, List.mem_filter, Bool.not_eq_true', isActive, ← Bool.not_eq_true,
    List.contains_iff_mem]
  tauto

namespace PivotRows

variable {rows : PivotRows} {row : Document} {docs : List Document} {p : PivotSnapshot}
  {id : DocumentId} {s t : Store}

theorem Lists.mem_all (h : rows.Lists docs p) :
    id ∈ p.all ↔ ∃ row ∈ docs, rows.targetOf row = some id := by
  rw [PivotSnapshot.mem_all, h.active, h.trashed]
  constructor
  · rintro (⟨row, hrow, htarget, -⟩ | ⟨row, hrow, htarget, -⟩)
    · exact ⟨row, hrow, htarget⟩
    · exact ⟨row, hrow, htarget⟩
  · rintro ⟨row, hrow, htarget⟩
    cases htrash : rows.isTrashed row with
    | false => exact .inl ⟨row, hrow, htarget, htrash⟩
    | true => exact .inr ⟨row, hrow, htarget, htrash⟩

/-- A snapshot lists the targets of the rows that the owner's filter finds. -/
theorem mem_all_of_snapshot (h : rows.snapshot s = (.ok p, t)) :
    id ∈ p.all ↔ ∃ row ∈ s.documents rows.keys.collection, rows.finds row = true ∧
      rows.targetOf row = some id := by
  obtain ⟨-, hfinds⟩ := accepts_of_snapshot h
  obtain ⟨q, hq, hlists⟩ := snapshot_lists hfinds
  rw [h] at hq
  cases hq
  rw [hlists.mem_all]
  simp only [List.mem_filter, and_assoc]

/-! ## Removing rows -/

/-- The condition that a row refers to one of some targets looks for their canonical forms. -/
def refersToAny (rows : PivotRows) (ids : List DocumentId) (row : Document) : Bool :=
  ids.any fun id => Filter.equals row rows.keys.relatedPivotKey id.toJson

/-- Of the targets that it is removed for, a row refers to one at most, and in canonical form. -/
theorem refersToAny_iff (hfield : IsField rows.keys.relatedPivotKey)
    (htarget : rows.targetOf row = some id) (ids : List DocumentId) :
    rows.refersToAny ids row = true ↔
      id ∈ ids ∧ row.get? rows.keys.relatedPivotKey = some id.toJson := by
  obtain ⟨v, hget, hid⟩ := Option.bind_eq_some_iff.mp htarget
  have hv : ∀ items, v ≠ .array items := by
    rintro items rfl
    cases hid
  have hequals : ∀ other : DocumentId,
      Filter.equals row rows.keys.relatedPivotKey other.toJson = true ↔ v = other.toJson := by
    intro other
    exact Filter.equals_string_iff hfield hget hv other.canonical
  rw [refersToAny, List.any_eq_true, hget, Option.some.injEq]
  constructor
  · rintro ⟨other, hmem, hother⟩
    rw [hequals] at hother
    -- What is written as one identifier is read as that one.
    rw [hother, DocumentId.ofJson?_toJson, Option.some.injEq] at hid
    exact ⟨hid ▸ hmem, hid ▸ hother⟩
  · rintro ⟨hmem, heq⟩
    exact ⟨id, hmem, (hequals id).mpr heq⟩

/-- Carrying out the removals of a plan removes the owner's rows that refer to one of the targets in
its canonical form, and reports all targets. -/
theorem removing_spec (hplain : IsPlain rows.keys.relatedPivotKey)
    (hapart : rows.keys.relatedPivotKey ∉ rows.keys.ownerFields) {owned : Document → Bool}
    (howned : ∀ row ∈ s.documents rows.keys.collection,
      Filter.accepts row (.object rows.ownerFilter) = .ok (owned row))
    (ids : List DocumentId) {changes : PivotChanges} (hchanges : changes.detached = []) :
    ∃ t, (rows.removing ids changes).run s = (.ok { changes with detached := ids }, t) ∧
      t.documents rows.keys.collection = (s.documents rows.keys.collection).filter
        (fun row => !(owned row && rows.refersToAny ids row)) ∧
      ∀ name ≠ rows.keys.collection, t.documents name = s.documents name := by
  cases ids with
  | nil =>
    obtain ⟨attached, restored, detached⟩ := changes
    cases hchanges
    refine ⟨s, rfl, ?_, fun _ _ => rfl⟩
    simp [refersToAny]
  | cons id ids =>
    have htest : ∀ row ∈ s.documents rows.keys.collection,
        Filter.accepts row (.object (rows.targetFilter
            (.single "$in" (.array ((id :: ids).map (·.toJson)))))) =
          .ok (owned row && rows.refersToAny (id :: ids) row) := by
      intro row hrow
      apply accepts_targetFilter_of hplain.noDollar hapart (howned row hrow)
      rw [Filter.conditionHolds_in, refersToAny, List.any_map]
      rfl
    obtain ⟨n, t, hrun, -, hdocs, hothers⟩ := Store.deleteMany_ok htest
    refine ⟨t, ?_, hdocs, hothers⟩
    show Program.run (.call (rows.removeTargets (id :: ids)) _) s = _
    rw [Program.run, removeTargets, hrun]
    rfl

/-- What a snapshot lists after the owner's rows were removed that refer to one of some targets in
its canonical form. -/
theorem mem_all_after_removing (hfield : IsField rows.keys.relatedPivotKey)
    {ids : List DocumentId} (h : rows.Lists ((docs.filter fun row =>
      !(rows.finds row && rows.refersToAny ids row)).filter rows.finds) p) :
    id ∈ p.all ↔ ∃ row ∈ docs, rows.finds row = true ∧ rows.targetOf row = some id ∧
      (id ∈ ids → row.get? rows.keys.relatedPivotKey ≠ some id.toJson) := by
  have hkept : ∀ row, rows.finds row = true → rows.targetOf row = some id →
      ((!(rows.finds row && rows.refersToAny ids row)) = true ↔
        (id ∈ ids → row.get? rows.keys.relatedPivotKey ≠ some id.toJson)) := by
    intro row hfinds htarget
    rw [hfinds, Bool.true_and, Bool.not_eq_true', ← Bool.not_eq_true,
      refersToAny_iff hfield htarget, not_and]
  rw [h.mem_all]
  constructor
  · rintro ⟨row, hrow, htarget⟩
    obtain ⟨hrow, hfinds⟩ := List.mem_filter.mp hrow
    obtain ⟨hrow, hnot⟩ := List.mem_filter.mp hrow
    exact ⟨row, hrow, hfinds, htarget, (hkept row hfinds htarget).mp hnot⟩
  · rintro ⟨row, hrow, hfinds, htarget, hnot⟩
    refine ⟨row, List.mem_filter.mpr ⟨List.mem_filter.mpr ⟨hrow, ?_⟩, hfinds⟩, htarget⟩
    exact (hkept row hfinds htarget).mpr hnot

/-- Removing the rows of those among some targets that a snapshot lists. Listed after are the
targets of rows that refer to none of them, or not in its canonical form. -/
theorem removing_listed (hplain : IsPlain rows.keys.relatedPivotKey)
    (hapart : rows.keys.relatedPivotKey ∉ rows.keys.ownerFields)
    (hbefore : rows.snapshot s = (.ok p, s)) (targets : List DocumentId) {changes : PivotChanges}
    (hchanges : changes.detached = []) :
    ∃ t after, (rows.removing (p.all.filter targets.contains) changes).run s =
        (.ok { changes with detached := p.all.filter targets.contains }, t) ∧
      rows.snapshot t = (.ok after, t) ∧
      ∀ id, id ∈ after.all ↔ ∃ row ∈ s.documents rows.keys.collection, rows.finds row = true ∧
        rows.targetOf row = some id ∧
          (id ∈ targets → row.get? rows.keys.relatedPivotKey ≠ some id.toJson) := by
  obtain ⟨-, hfinds⟩ := accepts_of_snapshot hbefore
  obtain ⟨t, hrun, hdocs, -⟩ :=
    removing_spec hplain hapart hfinds (p.all.filter targets.contains) hchanges
  have hstill : ∀ row ∈ t.documents rows.keys.collection,
      Filter.accepts row (.object rows.ownerFilter) = .ok (rows.finds row) := by
    intro row hrow
    rw [hdocs] at hrow
    exact hfinds row (List.mem_filter.mp hrow).1
  obtain ⟨after, hafter, hlists⟩ := snapshot_lists hstill
  rw [hdocs] at hlists
  refine ⟨t, after, hrun, hafter, fun id => ?_⟩
  rw [mem_all_after_removing hplain.field hlists]
  refine exists_congr fun row => and_congr_right fun hrow => and_congr_right fun hfind =>
    and_congr_right fun hrefers => ?_
  have hlisted : id ∈ p.all := (mem_all_of_snapshot hbefore).mpr ⟨row, hrow, hfind, hrefers⟩
  rw [List.mem_filter, List.contains_iff_mem, and_iff_right hlisted]

end PivotRows

namespace RelationHandle

variable {h : RelationHandle} {keys : PivotKeys} {s t : Store}

theorem keys_of_pivotRows {rows : PivotRows} (hpivot : h.relation.pivot? = some keys)
    (hrows : h.pivotRows = .ok rows) : rows.keys = keys := by
  rw [pivotRows, hpivot] at hrows
  obtain ⟨owner, -, hrows⟩ := bind_eq_ok.mp hrows
  rw [← Except.ok.inj hrows]

theorem pivotSnapshot_eq {rows : PivotRows} (hrows : h.pivotRows = .ok rows) (s : Store) :
    h.pivotSnapshot s = rows.snapshot s := by
  simp only [pivotSnapshot, hrows]

/-- **What detaching leaves**, if the field of the target is a plain one of its own: of the targets
that were to be detached, those to which some row of the owner refers in a form other than the
canonical one. All of them that had a row are reported as detached. -/
theorem detach_leaves (hpivot : h.relation.pivot? = some keys)
    (hplain : IsPlain keys.relatedPivotKey) (hapart : keys.relatedPivotKey ∉ keys.ownerFields)
    {now : String} {values : List Json} {changes : PivotChanges}
    (hrun : h.reconcile now (.detach values) s = (.ok changes, t)) :
    ∃ rows ids before after, h.pivotRows = .ok rows ∧ DocumentId.ofJsons values = .ok ids ∧
      h.pivotSnapshot s = (.ok before, s) ∧ h.pivotSnapshot t = (.ok after, t) ∧
      (∀ id, id ∈ changes.detached ↔ id ∈ ids ∧ id ∈ before.all) ∧
      (∀ id, id ∈ after.all ↔ id ∈ before.all ∧
        (id ∈ ids → ∃ row ∈ s.documents keys.collection, rows.finds row = true ∧
          rows.targetOf row = some id ∧ row.get? keys.relatedPivotKey ≠ some id.toJson)) ∧
      ((∀ id ∈ ids, id ∉ after.all) ↔
        ∀ row ∈ s.documents keys.collection, rows.finds row = true →
          ∀ id ∈ ids, rows.targetOf row = some id →
            row.get? keys.relatedPivotKey = some id.toJson) := by
  obtain ⟨targets, fields, rows, before, htargets, -, hrows, hbefore, happly⟩ :=
    planned_eq_ok hrun
  obtain ⟨ids, hids, -, htarget⟩ := targetIds_eq_ok htargets
  obtain rfl := keys_of_pivotRows hpivot hrows
  -- The plan attaches nothing, so it goes straight on to the removal.
  obtain ⟨u, after, hremove, hafter, hleft⟩ := PivotRows.removing_listed hplain hapart hbefore
    targets (show ({} : PivotChanges).detached = [] from rfl)
  have hend := hremove.symm.trans happly
  simp only [Prod.mk.injEq, Except.ok.injEq] at hend
  obtain ⟨rfl, rfl⟩ := hend
  simp only [htarget] at hleft
  refine ⟨rows, ids, before, after, hrows, hids, ?_, ?_, fun id => ?_, fun id => ?_, ?_, ?_⟩
  · rw [pivotSnapshot_eq hrows, hbefore]
  · rw [pivotSnapshot_eq hrows, hafter]
  · rw [List.mem_filter, List.contains_iff_mem, htarget, and_comm]
  · rw [hleft, PivotRows.mem_all_of_snapshot hbefore]
    constructor
    · rintro ⟨row, hrow, hfind, hrefers, hother⟩
      exact ⟨⟨row, hrow, hfind, hrefers⟩, fun hid => ⟨row, hrow, hfind, hrefers, hother hid⟩⟩
    · rintro ⟨⟨row, hrow, hfind, hrefers⟩, hother⟩
      by_cases hid : id ∈ ids
      · obtain ⟨row, hrow, hfind, hrefers, hne⟩ := hother hid
        exact ⟨row, hrow, hfind, hrefers, fun _ => hne⟩
      · exact ⟨row, hrow, hfind, hrefers, fun hmem => absurd hmem hid⟩
  · intro hnone row hrow hfind id hid hrefers
    by_contra hne
    exact hnone id hid ((hleft id).mpr ⟨row, hrow, hfind, hrefers, fun _ => hne⟩)
  · intro hall id hid hlisted
    obtain ⟨row, hrow, hfind, hrefers, hne⟩ := (hleft id).mp hlisted
    exact hne hid (hall row hrow hfind id hid hrefers)

end RelationHandle

/-! ## A role in upper case -/

namespace PivotSample

/-- A role with letters among the digits of its identifier. -/
def lettered : DocumentId := ⟨0xAB#128⟩

/-- A row that refers to the role in upper case. -/
def upperRow : Document :=
  [("_id", DocumentId.toJson ⟨10#128⟩), ("userId", user.toJson),
    ("roleId", .string "00000000-0000-0000-0000-0000000000AB"), ("isDeleted", .bool false)]

/-- The store with a row more. -/
def spelledStore : Store := { store with collections := [("role_user", [row, upperRow])] }

/-- The request to detach the roles of both rows. -/
def detachBoth : Reconciliation := .detach [DocumentId.toJson ⟨2#128⟩, lettered.toJson]

theorem detachBoth_reports :
    (handle.reconcile "now" detachBoth spelledStore).1.toOption.map (·.detached) =
      some [lettered, ⟨2#128⟩] := by
  decide +kernel

/-- Of the two roles, the one whose row is in canonical form is detached. -/
theorem detach_both_roles :
    ∃ changes t after, handle.reconcile "now" detachBoth spelledStore = (.ok changes, t) ∧
      handle.pivotSnapshot t = (.ok after, t) ∧ ⟨2#128⟩ ∉ after.all := by
  obtain ⟨changes, hrun, -⟩ := action_eq_ok detachBoth_reports
  obtain ⟨rows, ids, before, after, hrows, hids, -, hafter, -, hleft, -⟩ :=
    RelationHandle.detach_leaves (show handle.relation.pivot? = some keys from rfl)
      (keys_tidy.plain_of_mem PivotKeys.related_mem_keyFields) keys_tidy.related_apart hrun
  refine ⟨changes, _, after, hrun, hafter, fun hlisted => ?_⟩
  have hhandle : handle.HasPivot keys user := ⟨rfl, user.toJson, rfl, user.ofJson?_toJson⟩
  have heq : rows = keys.rowsOf user :=
    Except.ok.inj (hrows.symm.trans (RelationHandle.pivotRows_eq hhandle))
  have hnamed : ids = [⟨2#128⟩, lettered] :=
    Except.ok.inj (hids.symm.trans (DocumentId.ofJsons_toJson [⟨2#128⟩, lettered]))
  subst heq hnamed
  -- The one row refers to the role in canonical form, the other one to another role.
  obtain ⟨found, hfound, -, hrefers, hother⟩ := ((hleft ⟨2#128⟩).mp hlisted).2 List.mem_cons_self
  have hcases : found ∈ [row, upperRow] := hfound
  rcases List.mem_pair.mp hcases with rfl | rfl
  · exact hother rfl
  · exact absurd hrefers (by decide +kernel)

/-- Both roles are reported as detached, and the one in upper case is still listed. -/
theorem detached_role_listed :
    ¬ ∀ changes t after, handle.reconcile "now" detachBoth spelledStore = (.ok changes, t) →
      (handle.pivotSnapshot t).1 = .ok after → ∀ id ∈ changes.detached, id ∉ after.all := by
  intro hnone
  have hlists : (handle.pivotSnapshot
      (handle.reconcile "now" detachBoth spelledStore).2).1.toOption.map (·.all) =
        some [lettered] := by
    decide +kernel
  obtain ⟨changes, hrun, hdetached⟩ := action_eq_ok detachBoth_reports
  obtain ⟨after, hafter, hall⟩ := toOption_map_eq_some.mp hlists
  refine hnone changes _ after hrun hafter lettered ?_ ?_
  · rw [hdetached]
    exact List.mem_cons_self
  · rw [hall]
    exact List.mem_cons_self

end PivotSample

end DocMapper
