import DocMapper.Proofs.Pivot.Rewrite
import DocMapper.Relation.Reconcile

/-! # Changes of many-to-many relations refine changes of a map

A change of the related documents of an owner reads the owner's rows, makes a plan and carries it
out. Seen from outside it acts on the map from targets to their status that the rows are: `effect`
says how, target by target, and `reconcile_refines` that the program does just that, for every kind
of change, and reports what it did.

A plan is carried out correctly if it **fits** the map it was made from: it inserts what is absent,
restores what is trashed and deletes what is there, each once and nothing that it also attaches
(`applying_run`). The plans of all operations fit a snapshot that shows the map. -/

namespace DocMapper

/-! ## The effect of a change on the map -/

namespace Reconciliation

/-- The targets that a change names. -/
def ids : Reconciliation → List Json
  | attach ids _ | detach ids | sync ids _ | syncWithoutDetaching ids _ | toggle ids => ids
  | detachAll => []

/-- The extra attributes that a change gives to new rows. -/
def extra : Reconciliation → Json
  | attach _ extra | sync _ extra | syncWithoutDetaching _ extra => extra
  | detach _ | detachAll | toggle _ => .null

/-- What becomes of a target, given whether the change names it and its status before. -/
def effect (named : Bool) (before : PivotStatus) : Reconciliation → PivotStatus
  | attach _ _ | syncWithoutDetaching _ _ => if named then .active else before
  | detach _ => if named then .absent else before
  | detachAll => .absent
  | sync _ _ => if named then .active else .absent
  | toggle _ => if named then if before = .active then .absent else .active else before

end Reconciliation

/-- What became of every target is what a change should make of it, and is reported: the targets
that were absent and are active now as attached, those that were trashed as restored, and those that
are absent now and were not as detached, each once. -/
structure PivotChanges.Reports (c : PivotChanges) (before after : DocumentId → PivotStatus) :
    Prop where
  attached : ∀ id, id ∈ c.attached ↔ before id = .absent ∧ after id = .active
  restored : ∀ id, id ∈ c.restored ↔ before id = .trashed ∧ after id = .active
  detached : ∀ id, id ∈ c.detached ↔ before id ≠ .absent ∧ after id = .absent
  attachedOnce : c.attached.Nodup
  restoredOnce : c.restored.Nodup
  detachedOnce : c.detached.Nodup

/-! ## Plans that fit -/

/-- A plan that fits the statuses it was made from. -/
structure PivotPlan.Fits (p : PivotPlan) (status : DocumentId → PivotStatus) : Prop where
  insert : ∀ id ∈ p.insert, status id = .absent
  restore : ∀ id ∈ p.restore, status id = .trashed
  delete : ∀ id ∈ p.delete, status id ≠ .absent
  apart : ∀ id ∈ p.restore, id ∉ p.delete
  insertOnce : p.insert.Nodup
  restoreOnce : p.restore.Nodup
  deleteOnce : p.delete.Nodup

namespace PivotPlan.Fits

variable {plan : PivotPlan} {status : DocumentId → PivotStatus}

/-- What a plan that fits attaches, it does not delete. -/
theorem not_mem_delete (h : plan.Fits status) {id : DocumentId}
    (hid : id ∈ plan.insert ∨ id ∈ plan.restore) : id ∉ plan.delete := by
  rcases hid with hid | hid
  · exact fun hdelete => h.delete id hdelete (h.insert id hid)
  · exact h.apart id hid

theorem nodup_attached (h : plan.Fits status) : (plan.insert ++ plan.restore).Nodup := by
  refine List.nodup_append.mpr ⟨h.insertOnce, h.restoreOnce, ?_⟩
  intro a ha b hb hab
  have habsent := h.insert a ha
  rw [hab, h.restore b hb] at habsent
  cases habsent

/-- What a plan that fits attaches is not active. -/
theorem not_active (h : plan.Fits status) : ∀ id ∈ plan.insert ++ plan.restore,
    status id ≠ .active := by
  intro id hid
  rcases List.mem_append.mp hid with hid | hid
  · rw [h.insert id hid]
    decide
  · rw [h.restore id hid]
    decide

end PivotPlan.Fits

/-- A plan that attaches none but the given targets and has a given effect on every status. -/
structure PivotPlan.Achieves (p : PivotPlan) (status : DocumentId → PivotStatus)
    (targets : List DocumentId) (effect : DocumentId → PivotStatus → PivotStatus) : Prop where
  fits : p.Fits status
  attaches : ∀ id, id ∈ p.insert ∨ id ∈ p.restore → id ∈ targets
  effect : ∀ id, effect id (status id) =
    if id ∈ p.insert ∨ id ∈ p.restore then .active
    else if id ∈ p.delete then .absent else status id

/-- A plan attaches at most as many targets as it may. -/
theorem PivotPlan.Achieves.length_le {p : PivotPlan} {status : DocumentId → PivotStatus}
    {targets : List DocumentId} {effect : DocumentId → PivotStatus → PivotStatus}
    (h : p.Achieves status targets effect) :
    p.insert.length + p.restore.length ≤ targets.length := by
  rw [← List.length_append]
  exact h.fits.nodup_attached.length_le_of_subset fun id hid =>
    h.attaches id (List.mem_append.mp hid)

namespace PivotSnapshot

variable {p : PivotSnapshot} {status : DocumentId → PivotStatus} {ids : List DocumentId}

theorem Shows.isActive_iff (h : p.Shows status) (id : DocumentId) :
    p.isActive id = true ↔ status id = .active := by
  rw [isActive, List.contains_iff_mem, h.active]

theorem Shows.isTrashed_iff (h : p.Shows status) (id : DocumentId) :
    p.isTrashed id = true ↔ status id = .trashed := by
  rw [isTrashed, Bool.and_eq_true, Bool.not_eq_true', ← Bool.not_eq_true, h.isActive_iff,
    List.contains_iff_mem, h.trashed]
  constructor
  · exact And.right
  · intro ht
    exact ⟨by rw [ht]; decide, ht⟩

theorem Shows.mem_all_iff (h : p.Shows status) (id : DocumentId) :
    id ∈ p.all ↔ status id ≠ .absent := by
  rw [all, List.mem_append, List.mem_filter, h.active, h.trashed, Bool.not_eq_true',
    ← Bool.not_eq_true, h.isActive_iff]
  cases status id <;> decide

theorem Shows.nodup_all (h : p.Shows status) : p.all.Nodup := by
  rw [all]
  refine List.nodup_append.mpr ⟨h.activeOnce, h.trashedOnce.filter _, ?_⟩
  intro a ha b hb hab
  have hb' := (List.mem_filter.mp hb).2
  rw [Bool.not_eq_true', ← Bool.not_eq_true, h.isActive_iff, ← hab] at hb'
  exact hb' ((h.active a).mp ha)

end PivotSnapshot

namespace PivotPlan

variable {p : PivotSnapshot} {status : DocumentId → PivotStatus} {ids : List DocumentId}

theorem mem_attach_insert (h : p.Shows status) {id : DocumentId} :
    id ∈ (attach p ids).insert ↔ id ∈ ids ∧ status id = .absent := by
  rw [attach, List.mem_filter, Bool.and_eq_true, Bool.not_eq_true', Bool.not_eq_true',
    ← Bool.not_eq_true, ← Bool.not_eq_true, h.isActive_iff, h.isTrashed_iff]
  refine and_congr_right fun _ => ?_
  cases status id <;> decide

theorem mem_attach_restore (h : p.Shows status) {id : DocumentId} :
    id ∈ (attach p ids).restore ↔ id ∈ ids ∧ status id = .trashed := by
  rw [attach, List.mem_filter, h.isTrashed_iff]

theorem mem_attached_iff (h : p.Shows status) {id : DocumentId} :
    (id ∈ (attach p ids).insert ∨ id ∈ (attach p ids).restore) ↔
      id ∈ ids ∧ status id ≠ .active := by
  rw [mem_attach_insert h, mem_attach_restore h, ← and_or_left]
  refine and_congr_right fun _ => ?_
  cases status id <;> decide

/-- A plan that attaches what is not active achieves that, and the absence of what it deletes, if
that is there and not to be attached. -/
theorem achieves_attach (h : p.Shows status) (hids : ids.Nodup) (delete : List DocumentId)
    (hdelete : ∀ id ∈ delete, status id ≠ .absent)
    (hapart : ∀ id ∈ delete, id ∈ ids → status id = .active) (honce : delete.Nodup) :
    ({ attach p ids with delete := delete } : PivotPlan).Achieves status ids
      fun id before => if id ∈ ids ∧ before ≠ .active then .active
        else if id ∈ delete then .absent else before := by
  refine ⟨⟨?_, ?_, hdelete, ?_, hids.filter _, hids.filter _, honce⟩, ?_, ?_⟩
  · exact fun id hid => ((mem_attach_insert h).mp hid).2
  · exact fun id hid => ((mem_attach_restore h).mp hid).2
  · intro id hid hdel
    obtain ⟨hmem, htrashed⟩ := (mem_attach_restore h).mp hid
    rw [hapart id hdel hmem] at htrashed
    cases htrashed
  · exact fun id hid => ((mem_attached_iff h).mp hid).1
  · intro id
    simp only [mem_attached_iff h]

/-- A plan does the same as another one if it achieves the same. -/
theorem Achieves.congr {plan : PivotPlan} {effect effect' : DocumentId → PivotStatus → PivotStatus}
    (h : plan.Achieves status ids effect)
    (heq : ∀ id, effect' id (status id) = effect id (status id)) :
    plan.Achieves status ids effect' :=
  ⟨h.fits, h.attaches, fun id => (heq id).trans (h.effect id)⟩

/-! ## The plans of the operations -/

theorem attach_achieves (h : p.Shows status) (hids : ids.Nodup) :
    (attach p ids).Achieves status ids fun id before => if id ∈ ids then .active else before := by
  refine (achieves_attach h hids [] (by simp) (by simp) List.nodup_nil).congr ?_
  intro id
  cases status id <;> simp

theorem detach_achieves (h : p.Shows status) :
    (detach p ids).Achieves status ids fun id before => if id ∈ ids then .absent else before := by
  have hmem : ∀ id, id ∈ (detach p ids).delete ↔ status id ≠ .absent ∧ id ∈ ids := by
    intro id
    rw [detach, List.mem_filter, h.mem_all_iff, List.contains_iff_mem]
  have hnone : ∀ id : DocumentId, ¬ (id ∈ (detach p ids).insert ∨ id ∈ (detach p ids).restore) := by
    rintro id (hid | hid) <;> cases hid
  refine ⟨⟨?_, ?_, ?_, ?_, List.nodup_nil, List.nodup_nil, h.nodup_all.filter _⟩, ?_, ?_⟩
  · exact fun id hid => absurd (Or.inl hid) (hnone id)
  · exact fun id hid => absurd (Or.inr hid) (hnone id)
  · exact fun id hid => ((hmem id).mp hid).1
  · exact fun id hid => absurd (Or.inr hid) (hnone id)
  · exact fun id hid => absurd hid (hnone id)
  · intro id
    simp only [if_neg (hnone id), hmem]
    cases status id <;> simp

theorem sync_achieves (h : p.Shows status) (hids : ids.Nodup) :
    (sync true p ids).Achieves status ids fun id _ => if id ∈ ids then .active else .absent := by
  have hmem : ∀ id, id ∈ p.all.filter (fun id => !ids.contains id) ↔
      status id ≠ .absent ∧ id ∉ ids := by
    intro id
    rw [List.mem_filter, h.mem_all_iff, Bool.not_eq_true', ← Bool.not_eq_true,
      List.contains_iff_mem]
  refine (achieves_attach h hids (p.all.filter fun id => !ids.contains id) ?_ ?_
    (h.nodup_all.filter _)).congr ?_
  · exact fun id hid => ((hmem id).mp hid).1
  · exact fun id hid hnamed => absurd hnamed ((hmem id).mp hid).2
  · intro id
    simp only [hmem]
    by_cases hid : id ∈ ids <;> cases status id <;> simp [hid]

theorem syncWithoutDetaching_achieves (h : p.Shows status) (hids : ids.Nodup) :
    (sync false p ids).Achieves status ids fun id before => if id ∈ ids then .active else before :=
  attach_achieves h hids

theorem toggle_achieves (h : p.Shows status) (hids : ids.Nodup) :
    (toggle p ids).Achieves status ids fun id before =>
      if id ∈ ids then if before = .active then .absent else .active else before := by
  have hmem : ∀ id, id ∈ ids.filter p.isActive ↔ id ∈ ids ∧ status id = .active := by
    intro id
    rw [List.mem_filter, h.isActive_iff]
  refine (achieves_attach h hids (ids.filter p.isActive) ?_ ?_ (hids.filter _)).congr ?_
  · intro id hid
    rw [((hmem id).mp hid).2]
    decide
  · exact fun id hid _ => ((hmem id).mp hid).2
  · intro id
    simp only [hmem]
    by_cases hid : id ∈ ids <;> cases status id <;> simp [hid]

end PivotPlan

/-! ## Carrying out a plan -/

namespace PivotRows

variable {changes : PivotChanges} {id : DocumentId} {outcome : UpdateOutcome}

theorem attached_report_none (h : outcome.upserted = none) :
    (report changes id outcome).attached = changes.attached := by
  rw [report, h, Option.isSome_none, if_neg Bool.false_ne_true]
  split <;> rfl

theorem attached_report_some {rowId : DocumentId} (h : outcome.upserted = some rowId) :
    (report changes id outcome).attached = changes.attached ++ [id] := by
  rw [report, h, Option.isSome_some, if_pos rfl]

theorem detached_report (changes : PivotChanges) (id : DocumentId) (outcome : UpdateOutcome) :
    (report changes id outcome).detached = changes.detached := by
  rw [report]
  split
  · rfl
  · split <;> rfl

end PivotRows

namespace PivotKeys

variable {keys : PivotKeys} {owner : DocumentId} {s t u : Store}

/-- The changes after attaching more targets. -/
def attachedTo (status : DocumentId → PivotStatus) (ids : List DocumentId) (c : PivotChanges) :
    PivotChanges :=
  { c with
    attached := c.attached ++ ids.filter (status · = .absent)
    restored := c.restored ++ ids.filter (status · = .trashed) }

theorem attachedTo_cons {status status' : DocumentId → PivotStatus} {id : DocumentId}
    {ids : List DocumentId} (h : ∀ other ∈ ids, status' other = status other) (c : PivotChanges) :
    attachedTo status' ids (attachedTo status [id] c) = attachedTo status (id :: ids) c := by
  have hfilter : ∀ st : PivotStatus, ids.filter (status' · = st) = ids.filter (status · = st) :=
    fun st => List.filter_congr fun other hother => by rw [h other hother]
  have hcons : ∀ st : PivotStatus,
      (id :: ids).filter (status · = st) =
        [id].filter (status · = st) ++ ids.filter (status · = st) :=
    fun st => by rw [← List.filter_append, List.singleton_append]
  simp only [attachedTo, hfilter, hcons, List.append_assoc]

/-- Attaching one target that is not active makes it active and is reported. It uses up at most one
identifier. -/
theorem attachOne_run (hk : keys.Tidy) (hwf : keys.WellFormed (s.documents keys.collection))
    {last : Nat} (hfresh : s.FreshIds keys.collection last) (hlast : s.ids.drawn < last)
    (now : String) {id : DocumentId}
    (hstatus : keys.status (s.documents keys.collection) owner id ≠ .active)
    (changes : PivotChanges) :
    ∃ outcome t, (keys.rowsOf owner).attachOne [] now id s = (.ok outcome, t) ∧
      PivotRows.report changes id outcome =
        attachedTo (keys.status (s.documents keys.collection) owner) [id] changes ∧
      t.ids.drawn ≤ s.ids.drawn + 1 ∧ keys.Rewrites owner (· = id) s t ∧
      keys.status (t.documents keys.collection) owner id = .active := by
  cases hst : keys.status (s.documents keys.collection) owner id with
  | absent =>
    obtain ⟨rowId, t, hrun, hdrawn, hrewrites, hactive⟩ :=
      attachOne_absent hk hwf hfresh hlast now hst
    refine ⟨_, t, hrun, ?_, Nat.le_of_eq hdrawn, hrewrites, hactive⟩
    simp [PivotRows.report, attachedTo, hst]
  | trashed =>
    obtain ⟨t, hrun, hids, hrewrites, hactive⟩ := attachOne_trashed hk hwf now hst
    refine ⟨_, t, hrun, ?_, ?_, hrewrites, hactive⟩
    · simp [PivotRows.report, attachedTo, hst]
    · rw [hids]
      exact Nat.le_succ _
  | active => exact absurd hst hstatus

/-- Attaching targets that are not active makes them active, one after the other, and leaves the
removal to be done. -/
theorem attaching_run (hk : keys.Tidy) (now : String) (delete : List DocumentId)
    {ids : List DocumentId} (hids : ids.Nodup) (changes : PivotChanges)
    (hwf : keys.WellFormed (s.documents keys.collection)) {last : Nat}
    (hfresh : s.FreshIds keys.collection last) (hlast : s.ids.drawn + ids.length ≤ last)
    (hstatus : ∀ id ∈ ids, keys.status (s.documents keys.collection) owner id ≠ .active) :
    ∃ t, ((keys.rowsOf owner).attaching [] now delete ids changes).run s =
        ((keys.rowsOf owner).removing delete (attachedTo
          (keys.status (s.documents keys.collection) owner) ids changes)).run t ∧
      keys.Rewrites owner (· ∈ ids) s t ∧
      ∀ id ∈ ids, keys.status (t.documents keys.collection) owner id = .active := by
  induction ids generalizing s changes with
  | nil =>
    refine ⟨s, ?_, Rewrites.refl hwf, fun _ hid => absurd hid List.not_mem_nil⟩
    rw [PivotRows.attaching, attachedTo, List.filter_nil, List.filter_nil, List.append_nil,
      List.append_nil]
  | cons id ids ih =>
    obtain ⟨hid, hids⟩ := List.nodup_cons.mp hids
    rw [List.length_cons] at hlast
    obtain ⟨outcome, t, hrun, hreport, hdrawn, hrewrites, hactive⟩ :=
      attachOne_run hk hwf hfresh (by omega) now (hstatus id List.mem_cons_self) changes
    -- No target comes twice, so those still to come have the status that they had.
    have hsame : ∀ other ∈ ids, keys.status (t.documents keys.collection) owner other =
        keys.status (s.documents keys.collection) owner other := by
      intro other hother
      apply hrewrites.status_eq
      rintro rfl
      exact hid hother
    have hstatus' : ∀ other ∈ ids,
        keys.status (t.documents keys.collection) owner other ≠ .active := by
      intro other hother
      rw [hsame other hother]
      exact hstatus other (List.mem_cons_of_mem id hother)
    obtain ⟨u, hrest, hrewrites', hactive'⟩ := ih hids
      (attachedTo (keys.status (s.documents keys.collection) owner) [id] changes)
      hrewrites.wellFormed (hrewrites.fresh last hfresh) (by omega) hstatus'
    refine ⟨u, ?_, ?_, ?_⟩
    · rw [PivotRows.attaching, Program.run, hrun]
      show ((keys.rowsOf owner).attaching [] now delete ids
        (PivotRows.report changes id outcome)).run t = _
      rw [hreport, hrest, attachedTo_cons hsame]
    · exact (hrewrites.mono fun _ hother => hother ▸ List.mem_cons_self).trans
        (hrewrites'.mono fun _ hother => List.mem_cons_of_mem id hother)
    · intro other hother
      rcases List.mem_cons.mp hother with rfl | hother
      · rw [hrewrites'.status_eq hid]
        exact hactive
      · exact hactive' other hother

/-- Carrying out the removals of a plan makes their targets absent and is reported. -/
theorem removing_run (hk : keys.Tidy) (hwf : keys.WellFormed (s.documents keys.collection))
    (owner : DocumentId) (ids : List DocumentId) (changes : PivotChanges)
    (hchanges : changes.detached = []) :
    ∃ t, ((keys.rowsOf owner).removing ids changes).run s =
        (.ok { changes with detached := ids }, t) ∧
      keys.Rewrites owner (· ∈ ids) s t ∧
      ∀ id ∈ ids, keys.status (t.documents keys.collection) owner id = .absent := by
  cases ids with
  | nil =>
    refine ⟨s, ?_, Rewrites.refl hwf, fun _ hid => absurd hid List.not_mem_nil⟩
    obtain ⟨attached, restored, detached⟩ := changes
    cases hchanges
    rfl
  | cons id ids =>
    obtain ⟨n, t, hrun, hrewrites, habsent⟩ := removeTargets_run hk hwf owner (id :: ids)
    refine ⟨t, ?_, hrewrites, habsent⟩
    show Program.run (.call ((keys.rowsOf owner).removeTargets (id :: ids)) _) s = _
    rw [Program.run, hrun]
    rfl

/-! ## What a program does to the map -/

/-- A program that acts on the map of an owner: what becomes of every target, what is reported, and
that nothing else changes. -/
structure Reconciled (keys : PivotKeys) (owner : DocumentId)
    (effect : DocumentId → PivotStatus → PivotStatus) (s t : Store) (changes : PivotChanges) :
    Prop where
  /-- The collection stays well-formed. -/
  wellFormed : keys.WellFormed (t.documents keys.collection)
  /-- Every target of the owner has the status that it should have. -/
  status : ∀ id, keys.status (t.documents keys.collection) owner id =
    effect id (keys.status (s.documents keys.collection) owner id)
  /-- What changed is reported. -/
  reports : changes.Reports (keys.status (s.documents keys.collection) owner)
    (keys.status (t.documents keys.collection) owner)
  /-- The rows of other owners and of the targets that keep their status are as they were. -/
  untouched : ∀ p : Document → Bool,
    (∀ row id, effect id (keys.status (s.documents keys.collection) owner id) ≠
        keys.status (s.documents keys.collection) owner id →
      keys.ties owner id row = true → p row = false) →
    (t.documents keys.collection).filter p = (s.documents keys.collection).filter p
  /-- No other collection changes. -/
  others : ∀ name, name ≠ keys.collection → t.documents name = s.documents name

section

variable {plan : PivotPlan} {status : DocumentId → PivotStatus}

/-- Attaching what a plan that fits attaches is reported as the plan has it. -/
theorem attachedTo_plan (hfits : plan.Fits status) :
    attachedTo status (plan.insert ++ plan.restore) {} = ⟨plan.insert, plan.restore, []⟩ := by
  have hinsert : plan.insert.filter (status · = .absent) = plan.insert :=
    List.filter_eq_self.mpr fun id hid => decide_eq_true (hfits.insert id hid)
  have hinsert' : plan.insert.filter (status · = .trashed) = [] :=
    List.filter_eq_nil_iff.mpr fun id hid => by simp [hfits.insert id hid]
  have hrestore : plan.restore.filter (status · = .trashed) = plan.restore :=
    List.filter_eq_self.mpr fun id hid => decide_eq_true (hfits.restore id hid)
  have hrestore' : plan.restore.filter (status · = .absent) = [] :=
    List.filter_eq_nil_iff.mpr fun id hid => by simp [hfits.restore id hid]
  simp only [attachedTo, List.filter_append, hinsert, hinsert', hrestore, hrestore',
    List.append_nil, List.nil_append]

/-- A plan that fits reports what it does. -/
theorem reports_plan (hfits : plan.Fits status) {after : DocumentId → PivotStatus}
    (hafter : ∀ id, after id = if id ∈ plan.insert ∨ id ∈ plan.restore then .active
      else if id ∈ plan.delete then .absent else status id) :
    PivotChanges.Reports ⟨plan.insert, plan.restore, plan.delete⟩ status after := by
  -- What becomes active without having been so is attached; where it comes from tells how.
  have hattached : ∀ id, after id = .active → status id ≠ .active →
      id ∈ plan.insert ∨ id ∈ plan.restore := by
    intro id hactive hbefore
    by_contra hnot
    rw [hafter, if_neg hnot] at hactive
    split at hactive
    · cases hactive
    · exact hbefore hactive
  refine ⟨fun id => ⟨fun hid => ?_, ?_⟩, fun id => ⟨fun hid => ?_, ?_⟩,
    fun id => ⟨fun hid => ?_, ?_⟩, hfits.insertOnce, hfits.restoreOnce, hfits.deleteOnce⟩
  · exact ⟨hfits.insert id hid, (hafter id).trans (if_pos (Or.inl hid))⟩
  · rintro ⟨habsent, hactive⟩
    rcases hattached id hactive (by rw [habsent]; decide) with hid | hid
    · exact hid
    · rw [hfits.restore id hid] at habsent
      cases habsent
  · exact ⟨hfits.restore id hid, (hafter id).trans (if_pos (Or.inr hid))⟩
  · rintro ⟨htrashed, hactive⟩
    rcases hattached id hactive (by rw [htrashed]; decide) with hid | hid
    · rw [hfits.insert id hid] at htrashed
      cases htrashed
    · exact hid
  · have hnot : ¬ (id ∈ plan.insert ∨ id ∈ plan.restore) :=
      fun hattached => hfits.not_mem_delete hattached hid
    refine ⟨hfits.delete id hid, ?_⟩
    show after id = .absent
    rw [hafter, if_neg hnot, if_pos hid]
  · rintro ⟨hpresent, habsent⟩
    rw [hafter] at habsent
    split at habsent
    · cases habsent
    · split at habsent
      · assumption
      · exact absurd habsent hpresent

/-- The statuses after attaching what a plan that fits attaches and removing what it deletes. What
is attached is not touched by the removal that follows, since the plan fits. -/
theorem status_after
    (hfits : plan.Fits (keys.status (s.documents keys.collection) owner))
    (hattached : keys.Rewrites owner (fun id => id ∈ plan.insert ∨ id ∈ plan.restore) s t)
    (hactive : ∀ id, id ∈ plan.insert ∨ id ∈ plan.restore →
      keys.status (t.documents keys.collection) owner id = .active)
    (hremoved : keys.Rewrites owner (· ∈ plan.delete) t u)
    (habsent : ∀ id ∈ plan.delete, keys.status (u.documents keys.collection) owner id = .absent)
    (id : DocumentId) :
    keys.status (u.documents keys.collection) owner id =
      if id ∈ plan.insert ∨ id ∈ plan.restore then .active
      else if id ∈ plan.delete then .absent
      else keys.status (s.documents keys.collection) owner id := by
  split
  · next hid =>
    rw [hremoved.status_eq (hfits.not_mem_delete hid)]
    exact hactive id hid
  · next hnot =>
    split
    · next hid => exact habsent id hid
    · next hkept => rw [hremoved.status_eq hkept, hattached.status_eq hnot]

end

/-- Carrying out a plan that fits does to every target what the plan says. -/
theorem applying_run (hk : keys.Tidy) (now : String) {plan : PivotPlan}
    (hwf : keys.WellFormed (s.documents keys.collection)) {last : Nat}
    (hfresh : s.FreshIds keys.collection last)
    {targets : List DocumentId} (hlast : s.ids.drawn + targets.length ≤ last)
    {effect : DocumentId → PivotStatus → PivotStatus}
    (hplan : plan.Achieves (keys.status (s.documents keys.collection) owner) targets effect) :
    ∃ t, ((keys.rowsOf owner).applying [] now plan).run s =
        (.ok ⟨plan.insert, plan.restore, plan.delete⟩, t) ∧
      keys.Reconciled owner effect s t ⟨plan.insert, plan.restore, plan.delete⟩ := by
  have hfits := hplan.fits
  have hlength := hplan.length_le
  have hattachable := hfits.not_active
  obtain ⟨t, hattach, hrewrites, hactive⟩ := attaching_run hk now plan.delete
    hfits.nodup_attached {} hwf hfresh (by rw [List.length_append]; omega) hattachable
  obtain ⟨u, hremove, hrewrites', habsent⟩ := removing_run hk hrewrites.wellFormed owner plan.delete
    ⟨plan.insert, plan.restore, []⟩ rfl
  have hafter := status_after hfits
    (hrewrites.mono fun _ => List.mem_append.mp)
    (fun id hid => hactive id (List.mem_append.mpr hid)) hrewrites' habsent
  refine ⟨u, ?_, ?_, ?_, ?_, ?_, ?_⟩
  · rw [PivotRows.applying, hattach, attachedTo_plan hfits, hremove]
  · exact hrewrites'.wellFormed
  · exact fun id => (hafter id).trans (hplan.effect id).symm
  · exact reports_plan hfits hafter
  · intro p hp
    rw [hrewrites'.untouched p, hrewrites.untouched p]
    · intro row id hid hties
      refine hp row id ?_ hties
      rw [hplan.effect, if_pos (List.mem_append.mp hid)]
      exact (hattachable id hid).symm
    · intro row id hid hties
      refine hp row id ?_ hties
      have hnot : ¬ (id ∈ plan.insert ∨ id ∈ plan.restore) :=
        fun hattached => hfits.not_mem_delete hattached hid
      rw [hplan.effect, if_neg hnot, if_pos hid]
      exact (hfits.delete id hid).symm
  · intro name hne
    rw [hrewrites'.others name hne, hrewrites.others name hne]

end PivotKeys

/-! ## Programs that succeed -/

/-- A successful action, from what it gives. -/
theorem action_eq_ok {α β : Type} {action : Action α} {f : α → β} {b : β} {s : Store}
    (h : (action s).1.toOption.map f = some b) :
    ∃ a, action s = (.ok a, (action s).2) ∧ f a = b := by
  obtain ⟨a, hok, hb⟩ := toOption_map_eq_some.mp h
  exact ⟨a, Prod.ext hok rfl, hb⟩

namespace Program

variable {α β : Type} {s t : Store}

theorem given_eq_ok {value : Except Error α} {next : α → Program β} {b : β}
    (h : (given value next).run s = (.ok b, t)) :
    ∃ a, value = .ok a ∧ (next a).run s = (.ok b, t) := by
  cases value with
  | error e => cases h
  | ok a => exact ⟨a, rfl, h⟩

theorem call_eq_ok {action : Action α} {next : α → Program β} {b : β}
    (h : (call action next).run s = (.ok b, t)) :
    ∃ a u, action s = (.ok a, u) ∧ (next a).run u = (.ok b, t) := by
  rw [run] at h
  split at h
  · next a u hrun => exact ⟨a, u, hrun, h⟩
  · cases h

end Program

/-! ## Changes through a handle -/

namespace RelationHandle

variable {h : RelationHandle} {keys : PivotKeys} {owner : DocumentId} {s : Store}

/-- The relation of a handle leads over a pivot collection, and the owner has an identifier. -/
structure HasPivot (h : RelationHandle) (keys : PivotKeys) (owner : DocumentId) : Prop where
  pivot : h.relation.pivot? = some keys
  ownerId : ∃ v, h.owner.get? keys.parentKey = some v ∧ DocumentId.ofJson? v = some owner

theorem HasPivot.keys_eq (hh : h.HasPivot keys owner) : h.relation.keys = .pivot keys := by
  have hpivot := hh.pivot
  rw [Relation.pivot?] at hpivot
  split at hpivot
  · next hkeys => rw [hkeys, Option.some.inj hpivot]
  · cases hpivot

theorem HasPivot.ownerValue?_eq (hh : h.HasPivot keys owner) :
    h.ownerValue? keys.parentKey = some owner.toJson := by
  obtain ⟨v, hv, hid⟩ := hh.ownerId
  rw [ownerValue?, hv]
  cases v with
  | null => cases hid
  | _ => exact congrArg some (Json.canonicalize_of_ofJson? hid)

theorem pivotRows_eq (hh : h.HasPivot keys owner) : h.pivotRows = .ok (keys.rowsOf owner) := by
  rw [pivotRows, hh.pivot]
  have hrequire : h.requireOwnerValue keys.parentKey = .ok owner.toJson := by
    rw [requireOwnerValue, hh.ownerValue?_eq]
  exact congrArg (fun owner => do return PivotRows.mk keys (← owner)) hrequire

/-- The targets of a change are those that it names, each once. -/
theorem targetIds_ok {values : List Json} {ids : List DocumentId}
    (hids : DocumentId.ofJsons values = .ok ids) :
    ∃ targets, targetIds values = .ok targets ∧ targets.Nodup ∧
      targets.length ≤ ids.length ∧ ∀ id, id ∈ targets ↔ id ∈ ids := by
  refine ⟨ids.foldl PivotRows.addTarget [], ?_, ?_, ?_, ?_⟩
  · rw [targetIds, hids]
    rfl
  · exact nodup_foldl (fun _ id h => PivotRows.nodup_addTarget h id) ids List.nodup_nil
  · have hlength := PivotRows.length_foldl_addTarget ids []
    rw [List.length_nil, Nat.zero_add] at hlength
    exact hlength
  · intro id
    rw [PivotRows.mem_foldl_addTarget]
    simp

theorem targetIds_eq_ok {values : List Json} {targets : List DocumentId}
    (h : targetIds values = .ok targets) :
    ∃ ids, DocumentId.ofJsons values = .ok ids ∧ targets.Nodup ∧ ∀ id, id ∈ targets ↔ id ∈ ids := by
  obtain ⟨ids, hids, -⟩ := bind_eq_ok.mp h
  obtain ⟨found, hfound, hnodup, -, hmem⟩ := targetIds_ok hids
  rw [h] at hfound
  cases hfound
  exact ⟨ids, hids, hnodup, hmem⟩

/-- A planned change that succeeds has read its targets, its extra attributes and the owner's rows,
and carried out its plan. -/
theorem planned_eq_ok {now : String} {values : List Json} {extra : Json}
    {plan : PivotSnapshot → List DocumentId → PivotPlan} {changes : PivotChanges} {t : Store}
    (hrun : (h.planned now values extra plan).run s = (.ok changes, t)) :
    ∃ targets fields rows p, targetIds values = .ok targets ∧ extraAttributes extra = .ok fields ∧
      h.pivotRows = .ok rows ∧ rows.snapshot s = (.ok p, s) ∧
      (rows.applying fields now (plan p targets)).run s = (.ok changes, t) := by
  rw [planned] at hrun
  obtain ⟨targets, htargets, hgiven⟩ := Program.given_eq_ok hrun
  obtain ⟨fields, hfields, hgiven⟩ := Program.given_eq_ok hgiven
  obtain ⟨rows, hrows, hreconciling⟩ := Program.given_eq_ok hgiven
  obtain ⟨p, u, hsnapshot, happly⟩ := Program.call_eq_ok hreconciling
  obtain ⟨rfl, -⟩ := PivotRows.accepts_of_snapshot hsnapshot
  exact ⟨targets, fields, rows, p, htargets, hfields, hrows, hsnapshot, happly⟩

/-- A planned change reads the owner's rows and does what its plan achieves. -/
theorem planned_refines (hh : h.HasPivot keys owner) (hk : keys.Tidy) (now : String)
    (hwf : keys.WellFormed (s.documents keys.collection)) {values : List Json} {extra : Json}
    {targets : List DocumentId} (htargets : targetIds values = .ok targets)
    (hextra : extraAttributes extra = .ok []) {last : Nat}
    (hfresh : s.FreshIds keys.collection last) (hlast : s.ids.drawn + targets.length ≤ last)
    {plan : PivotSnapshot → List DocumentId → PivotPlan}
    {effect : DocumentId → PivotStatus → PivotStatus}
    (hplan : ∀ p : PivotSnapshot, p.Shows (keys.status (s.documents keys.collection) owner) →
      (plan p targets).Achieves (keys.status (s.documents keys.collection) owner) targets effect) :
    ∃ changes t, (h.planned now values extra plan).run s = (.ok changes, t) ∧
      keys.Reconciled owner effect s t changes := by
  obtain ⟨p, hsnapshot, hshows⟩ := PivotRows.snapshot_shows hk owner hwf
  obtain ⟨t, happly, hreconciled⟩ := PivotKeys.applying_run hk now hwf hfresh hlast (hplan p hshows)
  refine ⟨_, t, ?_, hreconciled⟩
  rw [planned, htargets, hextra, pivotRows_eq hh]
  show Program.run (.call (keys.rowsOf owner).snapshot _) s = _
  rw [Program.run, hsnapshot]
  exact happly

/-- Removing all rows of an owner empties its map. -/
theorem clearing_refines (hk : keys.Tidy) (owner : DocumentId)
    (hwf : keys.WellFormed (s.documents keys.collection)) :
    ∃ changes t, (keys.rowsOf owner).clearing.run s = (.ok changes, t) ∧
      keys.Reconciled owner (fun _ _ => .absent) s t changes := by
  obtain ⟨p, hsnapshot, hshows⟩ := PivotRows.snapshot_shows hk owner hwf
  obtain ⟨n, t, hclear, hrewrites, habsent⟩ := PivotKeys.clear_run hk hwf owner
  refine ⟨{ detached := p.all }, t, ?_, hrewrites.wellFormed, habsent, ?_, ?_, hrewrites.others⟩
  · rw [PivotRows.clearing, Program.run, hsnapshot]
    show Program.run (.call (keys.rowsOf owner).clear _) s = _
    rw [Program.run, hclear]
    rfl
  · refine ⟨?_, ?_, ?_, List.nodup_nil, List.nodup_nil, hshows.nodup_all⟩
    · intro id
      rw [habsent]
      simp
    · intro id
      rw [habsent]
      simp
    · intro id
      rw [habsent, hshows.mem_all_iff]
      simp
  · intro q hq
    exact hrewrites.untouched q fun row id hid => hq row id (Ne.symm hid)

/-- **A change of the related documents of an owner refines the change of the map that its rows
are.** It succeeds, acts on every target as it should, reports exactly that, and changes nothing
else, whatever form the identifiers come in and however often they come. -/
theorem reconcile_refines (hh : h.HasPivot keys owner) (hk : keys.Tidy) (now : String)
    (hwf : keys.WellFormed (s.documents keys.collection)) (change : Reconciliation)
    {ids : List DocumentId} (hids : DocumentId.ofJsons change.ids = .ok ids)
    (hextra : extraAttributes change.extra = .ok [])
    (hfresh : s.FreshIds keys.collection (s.ids.drawn + ids.length)) :
    ∃ changes t, h.reconcile now change s = (.ok changes, t) ∧
      keys.Reconciled owner (fun id before => change.effect (decide (id ∈ ids)) before) s t
        changes := by
  obtain ⟨targets, htargets, hnodup, hlength, hmem⟩ := targetIds_ok hids
  have hlast : s.ids.drawn + targets.length ≤ s.ids.drawn + ids.length :=
    Nat.add_le_add_left hlength _
  cases change with
  | attach values extra =>
    refine planned_refines hh hk now hwf htargets hextra hfresh hlast fun p hshows =>
      (PivotPlan.attach_achieves hshows hnodup).congr fun id => ?_
    simp [Reconciliation.effect, hmem]
  | detach values =>
    refine planned_refines hh hk now hwf htargets hextra hfresh hlast fun p hshows =>
      (PivotPlan.detach_achieves hshows).congr fun id => ?_
    simp [Reconciliation.effect, hmem]
  | detachAll =>
    rw [reconcile, program, pivotRows_eq hh]
    exact clearing_refines hk owner hwf
  | sync values extra =>
    refine planned_refines hh hk now hwf htargets hextra hfresh hlast fun p hshows =>
      (PivotPlan.sync_achieves hshows hnodup).congr fun id => ?_
    simp [Reconciliation.effect, hmem]
  | syncWithoutDetaching values extra =>
    refine planned_refines hh hk now hwf htargets hextra hfresh hlast fun p hshows =>
      (PivotPlan.syncWithoutDetaching_achieves hshows hnodup).congr fun id => ?_
    simp [Reconciliation.effect, hmem]
  | toggle values =>
    refine planned_refines hh hk now hwf htargets hextra hfresh hlast fun p hshows =>
      (PivotPlan.toggle_achieves hshows hnodup).congr fun id => ?_
    simp [Reconciliation.effect, hmem]

end RelationHandle

/-! ## A user and two roles -/

namespace PivotSample

/-- Rows that tie users to roles and are deleted softly. -/
def keys : PivotKeys where
  collection := "role_user"
  foreignPivotKey := "userId"
  relatedPivotKey := "roleId"
  softDelete := some ⟨"isDeleted", some "deletedAt"⟩

def user : DocumentId := ⟨1#128⟩

def roles : List DocumentId := [⟨2#128⟩, ⟨3#128⟩]

/-- The row of the first role, which is deleted. -/
def row : Document :=
  [("_id", DocumentId.toJson ⟨9#128⟩), ("userId", user.toJson),
    ("roleId", DocumentId.toJson ⟨2#128⟩), ("isDeleted", .bool true)]

def store : Store where
  collections := [("role_user", [row])]
  ids := ⟨fun n => ⟨BitVec.ofNat 128 (n + 4)⟩, 0⟩

def handle : RelationHandle where
  relation := {
    kind := .belongsToMany
    name := "roles"
    owner := ⟨"User", "users", "_id", none, none, []⟩
    related := ⟨"Role", "roles", "_id", none, none, []⟩
    keys := .pivot keys }
  owner := [("_id", user.toJson)]
  query := { model := ⟨"Role", "roles", "_id", none, none, []⟩ }

theorem keys_tidy : keys.Tidy := by
  refine ⟨?_, by decide, by decide⟩
  intro f hf
  have hcases : f = "userId" ∨ f = "roleId" ∨ f = "isDeleted" ∨ f = "deletedAt" := by
    simpa [PivotKeys.fields, PivotKeys.keyFields, PivotKeys.deletionFields, PivotKeys.stampFields,
      keys] using hf
  rcases hcases with rfl | rfl | rfl | rfl
  all_goals exact ⟨by decide, by decide⟩

theorem store_wellFormed : keys.WellFormed (store.documents keys.collection) := by
  refine ⟨?_, List.pairwise_singleton _ _⟩
  intro r hr
  rw [List.mem_singleton.mp hr]
  refine ⟨by decide, ⟨user, rfl⟩, ⟨⟨2#128⟩, rfl⟩, ?_, ?_⟩
  · intro field name hm
    cases hm
  · intro d hd
    cases hd
    exact ⟨true, rfl⟩

/-- The first identifiers of the supply are fresh. -/
theorem store_fresh_below : store.FreshIds keys.collection 3 := by
  have hcases : ∀ n, n < 3 → n = 0 ∨ n = 1 ∨ n = 2 := by omega
  refine ⟨?_, ?_⟩
  · intro m n _ hlt hn
    rcases hcases m (by omega) with rfl | rfl | rfl <;> rcases hcases n hn with rfl | rfl | rfl
    all_goals first | exact absurd hlt (by decide) | decide
  · intro n _ hn d hd
    rw [List.mem_singleton.mp hd]
    rcases hcases n hn with rfl | rfl | rfl
    all_goals decide +kernel

theorem store_fresh : store.FreshIds keys.collection (store.ids.drawn + roles.length) :=
  store_fresh_below.mono (by decide)

/-- The request to toggle both roles. -/
def change : Reconciliation := .toggle (roles.map (·.toJson))

/-- Toggling both roles of the user restores the one and attaches the other. -/
theorem toggle_roles_refines :
    ∃ changes t, handle.reconcile "now" change store = (.ok changes, t) ∧
      keys.Reconciled user (fun id before => change.effect (decide (id ∈ roles)) before) store t
        changes := by
  have hhandle : handle.HasPivot keys user := ⟨rfl, user.toJson, rfl, user.ofJson?_toJson⟩
  have hids : DocumentId.ofJsons change.ids = .ok roles := DocumentId.ofJsons_toJson roles
  exact RelationHandle.reconcile_refines hhandle keys_tidy "now" store_wellFormed change hids rfl
    store_fresh

end PivotSample

end DocMapper
