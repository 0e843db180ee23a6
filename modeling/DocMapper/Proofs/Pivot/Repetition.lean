import DocMapper.Proofs.Pivot.Reconcile
import DocMapper.Proofs.Removal

/-! # Repeating a change of a many-to-many relation

A change that succeeds leaves every target with the status that it asks for, whatever the statuses
were before (`PivotKeys.applying_of_ok`). Asked for the same once more, it finds nothing to do: a
plan whose effect every status has already is empty (`PivotPlan.Achieves.eq_empty`). So a change
that is carried out twice is silent the second time, which is so for all changes but toggling
(`RelationHandle.reconcile_twice`).

That the identifiers of new rows are fresh is not assumed for this. An identifier that is in use
makes the first change fail, so a change that succeeds has drawn fresh ones
(`freshIds_of_attachOne`). -/

namespace DocMapper

/-! ## Plans that have nothing to do -/

/-- A plan whose effect every status has already is empty. -/
theorem PivotPlan.Achieves.eq_empty {plan : PivotPlan} {status : DocumentId → PivotStatus}
    {targets : List DocumentId} {effect : DocumentId → PivotStatus → PivotStatus}
    (h : plan.Achieves status targets effect) (hsettled : ∀ id, effect id (status id) = status id) :
    plan = {} := by
  have hattached : ∀ id, ¬ (id ∈ plan.insert ∨ id ∈ plan.restore) := by
    intro id hid
    have hactive : status id = .active := by
      rw [← hsettled, h.effect, if_pos hid]
    rcases hid with hid | hid
    · rw [h.fits.insert id hid] at hactive
      cases hactive
    · rw [h.fits.restore id hid] at hactive
      cases hactive
  have hdeleted : ∀ id, id ∉ plan.delete := by
    intro id hid
    apply h.fits.delete id hid
    rw [← hsettled, h.effect, if_neg (hattached id), if_pos hid]
  obtain ⟨insert, restore, delete⟩ := plan
  obtain rfl : insert = [] :=
    List.eq_nil_iff_forall_not_mem.mpr fun id hid => hattached id (.inl hid)
  obtain rfl : restore = [] :=
    List.eq_nil_iff_forall_not_mem.mpr fun id hid => hattached id (.inr hid)
  obtain rfl : delete = [] := List.eq_nil_iff_forall_not_mem.mpr hdeleted
  rfl

namespace PivotKeys

variable {keys : PivotKeys} {owner target : DocumentId} {s t : Store}

/-! ## Changes that succeed -/

/-- If a new row could be inserted, its identifier was fresh. -/
theorem freshIds_of_attachOne (hk : keys.Tidy)
    (hwf : keys.WellFormed (s.documents keys.collection)) {now : String}
    (habsent : keys.status (s.documents keys.collection) owner target = .absent)
    {outcome : UpdateOutcome}
    (hrun : (keys.rowsOf owner).attachOne [] now target s = (.ok outcome, t)) :
    s.FreshIds keys.collection (s.ids.drawn + 1) := by
  obtain ⟨u, hu, happly, hinsert⟩ := ofJson_attachUpdate hk owner target now
  have hnone : ∀ row ∈ s.documents keys.collection,
      Filter.accepts row (.object ((keys.rowsOf owner).targetFilter target.toJson)) =
        .ok false := by
    intro row hrow
    rw [accepts_targetFilter hk (hwf.rows row hrow).singleValued,
      status_eq_absent_iff.mp habsent row hrow]
  have hid : (u.inserted (.object ((keys.rowsOf owner).targetFilter target.toJson))).get? "_id"
      = none := by
    rw [inserted_eq hk happly hinsert]
    exact get?_newRow_id hk owner target now
  have hunused := Store.unused_of_upsertOne hu hnone hid hrun
  refine ⟨fun m n hm hlt hn => by omega, fun n hn hlast => ?_⟩
  obtain rfl : n = s.ids.drawn := by omega
  exact hunused

/-- If a target that is not active could be attached, it is active then. -/
theorem attachOne_of_ok (hk : keys.Tidy) (hwf : keys.WellFormed (s.documents keys.collection))
    {now : String} (hstatus : keys.status (s.documents keys.collection) owner target ≠ .active)
    {outcome : UpdateOutcome}
    (hrun : (keys.rowsOf owner).attachOne [] now target s = (.ok outcome, t)) :
    keys.Rewrites owner (· = target) s t ∧
      keys.status (t.documents keys.collection) owner target = .active := by
  cases hst : keys.status (s.documents keys.collection) owner target with
  | absent =>
    obtain ⟨id, u, hrun', -, hrewrites⟩ := attachOne_absent hk hwf
      (freshIds_of_attachOne hk hwf hst hrun) (Nat.lt_succ_self _) now hst
    cases hrun.symm.trans hrun'
    exact hrewrites
  | trashed =>
    obtain ⟨u, hrun', -, hrewrites⟩ := attachOne_trashed hk hwf now hst
    cases hrun.symm.trans hrun'
    exact hrewrites
  | active => exact absurd hst hstatus

/-- If targets that are not active could be attached, they are active before the removal. -/
theorem attaching_of_ok (hk : keys.Tidy) {now : String} {delete : List DocumentId}
    {ids : List DocumentId} (hids : ids.Nodup) {changes result : PivotChanges}
    (hchanges : changes.detached = []) (hwf : keys.WellFormed (s.documents keys.collection))
    (hstatus : ∀ id ∈ ids, keys.status (s.documents keys.collection) owner id ≠ .active)
    (hrun : ((keys.rowsOf owner).attaching [] now delete ids changes).run s = (.ok result, t)) :
    ∃ u changes', changes'.detached = [] ∧ keys.Rewrites owner (· ∈ ids) s u ∧
      (∀ id ∈ ids, keys.status (u.documents keys.collection) owner id = .active) ∧
      ((keys.rowsOf owner).removing delete changes').run u = (.ok result, t) := by
  induction ids generalizing s changes with
  | nil =>
    exact ⟨s, changes, hchanges, Rewrites.refl hwf, fun _ hid => absurd hid List.not_mem_nil, hrun⟩
  | cons id ids ih =>
    obtain ⟨hid, hids⟩ := List.nodup_cons.mp hids
    obtain ⟨outcome, u, hone, hrest⟩ := Program.call_eq_ok hrun
    obtain ⟨hrewrites, hactive⟩ := attachOne_of_ok hk hwf (hstatus id List.mem_cons_self) hone
    -- No target comes twice, so those still to come have the status that they had.
    have hstatus' : ∀ other ∈ ids,
        keys.status (u.documents keys.collection) owner other ≠ .active := by
      intro other hother
      rw [hrewrites.status_eq (fun h => hid (h ▸ hother))]
      exact hstatus other (List.mem_cons_of_mem id hother)
    obtain ⟨v, changes', hchanges', hrewrites', hactive', hremoving⟩ :=
      ih hids ((PivotRows.detached_report changes id outcome).trans hchanges) hrewrites.wellFormed
        hstatus' hrest
    refine ⟨v, changes', hchanges', ?_, ?_, hremoving⟩
    · exact (hrewrites.mono fun _ hother => hother ▸ List.mem_cons_self).trans
        (hrewrites'.mono fun _ hother => List.mem_cons_of_mem id hother)
    · intro other hother
      rcases List.mem_cons.mp hother with rfl | hother
      · rw [hrewrites'.status_eq hid]
        exact hactive
      · exact hactive' other hother

/-- Every target of an owner has the status that an effect makes of the one before. -/
structure Settled (keys : PivotKeys) (owner : DocumentId)
    (effect : DocumentId → PivotStatus → PivotStatus) (s t : Store) : Prop where
  wellFormed : keys.WellFormed (t.documents keys.collection)
  status : ∀ id, keys.status (t.documents keys.collection) owner id =
    effect id (keys.status (s.documents keys.collection) owner id)

/-- If a plan that fits could be carried out, it has its effect. -/
theorem applying_of_ok (hk : keys.Tidy) {now : String} {plan : PivotPlan}
    (hwf : keys.WellFormed (s.documents keys.collection)) {targets : List DocumentId}
    {effect : DocumentId → PivotStatus → PivotStatus}
    (hplan : plan.Achieves (keys.status (s.documents keys.collection) owner) targets effect)
    {result : PivotChanges}
    (hrun : ((keys.rowsOf owner).applying [] now plan).run s = (.ok result, t)) :
    keys.Settled owner effect s t := by
  have hfits := hplan.fits
  obtain ⟨u, changes, hchanges, hattached, hactive, hremoving⟩ :=
    attaching_of_ok hk hfits.nodup_attached rfl hwf hfits.not_active hrun
  obtain ⟨v, hremoved, hrewrites, habsent⟩ :=
    removing_run hk hattached.wellFormed owner plan.delete changes hchanges
  cases hremoving.symm.trans hremoved
  refine ⟨hrewrites.wellFormed, fun id => ?_⟩
  rw [hplan.effect]
  exact status_after hfits (hattached.mono fun _ => List.mem_append.mp)
    (fun id hid => hactive id (List.mem_append.mpr hid)) hrewrites habsent id

end PivotKeys

/-! ## Changes through a handle -/

/-- All changes but toggling leave alone what they have brought about. -/
theorem Reconciliation.effect_effect {change : Reconciliation} (h : ∀ ids, change ≠ .toggle ids)
    (named : Bool) (before : PivotStatus) :
    change.effect named (change.effect named before) = change.effect named before := by
  cases change with
  | toggle ids => exact absurd rfl (h ids)
  | _ => cases named <;> rfl

namespace RelationHandle

variable {h : RelationHandle} {keys : PivotKeys} {owner : DocumentId} {s t : Store}

/-- If a change succeeds that is planned with its effect on the map, the same change once more finds
nothing to do. -/
theorem planned_twice (hh : h.HasPivot keys owner) (hk : keys.Tidy)
    (hwf : keys.WellFormed (s.documents keys.collection)) (change : Reconciliation)
    (hchange : ∀ ids, change ≠ .toggle ids) {values : List Json} {extra : Json}
    (hextra : extraAttributes extra = .ok [])
    {plan : PivotSnapshot → List DocumentId → PivotPlan}
    (hplan : ∀ {p : PivotSnapshot} {status : DocumentId → PivotStatus} {ids : List DocumentId},
      p.Shows status → ids.Nodup → (plan p ids).Achieves status ids
        fun id before => change.effect (decide (id ∈ ids)) before)
    {now : String} (now' : String) {changes : PivotChanges}
    (hrun : (h.planned now values extra plan).run s = (.ok changes, t)) :
    (h.planned now' values extra plan).run t = (.ok {}, t) := by
  obtain ⟨targets, fields, rows, p, htargets, hfields, hrows, hsnapshot, happly⟩ :=
    planned_eq_ok hrun
  obtain ⟨-, -, hnodup, -⟩ := targetIds_eq_ok htargets
  obtain rfl : [] = fields := Except.ok.inj (hextra.symm.trans hfields)
  obtain rfl : keys.rowsOf owner = rows := Except.ok.inj ((pivotRows_eq hh).symm.trans hrows)
  obtain ⟨p', hsnapshot', hshows⟩ := PivotRows.snapshot_shows hk owner hwf
  cases hsnapshot.symm.trans hsnapshot'
  have hsettled := PivotKeys.applying_of_ok hk hwf (hplan hshows hnodup) happly
  -- The second plan is made from statuses that have the effect already.
  obtain ⟨q, hsnapshot, hshows'⟩ := PivotRows.snapshot_shows hk owner hsettled.wellFormed
  have hempty : plan q targets = {} := (hplan hshows' hnodup).eq_empty fun id => by
    rw [hsettled.status, Reconciliation.effect_effect hchange]
  rw [planned, htargets, hextra, pivotRows_eq hh]
  show Program.run (.call (keys.rowsOf owner).snapshot _) t = _
  rw [Program.run, hsnapshot]
  show ((keys.rowsOf owner).applying [] now' (plan q targets)).run t = _
  rw [hempty]
  rfl

/-- Removing all rows of an owner once more finds none. -/
theorem clearing_twice (hk : keys.Tidy) (hwf : keys.WellFormed (s.documents keys.collection))
    {changes : PivotChanges} (hrun : (keys.rowsOf owner).clearing.run s = (.ok changes, t)) :
    ∃ u, (keys.rowsOf owner).clearing.run t = (.ok {}, u) ∧ u.Agrees t := by
  obtain ⟨changes', t', hrun', hreconciled⟩ := clearing_refines hk owner hwf
  cases hrun.symm.trans hrun'
  have hwf' := hreconciled.wellFormed
  obtain ⟨p, hsnapshot, hshows⟩ := PivotRows.snapshot_shows hk owner hwf'
  have hall : p.all = [] := by
    refine List.eq_nil_iff_forall_not_mem.mpr fun id hid => ?_
    exact (hshows.mem_all_iff id).mp hid (hreconciled.status id)
  have hnone : ∀ row ∈ t.documents keys.collection,
      Filter.accepts row (.object (keys.rowsOf owner).ownerFilter) = .ok false := by
    intro row hrow
    rw [PivotKeys.accepts_ownerFilter hk (hwf'.rows row hrow).singleValued]
    refine congrArg Except.ok (Bool.eq_false_iff.mpr fun howns => ?_)
    obtain ⟨id, -, hties⟩ := (hwf'.rows row hrow).exists_ties howns
    rw [PivotKeys.status_eq_absent_iff.mp (hreconciled.status id) row hrow] at hties
    cases hties
  obtain ⟨u, hclear, hagrees⟩ := Store.deleteMany_none hnone
  refine ⟨u, ?_, hagrees⟩
  rw [PivotRows.clearing, Program.run, hsnapshot]
  show Program.run (.call (keys.rowsOf owner).clear _) t = _
  rw [Program.run, PivotRows.clear, PivotKeys.rowsOf_keys, hclear, hall]
  rfl

/-- A change that succeeds leaves nothing to do for the same change: carried out once more, at
whatever time, it reports nothing, keeps every document and writes nothing. All changes but
toggling are like that, if they give no extra attributes to new rows. The first one does succeed if
it names identifiers and those of new rows are fresh. -/
theorem reconcile_twice (hh : h.HasPivot keys owner) (hk : keys.Tidy)
    (hwf : keys.WellFormed (s.documents keys.collection)) (change : Reconciliation)
    (hchange : ∀ ids, change ≠ .toggle ids) (hextra : extraAttributes change.extra = .ok [])
    (now now' : String) :
    (∀ ids, DocumentId.ofJsons change.ids = .ok ids →
      s.FreshIds keys.collection (s.ids.drawn + ids.length) →
        ∃ changes t, h.reconcile now change s = (.ok changes, t)) ∧
    ∀ changes t, h.reconcile now change s = (.ok changes, t) →
      ∃ u, h.reconcile now' change t = (.ok {}, u) ∧ u.Agrees t := by
  refine ⟨fun ids hids hfresh => ?_, fun changes t hrun => ?_⟩
  · obtain ⟨changes, t, hrun, -⟩ := reconcile_refines hh hk now hwf change hids hextra hfresh
    exact ⟨changes, t, hrun⟩
  · have hsame : t.Agrees t := ⟨fun _ => rfl, rfl⟩
    cases change with
    | attach values extra =>
      refine ⟨t, planned_twice hh hk hwf _ hchange hextra (fun hshows hids =>
        (PivotPlan.attach_achieves hshows hids).congr fun id => ?_) now' hrun, hsame⟩
      simp [Reconciliation.effect]
    | detach values =>
      refine ⟨t, planned_twice hh hk hwf _ hchange hextra (fun hshows _ =>
        (PivotPlan.detach_achieves hshows).congr fun id => ?_) now' hrun, hsame⟩
      simp [Reconciliation.effect]
    | detachAll =>
      rw [reconcile, program, pivotRows_eq hh] at hrun ⊢
      exact clearing_twice hk hwf hrun
    | sync values extra =>
      refine ⟨t, planned_twice hh hk hwf _ hchange hextra (fun hshows hids =>
        (PivotPlan.sync_achieves hshows hids).congr fun id => ?_) now' hrun, hsame⟩
      simp [Reconciliation.effect]
    | syncWithoutDetaching values extra =>
      refine ⟨t, planned_twice hh hk hwf _ hchange hextra (fun hshows hids =>
        (PivotPlan.syncWithoutDetaching_achieves hshows hids).congr fun id => ?_) now' hrun, hsame⟩
      simp [Reconciliation.effect]
    | toggle values => exact absurd rfl (hchange values)

end RelationHandle

/-! ## A user and two roles -/

namespace PivotSample

/-- The request for both roles and no others. -/
def bothRoles : Reconciliation := .sync (roles.map (·.toJson)) .null

/-- Asked for both roles again, the user has them. -/
theorem both_roles_once_more :
    ∃ changes t u, handle.reconcile "now" bothRoles store = (.ok changes, t) ∧
      handle.reconcile "later" bothRoles t = (.ok {}, u) ∧ u.Agrees t := by
  have hhandle : handle.HasPivot keys user := ⟨rfl, user.toJson, rfl, user.ofJson?_toJson⟩
  have hids : DocumentId.ofJsons bothRoles.ids = .ok roles := DocumentId.ofJsons_toJson roles
  obtain ⟨hfirst, hsecond⟩ := RelationHandle.reconcile_twice hhandle keys_tidy store_wellFormed
    bothRoles nofun rfl "now" "later"
  obtain ⟨changes, t, hrun⟩ := hfirst roles hids store_fresh
  obtain ⟨u, hagain, hagrees⟩ := hsecond changes t hrun
  exact ⟨changes, t, u, hrun, hagain, hagrees⟩

end PivotSample

end DocMapper
