import DocMapper.Proofs.Pivot.Attaching
import Mathlib.Algebra.BigOperators.Group.Finset.Basic

/-! # Attaching side by side loses nothing

Several programs attach targets at the same time, for the same owner or for others. Each makes its
plan from a snapshot that the others outdate. Still nothing is lost (`attaching_loses_nothing`): when
all have ended, every target that was asked for is active and has one row, and if it was not active
at the start, exactly one of the programs says that it attached it, or restored it.

The invariant is `Progress`. A target that was not active at the start is not active until one of
the programs writes its row, and that one reports it. From then on the row is as restoring leaves it,
so a program that planned to write it too finds nothing to change. -/

namespace DocMapper

/-! ## What a row can be about -/

/-- An owner of some type, and a target. -/
structure PivotTie (keys : PivotKeys) where
  layout : PivotKeys
  alike : keys.Alike layout
  owner : DocumentId
  target : DocumentId

namespace PivotTie

variable {keys : PivotKeys} {x y : PivotTie keys} {row : Document} {docs : List Document}
  {s t : Store}

/-- Whether a row is about it. -/
def holds (x : PivotTie keys) (row : Document) : Bool := x.layout.ties x.owner x.target row

/-- What the rows of a collection say about it. -/
def status (x : PivotTie keys) (docs : List Document) : PivotStatus :=
  x.layout.status docs x.owner x.target

/-- Whether two of them are about the same owner, type and target. -/
structure Same (x y : PivotTie keys) : Prop where
  type : x.layout.morphType = y.layout.morphType
  owner : x.owner = y.owner
  target : x.target = y.target

theorem Same.refl (x : PivotTie keys) : x.Same x := ⟨rfl, rfl, rfl⟩

theorem alike_layouts (x y : PivotTie keys) : y.layout.Alike x.layout :=
  ⟨x.alike.collection.trans y.alike.collection.symm, x.alike.foreign.trans y.alike.foreign.symm,
    x.alike.related.trans y.alike.related.symm, x.alike.typeField.trans y.alike.typeField.symm,
    x.alike.softDelete.trans y.alike.softDelete.symm⟩

theorem Same.holds_eq (h : x.Same y) : x.holds = y.holds := by
  funext row
  rw [holds, holds, (alike_layouts x y).ties_eq h.type, h.owner, h.target]

theorem Same.status_eq (h : x.Same y) (docs : List Document) : x.status docs = y.status docs := by
  have hties : x.layout.ties x.owner x.target = y.layout.ties y.owner y.target := h.holds_eq
  have htrash : x.layout.isTrashed = y.layout.isTrashed :=
    funext fun row => (alike_layouts x y).isTrashed_eq row
  rw [status, status, PivotKeys.status, PivotKeys.status, hties, htrash]

theorem same_of_holds (hx : x.holds row = true) (hy : y.holds row = true) : x.Same y := by
  have htype := (alike_layouts x y).type_unique hy hx
  have howner := PivotKeys.owner_unique (alike_layouts x y).foreign hy hx
  refine ⟨htype, howner, ?_⟩
  rw [holds, (alike_layouts x y).ties_eq htype, howner] at hx
  exact PivotKeys.target_unique hx hy

theorem wellFormed (x : PivotTie keys) (h : keys.WellFormed docs) : x.layout.WellFormed docs :=
  x.alike.wellFormed h

/-- A write that touches one target of an owner leaves the status of everything else. -/
theorem status_of_rewrites (h : y.layout.Rewrites y.owner (· = y.target) s t) (hne : ¬ x.Same y) :
    x.status (t.documents keys.collection) = x.status (s.documents keys.collection) := by
  rw [← y.alike.collection]
  apply PivotKeys.status_congr
  apply h.untouched
  rintro row id rfl hties
  refine Bool.eq_false_iff.mpr fun hx => hne ?_
  exact same_of_holds hx hties

end PivotTie

/-! ## Requests -/

/-- A request to attach targets, each once, for an owner. -/
structure AttachRequest (keys : PivotKeys) where
  layout : PivotKeys
  alike : keys.Alike layout
  tidy : layout.Tidy
  owner : DocumentId
  now : String
  targets : List DocumentId
  once : targets.Nodup

/-- How far the program of a request has come. -/
inductive AttachPhase where
  /-- It has not made a plan. -/
  | waiting
  /-- Some targets are left to be attached. -/
  | attaching (rest : List DocumentId) (changes : PivotChanges)

namespace AttachPhase

/-- What is reported so far. -/
def changes : AttachPhase → PivotChanges
  | waiting => {}
  | attaching _ changes => changes

end AttachPhase

namespace AttachRequest

variable {keys : PivotKeys}

/-- The program of a request, from the phase that it has reached. -/
def program (r : AttachRequest keys) : AttachPhase → Program PivotChanges
  | .waiting => (r.layout.rowsOf r.owner).reconciling [] r.now (PivotPlan.attach · r.targets)
  | .attaching rest changes => (r.layout.rowsOf r.owner).attaching [] r.now [] rest changes

/-- The targets that may still be written. -/
def left (r : AttachRequest keys) : AttachPhase → List DocumentId
  | .waiting => r.targets
  | .attaching rest _ => rest

/-- The targets that are to be written by a plan from a snapshot. -/
def toWrite (r : AttachRequest keys) (p : PivotSnapshot) : List DocumentId :=
  (PivotPlan.attach p r.targets).insert ++ (PivotPlan.attach p r.targets).restore

theorem mem_toWrite {r : AttachRequest keys} {p : PivotSnapshot}
    {status : DocumentId → PivotStatus} (h : p.Shows status) {id : DocumentId} :
    id ∈ r.toWrite p ↔ id ∈ r.targets ∧ status id ≠ .active := by
  rw [toWrite, List.mem_append, PivotPlan.mem_attached_iff h]

theorem length_toWrite_le (r : AttachRequest keys) {p : PivotSnapshot}
    {status : DocumentId → PivotStatus} (h : p.Shows status) :
    (r.toWrite p).length ≤ r.targets.length := by
  rw [toWrite, List.length_append]
  exact (PivotPlan.attach_achieves h r.once).length_le

def tie (r : AttachRequest keys) (target : DocumentId) : PivotTie keys :=
  ⟨r.layout, r.alike, r.owner, target⟩

/-- Whether a request is for the owner of a tie. -/
structure Concerns (r : AttachRequest keys) (x : PivotTie keys) : Prop where
  type : r.layout.morphType = x.layout.morphType
  owner : r.owner = x.owner

/-- Whether a request asks for a tie. -/
def Names (r : AttachRequest keys) (x : PivotTie keys) : Prop := r.Concerns x ∧ x.target ∈ r.targets

theorem Concerns.same {r : AttachRequest keys} {x : PivotTie keys} (h : r.Concerns x) :
    x.Same (r.tie x.target) := ⟨h.type.symm, h.owner.symm, rfl⟩

end AttachRequest

/-! ## Writing the row of one target -/

/-- A write that makes one thing active and leaves everything else as it is. -/
structure PivotTie.Writes {keys : PivotKeys} (y : PivotTie keys) (s t : Store) : Prop where
  wellFormed : keys.WellFormed (t.documents keys.collection)
  fresh : ∀ last, s.FreshIds keys.collection last → t.FreshIds keys.collection last
  drawn : t.ids.drawn ≤ s.ids.drawn + 1
  active : ∀ x : PivotTie keys, x.Same y → x.status (t.documents keys.collection) = .active
  others : ∀ x : PivotTie keys, ¬ x.Same y →
    x.status (t.documents keys.collection) = x.status (s.documents keys.collection)
  distinct : ∀ row ∈ t.documents keys.collection, (Json.object row).distinctKeys = true
  rows : ∀ row ∈ t.documents keys.collection,
    row ∈ s.documents keys.collection ∨ keys.restored row = row

/-- What is active stays so. -/
theorem PivotTie.Writes.stays {keys : PivotKeys} {x y : PivotTie keys} {s t : Store}
    (h : y.Writes s t) (hx : x.status (s.documents keys.collection) = .active) :
    x.status (t.documents keys.collection) = .active := by
  by_cases hsame : x.Same y
  · exact h.active x hsame
  · rw [h.others x hsame, hx]

/-- The call that attaches a target of a request writes its row. -/
theorem AttachRequest.attachOne_writes {keys : PivotKeys} (r : AttachRequest keys) (id : DocumentId)
    {s : Store} (hwf : keys.WellFormed (s.documents keys.collection))
    (hdistinct : ∀ row ∈ s.documents keys.collection, (Json.object row).distinctKeys = true)
    {last : Nat} (hfresh : s.FreshIds keys.collection last) (hlast : s.ids.drawn < last)
    (hsettled : ∀ row ∈ s.documents keys.collection,
      (r.tie id).holds row = true → keys.isTrashed row = false → keys.restored row = row)
    (changes : PivotChanges) :
    ∃ outcome t, (r.layout.rowsOf r.owner).attachOne [] r.now id s = (.ok outcome, t) ∧
      PivotRows.report changes id outcome = PivotKeys.attachedTo
        (fun id => (r.tie id).status (s.documents keys.collection)) [id] changes ∧
      (r.tie id).Writes s t := by
  have hcoll := r.alike.collection
  have hwf' := r.alike.wellFormed hwf
  have hsettled' : ∀ row ∈ s.documents keys.collection, r.layout.ties r.owner id row = true →
      r.layout.isTrashed row = false → r.layout.restored row = row := by
    intro row hrow hties htrash
    rw [r.alike.isTrashed_eq] at htrash
    rw [r.alike.restored_eq]
    exact hsettled row hrow hties htrash
  rw [← hcoll] at hwf' hdistinct hfresh hsettled'
  obtain ⟨outcome, t, hrun, hreport, hdrawn, hrewrites, hactive, hrows⟩ :=
    PivotKeys.attachOne_settles r.tidy hwf' hdistinct hfresh hlast r.now hsettled' changes
  have hwritten := r.alike.symm.wellFormed hrewrites.wellFormed
  have hstill := hrewrites.fresh
  rw [hcoll] at hreport hactive hrows hwritten hstill
  refine ⟨outcome, t, hrun, hreport, hwritten, hstill, hdrawn, ?_, ?_, ?_, ?_⟩
  · exact fun x hx => (hx.status_eq _).trans hactive
  · exact fun x hx => PivotTie.status_of_rewrites (y := r.tie id) hrewrites hx
  · exact fun row hrow => (hrows row hrow).1
  · intro row hrow
    refine (hrows row hrow).2.imp_right ?_
    rintro ⟨-, hrestored⟩
    rw [← r.alike.restored_eq]
    exact hrestored

/-! ## Reports -/

/-- The targets that are reported to have had a status before. -/
def PivotChanges.listed (c : PivotChanges) : PivotStatus → List DocumentId
  | .absent => c.attached
  | .trashed => c.restored
  | .active => []

theorem PivotKeys.mem_listed_attachedTo {status : DocumentId → PivotStatus} {id other : DocumentId}
    {c : PivotChanges} {found : PivotStatus} : other ∈ (attachedTo status [id] c).listed found ↔
      other ∈ c.listed found ∨ other = id ∧ status id = found ∧ found ≠ .active := by
  cases found with
  | active => simp [PivotChanges.listed]
  | absent =>
    by_cases h : status id = .absent <;> simp [PivotChanges.listed, attachedTo, h]
  | trashed =>
    by_cases h : status id = .trashed <;> simp [PivotChanges.listed, attachedTo, h]

/-! ## The invariant -/

section

variable {ι : Type} {keys : PivotKeys}

/-- Whether a program has reported a tie by the status that it had at the start. -/
def Reported (requests : ι → AttachRequest keys) (start : List Document) (phases : ι → AttachPhase)
    (x : PivotTie keys) (i : ι) : Prop :=
  (requests i).Concerns x ∧ x.target ∈ (phases i).changes.listed (x.status start)

/-- What holds while requests are carried out side by side. -/
structure Progress [Fintype ι] (requests : ι → AttachRequest keys) (start : List Document)
    (last : Nat) (phases : ι → AttachPhase) (s : Store) : Prop where
  wellFormed : keys.WellFormed (s.documents keys.collection)
  distinct : ∀ row ∈ s.documents keys.collection, (Json.object row).distinctKeys = true
  fresh : s.FreshIds keys.collection last
  /-- There are identifiers for all that is left to be written. -/
  room : s.ids.drawn + ∑ i, ((requests i).left (phases i)).length ≤ last
  /-- Nothing changes but that it becomes active. -/
  status : ∀ x : PivotTie keys, x.status (s.documents keys.collection) = x.status start ∨
    x.status (s.documents keys.collection) = .active
  /-- The rows that were written are as restoring leaves them. -/
  settled : ∀ x : PivotTie keys, x.status start ≠ .active → ∀ row ∈ s.documents keys.collection,
    x.holds row = true → keys.isTrashed row = false → keys.restored row = row
  /-- What is planned was asked for, and was not active at the start. -/
  planned : ∀ i rest changes, phases i = .attaching rest changes → ∀ id ∈ rest,
    id ∈ (requests i).targets ∧ ((requests i).tie id).status start ≠ .active
  /-- What was asked for is active unless it is left to be written. -/
  requested : ∀ i, ∀ id ∈ (requests i).targets, id ∈ (requests i).left (phases i) ∨
    ((requests i).tie id).status (s.documents keys.collection) = .active
  /-- What is reported was asked for. -/
  named : ∀ i found, ∀ id ∈ (phases i).changes.listed found, id ∈ (requests i).targets
  /-- What became active is reported by exactly one program, and nothing else by any. -/
  reported : ∀ x : PivotTie keys, x.status start ≠ .active →
    (x.status (s.documents keys.collection) = .active →
      ∃! i, Reported requests start phases x i) ∧
    (x.status (s.documents keys.collection) ≠ .active →
      ∀ i, ¬ Reported requests start phases x i)

variable [Fintype ι] [DecidableEq ι] {requests : ι → AttachRequest keys} {start : List Document}
  {last : Nat} {phases : ι → AttachPhase} {s : Store}

/-- The length of what is left changes by what one program has left. -/
theorem sum_left_update (requests : ι → AttachRequest keys) (phases : ι → AttachPhase) (i : ι)
    (phase : AttachPhase) :
    ∑ j, ((requests j).left (Function.update phases i phase j)).length +
        ((requests i).left (phases i)).length =
      ∑ j, ((requests j).left (phases j)).length + ((requests i).left phase).length := by
  rw [← Finset.add_sum_erase _ _ (Finset.mem_univ i),
    ← Finset.add_sum_erase Finset.univ (fun j => ((requests j).left (phases j)).length)
      (Finset.mem_univ i), Function.update_self]
  have hrest : ∑ j ∈ Finset.univ.erase i,
        ((requests j).left (Function.update phases i phase j)).length =
      ∑ j ∈ Finset.univ.erase i, ((requests j).left (phases j)).length := by
    refine Finset.sum_congr rfl fun j hj => ?_
    rw [Function.update_of_ne (Finset.ne_of_mem_erase hj)]
  omega

/-- Attaching a target leaves one less to be written. -/
theorem sum_left_attached (requests : ι → AttachRequest keys) {i : ι} {id : DocumentId}
    {rest : List DocumentId} {changes : PivotChanges}
    (hi : phases i = .attaching (id :: rest) changes) (changes' : PivotChanges) :
    ∑ j, ((requests j).left (Function.update phases i (.attaching rest changes') j)).length + 1 =
      ∑ j, ((requests j).left (phases j)).length := by
  have hupdate := sum_left_update requests phases i (.attaching rest changes')
  have hone : ((requests i).left (phases i)).length = rest.length + 1 := by
    rw [hi]
    rfl
  have hnone : ((requests i).left (.attaching rest changes')).length = rest.length := rfl
  omega

omit [Fintype ι] in
/-- Attaching a target lets a program report what it is the first to make active, and nothing more. -/
theorem reported_attached {status : DocumentId → PivotStatus} {i : ι} {id : DocumentId}
    {rest : List DocumentId} {changes : PivotChanges}
    (hi : phases i = .attaching (id :: rest) changes) (x : PivotTie keys) (j : ι) :
    Reported requests start (Function.update phases i
        (.attaching rest (PivotKeys.attachedTo status [id] changes))) x j ↔
      Reported requests start phases x j ∨ j = i ∧ x.Same ((requests i).tie id) ∧
        status id = x.status start ∧ x.status start ≠ .active := by
  unfold Reported
  by_cases hj : j = i
  · subst hj
    have hlisted : x.target ∈ (PivotKeys.attachedTo status [id] changes).listed (x.status start) ↔ _ :=
      PivotKeys.mem_listed_attachedTo
    rw [Function.update_self, hi]
    constructor
    · rintro ⟨hconcerns, hmem⟩
      rcases hlisted.mp hmem with hmem | ⟨htarget, hfound⟩
      · exact .inl ⟨hconcerns, hmem⟩
      · exact .inr ⟨rfl, htarget ▸ hconcerns.same, hfound⟩
    · rintro (⟨hconcerns, hmem⟩ | ⟨-, hsame, hfound⟩)
      · exact ⟨hconcerns, hlisted.mpr (.inl hmem)⟩
      · exact ⟨⟨hsame.type.symm, hsame.owner.symm⟩, hlisted.mpr (.inr ⟨hsame.target, hfound⟩)⟩
  · rw [Function.update_of_ne hj]
    simp [hj]

namespace Progress

/-- Making a plan changes nothing but what is left to be written. -/
theorem plan (h : Progress requests start last phases s) {i : ι} (hi : phases i = .waiting) :
    ∃ rest, ((requests i).program .waiting).step s = ((requests i).program (.attaching rest {}), s) ∧
      Progress requests start last (Function.update phases i (.attaching rest {})) s := by
  have hwf := (requests i).alike.wellFormed h.wellFormed
  rw [← (requests i).alike.collection] at hwf
  obtain ⟨p, hsnapshot, hshows⟩ :=
    PivotRows.snapshot_shows (requests i).tidy (requests i).owner hwf
  rw [(requests i).alike.collection] at hshows
  -- No program has reported more, nor less.
  have hchanges : ∀ j, (Function.update phases i (.attaching ((requests i).toWrite p) {}) j).changes
      = (phases j).changes := by
    intro j
    by_cases hj : j = i
    · subst hj
      rw [Function.update_self, hi]
      rfl
    · rw [Function.update_of_ne hj]
  refine ⟨(requests i).toWrite p, ?_, h.wellFormed, h.distinct, h.fresh, ?_, h.status, h.settled,
    ?_, ?_, ?_, ?_⟩
  · show Program.step (.call ((requests i).layout.rowsOf (requests i).owner).snapshot _) s = _
    rw [Program.step, hsnapshot]
    rfl
  · have hsum := sum_left_update requests phases i (.attaching ((requests i).toWrite p) {})
    have hlength := (requests i).length_toWrite_le hshows
    have hleft : ((requests i).left (phases i)).length = (requests i).targets.length := by
      rw [hi]
      rfl
    have hleft' : ((requests i).left (.attaching ((requests i).toWrite p) {})).length =
      ((requests i).toWrite p).length := rfl
    have hroom := h.room
    omega
  · intro j rest changes hj id hid
    by_cases hji : j = i
    · subst hji
      rw [Function.update_self] at hj
      cases hj
      obtain ⟨htarget, hnot⟩ := (AttachRequest.mem_toWrite hshows).mp hid
      refine ⟨htarget, fun hactive => hnot ?_⟩
      rcases h.status ((requests j).tie id) with hsame | hnow
      · exact hsame.trans hactive
      · exact hnow
    · rw [Function.update_of_ne hji] at hj
      exact h.planned j rest changes hj id hid
  · intro j id hid
    by_cases hji : j = i
    · subst hji
      rw [Function.update_self]
      by_cases hactive : ((requests j).tie id).status (s.documents keys.collection) = .active
      · exact .inr hactive
      · exact .inl ((AttachRequest.mem_toWrite hshows).mpr ⟨hid, hactive⟩)
    · rw [Function.update_of_ne hji]
      exact h.requested j id hid
  · intro j found id hid
    rw [hchanges] at hid
    exact h.named j found id hid
  · intro x hx
    have hsame : ∀ j, Reported requests start
        (Function.update phases i (.attaching ((requests i).toWrite p) {})) x j ↔
          Reported requests start phases x j := by
      intro j
      rw [Reported, Reported, hchanges]
    simp only [hsame]
    exact h.reported x hx

/-- After a target is attached, what was asked for is active unless it is left to be written. -/
theorem requested_attached (h : Progress requests start last phases s) {i : ι} {id : DocumentId}
    {rest : List DocumentId} {changes : PivotChanges}
    (hi : phases i = .attaching (id :: rest) changes) {t : Store}
    (hwrites : ((requests i).tie id).Writes s t) (changes' : PivotChanges) (j : ι) :
    ∀ other ∈ (requests j).targets,
      other ∈ (requests j).left (Function.update phases i (.attaching rest changes') j) ∨
        ((requests j).tie other).status (t.documents keys.collection) = .active := by
  intro other hother
  rcases h.requested j other hother with hleft | hnow
  · by_cases hji : j = i
    · subst hji
      rw [hi] at hleft
      rw [Function.update_self]
      rcases List.mem_cons.mp hleft with rfl | hleft
      · exact .inr (hwrites.active _ (.refl _))
      · exact .inl hleft
    · rw [Function.update_of_ne hji]
      exact .inl hleft
  · exact .inr (hwrites.stays hnow)

/-- After a target is attached, what became active is still reported by exactly one program: by this
one if it is the first to write the row, and by whoever reported it before if not. -/
theorem reported_once (h : Progress requests start last phases s) {i : ι} {id : DocumentId}
    {rest : List DocumentId} {changes : PivotChanges}
    (hi : phases i = .attaching (id :: rest) changes) {t : Store}
    (hwrites : ((requests i).tie id).Writes s t) {status : DocumentId → PivotStatus}
    (hstatus : status id = ((requests i).tie id).status (s.documents keys.collection))
    {x : PivotTie keys} (hx : x.status start ≠ .active) :
    (x.status (t.documents keys.collection) = .active →
      ∃! j, Reported requests start (Function.update phases i
        (.attaching rest (PivotKeys.attachedTo status [id] changes))) x j) ∧
    (x.status (t.documents keys.collection) ≠ .active →
      ∀ j, ¬ Reported requests start (Function.update phases i
        (.attaching rest (PivotKeys.attachedTo status [id] changes))) x j) := by
  simp only [reported_attached hi, hstatus]
  by_cases hsame : x.Same ((requests i).tie id)
  · refine ⟨fun _ => ?_, fun hinactive => absurd (hwrites.active x hsame) hinactive⟩
    rw [← hsame.status_eq]
    rcases h.status x with hbefore | hactive
    · -- This program is the first one to write the row, and so the only one to report it.
      have hnone := (h.reported x hx).2 fun hactive => hx (hbefore.symm.trans hactive)
      refine ⟨i, .inr ⟨rfl, hsame, hbefore, hx⟩, ?_⟩
      rintro j (hj | ⟨rfl, -⟩)
      · exact absurd hj (hnone j)
      · rfl
    · have hnot : x.status (s.documents keys.collection) ≠ x.status start := fun hbefore =>
        hx (hbefore.symm.trans hactive)
      simp only [hnot, false_and, and_false, or_false]
      exact (h.reported x hx).1 hactive
  · simp only [hsame, false_and, and_false, or_false]
    rw [hwrites.others x hsame]
    exact h.reported x hx

/-- Attaching a target makes it active, and the program reports it unless another one has been there
before. -/
theorem attach (h : Progress requests start last phases s) {i : ι} {id : DocumentId}
    {rest : List DocumentId} {changes : PivotChanges}
    (hi : phases i = .attaching (id :: rest) changes) :
    ∃ changes' t, ((requests i).program (.attaching (id :: rest) changes)).step s =
        ((requests i).program (.attaching rest changes'), t) ∧
      Progress requests start last (Function.update phases i (.attaching rest changes')) t := by
  obtain ⟨htarget, hstart⟩ := h.planned i _ _ hi id List.mem_cons_self
  have hroom := h.room
  -- One target less is left, so there is an identifier for it.
  have hlast : s.ids.drawn < last := by
    have hless := sum_left_attached requests hi changes
    omega
  obtain ⟨outcome, t, hrun, hreport, hwrites⟩ := (requests i).attachOne_writes id h.wellFormed
    h.distinct h.fresh hlast (h.settled _ hstart) changes
  generalize hstatus : (fun id => ((requests i).tie id).status (s.documents keys.collection)) = status
    at hreport
  refine ⟨PivotKeys.attachedTo status [id] changes, t, ?_, hwrites.wellFormed, hwrites.distinct,
    hwrites.fresh last h.fresh, ?_, ?_, ?_, ?_, h.requested_attached hi hwrites _, ?_,
    fun x hx => h.reported_once hi hwrites (congrFun hstatus id).symm hx⟩
  · show Program.step (.call (PivotRows.attachOne _ [] _ id) _) s = _
    rw [Program.step, hrun]
    exact congrArg (fun c => ((requests i).program (.attaching rest c), t)) hreport
  · have hless := sum_left_attached requests hi
      (PivotKeys.attachedTo status [id] changes)
    have hdrawn := hwrites.drawn
    omega
  · intro x
    by_cases hsame : x.Same ((requests i).tie id)
    · exact .inr (hwrites.active x hsame)
    · rw [hwrites.others x hsame]
      exact h.status x
  · intro x hx row hrow hholds htrash
    rcases hwrites.rows row hrow with hold | hsettled
    · exact h.settled x hx row hold hholds htrash
    · exact hsettled
  · intro j rest' changes' hj other hother
    by_cases hji : j = i
    · subst hji
      rw [Function.update_self] at hj
      cases hj
      exact h.planned j _ _ hi other (List.mem_cons_of_mem id hother)
    · rw [Function.update_of_ne hji] at hj
      exact h.planned j rest' changes' hj other hother
  · intro j found other hother
    by_cases hji : j = i
    · subst hji
      rw [Function.update_self] at hother
      rcases PivotKeys.mem_listed_attachedTo.mp hother with hother | ⟨rfl, -⟩
      · refine h.named j found other ?_
        rw [hi]
        exact hother
      · exact htarget
    · rw [Function.update_of_ne hji] at hother
      exact h.named j found other hother

omit [DecidableEq ι] in
/-- At the start nothing is written and nothing reported. -/
theorem initial (requests : ι → AttachRequest keys)
    (hwf : keys.WellFormed (s.documents keys.collection))
    (hdistinct : ∀ row ∈ s.documents keys.collection, (Json.object row).distinctKeys = true)
    (hfresh : s.FreshIds keys.collection (s.ids.drawn + ∑ i, (requests i).targets.length)) :
    Progress requests (s.documents keys.collection)
      (s.ids.drawn + ∑ i, (requests i).targets.length) (fun _ => .waiting) s := by
  refine ⟨hwf, hdistinct, hfresh, Nat.le_refl _, fun _ => .inl rfl, ?_, nofun, ?_, ?_, ?_⟩
  · intro x hx row hrow hholds htrash
    refine absurd ?_ hx
    have hstatus := PivotKeys.status_of_row (x.wellFormed hwf) hrow hholds
    rw [x.alike.isTrashed_eq, htrash] at hstatus
    exact hstatus
  · exact fun i id hid => .inl hid
  · intro i found id hid
    cases found <;> cases hid
  · intro x hx
    refine ⟨fun hactive => absurd hactive hx, ?_⟩
    rintro - i ⟨-, hid⟩
    cases hfound : x.status (s.documents keys.collection) <;> rw [hfound] at hid <;> cases hid

/-- Whatever program makes the next call, the invariant is kept. -/
theorem advance {p : Pool ι PivotChanges}
    (hprograms : p.programs = fun i => (requests i).program (phases i))
    (h : Progress requests start last phases p.store) (i : ι) :
    ∃ phases', (p.advance i).programs = (fun i => (requests i).program (phases' i)) ∧
      Progress requests start last phases' (p.advance i).store := by
  have hupdate : ∀ phase t, ((requests i).program (phases i)).step p.store =
      ((requests i).program phase, t) →
      (p.advance i).programs = (fun j => (requests j).program (Function.update phases i phase j)) ∧
        (p.advance i).store = t := by
    intro phase t hstep
    unfold Pool.advance
    simp only [hprograms, hstep, and_true]
    funext j
    by_cases hj : j = i
    · subst hj
      rw [Function.update_self, Function.update_self]
    · rw [Function.update_of_ne hj, Function.update_of_ne hj]
  cases hi : phases i with
  | waiting =>
    obtain ⟨rest, hstep, hprogress⟩ := h.plan hi
    obtain ⟨hnext, hstore⟩ := hupdate _ _ (hi ▸ hstep)
    exact ⟨_, hnext, hstore ▸ hprogress⟩
  | attaching left changes =>
    cases left with
    | nil =>
      obtain ⟨hnext, hstore⟩ := hupdate (.attaching [] changes) p.store (by rw [hi]; rfl)
      rw [← hi, Function.update_eq_self] at hnext
      exact ⟨phases, hnext, hstore ▸ h⟩
    | cons id rest =>
      obtain ⟨changes', t, hstep, hprogress⟩ := h.attach hi
      obtain ⟨hnext, hstore⟩ := hupdate _ _ (hi ▸ hstep)
      exact ⟨_, hnext, hstore ▸ hprogress⟩

theorem after {p : Pool ι PivotChanges}
    (hprograms : p.programs = fun i => (requests i).program (phases i))
    (h : Progress requests start last phases p.store) (schedule : List ι) :
    ∃ phases', (p.after schedule).programs = (fun i => (requests i).program (phases' i)) ∧
      Progress requests start last phases' (p.after schedule).store := by
  apply Pool.after_induction (P := fun p : Pool ι PivotChanges => ∃ phases',
    p.programs = (fun i => (requests i).program (phases' i)) ∧
      Progress requests start last phases' p.store)
  · rintro p i ⟨phases', hprograms, h⟩
    exact h.advance hprograms i
  · exact ⟨phases, hprograms, h⟩

end Progress

end

/-! ## When all have ended -/

/-- A program that has ended has nothing left to write. -/
theorem AttachRequest.phase_of_done {keys : PivotKeys} {r : AttachRequest keys} {phase : AttachPhase}
    {outcome : Except Error PivotChanges} (h : r.program phase = .done outcome) :
    phase = .attaching [] phase.changes ∧ outcome = .ok phase.changes := by
  cases phase with
  | waiting => cases h
  | attaching rest changes =>
    cases rest with
    | nil =>
      cases h
      exact ⟨rfl, rfl⟩
    | cons id rest => cases h

/-- A call that attaches the targets of a request, and gives new rows no extra attributes. -/
structure PivotCall.Attaches {keys : PivotKeys} (c : PivotCall) (r : AttachRequest keys) : Prop where
  pivot : c.handle.HasPivot r.layout r.owner
  time : c.now = r.now
  change : ∃ ids extra,
    (c.change = .attach ids extra ∨ c.change = .syncWithoutDetaching ids extra) ∧
      RelationHandle.targetIds ids = .ok r.targets ∧ RelationHandle.extraAttributes extra = .ok []

theorem PivotCall.Attaches.program_eq {keys : PivotKeys} {c : PivotCall} {r : AttachRequest keys}
    (h : c.Attaches r) : c.program = r.program .waiting := by
  obtain ⟨handle, now, change⟩ := c
  obtain ⟨ids, extra, hchange, htargets, hextra⟩ := h.change
  have htime := h.time
  have hpivot := RelationHandle.pivotRows_eq h.pivot
  simp only at hchange htime hpivot
  have hplanned : ∀ plan, handle.planned now ids extra plan =
      (r.layout.rowsOf r.owner).reconciling [] r.now (plan · r.targets) := by
    intro plan
    rw [RelationHandle.planned, htargets, hextra, hpivot, htime]
    rfl
  rcases hchange with rfl | rfl
  · exact hplanned _
  · exact hplanned _

/-- **Attaching side by side loses nothing.** However many calls attach targets, for whatever owners
and in whatever order their store calls come: when all have ended, all have succeeded, the collection
is well-formed, and of an owner just those targets are active that were so before or that a call for
the owner names, each with one row. A target that a call names, and that had no row before, is
reported as attached by exactly one of the calls for the owner; one whose row was deleted softly is
reported as restored by exactly one. -/
theorem PivotKeys.attaching_loses_nothing {ι : Type} [Fintype ι] [DecidableEq ι] {keys : PivotKeys}
    (calls : ι → PivotCall) (requests : ι → AttachRequest keys)
    (hcalls : ∀ i, (calls i).Attaches (requests i)) {s : Store}
    (hwf : keys.WellFormed (s.documents keys.collection))
    (hdistinct : ∀ row ∈ s.documents keys.collection, (Json.object row).distinctKeys = true)
    (hfresh : s.FreshIds keys.collection (s.ids.drawn + ∑ i, (requests i).targets.length))
    (schedule : List ι)
    (hdone : ∀ i,
      (((Pool.mk (fun i => (calls i).program) s).after schedule).programs i).hasEnded = true) :
    let rows := ((Pool.mk (fun i => (calls i).program) s).after schedule).store.documents
      keys.collection
    ∃ changes : ι → PivotChanges,
      (∀ i, ((Pool.mk (fun i => (calls i).program) s).after schedule).programs i =
        .done (.ok (changes i))) ∧
      keys.WellFormed rows ∧
      ∀ x : PivotTie keys,
        (x.status rows = .active ↔ x.status (s.documents keys.collection) = .active ∨
          ∃ i, (requests i).Names x) ∧
        (x.status rows = .active → ∃ row, rows.filter x.holds = [row]) ∧
        (x.status (s.documents keys.collection) = .absent → (∃ i, (requests i).Names x) →
          ∃! i, (requests i).Concerns x ∧ x.target ∈ (changes i).attached) ∧
        (x.status (s.documents keys.collection) = .trashed → (∃ i, (requests i).Names x) →
          ∃! i, (requests i).Concerns x ∧ x.target ∈ (changes i).restored) := by
  intro rows
  have hprograms : (fun i => (calls i).program) = fun i => (requests i).program .waiting :=
    funext fun i => (hcalls i).program_eq
  obtain ⟨phases, hphases, hprogress⟩ := Progress.after (p := ⟨fun i => (calls i).program, s⟩)
    hprograms (Progress.initial requests hwf hdistinct hfresh) schedule
  have hended : ∀ i, phases i = .attaching [] (phases i).changes ∧
      ((Pool.mk (fun i => (calls i).program) s).after schedule).programs i =
        .done (.ok (phases i).changes) := by
    intro i
    obtain ⟨outcome, houtcome⟩ := Program.hasEnded_iff.mp (hdone i)
    rw [hphases] at houtcome
    obtain ⟨hphase, hok⟩ := AttachRequest.phase_of_done houtcome
    refine ⟨hphase, ?_⟩
    rw [hphases]
    exact houtcome.trans (congrArg Program.done hok)
  have hnamed : ∀ x : PivotTie keys, (∃ i, (requests i).Names x) → x.status rows = .active := by
    rintro x ⟨i, hconcerns, htarget⟩
    rw [hconcerns.same.status_eq]
    refine (hprogress.requested i x.target htarget).resolve_left ?_
    rw [(hended i).1]
    exact List.not_mem_nil
  refine ⟨fun i => (phases i).changes, fun i => (hended i).2, hprogress.wellFormed, fun x =>
    ⟨⟨?_, ?_⟩, ?_, ?_, ?_⟩⟩
  · intro hactive
    by_cases hstart : x.status (s.documents keys.collection) = .active
    · exact .inl hstart
    · obtain ⟨i, ⟨hconcerns, hlisted⟩, -⟩ := (hprogress.reported x hstart).1 hactive
      exact .inr ⟨i, hconcerns, hprogress.named i _ _ hlisted⟩
  · rintro (hstart | hnames)
    · exact (hprogress.status x).elim (fun hsame => hsame.trans hstart) id
    · exact hnamed x hnames
  · intro hactive
    have hpresent : x.layout.status rows x.owner x.target ≠ .absent := by
      intro habsent
      cases habsent.symm.trans hactive
    obtain ⟨row, hrow, hties⟩ := PivotKeys.exists_row hpresent
    exact ⟨row, PivotKeys.filter_ties (x.wellFormed hprogress.wellFormed) hrow hties⟩
  · intro habsent hnames
    have honce := (hprogress.reported x (by rw [habsent]; decide)).1 (hnamed x hnames)
    simpa only [Reported, habsent, PivotChanges.listed] using honce
  · intro htrashed hnames
    have honce := (hprogress.reported x (by rw [htrashed]; decide)).1 (hnamed x hnames)
    simpa only [Reported, htrashed, PivotChanges.listed] using honce

/-! ## Two users who attach the same role -/

namespace PivotSample

/-- One request names both roles, and the other one the second role. -/
def requests (both : Bool) : AttachRequest keys where
  layout := keys
  alike := .refl keys
  tidy := keys_tidy
  owner := user
  now := "now"
  targets := if both then roles else [⟨3#128⟩]
  once := by cases both <;> decide

def attachCalls (both : Bool) : PivotCall where
  handle := handle
  now := "now"
  change := if both then .attach (roles.map (·.toJson)) .null
    else .syncWithoutDetaching [DocumentId.toJson ⟨3#128⟩] .null

theorem attachCalls_attach (both : Bool) : (attachCalls both).Attaches (requests both) := by
  have hids : ∀ ids : List DocumentId, RelationHandle.targetIds (ids.map (·.toJson)) =
      .ok (ids.foldl PivotRows.addTarget []) := by
    intro ids
    rw [RelationHandle.targetIds, DocumentId.ofJsons_toJson]
    rfl
  refine ⟨⟨rfl, user.toJson, rfl, user.ofJson?_toJson⟩, rfl, ?_⟩
  cases both with
  | true => exact ⟨_, _, .inl rfl, hids roles, rfl⟩
  | false => exact ⟨_, _, .inr rfl, hids [⟨3#128⟩], rfl⟩

/-- Both plan to insert a row for the second role before either writes it, and one of them reports
it. -/
theorem second_role_attached_once :
    ∃ changes : Bool → PivotChanges,
      (∀ both, ((Pool.mk (fun both => (attachCalls both).program) store).after
        [true, false, true, true, false]).programs both = .done (.ok (changes both))) ∧
      ∃! both, ⟨3#128⟩ ∈ (changes both).attached := by
  have hdistinct : ∀ row ∈ store.documents keys.collection,
      (Json.object row).distinctKeys = true := by
    intro r hr
    rw [List.mem_singleton.mp hr]
    decide
  obtain ⟨changes, hchanges, -, hties⟩ := PivotKeys.attaching_loses_nothing attachCalls requests
    attachCalls_attach store_wellFormed hdistinct (store_fresh_below.mono (by decide))
    [true, false, true, true, false] (by decide +kernel)
  refine ⟨changes, hchanges, ?_⟩
  obtain ⟨both, ⟨-, hmem⟩, honly⟩ := (hties ((requests true).tie ⟨3#128⟩)).2.2.1 (by decide +kernel)
    ⟨true, ⟨rfl, rfl⟩, by decide⟩
  exact ⟨both, hmem, fun other hother => honly other ⟨⟨rfl, rfl⟩, hother⟩⟩

end PivotSample

end DocMapper
