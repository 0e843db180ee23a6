import DocMapper.Proofs.Relation.Execution

/-! # Copies of the owners

The stages of a relation keep the owners and their order, but for unwinding, which makes a copy of an
owner for each of its related documents, and one where there is none. So the identifiers after the
stages are those before, each once or several times in a row (`Repeats`); and they are the same
exactly if no relation of a kind with at most one related document finds more
(`Relation.FindsAtMostOne`, `Relation.repeats_loadAll`). -/

namespace DocMapper

/-! ## Repeated members -/

/-- The second list holds the members of the first in their order, each once or several times in a
row. -/
inductive Repeats {α : Type} : List α → List α → Prop where
  | nil : Repeats [] []
  | once (a : α) {as bs : List α} (h : Repeats as bs) : Repeats (a :: as) (a :: bs)
  | again {a : α} {as bs : List α} (h : Repeats (a :: as) bs) : Repeats (a :: as) (a :: bs)

namespace Repeats

variable {α β : Type} {as bs cs : List α}

theorem refl (as : List α) : Repeats as as := by
  induction as with
  | nil => exact .nil
  | cons a as ih => exact .once a ih

theorem length_le (h : Repeats as bs) : as.length ≤ bs.length := by
  induction h with
  | nil => exact Nat.le_refl 0
  | once a _ ih => simpa using ih
  | again _ ih => exact Nat.le_succ_of_le ih

/-- Where nothing is repeated, the lists are the same. -/
theorem eq_of_length_le (h : Repeats as bs) (hlength : bs.length ≤ as.length) : bs = as := by
  induction h with
  | nil => rfl
  | once a _ ih => rw [ih (by simpa using hlength)]
  | again h _ =>
    have hle := h.length_le
    simp only [List.length_cons] at hlength hle
    omega

theorem trans (h : Repeats as bs) (h' : Repeats bs cs) : Repeats as cs := by
  induction h' generalizing as with
  | nil => exact h
  | once b _ ih =>
    cases h with
    | once _ h => exact .once b (ih h)
    | again h => exact .again (ih h)
  | again _ ih =>
    -- What is repeated stands first in all three lists.
    cases h with
    | once _ h => exact .again (ih (.once _ h))
    | again h => exact .again (ih (.again h))

theorem append_copies {a : α} {copies : List α} (hne : copies ≠ []) (hcopies : ∀ b ∈ copies, b = a)
    (h : Repeats as bs) : Repeats (a :: as) (copies ++ bs) := by
  induction copies with
  | nil => exact absurd rfl hne
  | cons b copies ih =>
    obtain rfl : b = a := hcopies b List.mem_cons_self
    cases copies with
    | nil => exact .once b h
    | cons c copies =>
      exact .again (ih (List.cons_ne_nil c copies) fun x hx => hcopies x (List.mem_cons_of_mem b hx))

/-- Copying each member repeats what the copies have in common with it. -/
theorem of_flatMap {f : β → List β} {key : β → α} {l : List β} (hne : ∀ b ∈ l, f b ≠ [])
    (hkey : ∀ b ∈ l, ∀ c ∈ f b, key c = key b) :
    Repeats (l.map key) ((l.flatMap f).map key) := by
  induction l with
  | nil => exact .nil
  | cons b l ih =>
    rw [List.flatMap_cons, List.map_append, List.map_cons]
    refine append_copies ?_ ?_ (ih (fun b' hb' => hne b' (List.mem_cons_of_mem b hb'))
      fun b' hb' => hkey b' (List.mem_cons_of_mem b hb'))
    · simpa using hne b List.mem_cons_self
    · simpa using hkey b List.mem_cons_self

/-- Copying each member keeps the number of members only if it makes one copy of each. -/
theorem length_flatMap_eq_iff {f : β → List β} {l : List β} (hne : ∀ b ∈ l, f b ≠ []) :
    (l.flatMap f).length = l.length ↔ ∀ b ∈ l, (f b).length ≤ 1 := by
  induction l with
  | nil => simp
  | cons b l ih =>
    have hrest : ∀ b' ∈ l, f b' ≠ [] := fun b' hb' => hne b' (List.mem_cons_of_mem b hb')
    have hfirst := List.length_pos_iff.mpr (hne b List.mem_cons_self)
    have hrepeats : Repeats (l.map fun _ => ()) ((l.flatMap f).map fun _ => ()) :=
      of_flatMap hrest fun _ _ _ _ => rfl
    have hle := hrepeats.length_le
    rw [List.length_map, List.length_map] at hle
    rw [List.forall_mem_cons, List.flatMap_cons, List.length_append, List.length_cons]
    refine Iff.trans ?_ (and_congr_right fun _ => ih hrest)
    omega

end Repeats

namespace Relation

variable {r : Relation} {db : Collections} {docs out : List Document}

/-! ## Identifiers of the owners -/

section Owners

variable (halias : IsField r.aliasName) (hid : r.aliasName ≠ "_id") (hdocs : ∀ d ∈ docs, d.Unique)

include halias hid hdocs

/-- The stages that leave out what is not to be shown keep the owners. -/
theorem forall₂_projectionStages {nested : List EagerAlias} (hsaved : r.aliasName ≠ savedField)
    (h : Stage.runAll db (r.projectionStages nested) docs = .ok out) :
    List.Forall₂ (fun d d' => d'.get? "_id" = d.get? "_id") docs out := by
  refine (forall₂_shows halias hsaved hdocs h).imp fun d d' hshows => ?_
  cases hshows with
  | removed => exact get?_removeAll_of_ne halias (Ne.symm hid) _ d
  | nothing => rfl
  | missing => rfl
  | included => exact Document.get?_insert_of_ne hid d _

omit hdocs

/-! ## Unwinding -/

/-- Unwinding makes copies of an owner, more than one if there is more than one item. -/
theorem unwound_spec {d : Document}
    (hd : d.Unique ∧ ∃ items, d.get? r.aliasName = some (.array items)) :
    Stage.unwound r.aliasName true d ≠ [] ∧
      (∀ d' ∈ Stage.unwound r.aliasName true d, d'.get? "_id" = d.get? "_id") ∧
        ((Stage.unwound r.aliasName true d).length ≤ 1 ↔
          (Entity.loadedItems ((d.get? r.aliasName).getD .null)).length ≤ 1) := by
  obtain ⟨hunique, items, hitems⟩ := hd
  rw [Stage.unwound, Document.at?_field halias, hitems]
  cases items with
  | nil =>
    simp [Entity.loadedItems, Document.remove_field halias,
      Document.get?_erase_of_ne hunique (Ne.symm hid)]
  | cons item items =>
    simp [Entity.loadedItems, Document.set_field halias, Document.get?_insert_of_ne hid]

/-- Unwinding repeats the owners, those of a kind with at most one related document once if they
have no more. -/
theorem repeats_unwindStages
    (hdocs : ∀ d ∈ docs, d.Unique ∧ ∃ items, d.get? r.aliasName = some (.array items))
    (h : Stage.runAll db r.unwindStages docs = .ok out) :
    Repeats (docs.map (·.get? "_id")) (out.map (·.get? "_id")) ∧
      (out.length = docs.length ↔ (r.kind.isSingle = true → ∀ d ∈ docs,
        (Entity.loadedItems ((d.get? r.aliasName).getD .null)).length ≤ 1)) := by
  rw [unwindStages] at h
  cases hsingle : r.kind.isSingle with
  | false =>
    rw [hsingle] at h
    cases h
    exact ⟨.refl _, by simp⟩
  | true =>
    rw [hsingle, if_pos rfl, Stage.runAll_singleton] at h
    cases h
    have hspec := fun d hd => unwound_spec halias hid (hdocs d hd)
    refine ⟨.of_flatMap (fun d hd => (hspec d hd).1) fun d hd => (hspec d hd).2.1, ?_⟩
    rw [Repeats.length_flatMap_eq_iff fun d hd => (hspec d hd).1]
    simp only [forall_const]
    exact forall₂_congr fun d hd => (hspec d hd).2.2

end Owners

/-! ## One relation -/

/-- If the relation is of a kind with at most one related document, its lookups, with the stages for
what is nested, find no more for any of some owners. -/
def FindsAtMostOne (r : Relation) (db : Collections) (nested : List Stage) (docs : List Document) :
    Prop :=
  r.kind.isSingle = true →
    ∀ joined, Stage.runAll db (r.joinStages (r.relatedPipeline nested)) docs = .ok joined →
      ∀ d ∈ joined, (Entity.loadedItems ((d.get? r.aliasName).getD .null)).length ≤ 1

/-- Loading a relation repeats the owners, and does not if it finds at most one related document
where it should. -/
theorem repeats_loadWith {nested : Loaded} (hvalid : r.validate = .ok ())
    (hid : r.aliasName ≠ "_id") (hsaved : r.aliasName ≠ savedField) (hdocs : ∀ d ∈ docs, d.Unique)
    (h : Stage.runAll db (r.loadWith nested) docs = .ok out) :
    Repeats (docs.map (·.get? "_id")) (out.map (·.get? "_id")) ∧
      (out.length = docs.length ↔ r.FindsAtMostOne db nested.stages docs) := by
  obtain ⟨-, halias⟩ := validate_eq_ok hvalid
  obtain ⟨joined, unwound, hparts⟩ := exists_parts hvalid hdocs h
  have hjoin := hparts.joins
  have harrays : ∀ d ∈ joined, d.Unique ∧ ∃ items, d.get? r.aliasName = some (.array items) := by
    intro d hd
    obtain ⟨-, -, ⟨-, found, -, -, hholds⟩, -, -⟩ := exists_of_mem_forall₂ hjoin hd
    exact ⟨hholds.unique, _, hholds.under⟩
  obtain ⟨hrepeats, hlength⟩ := repeats_unwindStages halias hid harrays hparts.unwind
  have hshow := forall₂_projectionStages halias hid
    (fun d hd => (hparts.unwoundDocs d hd).1) hsaved hparts.project
  rw [map_eq_of_forall₂ hshow, ← hshow.length_eq,
    ← map_eq_of_forall₂ (hjoin.imp fun _ _ hjoins => hjoins.id_eq hid), hjoin.length_eq, hlength]
  refine ⟨hrepeats, imp_congr_right fun _ => ⟨fun hone joined' hjoined' => ?_, fun hone => ?_⟩⟩
  · cases hparts.join.symm.trans hjoined'
    exact hone
  · exact hone joined hparts.join

/-! ## Trees of loads -/

/-- Of the relations that are requested one after the other, each finds at most one related document
where it should. -/
def AllFindAtMostOne (schema : Schema) (db : Collections) (owner : Model) :
    List EagerLoad → List Document → Prop
  | [], _ => True
  | ⟨name, options, children⟩ :: rest, docs =>
    ∃ r nested out, requested schema owner name options = .ok r ∧
      loadAll schema r.related [] children = .ok nested ∧
      r.FindsAtMostOne db nested.stages docs ∧
      Stage.runAll db (r.loadWith nested) docs = .ok out ∧
      AllFindAtMostOne schema db owner rest out

variable {schema : Schema}

/-- Loading a tree of relations repeats the owners, and does not exactly if its relations find at
most one related document where they should. -/
theorem repeats_loadAll (hdb : ∀ source, ∀ d ∈ db source, d.Unique) {owner : Model}
    {seen : List (String × String)} {loads : List EagerLoad} {loaded : Loaded}
    (hload : loadAll schema owner seen loads = .ok loaded)
    (hid : "_id" ∉ loaded.aliases.map (·.name))
    (hsaved : savedField ∉ EagerAlias.allNames loaded.aliases) (hdocs : ∀ d ∈ docs, d.Unique)
    (h : Stage.runAll db loaded.stages docs = .ok out) :
    Repeats (docs.map (·.get? "_id")) (out.map (·.get? "_id")) ∧
      (out.length = docs.length ↔ AllFindAtMostOne schema db owner loads docs) := by
  induction owner, seen, loads using loadAll.induct generalizing loaded docs out with
  | case1 owner seen =>
    rw [loadAll] at hload
    cases hload
    cases h
    exact ⟨.refl _, by simp [AllFindAtMostOne]⟩
  | case2 owner seen name options children rest _ ihRest =>
    obtain ⟨r, nested, others, hr, -, hvalid, hnested, hothers, rfl⟩ := loadAll_cons_eq_ok hload
    obtain ⟨halias, hsavedNested, hsavedOthers⟩ := not_mem_allNames_cons.mp hsaved
    rw [List.map_cons, List.mem_cons, not_or] at hid
    obtain ⟨mid, hmid, h⟩ := Stage.runAll_append_eq_ok.mp h
    have hunique := unique_of_loadWith hdb hvalid halias hnested hsavedNested hdocs hmid
    obtain ⟨hfirst, hone⟩ := repeats_loadWith hvalid (Ne.symm hid.1) halias hdocs hmid
    obtain ⟨hrest, hall⟩ := ihRest r hothers hid.2 hsavedOthers hunique h
    refine ⟨hfirst.trans hrest, ?_⟩
    -- No relation makes the documents fewer, so their number stays only if each of them keeps it.
    have hle := hfirst.length_le
    have hle' := hrest.length_le
    simp only [List.length_map] at hle hle'
    have hboth : out.length = docs.length ↔ mid.length = docs.length ∧ out.length = mid.length := by
      omega
    rw [hboth, hone, hall, AllFindAtMostOne]
    constructor
    · rintro ⟨hfinds, hothers⟩
      exact ⟨r, nested, mid, hr, hnested, hfinds, hmid, hothers⟩
    · rintro ⟨r', nested', mid', hr', hnested', hfinds, hmid', hothers⟩
      cases hr.symm.trans hr'
      cases hnested.symm.trans hnested'
      cases hmid.symm.trans hmid'
      exact ⟨hfinds, hothers⟩

end Relation

end DocMapper
