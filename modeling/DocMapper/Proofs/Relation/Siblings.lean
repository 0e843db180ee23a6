import DocMapper.Proofs.Relation.Locality
import Mathlib.Data.List.Nodup
import Mathlib.Data.List.Perm.Basic

/-! # Relations that are loaded side by side

Relations that are requested of the same owner, siblings, run one after the other, and each works on
what those before it have left. If the kinds have many related documents and the fields that the
siblings write are apart, from each other and from the fields that they read, none of them notices
the others:

  * what is put under an alias is what the sibling alone would put there, and fields that no sibling
    writes stay (`Sibling.exists_together`, `Sibling.gives_of_run`);
  * loading the siblings succeeds exactly if loading each of them alone does;
  * in another order, they leave the same entries.

`Relation.siblings_independent` says so of all that can be put into stages. -/

namespace DocMapper

/-- Two documents without repeated keys have the same entries if they hold the same under every
key. -/
theorem Document.perm_of_get? {d e : Document} (hd : d.Unique) (he : e.Unique)
    (h : ∀ key, d.get? key = e.get? key) : d.Perm e := by
  refine (List.perm_ext_iff_of_nodup (List.Nodup.of_map _ hd) (List.Nodup.of_map _ he)).mpr
    fun ⟨key, v⟩ => ?_
  rw [← get?_eq_some_iff hd, ← get?_eq_some_iff he, h]

namespace Relation

variable {schema : Schema} {owner : Model} {db : Collections} {d d' e : Document}

/-! ## Siblings -/

/-- A relation with what is loaded under it. -/
structure Sibling where
  relation : Relation
  nested : Loaded

namespace Sibling

variable {x : Sibling} {xs ys : List Sibling} {loads : List EagerLoad}

def stages (x : Sibling) : List Stage := x.relation.loadWith x.nested

/-- What loading siblings one after the other comes to. -/
def together (xs : List Sibling) : Loaded :=
  ⟨xs.flatMap stages, xs.map fun x => x.relation.aliasWith x.nested⟩

/-- The fields of an owner that siblings write. -/
def written (xs : List Sibling) : List String := xs.flatMap (·.relation.written)

/-- A sibling is what a request asks for: its relation is the one that is requested, and valid, and
what is nested is what the request asks for under it. -/
structure IsRequested (schema : Schema) (owner : Model) (load : EagerLoad) (x : Sibling) :
    Prop where
  relation : requested schema owner load.name load.options = .ok x.relation
  valid : x.relation.validate = .ok ()
  nested : loadAll schema x.relation.related [] load.children = .ok x.nested

/-- The fields that siblings write are distinct, and other than the fields that they read and the
one that selections keep for themselves. -/
structure Apart (xs : List Sibling) : Prop where
  distinct : (written xs).Nodup
  notSaved : savedField ∉ written xs
  notRead : ∀ x ∈ xs, x.relation.start ∉ written xs

theorem alias_mem_written (h : x ∈ xs) : x.relation.aliasName ∈ written xs :=
  List.mem_flatMap.mpr ⟨x, h, List.mem_cons_self⟩

theorem written_cons (x : Sibling) (xs : List Sibling) :
    written (x :: xs) = x.relation.written ++ written xs := List.flatMap_cons

/-- Without the first, siblings are apart, and apart from the first. -/
theorem Apart.of_cons (h : Apart (x :: xs)) :
    Apart xs ∧ (∀ key ∈ x.relation.written, key ∉ written xs) ∧
      ∀ y ∈ xs, y.relation.start ∉ x.relation.written := by
  have hdistinct := h.distinct
  rw [written_cons, List.nodup_append] at hdistinct
  have hsaved := h.notSaved
  rw [written_cons, List.mem_append, not_or] at hsaved
  have hread : ∀ y ∈ xs,
      y.relation.start ∉ x.relation.written ∧ y.relation.start ∉ written xs := by
    intro y hy
    have hy' := h.notRead y (List.mem_cons_of_mem x hy)
    rwa [written_cons, List.mem_append, not_or] at hy'
  exact ⟨⟨hdistinct.2.1, hsaved.2, fun y hy => (hread y hy).2⟩,
    fun key hkey hkey' => hdistinct.2.2 key hkey key hkey' rfl, fun y hy => (hread y hy).1⟩

/-- Whether siblings are apart does not depend on their order. -/
theorem Apart.perm (h : Apart xs) (hperm : xs.Perm ys) : Apart ys := by
  have hwritten : (written xs).Perm (written ys) := hperm.flatMap_right _
  refine ⟨hwritten.nodup_iff.mp h.distinct, fun hmem => h.notSaved (hwritten.mem_iff.mpr hmem),
    fun x hx hmem => h.notRead x (hperm.mem_iff.mpr hx) (hwritten.mem_iff.mpr hmem)⟩

theorem Apart.alias_ne_saved (h : Apart xs) (hx : x ∈ xs) : x.relation.aliasName ≠ savedField :=
  fun heq => h.notSaved (heq ▸ alias_mem_written hx)

/-- Siblings that are requested one after the other, under distinct aliases, can be put into
stages. -/
theorem loadAll_eq_together (hxs : List.Forall₂ (IsRequested schema owner) loads xs)
    {seen : List (String × String)}
    (hseen : ∀ x ∈ xs, seen.lookup x.relation.aliasName = none) (hdistinct : (written xs).Nodup) :
    loadAll schema owner seen loads = .ok (together xs) := by
  induction hxs generalizing seen with
  | nil => exact loadAll_nil schema owner seen
  | @cons load x loads xs hx hxs ih =>
    obtain ⟨name, options, children⟩ := load
    rw [written_cons, List.nodup_append] at hdistinct
    have hrest : ∀ y ∈ xs, ((x.relation.aliasName, name) :: seen).lookup y.relation.aliasName =
        none := by
      intro y hy
      have hne : y.relation.aliasName ≠ x.relation.aliasName := fun heq =>
        hdistinct.2.2 _ List.mem_cons_self _ (alias_mem_written hy) heq.symm
      rw [List.lookup_cons, beq_false_of_ne hne]
      exact hseen y (List.mem_cons_of_mem x hy)
    rw [loadAll, hx.relation, ok_bind, hseen x List.mem_cons_self]
    show x.relation.validate.mapError Error.query >>= _ = _
    rw [hx.valid, mapError_ok, ok_bind, hx.nested, ok_bind, ih hrest hdistinct.2.1, ok_bind]
    rfl

/-- What is loaded for requests is what siblings that they ask for load together. -/
theorem exists_together_of_loadAll {seen : List (String × String)} {loaded : Loaded}
    (h : loadAll schema owner seen loads = .ok loaded) :
    ∃ xs, List.Forall₂ (IsRequested schema owner) loads xs ∧ loaded = together xs := by
  induction loads generalizing seen loaded with
  | nil =>
    rw [loadAll_nil] at h
    cases h
    exact ⟨[], .nil, rfl⟩
  | cons load loads ih =>
    obtain ⟨name, options, children⟩ := load
    obtain ⟨r, nested, others, hr, -, hvalid, hnested, hothers, rfl⟩ := loadAll_cons_eq_ok h
    obtain ⟨xs, hxs, rfl⟩ := ih hothers
    exact ⟨⟨r, nested⟩ :: xs, .cons ⟨hr, hvalid, hnested⟩ hxs, rfl⟩

/-! ## What siblings put where -/

/-- A sibling puts a value under its alias in all owners that hold what a document holds under the
field where the relation starts. -/
def Gives (x : Sibling) (db : Collections) (d : Document) (v : Json) : Prop :=
  x.relation.Gives db x.stages (d.get? x.relation.start) v

/-- Documents that hold the same where the relation starts are given the same. -/
theorem gives_congr {v : Json} (h : d.get? x.relation.start = e.get? x.relation.start) :
    x.Gives db d v ↔ x.Gives db e v := by
  rw [Gives, Gives, h]

theorem gives_unique {v w : Json} (hd : d.Unique) (hv : x.Gives db d v) (hw : x.Gives db d w) :
    v = w := by
  obtain ⟨d', hrun, hputs⟩ := hv d hd rfl
  obtain ⟨e', hrun', hputs'⟩ := hw d hd rfl
  cases hrun.symm.trans hrun'
  exact Option.some.inj (hputs.under.symm.trans hputs'.under)

/-- What is left of an owner by siblings that give it something: that, nothing under the temporary
fields, and everything else as it was. -/
structure Together (db : Collections) (xs : List Sibling) (d d' : Document) : Prop where
  unique : d'.Unique
  under : ∀ x ∈ xs, ∃ v, x.Gives db d v ∧ d'.get? x.relation.aliasName = some v
  dropped : ∀ x ∈ xs, ∀ key ∈ x.relation.temporaries, d'.get? key = none
  kept : ∀ key, key ∉ written xs → d'.get? key = d.get? key

/-- In another order, siblings leave the same entries of an owner. -/
theorem Together.perm (hd : d.Unique) (h : Together db xs d d') (h' : Together db ys d e)
    (hperm : xs.Perm ys) : d'.Perm e := by
  refine Document.perm_of_get? h.unique h'.unique fun key => ?_
  by_cases hkey : key ∈ written xs
  · obtain ⟨x, hx, hkey⟩ := List.mem_flatMap.mp hkey
    have hx' := hperm.mem_iff.mp hx
    rcases List.mem_cons.mp hkey with rfl | hkey
    · obtain ⟨v, hv, hunder⟩ := h.under x hx
      obtain ⟨w, hw, hunder'⟩ := h'.under x hx'
      rw [hunder, hunder', gives_unique hd hv hw]
    · rw [h.dropped x hx key hkey, h'.dropped x hx' key hkey]
  · have hkey' : key ∉ written ys := fun hmem =>
      hkey ((hperm.flatMap_right _).mem_iff.mpr hmem)
    rw [h.kept key hkey, h'.kept key hkey']

/-- Siblings that are apart and each give an owner something do so together. -/
theorem exists_together (hapart : Apart xs) (hd : d.Unique)
    (hgives : ∀ x ∈ xs, ∃ v, x.Gives db d v) :
    ∃ d', Stage.runAll db (together xs).stages [d] = .ok [d'] ∧ Together db xs d d' := by
  induction xs generalizing d with
  | nil =>
    exact ⟨d, rfl, hd, fun _ hx => absurd hx List.not_mem_nil,
      fun _ hx => absurd hx List.not_mem_nil, fun _ _ => rfl⟩
  | cons x xs ih =>
    obtain ⟨hapart', hfresh, hread⟩ := hapart.of_cons
    obtain ⟨v, hv⟩ := hgives x List.mem_cons_self
    obtain ⟨d₁, hrun, hputs⟩ := hv d hd rfl
    -- The first sibling leaves alone what the others read.
    have hsame : ∀ y ∈ xs, d₁.get? y.relation.start = d.get? y.relation.start :=
      fun y hy => hputs.kept _ (hread y hy)
    obtain ⟨d', hrun', htogether⟩ := ih hapart' hputs.unique fun y hy => by
      obtain ⟨w, hw⟩ := hgives y (List.mem_cons_of_mem x hy)
      exact ⟨w, (gives_congr (hsame y hy)).mpr hw⟩
    refine ⟨d', (Stage.runAll_append_ok hrun _).trans hrun', htogether.unique, ?_, ?_, ?_⟩
    · intro y hy
      rcases List.mem_cons.mp hy with rfl | hy
      · refine ⟨v, hv, ?_⟩
        rw [htogether.kept _ (hfresh _ List.mem_cons_self), hputs.under]
      · obtain ⟨w, hw, hunder⟩ := htogether.under y hy
        exact ⟨w, (gives_congr (hsame y hy)).mp hw, hunder⟩
    · intro y hy key hkey
      rcases List.mem_cons.mp hy with rfl | hy
      · rw [htogether.kept key (hfresh key (List.mem_cons_of_mem _ hkey)), hputs.dropped key hkey]
      · exact htogether.dropped y hy key hkey
    · intro key hkey
      rw [written_cons, List.mem_append, not_or] at hkey
      rw [htogether.kept key hkey.2, hputs.kept key hkey.1]

section Many

variable (hvalid : ∀ x ∈ xs, x.relation.validate = .ok ())
  (hmany : ∀ x ∈ xs, x.relation.kind.isSingle = false)

include hvalid hmany

theorem exists_gives_of_run (hx : x ∈ xs)
    (hsaved : x.relation.options.select ≠ none → x.relation.aliasName ≠ savedField) (hd : d.Unique)
    {out : List Document} (h : Stage.runAll db x.stages [d] = .ok out) : ∃ v, x.Gives db d v :=
  exists_gives_loadWith (hvalid x hx) (hmany x hx) hsaved hd h

/-- If siblings that are apart succeed together, each of them gives the owner something. -/
theorem gives_of_run (hapart : Apart xs) (hd : d.Unique) {out : List Document}
    (h : Stage.runAll db (together xs).stages [d] = .ok out) :
    ∀ x ∈ xs, ∃ v, x.Gives db d v := by
  induction xs generalizing d with
  | nil => exact fun _ hx => absurd hx List.not_mem_nil
  | cons x xs ih =>
    obtain ⟨hapart', -, hread⟩ := hapart.of_cons
    obtain ⟨mid, hmid, hrest⟩ := Stage.runAll_append_eq_ok.mp h
    obtain ⟨v, hv⟩ := exists_gives_of_run hvalid hmany List.mem_cons_self
      (fun _ => hapart.alias_ne_saved List.mem_cons_self) hd hmid
    obtain ⟨d₁, hrun, hputs⟩ := hv d hd rfl
    cases hmid.symm.trans hrun
    have hothers := ih (fun y hy => hvalid y (List.mem_cons_of_mem x hy))
      (fun y hy => hmany y (List.mem_cons_of_mem x hy)) hapart' hputs.unique hrest
    intro y hy
    rcases List.mem_cons.mp hy with rfl | hy
    · exact ⟨v, hv⟩
    · obtain ⟨w, hw⟩ := hothers y hy
      exact ⟨w, (gives_congr (hputs.kept _ (hread y hy))).mp hw⟩

/-- Siblings take the owners one by one. -/
theorem eachAlone_together (db : Collections) : Stage.EachAlone db (together xs).stages := by
  induction xs with
  | nil => exact Stage.eachAlone_nil
  | cons x xs ih =>
    exact (eachAlone_loadWith (hvalid x List.mem_cons_self) (hmany x List.mem_cons_self)
      x.nested db).append (ih (fun y hy => hvalid y (List.mem_cons_of_mem x hy))
        fun y hy => hmany y (List.mem_cons_of_mem x hy))

/-- Siblings change nothing of an owner but the fields that they write. -/
theorem agreeOutside_together (hd : d.Unique)
    (h : Stage.runAll db (together xs).stages [d] = .ok [d']) :
    d'.Unique ∧ Document.AgreeOutside (written xs) d d' := by
  induction xs generalizing d with
  | nil =>
    cases h
    exact ⟨hd, .refl _ _⟩
  | cons x xs ih =>
    obtain ⟨hx, hvalid⟩ := List.forall_mem_cons.mp hvalid
    obtain ⟨hsingle, hmany⟩ := List.forall_mem_cons.mp hmany
    obtain ⟨mid, hmid, hrest⟩ := Stage.runAll_append_eq_ok.mp h
    obtain ⟨d₁, hd₁, rfl⟩ :=
      forall₂_singleton.mp ((eachAlone_loadWith hx hsingle x.nested db _ _).mp hmid)
    obtain ⟨hunique, hfirst⟩ := agreeOutside_loadWith hx hsingle hd hd₁
    obtain ⟨hunique', hothers⟩ := ih hvalid hmany hunique hrest
    refine ⟨hunique', fun key hkey => ?_⟩
    rw [written_cons, List.mem_append, not_or] at hkey
    exact (hfirst key hkey.1).trans (hothers key hkey.2)

/-- Of fields that they neither read nor write, siblings take no notice: where owners agree outside
of such fields, they succeed alike and leave owners that agree there again. -/
theorem exists_run_outside {fields : List String}
    (hsaved : ∀ x ∈ xs, x.relation.options.select ≠ none → x.relation.aliasName ≠ savedField)
    (hstart : ∀ x ∈ xs, x.relation.start ∉ fields) (hwritten : ∀ key ∈ written xs, key ∉ fields)
    (hd : d.Unique) (he : e.Unique) (hagree : Document.AgreeOutside fields d e)
    (h : Stage.runAll db (together xs).stages [d] = .ok [d']) :
    ∃ e', Stage.runAll db (together xs).stages [e] = .ok [e'] ∧ e'.Unique ∧
      Document.AgreeOutside fields d' e' ∧ ∀ key ∈ fields, e'.get? key = e.get? key := by
  induction xs generalizing d e with
  | nil =>
    cases h
    exact ⟨e, rfl, he, hagree, fun _ _ => rfl⟩
  | cons x xs ih =>
    obtain ⟨hx, hvalid⟩ := List.forall_mem_cons.mp hvalid
    obtain ⟨hsingle, hmany⟩ := List.forall_mem_cons.mp hmany
    obtain ⟨hsavedFirst, hsaved⟩ := List.forall_mem_cons.mp hsaved
    obtain ⟨hstartFirst, hstart⟩ := List.forall_mem_cons.mp hstart
    rw [written_cons, List.forall_mem_append] at hwritten
    obtain ⟨mid, hmid, hrest⟩ := Stage.runAll_append_eq_ok.mp h
    obtain ⟨v, hv⟩ := exists_gives_loadWith hx hsingle hsavedFirst hd hmid
    obtain ⟨d₁, hrun, hputs⟩ := hv d hd rfl
    cases hmid.symm.trans hrun
    obtain ⟨e₁, hrun', hputs'⟩ := hv e he (hagree _ hstartFirst).symm
    -- The first sibling puts the same into both.
    have hagree₁ : Document.AgreeOutside fields d₁ e₁ := by
      intro key hkey
      by_cases hkeyWritten : key ∈ x.relation.written
      · rcases List.mem_cons.mp hkeyWritten with rfl | htemporary
        · rw [hputs.under, hputs'.under]
        · rw [hputs.dropped key htemporary, hputs'.dropped key htemporary]
      · rw [hputs.kept key hkeyWritten, hputs'.kept key hkeyWritten, hagree key hkey]
    obtain ⟨e', hrest', hunique, hagree', hkept⟩ :=
      ih hvalid hmany hsaved hstart hwritten.2 hputs.unique hputs'.unique hagree₁ hrest
    refine ⟨e', (Stage.runAll_append_ok hrun' _).trans hrest', hunique, hagree', fun key hkey => ?_⟩
    rw [hkept key hkey, hputs'.kept key fun hmem => hwritten.1 key hmem hkey]

/-- A sibling alone succeeds on an owner exactly if it gives it something. -/
theorem run_iff (hapart : Apart xs) (hx : x ∈ xs) (hd : d.Unique) :
    (∃ d', Stage.runAll db x.stages [d] = .ok [d']) ↔ ∃ v, x.Gives db d v := by
  constructor
  · rintro ⟨d', hrun⟩
    exact exists_gives_of_run hvalid hmany hx (fun _ => hapart.alias_ne_saved hx) hd hrun
  · rintro ⟨v, hv⟩
    obtain ⟨d', hrun, -⟩ := hv d hd rfl
    exact ⟨d', hrun⟩

/-- Siblings that are apart succeed together on an owner exactly if each of them gives it
something. -/
theorem run_together_iff (hapart : Apart xs) (hd : d.Unique) :
    (∃ d', Stage.runAll db (together xs).stages [d] = .ok [d']) ↔
      ∀ x ∈ xs, ∃ v, x.Gives db d v := by
  constructor
  · rintro ⟨d', hrun⟩
    exact gives_of_run hvalid hmany hapart hd hrun
  · intro hgives
    obtain ⟨d', hrun, -⟩ := exists_together hapart hd hgives
    exact ⟨d', hrun⟩

/-- What siblings that are apart leave of owners. -/
theorem forall₂_together (hapart : Apart xs) {docs out : List Document}
    (hdocs : ∀ d ∈ docs, d.Unique) (h : Stage.runAll db (together xs).stages docs = .ok out) :
    List.Forall₂ (fun d d' => d.Unique ∧ Together db xs d d') docs out := by
  have halone := (eachAlone_together hvalid hmany db _ _).mp h
  refine ((List.forall₂_and_left docs out).mpr ⟨hdocs, halone⟩).imp ?_
  rintro d d' ⟨hd, hrun⟩
  obtain ⟨e, hrun', htogether⟩ :=
    exists_together hapart hd (gives_of_run hvalid hmany hapart hd hrun)
  cases hrun.symm.trans hrun'
  exact ⟨hd, htogether⟩

/-- Siblings that are apart succeed together exactly if each of them does alone. -/
theorem succeeds_together_iff (hapart : Apart xs) {docs : List Document}
    (hdocs : ∀ d ∈ docs, d.Unique) :
    (∃ out, Stage.runAll db (together xs).stages docs = .ok out) ↔
      ∀ x ∈ xs, ∃ out, Stage.runAll db x.stages docs = .ok out := by
  have halone : ∀ x ∈ xs, Stage.EachAlone db x.stages := fun x hx =>
    eachAlone_loadWith (hvalid x hx) (hmany x hx) x.nested db
  rw [(eachAlone_together hvalid hmany db).succeeds_iff]
  constructor
  · intro hall x hx
    refine ((halone x hx).succeeds_iff docs).mpr fun d hd =>
      (run_iff hvalid hmany hapart hx (hdocs d hd)).mpr ?_
    exact (run_together_iff hvalid hmany hapart (hdocs d hd)).mp (hall d hd) x hx
  · intro hall d hd
    refine (run_together_iff hvalid hmany hapart (hdocs d hd)).mpr fun x hx =>
      (run_iff hvalid hmany hapart hx (hdocs d hd)).mp ?_
    exact ((halone x hx).succeeds_iff docs).mp (hall x hx) d hd

/-- In another order, siblings that are apart leave the same entries. -/
theorem exists_run_perm (hapart : Apart xs) (hperm : xs.Perm ys) {docs out : List Document}
    (hdocs : ∀ d ∈ docs, d.Unique) (h : Stage.runAll db (together xs).stages docs = .ok out) :
    ∃ out', Stage.runAll db (together ys).stages docs = .ok out' ∧
      List.Forall₂ List.Perm out out' := by
  have hvalid' : ∀ y ∈ ys, y.relation.validate = .ok () := fun y hy =>
    hvalid y (hperm.mem_iff.mpr hy)
  have hmany' : ∀ y ∈ ys, y.relation.kind.isSingle = false := fun y hy =>
    hmany y (hperm.mem_iff.mpr hy)
  have hapart' := hapart.perm hperm
  have halone := (succeeds_together_iff hvalid hmany hapart hdocs).mp ⟨out, h⟩
  obtain ⟨out', hout'⟩ := (succeeds_together_iff hvalid' hmany' hapart' hdocs).mpr
    fun y hy => halone y (hperm.mem_iff.mpr hy)
  have hboth := forall₂_trans (forall₂_together hvalid hmany hapart hdocs h).flip
    (forall₂_together hvalid' hmany' hapart' hdocs hout')
  refine ⟨out', hout', hboth.imp ?_⟩
  rintro d' e ⟨d, ⟨hd, htogether⟩, -, htogether'⟩
  exact htogether.perm hd htogether' hperm

end Many

/-- What is left of an owner by siblings that do not notice each other: under each alias what the
sibling alone puts there, and everything else as it was. -/
structure LoadedApart (db : Collections) (xs : List Sibling) (d d' : Document) : Prop where
  alone : ∀ x ∈ xs, ∃ e v, Stage.runAll db x.stages [d] = .ok [e] ∧
    e.get? x.relation.aliasName = some v ∧ d'.get? x.relation.aliasName = some v
  kept : ∀ key, key ∉ written xs → d'.get? key = d.get? key

theorem Together.loadedApart (hd : d.Unique) (h : Together db xs d d') :
    LoadedApart db xs d d' where
  alone x hx := by
    obtain ⟨v, hv, hunder⟩ := h.under x hx
    obtain ⟨e, hrun, hputs⟩ := hv d hd rfl
    exact ⟨e, v, hrun, hputs.under, hunder⟩
  kept := h.kept

end Sibling

open Sibling in
/-- **Siblings are independent.** If relations that are requested of the same owner are of kinds
with many related documents, and write fields that are apart, then loading them together succeeds
exactly if loading each of them alone does, as it does where no name looks like an operator; it puts
under each alias what the one relation alone would put there, and leaves alone what none of them
writes; and in another order the requests leave the same entries. -/
theorem siblings_independent {loads : List EagerLoad} {loaded : Loaded} {xs : List Sibling}
    (hload : loadAll schema owner [] loads = .ok loaded)
    (hxs : List.Forall₂ (IsRequested schema owner) loads xs)
    (hmany : ∀ x ∈ xs, x.relation.kind.isSingle = false) (hapart : Apart xs)
    {docs : List Document} (hdocs : ∀ d ∈ docs, d.Unique) :
    ((∃ out, Stage.runAll db loaded.stages docs = .ok out) ↔
      ∀ x ∈ xs, ∃ out, Stage.runAll db x.stages docs = .ok out) ∧
    ((∀ source, ∀ d ∈ db source, d.Unique) → NoOperatorsAll schema owner loads →
      savedField ∉ EagerAlias.allNames loaded.aliases →
        ∃ out, Stage.runAll db loaded.stages docs = .ok out) ∧
    ∀ out, Stage.runAll db loaded.stages docs = .ok out →
      List.Forall₂ (LoadedApart db xs) docs out ∧
      ∀ loads', loads.Perm loads' → ∃ loaded' out',
        loadAll schema owner [] loads' = .ok loaded' ∧
        Stage.runAll db loaded'.stages docs = .ok out' ∧ List.Forall₂ List.Perm out out' := by
  have hvalid : ∀ x ∈ xs, x.relation.validate = .ok () := fun x hx => by
    obtain ⟨load, -, hrequested⟩ := exists_of_mem_forall₂ hxs hx
    exact hrequested.valid
  obtain rfl : together xs = loaded :=
    Except.ok.inj ((loadAll_eq_together hxs (fun _ _ => rfl) hapart.distinct).symm.trans hload)
  refine ⟨succeeds_together_iff hvalid hmany hapart hdocs,
    fun hdb hnames hsaved => exists_run_loadAll hdb hload hnames hsaved hdocs,
    fun out hout => ⟨?_, fun loads' hperm => ?_⟩⟩
  · exact (forall₂_together hvalid hmany hapart hdocs hout).imp
      fun d d' h => h.2.loadedApart h.1
  · obtain ⟨ys, hys, hperm'⟩ := List.perm_comp_forall₂ hperm.symm hxs
    obtain ⟨out', hout', hsame⟩ :=
      exists_run_perm hvalid hmany hapart hperm'.symm hdocs hout
    have hdistinct := (hapart.perm hperm'.symm).distinct
    exact ⟨_, out', loadAll_eq_together hys (fun _ _ => rfl) hdistinct, hout', hsame⟩

end Relation

/-! ## The posts and roles of a user -/

namespace MemberSample

open AuthorSample (userModel posts user post)

/-- The roles of a user, of which the name is shown. -/
def roles : Relation where
  kind := .belongsToMany
  name := "roles"
  owner := userModel
  related := ⟨"Role", "roles", "_id", none, none, []⟩
  keys := .pivot {
    collection := "role_user"
    foreignPivotKey := "userId"
    relatedPivotKey := "roleId" }
  options := { select := some ["name"] }

def schema : Schema :=
  ⟨fun model => if model = "User" then [("posts", posts), ("roles", roles)] else []⟩

def store : Store where
  collections := [("users", [user]), ("posts", [post]),
    ("roles", [[("_id", .string "admin"), ("name", .string "Admin"), ("level", .int 1)]]),
    ("role_user", [[("userId", .string "ann"), ("roleId", .string "admin")]])]
  ids := ⟨fun n => ⟨BitVec.ofNat 128 n⟩, 0⟩

def loads : List EagerLoad := [⟨"posts", none, []⟩, ⟨"roles", none, []⟩]

def siblings : List Relation.Sibling := [⟨posts, {}⟩, ⟨roles, {}⟩]

theorem siblings_requested :
    List.Forall₂ (Relation.Sibling.IsRequested schema userModel) loads siblings :=
  .cons ⟨rfl, rfl, Relation.loadAll_nil _ _ _⟩
    (.cons ⟨rfl, rfl, Relation.loadAll_nil _ _ _⟩ .nil)

theorem siblings_apart : Relation.Sibling.Apart siblings := ⟨by decide, by decide, by decide⟩

theorem loads_noOperators : Relation.NoOperatorsAll schema userModel loads := by
  have hposts : Relation.requested schema userModel "posts" none = .ok posts := rfl
  have hroles : Relation.requested schema userModel "roles" none = .ok roles := rfl
  simp only [loads, Relation.NoOperatorsAll, hposts, hroles, Except.ok.injEq, forall_eq', and_true]
  exact ⟨⟨⟨by decide, by decide⟩, by decide⟩, ⟨by decide, by decide⟩, by decide⟩

/-- Posts and roles are loaded with the user as each of them alone is, in either order. -/
theorem posts_and_roles_independent :
    ∃ loaded loaded' out out', Relation.loadAll schema userModel [] loads = .ok loaded ∧
      Relation.loadAll schema userModel [] loads.reverse = .ok loaded' ∧
      Stage.runAll store.documents loaded.stages [user] = .ok out ∧
      Stage.runAll store.documents loaded'.stages [user] = .ok out' ∧
      List.Forall₂ (Relation.Sibling.LoadedApart store.documents siblings) [user] out ∧
      List.Forall₂ List.Perm out out' := by
  have hload : Relation.loadAll schema userModel [] loads =
      .ok (Relation.Sibling.together siblings) :=
    Relation.Sibling.loadAll_eq_together siblings_requested (fun _ _ => rfl) siblings_apart.distinct
  have hunique : ∀ source, ∀ d ∈ store.documents source, d.Unique :=
    Store.forall_documents (by decide)
  obtain ⟨-, hsucceeds, hresult⟩ := @Relation.siblings_independent schema userModel store.documents
    loads _ siblings hload siblings_requested (by decide) siblings_apart [user] (by decide)
  obtain ⟨out, hout⟩ := hsucceeds hunique loads_noOperators (by decide)
  obtain ⟨hapart, hperm⟩ := hresult out hout
  obtain ⟨loaded', out', hload', hout', hsame⟩ := hperm loads.reverse loads.reverse_perm.symm
  exact ⟨_, loaded', out, out', hload, hload', hout, hout', hapart, hsame⟩

end MemberSample

end DocMapper
