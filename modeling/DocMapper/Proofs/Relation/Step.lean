import DocMapper.Proofs.Relation.Selection

/-! # Steps under an alias

The stages of a relation change a document only under the alias, and what they leave there are
documents (`Document.Step`). Each of the three parts of the stages makes such a step:

  * the lookups put what they find under the alias (`Relation.step_joinStages`);
  * unwinding leaves one document of an array (`Relation.step_unwindStages`);
  * leaving out fields removes them from each document (`Relation.step_removeAll`), and including
    fields shows no others (`Relation.keys_of_apply_fields`).

So what holds of the documents that a lookup finds holds of what stands under the alias in the end,
and what one relation leaves under its alias is not touched by the next. -/

namespace DocMapper

/-! ## Documents under a key -/

namespace Json.Cut

theorem exists_object {v : Json} {whole : Document} (h : Cut v (.object whole)) :
    ∃ fields, v = .object fields := by
  cases h with
  | refl => exact ⟨whole, rfl⟩
  | @object fields => exact ⟨fields, rfl⟩

/-- What is loaded in a cut is cut from what is loaded in the whole. -/
theorem exists_loaded {v w : Json} (h : Cut v w) {item : Json}
    (hitem : item ∈ Entity.loadedItems v) :
    ∃ whole ∈ Entity.loadedItems w, Cut item whole := by
  cases h with
  | refl => exact ⟨item, hitem, .refl item⟩
  | array source hsource hcut => exact ⟨source item, hsource item hitem, hcut item hitem⟩
  | @object fields whole source hsource hcut =>
    rw [List.mem_singleton.mp hitem]
    exact ⟨.object whole, List.mem_singleton_self _, .object source hsource hcut⟩

end Json.Cut

namespace Document

/-- What is loaded under a key are documents of which something holds. -/
def EachUnder (name : String) (P : Document → Prop) (d : Document) : Prop :=
  ∀ v, (name, v) ∈ d → ∀ item ∈ Entity.loadedItems v, ∃ e, item = .object e ∧ P e

variable {name : String} {P Q : Document → Prop} {d e : Document}

theorem EachUnder.mono (h : d.EachUnder name P) (hPQ : ∀ e, P e → Q e) : d.EachUnder name Q := by
  intro v hv item hitem
  obtain ⟨e, he, hP⟩ := h v hv item hitem
  exact ⟨e, he, hPQ e hP⟩

/-- What holds of a document and of each cut of it holds under a key of each cut. -/
theorem EachUnder.cut (h : e.EachUnder name P)
    (hP : ∀ d e : Document, Json.Cut (.object d) (.object e) → P e → P d)
    (hcut : Json.Cut (.object d) (.object e)) : d.EachUnder name P := by
  intro v hv item hitem
  obtain ⟨w, hw, hvw⟩ := hcut.exists_entry hv
  obtain ⟨whole, hwhole, hitemCut⟩ := hvw.exists_loaded hitem
  obtain ⟨e', rfl, he'⟩ := h w hw whole hwhole
  obtain ⟨d', rfl⟩ := hitemCut.exists_object
  exact ⟨d', rfl, hP d' e' hitemCut he'⟩

end Document

/-! ## What the stages of a relation change -/

/-- A document is changed only under a key, and what is loaded there are documents of which
something holds. -/
structure Document.Step (name : String) (P : Document → Prop) (d d' : Document) : Prop where
  unique : d'.Unique
  under : d'.EachUnder name P
  within : ∀ other ≠ name, ∀ v, (other, v) ∈ d' → (other, v) ∈ d

namespace Document.Step

variable {name : String} {P Q : Document → Prop} {d d' d'' : Document}

theorem refl (hd : d.Unique) (h : d.EachUnder name P) : Step name P d d :=
  ⟨hd, h, fun _ _ _ hv => hv⟩

theorem trans (h : Step name P d d') (h' : Step name Q d' d'') : Step name Q d d'' where
  unique := h'.unique
  under := h'.under
  within other hne v hv := h.within other hne v (h'.within other hne v hv)

theorem insert (hd : d.Unique) {v : Json}
    (hv : ∀ item ∈ Entity.loadedItems v, ∃ e, item = .object e ∧ P e) :
    Step name P d (d.insert name v) where
  unique := hd.insert name v
  under w hw := by
    rcases (mem_insert hd).mp hw with ⟨-, rfl⟩ | ⟨hne, -⟩
    · exact hv
    · exact absurd rfl hne
  within _ hne _ hw := mem_of_mem_insert_of_ne hne hw

theorem erase (hd : d.Unique) : Step name P d (d.erase name) where
  unique := hd.erase name
  under _ hw := absurd rfl ((mem_erase hd).mp hw).2
  within _ _ _ hw := ((mem_erase hd).mp hw).1

end Document.Step

/-- Each of some documents comes from one of others by a step. -/
def Document.Steps (name : String) (P : Document → Prop) (docs out : List Document) : Prop :=
  ∀ d' ∈ out, ∃ d ∈ docs, d.Step name P d'

namespace Document.Steps

variable {name : String} {P Q : Document → Prop} {docs mid out : List Document}

theorem each (h : Steps name P docs out) : ∀ d ∈ out, d.Unique ∧ d.EachUnder name P := by
  intro d hd
  obtain ⟨d₀, -, hstep⟩ := h d hd
  exact ⟨hstep.unique, hstep.under⟩

theorem trans (h : Steps name P docs mid) (h' : Steps name Q mid out) :
    Steps name Q docs out := by
  intro d'' hd''
  obtain ⟨d', hd', hstep'⟩ := h' d'' hd''
  obtain ⟨d, hd, hstep⟩ := h d' hd'
  exact ⟨d, hd, hstep.trans hstep'⟩

end Document.Steps

namespace Relation

variable {r : Relation} {db : Collections} {docs out : List Document} {P : Document → Prop}

/-- A lookup puts what its pipeline makes of the joined documents under its target. -/
theorem forall₂_found {source : String} {on : Option (String × String)} {target : String}
    {pipeline : List Stage} (htarget : IsField target)
    (h : Stage.run db (.lookup source on target pipeline) docs = .ok out) :
    List.Forall₂ (fun d d' => ∃ found,
      Stage.runAll db pipeline (Stage.joined (db source) on d) = .ok found ∧
        d' = d.insert target (.array (found.map .object))) docs out := by
  rw [Stage.run] at h
  refine (forall₂_mapM h).imp fun d d' hjoin => ?_
  obtain ⟨found, hfound, heq⟩ := bind_eq_ok.mp hjoin
  cases heq
  exact ⟨found, hfound, Document.set_field htarget d _⟩

/-- What a join has put under an alias. -/
theorem items_of_found {found : List Document} (h : ∀ e ∈ found, P e) :
    ∀ item ∈ Entity.loadedItems (.array (found.map .object)), ∃ e, item = .object e ∧ P e := by
  intro item hitem
  obtain ⟨e, he, rfl⟩ := List.mem_map.mp hitem
  exact ⟨e, rfl, h e he⟩

theorem joined_subset {related : List Document} {on : Option (String × String)} {d e : Document}
    (h : e ∈ Stage.joined related on d) : e ∈ related := by
  cases on with
  | none => exact h
  | some on => exact (List.mem_filter.mp h).1

/-- The lookups of a relation make one document of another: what a pipeline makes of related
documents stands under the alias, nothing else is new, and the identifier stays. -/
structure Joins (r : Relation) (db : Collections) (pipeline : List Stage) (d d' : Document) :
    Prop where
  holds : ∃ related found, (∀ e ∈ related, e ∈ db r.related.collection) ∧
    Stage.runAll db pipeline related = .ok found ∧ r.Holds d' found
  within : ∀ other ≠ r.aliasName, ∀ v, (other, v) ∈ d' → (other, v) ∈ d
  id_eq : r.aliasName ≠ "_id" → d'.get? "_id" = d.get? "_id"

section Lookups

variable {pipeline : List Stage} (halias : IsField r.aliasName) (hdocs : ∀ d ∈ docs, d.Unique)

include halias hdocs

theorem joins_relatedLookup {here there : String}
    (h : Stage.run db (r.relatedLookup here there pipeline) docs = .ok out) :
    List.Forall₂ (r.Joins db pipeline) docs out := by
  refine ((List.forall₂_and_left docs out).mpr ⟨hdocs, forall₂_found halias h⟩).imp ?_
  rintro d _ ⟨hd, found, hfound, rfl⟩
  exact ⟨⟨_, found, fun e he => joined_subset he, hfound, hd.insert _ _,
    Document.get?_insert_self _ _ _⟩, fun other hne v hv => Document.mem_of_mem_insert_of_ne hne hv,
    fun hid => Document.get?_insert_of_ne hid _ _⟩

theorem joins_lookupsThrough {suffix source here there onward target : String}
    {conditions : List Json} (hsuffix : IsField suffix) (hlength : 2 < suffix.toList.length)
    (h : Stage.runAll db
      (r.lookupsThrough suffix source here there conditions onward target pipeline) docs =
        .ok out) :
    List.Forall₂ (r.Joins db pipeline) docs out := by
  have hfield := isField_temporary halias hsuffix
  obtain ⟨first, hfirst, h⟩ := Stage.runAll_cons_eq_ok.mp h
  obtain ⟨second, hsecond, h⟩ := Stage.runAll_cons_eq_ok.mp h
  rw [Stage.runAll_singleton,
    Stage.run_exclude (List.cons_ne_nil _ _) (List.pairwise_singleton _ _)] at h
  cases h
  have hrows := (List.forall₂_and_left docs first).mpr ⟨hdocs, forall₂_found hfield hfirst⟩
  have hunique : ∀ d₁ ∈ first, d₁.Unique := by
    intro d₁ hd₁
    obtain ⟨d, -, hd, rows, -, rfl⟩ := exists_of_mem_forall₂ hrows hd₁
    exact hd.insert _ _
  rw [List.forall₂_map_right_iff]
  refine (forall₂_trans hrows (joins_relatedLookup halias hunique hsecond)).imp ?_
  rintro d d₂ ⟨_, ⟨hd, rows, -, rfl⟩, ⟨related, found, hrelated, hfound, hholds⟩, hwithin, hid⟩
  have hdrop : Update.removeAll d₂ [r.temporary suffix] = d₂.erase (r.temporary suffix) :=
    Document.remove_field hfield d₂
  rw [hdrop]
  -- The temporary field is neither the alias nor the identifier.
  refine ⟨⟨related, found, hrelated, hfound, hholds.unique.erase _, ?_⟩,
    fun other hne v hv => ?_, fun hne => ?_⟩
  · rw [Document.get?_erase_of_ne hholds.unique (Ne.symm (temporary_ne r suffix)), hholds.under]
  · obtain ⟨hv, hkey⟩ := (Document.mem_erase hholds.unique).mp hv
    exact Document.mem_of_mem_insert_of_ne hkey (hwithin other hne v hv)
  · rw [Document.get?_erase_of_ne hholds.unique (Ne.symm (temporary_ne_id r hlength)), hid hne,
      Document.get?_insert_of_ne (temporary_ne_id r hlength)]

/-- The lookups of a relation put what the pipeline of the related side makes of related documents
under the alias of each owner. -/
theorem joins_joinStages (hfit : r.keysFit = true)
    (h : Stage.runAll db (r.joinStages pipeline) docs = .ok out) :
    List.Forall₂ (r.Joins db pipeline) docs out := by
  rcases joinStages_cases hfit pipeline with
    ⟨here, there, heq⟩ | ⟨keys, -, heq⟩ | ⟨m, firstKey, secondKey, localKey, onward, -, heq⟩
  · rw [heq, Stage.runAll_singleton] at h
    exact joins_relatedLookup halias hdocs h
  · rw [heq] at h
    exact joins_lookupsThrough halias hdocs (by decide) (by decide) h
  · rw [heq] at h
    exact joins_lookupsThrough halias hdocs (by decide) (by decide) h

/-- What holds of all that the pipeline of the related side makes of related documents holds of what
the lookups put under the alias. -/
theorem step_joinStages (hpipeline : ∀ related found,
      (∀ e ∈ related, e ∈ db r.related.collection) →
        Stage.runAll db pipeline related = .ok found → ∀ e ∈ found, P e)
    (hfit : r.keysFit = true) (h : Stage.runAll db (r.joinStages pipeline) docs = .ok out) :
    Document.Steps r.aliasName P docs out := by
  intro d' hd'
  obtain ⟨d, hd, ⟨related, found, hrelated, hfound, hholds⟩, hwithin, -⟩ :=
    exists_of_mem_forall₂ (joins_joinStages halias hdocs hfit h) hd'
  refine ⟨d, hd, hholds.unique, fun v hv => ?_, hwithin⟩
  cases hholds.under.symm.trans ((Document.get?_eq_some_iff hholds.unique).mpr hv)
  exact items_of_found (hpipeline related found hrelated hfound)

end Lookups

/-- Unwinding leaves one of the documents under the alias. -/
theorem step_unwindStages (halias : IsField r.aliasName)
    (hdocs : ∀ d ∈ docs, d.Unique ∧ d.EachUnder r.aliasName P)
    (h : Stage.runAll db r.unwindStages docs = .ok out) :
    Document.Steps r.aliasName P docs out := by
  intro d' hd'
  rw [unwindStages] at h
  cases hsingle : r.kind.isSingle with
  | false =>
    rw [hsingle] at h
    cases h
    exact ⟨d', hd', .refl (hdocs d' hd').1 (hdocs d' hd').2⟩
  | true =>
    rw [hsingle, if_pos rfl, Stage.runAll_singleton] at h
    cases h
    obtain ⟨d, hd, hmem⟩ := List.mem_flatMap.mp hd'
    obtain ⟨hunique, hunder⟩ := hdocs d hd
    refine ⟨d, hd, ?_⟩
    rw [Stage.unwound, Document.at?_field halias] at hmem
    split at hmem
    · rw [if_pos rfl, List.mem_singleton, Document.remove_field halias] at hmem
      exact hmem ▸ .erase hunique
    · next items hget =>
      obtain ⟨item, hitem, rfl⟩ := List.mem_map.mp hmem
      rw [Document.set_field halias]
      refine .insert hunique fun item' hitem' => ?_
      obtain ⟨e, rfl, he⟩ := hunder _ (Document.mem_of_get? hget) item hitem
      exact ⟨e, List.mem_singleton.mp hitem', he⟩
    · rw [if_pos rfl, List.mem_singleton] at hmem
      rw [hmem]
      exact .refl hunique hunder
    · rw [if_pos rfl, List.mem_singleton] at hmem
      rw [hmem]
      exact .refl hunique hunder
    · rw [List.mem_singleton] at hmem
      rw [hmem]
      exact .refl hunique hunder

/-! ## Leaving out and including -/

theorem exists_documents {items : List Json} (h : ∀ item ∈ items, ∃ e, item = .object e ∧ P e) :
    ∃ docs : List Document, items = docs.map .object ∧ ∀ e ∈ docs, P e := by
  induction items with
  | nil => exact ⟨[], rfl, fun e he => absurd he List.not_mem_nil⟩
  | cons item items ih =>
    obtain ⟨e, rfl, he⟩ := h item List.mem_cons_self
    obtain ⟨docs, rfl, hdocs⟩ := ih fun item hitem => h item (List.mem_cons_of_mem _ hitem)
    exact ⟨e :: docs, rfl, List.forall_mem_cons.mpr ⟨he, hdocs⟩⟩

/-- What stands under a key is nothing, an array of documents, or a document. -/
theorem cases_of_items {v : Json} (h : ∀ item ∈ Entity.loadedItems v, ∃ e, item = .object e ∧ P e) :
    v = .null ∨ (∃ docs : List Document, v = .array (docs.map .object) ∧ ∀ e ∈ docs, P e) ∨
      ∃ e, v = .object e ∧ P e := by
  cases v with
  | null => exact .inl rfl
  | array items =>
    obtain ⟨docs, rfl, hdocs⟩ := exists_documents h
    exact .inr (.inl ⟨docs, rfl, hdocs⟩)
  | object fields =>
    obtain ⟨e, heq, he⟩ := h _ (List.mem_singleton_self _)
    exact .inr (.inr ⟨e, heq, he⟩)
  | _ =>
    obtain ⟨e, heq, -⟩ := h _ (List.mem_singleton_self _)
    cases heq

theorem get?_removeAll_of_ne {name other : String} (h : IsField name) (hne : other ≠ name)
    (fields : List String) (d : Document) :
    (Update.removeAll d (fields.map fun field => name ++ "." ++ field)).get? other =
      d.get? other := by
  induction fields generalizing d with
  | nil => rfl
  | cons field fields ih =>
    have hrest := ih (d.remove (name ++ "." ++ field))
    rw [Document.get?_remove_under h, if_neg (Ne.symm hne)] at hrest
    exact hrest

/-- Removing fields from what is loaded under a key. -/
theorem step_removeAll {name : String} {Q : Document → Prop} (hname : IsField name) {d : Document}
    (hd : d.Unique) (hunder : d.EachUnder name P) (fields : List String)
    (hPQ : ∀ e, P e → Q (Update.removeAll e fields)) :
    d.Step name Q (Update.removeAll d (fields.map fun field => name ++ "." ++ field)) where
  unique := Update.unique_removeAll hd _
  under v hv := by
    rw [← Document.get?_eq_some_iff (Update.unique_removeAll hd _),
      get?_removeAll_under hname] at hv
    obtain ⟨w, hw, rfl⟩ := Option.map_eq_some_iff.mp hv
    intro item hitem
    rw [loadedItems_foldl_removeAt] at hitem
    obtain ⟨item', hitem', rfl⟩ := List.mem_map.mp hitem
    obtain ⟨e, rfl, he⟩ := hunder w (Document.mem_of_get? hw) item' hitem'
    exact ⟨_, foldl_removeAt_object fields e, hPQ e he⟩
  within other hne v hv := by
    rw [← Document.get?_eq_some_iff (Update.unique_removeAll hd _),
      get?_removeAll_of_ne hname hne] at hv
    exact Document.mem_of_get? hv

/-- An inclusion of fields shows documents with keys of its nodes. -/
theorem keys_of_apply_fields {nodes : List (String × Inclusion)} {root : Document}
    {found : Option Json} {w : Json}
    (h : (Inclusion.fields nodes).apply root found = .ok (some w)) :
    ∀ item ∈ Entity.loadedItems w,
      ∃ e : Document, item = .object e ∧ ∀ key ∈ e.keys, key ∈ nodes.map (·.1) := by
  rcases Inclusion.apply_fields_cases h with
    ⟨d, e, -, hw, he⟩ | ⟨items, docs, -, hw, hdocs⟩ | ⟨hw, -⟩
  · cases hw
    intro item hitem
    exact ⟨e, List.mem_singleton.mp hitem, fun _ => Inclusion.mem_keys_of_applyAll he⟩
  · cases hw
    refine items_of_found fun e he => ?_
    obtain ⟨d, -, happly⟩ := exists_of_mem_forall₂ hdocs he
    exact fun _ => Inclusion.mem_keys_of_applyAll happly
  · cases hw

theorem filterMap_object? (docs : List Document) :
    (docs.map Json.object).filterMap (·.object?) = docs := by
  simp [List.filterMap_map, Json.object?]

/-- An inclusion of fields makes an array of documents of one, each of that at its place. -/
theorem exists_of_apply_documents {nodes : List (String × Inclusion)} {root : Document}
    {documents : List Document} {w : Json}
    (h : (Inclusion.fields nodes).apply root (some (.array (documents.map .object))) =
      .ok (some w)) :
    ∃ shown : List Document, w = .array (shown.map .object) ∧
      List.Forall₂ (fun e e' => Inclusion.applyAll root nodes e = .ok e') documents shown := by
  rw [Inclusion.apply, filterMap_object?] at h
  obtain ⟨shown, hshown, h⟩ := bind_eq_ok.mp h
  cases h
  exact ⟨shown, rfl, forall₂_mapM hshown⟩

/-- An inclusion of fields finds nothing only where there is no document. -/
theorem items_of_apply_none {nodes : List (String × Inclusion)} {root : Document} {v : Json}
    (hv : ∀ item ∈ Entity.loadedItems v, ∃ e, item = .object e ∧ P e)
    (h : (Inclusion.fields nodes).apply root (some v) = .ok none) : v = .null := by
  rcases cases_of_items hv with rfl | ⟨docs, rfl, -⟩ | ⟨e, rfl, -⟩
  · rfl
  · rw [Inclusion.apply] at h
    obtain ⟨projected, -, h⟩ := bind_eq_ok.mp h
    cases h
  · rw [Inclusion.apply] at h
    obtain ⟨projected, -, h⟩ := bind_eq_ok.mp h
    cases h

/-! ## The pipeline of the related side -/

theorem mem_of_run_filter {filter : Json} (h : Stage.run db (.filter filter) docs = .ok out) :
    ∀ e ∈ out, e ∈ docs := by
  rw [Stage.run, Stage.matching] at h
  exact fun e he => (sublist_of_filterM h).subset he

theorem mem_of_run_sort {spec : Document} (h : Stage.run db (.sort spec) docs = .ok out) :
    ∀ e ∈ out, e ∈ docs := by
  rw [Stage.run] at h
  obtain ⟨keys, -, h⟩ := bind_eq_ok.mp h
  cases h
  exact fun e he => List.mem_mergeSort.mp he

/-- A stage that an option asks for leaves some of the documents if every such stage does. -/
theorem mem_of_runAll_option {α : Type} {stage : α → Stage} {o : Option α}
    (hstage : ∀ a docs out, Stage.run db (stage a) docs = .ok out → ∀ e ∈ out, e ∈ docs)
    (h : Stage.runAll db (o.map stage).toList docs = .ok out) : ∀ e ∈ out, e ∈ docs := by
  cases o with
  | none =>
    cases h
    exact fun _ he => he
  | some a => exact hstage a docs out ((Stage.runAll_singleton db _ docs).symm.trans h)

/-- Sorting and limiting leaves some of the documents. -/
theorem mem_of_windowStages {o : RelationOptions}
    (h : Stage.runAll db (windowStages o) docs = .ok out) : ∀ e ∈ out, e ∈ docs := by
  intro e he
  obtain ⟨skipped, hskipped, hlimit⟩ := Stage.runAll_append_eq_ok.mp h
  obtain ⟨sorted, hsort, hskip⟩ := Stage.runAll_append_eq_ok.mp hskipped
  have he : e ∈ skipped := by
    refine mem_of_runAll_option (fun n docs out h => ?_) hlimit e he
    cases h
    exact fun _ he => List.mem_of_mem_take he
  have he : e ∈ sorted := by
    refine mem_of_runAll_option (fun n docs out h => ?_) hskip e he
    cases h
    exact fun _ he => List.mem_of_mem_drop he
  exact mem_of_runAll_option (fun _ _ _ h => mem_of_run_sort h) hsort e he

/-- What is nested under a relation is loaded with documents of the related collection. -/
theorem exists_related {nested : List Stage} {related found : List Document}
    (h : Stage.runAll db (r.relatedPipeline nested) related = .ok found) :
    ∃ kept, (∀ e ∈ kept, e ∈ related) ∧ Stage.runAll db nested kept = .ok found := by
  obtain ⟨kept, hkept, h⟩ := Stage.runAll_append_eq_ok.mp h
  obtain ⟨met, hmet, hkept⟩ := Stage.runAll_append_eq_ok.mp hkept
  refine ⟨kept, fun e he => ?_, h⟩
  have he := mem_of_windowStages hkept e he
  rw [conditionStages] at hmet
  split at hmet
  · cases hmet
    exact he
  · rw [Stage.runAll_singleton] at hmet
    exact mem_of_run_filter hmet e he

/-! ## The parts of a load -/

/-- What the three parts of the stages of a relation leave, one after the other. The alias holds
documents once the lookups have run. -/
structure Parts (r : Relation) (db : Collections) (nested : Loaded)
    (docs joined unwound out : List Document) : Prop where
  join : Stage.runAll db (r.joinStages (r.relatedPipeline nested.stages)) docs = .ok joined
  unwind : Stage.runAll db r.unwindStages joined = .ok unwound
  project : Stage.runAll db (r.projectionStages nested.aliases) unwound = .ok out
  joins : List.Forall₂ (r.Joins db (r.relatedPipeline nested.stages)) docs joined
  joinedDocs : ∀ d ∈ joined, d.Unique ∧ d.EachUnder r.aliasName fun _ => True
  unwoundDocs : ∀ d ∈ unwound, d.Unique ∧ d.EachUnder r.aliasName fun _ => True

theorem exists_parts {nested : Loaded} (hvalid : r.validate = .ok ())
    (hdocs : ∀ d ∈ docs, d.Unique) (h : Stage.runAll db (r.loadWith nested) docs = .ok out) :
    ∃ joined unwound, r.Parts db nested docs joined unwound out := by
  obtain ⟨hfit, halias⟩ := validate_eq_ok hvalid
  obtain ⟨unwound, hunwound, hshown⟩ := Stage.runAll_append_eq_ok.mp h
  obtain ⟨joined, hjoined, hunwound⟩ := Stage.runAll_append_eq_ok.mp hunwound
  have hjoin := step_joinStages (P := fun _ => True) halias hdocs (fun _ _ _ _ _ _ => trivial) hfit
    hjoined
  exact ⟨joined, unwound, hjoined, hunwound, hshown, joins_joinStages halias hdocs hfit hjoined,
    hjoin.each, (step_unwindStages halias hjoin.each hunwound).each⟩

end Relation

end DocMapper
