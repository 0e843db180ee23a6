import DocMapper.Proofs.Relation.Agreement
import DocMapper.Proofs.Relation.Visibility

/-! # Stages that cannot fail

The stages that load a tree of relations succeed on all documents (`Relation.exists_run_loadAll`), if
no name of a relation in the tree looks like an operator (`Relation.NoOperatorsAll`) and none is put
under the field that selections keep for themselves. Each part of the stages is shown to succeed on
its own:

  * the conditions of the related side and of the documents in between can be evaluated, and the
    window always runs (`exists_run_relatedPipeline`, `exists_run_joinStages`);
  * unwinding always runs;
  * leaving out fields always runs, and so does a selection, of which the inclusion only copies
    (`exists_run_projectionStages`). -/

namespace DocMapper

namespace Relation

variable {r : Relation} {db : Collections} {docs : List Document} {nested : List EagerAlias}

/-! ## What is shown -/

/-- The inclusion of a selection cannot fail. -/
theorem exists_selected (name : String) (paths : List String) (d : Document) :
    ∃ p, Inclusion.applyAll d (selectionTree name paths) d = .ok p := by
  refine Inclusion.exists_applyAll fun node hnode found => ?_
  rcases Inclusion.mem_put hnode with rfl | hnode
  · exact (Inclusion.copies_ofPaths paths).exists_apply d found
  · rcases List.mem_cons.mp hnode with rfl | hnode
    · exact Inclusion.Copies.whole.exists_apply d found
    · obtain rfl := List.mem_singleton.mp hnode
      exact ⟨_, apply_saved d found⟩

/-- The stages that leave out what is not to be shown succeed. -/
theorem exists_run_projectionStages (halias : IsField r.aliasName)
    (hdollar : startsDollar r.aliasName = false) (hsaved : r.aliasName ≠ savedField)
    (hdocs : ∀ d ∈ docs, d.Unique) :
    ∃ out, Stage.runAll db (r.projectionStages nested) docs = .ok out := by
  cases hselect : r.options.select with
  | none => exact ⟨_, run_projectionStages hselect nested db docs⟩
  | some fields =>
    by_cases hne : fields ++ nested.map (·.name) = []
    · obtain ⟨rfl, hnil⟩ := List.append_eq_nil_iff.mp hne
      obtain rfl := List.map_eq_nil_iff.mp hnil
      exact ⟨docs, run_selection_nil halias hsaved hselect hdocs hdollar db⟩
    · obtain ⟨paths, -, hrun⟩ := runAll_selection halias hselect hne
      obtain ⟨projected, hprojected⟩ := exists_mapM fun d (_ : d ∈ docs) =>
        exists_selected r.aliasName paths d
      rw [hrun, hprojected, ok_bind]
      refine exists_mapM fun p hp => ?_
      obtain ⟨d, hd, happly⟩ := exists_of_mem_mapM hprojected hp
      obtain ⟨hroot, -⟩ := get?_selected hsaved happly
      exact ⟨_, Stage.replaced_restored halias hdollar (hdocs d hd) hroot⟩

/-! ## Lookups -/

theorem exists_run_lookup {source : String} {on : Option (String × String)} {pipeline : List Stage}
    (target : String)
    (h : ∀ d ∈ docs, ∃ found,
      Stage.runAll db pipeline (Stage.joined (db source) on d) = .ok found) :
    ∃ out, Stage.run db (.lookup source on target pipeline) docs = .ok out := by
  rw [Stage.run]
  refine exists_mapM fun d hd => ?_
  obtain ⟨found, hfound⟩ := h d hd
  rw [hfound]
  exact ⟨_, rfl⟩

theorem exists_run_conditionStages {conditions : List Json}
    (h : ∀ d : Document, ∀ e ∈ conditions, ∃ found, Expression.eval d e = .ok found)
    (db : Collections) (docs : List Document) :
    ∃ kept, Stage.runAll db (conditionStages conditions) docs = .ok kept := by
  rw [← List.append_nil (conditionStages conditions), run_conditionStages fun e he d _ => h d e he]
  exact ⟨_, rfl⟩

/-- The pipeline of the related side succeeds if what is nested does. -/
theorem exists_run_relatedPipeline (hnames : r.NoOperators) {stages : List Stage}
    (hnested : ∀ related, (∀ e ∈ related, e ∈ db r.related.collection) →
      ∃ found, Stage.runAll db stages related = .ok found) :
    ∀ related, (∀ e ∈ related, e ∈ db r.related.collection) →
      ∃ found, Stage.runAll db (r.relatedPipeline stages) related = .ok found := by
  intro related hrelated
  obtain ⟨found, hfound⟩ := exists_window r.options db (related.filter r.keeps)
  rw [run_relatedPipeline fun e he d _ => hnames.exists_eval_related d e he,
    Stage.runAll_append_ok hfound]
  refine hnested found fun e he => hrelated e ?_
  exact (List.mem_filter.mp (mem_of_windowStages hfound e he)).1

section Lookups

variable {pipeline : List Stage}
  (hpipeline : ∀ related, (∀ e ∈ related, e ∈ db r.related.collection) →
    ∃ found, Stage.runAll db pipeline related = .ok found)

include hpipeline

theorem exists_run_relatedLookup (here there : String) (docs : List Document) :
    ∃ out, Stage.run db (r.relatedLookup here there pipeline) docs = .ok out :=
  exists_run_lookup r.aliasName fun _ _ => hpipeline _ fun _ => joined_subset

theorem exists_run_lookupsThrough {conditions : List Json}
    (h : ∀ d : Document, ∀ e ∈ conditions, ∃ found, Expression.eval d e = .ok found)
    (suffix source here there onward target : String) (docs : List Document) :
    ∃ out, Stage.runAll db
      (r.lookupsThrough suffix source here there conditions onward target pipeline) docs =
        .ok out := by
  obtain ⟨first, hfirst⟩ := exists_run_lookup (r.temporary suffix) fun d (_ : d ∈ docs) =>
    exists_run_conditionStages h db (Stage.joined (db source) (some (here, there)) d)
  obtain ⟨second, hsecond⟩ :=
    exists_run_relatedLookup hpipeline (r.temporary suffix ++ "." ++ onward) target first
  rw [lookupsThrough, Stage.runAll, hfirst, ok_bind, Stage.runAll, hsecond, ok_bind,
    Stage.runAll_singleton, Stage.run_exclude (List.cons_ne_nil _ _) (List.pairwise_singleton _ _)]
  exact ⟨_, rfl⟩

/-- The lookups of a relation succeed if the pipeline of the related side does. -/
theorem exists_run_joinStages (hfit : r.keysFit = true) (hnames : r.NoOperators)
    (docs : List Document) :
    ∃ out, Stage.runAll db (r.joinStages pipeline) docs = .ok out := by
  rcases joinStages_cases hfit pipeline with
    ⟨here, there, heq⟩ | ⟨keys, hkeys, heq⟩ | ⟨m, firstKey, secondKey, localKey, onward, hm, heq⟩
  · rw [heq, Stage.runAll_singleton]
    exact exists_run_relatedLookup hpipeline here there docs
  · rw [heq]
    exact exists_run_lookupsThrough hpipeline (hnames.exists_eval_pivot hkeys) _ _ _ _ _ _ docs
  · rw [heq]
    have hmarker : ∀ f, (m.policy .hidden).field = some f → startsDollar f = false := fun f hf =>
      hnames.fields f (throughMarker_mem_fieldNames hm hf)
    exact exists_run_lookupsThrough hpipeline (TrashedPolicy.exists_eval_condition hmarker)
      _ _ _ _ _ _ docs

end Lookups

/-! ## Trees of loads -/

/-- Of each relation in a tree of loads, no name looks like an operator, and neither does that of
the alias. -/
def NoOperatorsAll (schema : Schema) (owner : Model) : List EagerLoad → Prop
  | [] => True
  | ⟨name, options, children⟩ :: rest =>
    (∀ r, requested schema owner name options = .ok r →
      r.NoOperators ∧ startsDollar r.aliasName = false ∧
        NoOperatorsAll schema r.related children) ∧
    NoOperatorsAll schema owner rest

variable {schema : Schema}

/-- A relation makes of each document one that holds documents under the alias and nothing else that
is new. -/
theorem steps_loadWith (hdb : ∀ source, ∀ d ∈ db source, d.Unique) {children : List EagerLoad}
    {loaded : Loaded} {out : List Document} (hvalid : r.validate = .ok ())
    (hsaved : r.aliasName ≠ savedField)
    (hnested : loadAll schema r.related [] children = .ok loaded)
    (hsavedNested : savedField ∉ EagerAlias.allNames loaded.aliases)
    (hdocs : ∀ d ∈ docs, d.Unique) (h : Stage.runAll db (r.loadWith loaded) docs = .ok out) :
    ∃ P, Document.Steps r.aliasName P docs out :=
  ⟨_, step_loadWith (P := fun _ => True) hvalid hsaved (isField_of_loadAll hnested)
    (fun _ _ _ _ => trivial) hdocs (fun _ _ hsubset hfound e he =>
      ⟨(covers_loadAll hdb hnested hsavedNested (fun d hd => hdb _ d (hsubset d hd)) hfound e
        he).1, trivial⟩) h⟩

/-- What a relation leaves of documents has distinct keys. -/
theorem unique_of_loadWith (hdb : ∀ source, ∀ d ∈ db source, d.Unique) {children : List EagerLoad}
    {loaded : Loaded} {out : List Document} (hvalid : r.validate = .ok ())
    (hsaved : r.aliasName ≠ savedField)
    (hnested : loadAll schema r.related [] children = .ok loaded)
    (hsavedNested : savedField ∉ EagerAlias.allNames loaded.aliases)
    (hdocs : ∀ d ∈ docs, d.Unique) (h : Stage.runAll db (r.loadWith loaded) docs = .ok out) :
    ∀ d ∈ out, d.Unique := by
  obtain ⟨P, hsteps⟩ := steps_loadWith hdb hvalid hsaved hnested hsavedNested hdocs h
  exact fun d hd => (hsteps.each d hd).1

/-- The stages that load a relation succeed if those for what is nested do. -/
theorem exists_run_loadWith {loaded : Loaded} (hvalid : r.validate = .ok ())
    (hnames : r.NoOperators) (hdollar : startsDollar r.aliasName = false)
    (hsaved : r.aliasName ≠ savedField) (hdocs : ∀ d ∈ docs, d.Unique)
    (hnested : ∀ related, (∀ e ∈ related, e ∈ db r.related.collection) →
      ∃ found, Stage.runAll db loaded.stages related = .ok found) :
    ∃ out, Stage.runAll db (r.loadWith loaded) docs = .ok out := by
  obtain ⟨hfit, halias⟩ := validate_eq_ok hvalid
  obtain ⟨joined, hjoined⟩ := exists_run_joinStages
    (exists_run_relatedPipeline hnames hnested) hfit hnames docs
  have hjoin := step_joinStages (P := fun _ => True) halias hdocs (fun _ _ _ _ _ _ => trivial) hfit
    hjoined
  obtain ⟨unwound, hunwound⟩ : ∃ unwound, Stage.runAll db r.unwindStages joined = .ok unwound := by
    rw [unwindStages]
    split
    · exact ⟨_, Stage.runAll_singleton db _ joined⟩
    · exact ⟨joined, rfl⟩
  have hunwind := step_unwindStages halias hjoin.each hunwound
  rw [loadWith, List.append_assoc, Stage.runAll_append_ok hjoined, Stage.runAll_append_ok hunwound]
  exact exists_run_projectionStages halias hdollar hsaved fun d hd => (hunwind.each d hd).1

/-- The stages that load a tree of relations succeed. -/
theorem exists_run_loadAll (hdb : ∀ source, ∀ d ∈ db source, d.Unique) {owner : Model}
    {seen : List (String × String)} {loads : List EagerLoad} {loaded : Loaded}
    (hload : loadAll schema owner seen loads = .ok loaded)
    (hnames : NoOperatorsAll schema owner loads)
    (hsaved : savedField ∉ EagerAlias.allNames loaded.aliases) (hdocs : ∀ d ∈ docs, d.Unique) :
    ∃ out, Stage.runAll db loaded.stages docs = .ok out := by
  induction owner, seen, loads using loadAll.induct generalizing loaded docs with
  | case1 owner seen =>
    rw [loadAll] at hload
    cases hload
    exact ⟨docs, rfl⟩
  | case2 owner seen name options children rest ihChildren ihRest =>
    obtain ⟨r, nested, others, hr, -, hvalid, hnested, hothers, rfl⟩ := loadAll_cons_eq_ok hload
    rw [NoOperatorsAll] at hnames
    obtain ⟨hfirst, hrest⟩ := hnames
    obtain ⟨hrelation, hdollar, hchildren⟩ := hfirst r hr
    obtain ⟨halias, hsavedNested, hsavedOthers⟩ := not_mem_allNames_cons.mp hsaved
    obtain ⟨mid, hmid⟩ := exists_run_loadWith hvalid hrelation hdollar halias hdocs
      fun related hrelated => ihChildren r hnested hchildren hsavedNested
        fun d hd => hdb _ d (hrelated d hd)
    have hunique := unique_of_loadWith hdb hvalid halias hnested hsavedNested hdocs hmid
    rw [Stage.runAll_append_ok hmid]
    exact ihRest r hothers hrest hsavedOthers hunique

end Relation

end DocMapper
