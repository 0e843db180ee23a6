import DocMapper.Proofs.Query.Connectors
import DocMapper.Proofs.Relation.Join
import DocMapper.Proofs.Relation.Loads

/-! # Reading a relation by a query

What the query of a handle does when the caller asks nothing more of the related documents. The
owner's key stands in its scope, as conditions that a column is one value or one of several
(`Term.Ties`). Such conditions cannot fail and filter the collection (`Query.run_conditionStage`),
so the query keeps the documents that are seen and that meet them, sorts, limits, and leaves out
what is hidden (`RelationHandle.get_of_scope`). -/

namespace DocMapper

/-! ## Conditions of a scope -/

namespace Term

/-- A condition that ties documents to others: a plain column is a value, or one of several. -/
inductive Ties : Term → Prop where
  | equal {column : String} (h : startsDollar column = false) (v : Json) :
    Ties ⟨.and, column, .compare .equal v⟩
  | isIn {column : String} (h : startsDollar column = false) (values : List Json) :
    Ties ⟨.and, column, .isIn values⟩

/-- The values that a condition wants. -/
def wanted (t : Term) : List Json :=
  match t.test with
  | .compare .equal v => [v]
  | .isIn values => values
  | _ => []

/-- Whether a column of a document is one of the values that a condition wants. -/
def meets (d : Document) (t : Term) : Bool := t.wanted.any (Filter.equals d t.column)

variable {t : Term} {terms : List Term}

theorem Ties.connector_eq (h : t.Ties) : t.connector = .and := by
  cases h with
  | equal => rfl
  | isIn => rfl

/-- A condition that ties documents can be tested with any document. -/
theorem Ties.accepts_eq (h : t.Ties) (d : Document) : t.accepts d = .ok (t.meets d) := by
  cases h with
  | @equal column hcolumn v =>
    rw [accepts_eq_answer d ⟨.and, column, .compare .equal v⟩ hcolumn]
    exact congrArg Except.ok (Bool.or_false _).symm
  | @isIn column hcolumn values =>
    exact accepts_eq_answer d ⟨.and, column, .isIn values⟩ hcolumn

end Term

namespace Query

/-- The stage of conditions that tie documents keeps the documents that meet all of them. -/
theorem run_conditionStage {terms : List Term} (h : ∀ t ∈ terms, t.Ties) :
    ∃ stage, conditionStage? terms = .ok stage ∧ ∀ db rest docs,
      Stage.runAll db (stage.toList ++ rest) docs =
        Stage.runAll db rest (docs.filter fun d => terms.all (Term.meets d)) := by
  have hmeets : ∀ d, ∀ t ∈ terms, t.accepts d = .ok (t.meets d) :=
    fun d t ht => (h t ht).accepts_eq d
  obtain ⟨stage, hstage, hrun⟩ :=
    exists_conditionStage fun t ht => Term.exists_filter_of_accepts (hmeets [] t ht)
  exact ⟨stage, hstage, fun db rest docs => hrun db rest docs _ fun d _ =>
    Term.acceptsAll_of_and (fun t ht => (h t ht).connector_eq) (hmeets d)⟩

/-- The stage of one condition that a column is a value keeps the documents where it is. -/
theorem run_equalStage {column : String} (hcolumn : startsDollar column = false) (v : Json) :
    ∃ stage, conditionStage? [⟨.and, column, .compare .equal v⟩] = .ok stage ∧ ∀ db rest docs,
      Stage.runAll db (stage.toList ++ rest) docs =
        Stage.runAll db rest (docs.filter fun d => Filter.equals d column v) := by
  obtain ⟨stage, hstage, hrun⟩ :=
    run_conditionStage (List.forall_mem_singleton.mpr (Term.Ties.equal hcolumn v))
  have hmeets : (fun d : Document => [⟨.and, column, .compare .equal v⟩].all (Term.meets d)) =
      fun d => Filter.equals d column v := by
    funext d
    simp [Term.meets, Term.wanted]
  exact ⟨stage, hstage, hmeets ▸ hrun⟩

/-- A query for the documents that meet some conditions gets those that are seen and accepted, cut
down to its limit. -/
theorem get_of_accepted {schema : Schema} {s : Store} {m : Model} {mode : TrashedMode}
    {terms : List Term} {limit : Option Nat} {stage : Option Stage} {accepted : Document → Bool}
    {cut : List Document} (hmarker : ∀ x, m.softDelete = some x → startsDollar x.marker = false)
    (hstage : conditionStage? terms = .ok stage)
    (hrun : ∀ db rest docs, Stage.runAll db (stage.toList ++ rest) docs =
      Stage.runAll db rest (docs.filter accepted))
    (hcut : Stage.runAll s.documents (limit.map Stage.limit).toList
      (((s.documents m.collection).filter (m.policy mode).sees).filter accepted) = .ok cut) :
    Query.get schema s { model := m, conditions := terms, limit, trashed := mode } =
      .ok (cut.map (Entity.ofDocument m · [])) := by
  have hdollar : ∀ f, (m.policy mode).field = some f → startsDollar f = false := by
    intro f hf
    obtain ⟨x, hx, rfl⟩ := Option.map_eq_some_iff.mp hf
    exact hmarker x hx
  refine get_eq_ok.mpr ⟨{}, _, cut, Relation.loadAll_nil _ _ _,
    (stagesWith_eq_ok (readsAlias_nil _)).mpr ⟨none, stage, rfl, rfl, hstage, rfl⟩, ?_, rfl⟩
  show Stage.runAll s.documents ((m.policy mode).stage?.toList ++ [] ++ stage.toList ++
    (limit.map Stage.limit).toList ++ [] ++ []) (s.documents m.collection) = _
  simp only [List.append_nil, List.append_assoc]
  rw [TrashedPolicy.runAll_stage hdollar, hrun, hcut]

/-- The pipeline of a query with nothing but a scope, a window and fields to leave out. -/
theorem plan_of_scope {q : Query} {stage : Option Stage} (heager : q.eager = [])
    (hconditions : q.conditions = []) (hselect : q.select = none) (hfault : q.fault = none)
    (hstage : conditionStage? q.scope = .ok stage) (schema : Schema) :
    q.plan schema = .ok ⟨(q.model.policy q.trashed).stage?.toList ++ stage.toList ++
      q.windowStages ++ (if q.exclude.isEmpty then none else some (Stage.exclude q.exclude)).toList,
      []⟩ := by
  have hloaded : q.loaded schema = .ok {} := by
    rw [loaded, heager, Relation.loadAll]
  have hstages : q.stagesWith {} q.windowStages [] =
      .ok ((q.model.policy q.trashed).stage?.toList ++ stage.toList ++ q.windowStages) := by
    refine (stagesWith_eq_ok (readsAlias_nil q)).mpr ⟨stage, none, ?_, hstage, ?_, ?_⟩
    · rw [check, hfault]
    · rw [hconditions]
      rfl
    · simp
  rw [plan, hloaded, ok_bind]
  show ((q.stagesWith {} q.windowStages []).mapError Error.query >>= _) = _
  rw [hstages, mapError_ok, ok_bind, projectionStage?, hselect]
  rfl

end Query

/-! ## The query of a handle -/

namespace Relation

variable {r : Relation}

/-- The query for the related documents that meet conditions, as the options ask for them. -/
def queryFor (r : Relation) (terms : List Term) : Query where
  model := r.related
  scope := terms
  ordering := (r.options.sort.map fun (column, direction) => ⟨column, direction, false⟩).toList
  skip := r.options.skip
  limit := r.options.limit
  exclude := r.options.hiddenFields r.related.hidden
  trashed := r.trashed

/-- The order and window of the options make the same stages in a query and in a join. -/
theorem windowStages_queryFor (r : Relation) (terms : List Term) :
    (r.queryFor terms).windowStages = windowStages r.options := by
  rw [Query.windowStages, windowStages, queryFor]
  cases r.options.sort <;> rfl

/-- What a query leaves out is removed from the documents that it finds. -/
theorem run_exclusion (o : RelationOptions) (declared : List String) (db : Collections)
    (docs : List Document) :
    Stage.runAll db (if (o.hiddenFields declared).isEmpty then none
        else some (Stage.exclude (o.hiddenFields declared))).toList docs =
      .ok (docs.map fun d => Update.removeAll d (o.hiddenFields declared)) := by
  have hnodup := nodup_hiddenFields o declared
  cases hhidden : o.hiddenFields declared with
  | nil =>
    show Except.ok docs = .ok (docs.map fun d => d)
    rw [List.map_id']
  | cons field fields =>
    rw [hhidden] at hnodup
    exact (Stage.runAll_singleton db _ docs).trans
      (Stage.run_exclude (List.cons_ne_nil _ _) hnodup db docs)

/-- The query finds what is seen of the related documents and meets the conditions, sorted and
limited, without what is hidden. -/
theorem get_queryFor {schema : Schema} {s : Store} {terms : List Term} {found : List Document}
    (hmarker : ∀ f, (r.related.policy r.trashed).field = some f → startsDollar f = false)
    (hterms : ∀ t ∈ terms, t.Ties)
    (hfound : Stage.runAll s.documents (windowStages r.options)
      (((s.documents r.related.collection).filter (r.related.policy r.trashed).sees).filter
        fun d => terms.all (Term.meets d)) = .ok found) :
    (r.queryFor terms).get schema s = .ok (found.map fun d => Entity.ofDocument r.related
      (Update.removeAll d (r.options.hiddenFields r.related.hidden)) []) := by
  obtain ⟨stage, hstage, hrun⟩ := Query.run_conditionStage hterms
  have hplan := Query.plan_of_scope (q := r.queryFor terms) rfl rfl rfl rfl hstage schema
  rw [windowStages_queryFor] at hplan
  have hfetch : s.aggregate r.related.collection
      ((r.related.policy r.trashed).stage?.toList ++ stage.toList ++ windowStages r.options ++
        (if (r.options.hiddenFields r.related.hidden).isEmpty then none
          else some (Stage.exclude (r.options.hiddenFields r.related.hidden))).toList) =
      .ok (found.map fun d => Update.removeAll d (r.options.hiddenFields r.related.hidden)) := by
    rw [Store.aggregate, List.append_assoc, List.append_assoc, TrashedPolicy.runAll_stage hmarker,
      hrun, Stage.runAll_append_ok hfound, run_exclusion, mapError_ok]
  rw [Query.get, hplan, ok_bind]
  refine (congrArg (· >>= _) hfetch).trans ?_
  rw [ok_bind, List.map_map]
  rfl

end Relation

namespace RelationHandle

variable {s : Store} {r : Relation} {owner : Document} {terms : List Term}

/-- Without conditions of the caller, a handle asks for what the options say. -/
theorem baseQuery_eq (r : Relation) (owner : Document) :
    baseQuery ⟨r, owner, r.related.query⟩ =
      { r.queryFor [] with select := r.options.select } := by
  have hnone : ∀ o : Option Nat, (o <|> none) = o := fun o => by cases o <;> rfl
  rw [baseQuery, withRelationOptions, Relation.queryFor]
  cases hselect : r.options.select with
  | none =>
    cases r.options.sort <;> simp [Model.query, Query.without, Query.orderedBy, hnone]
  | some fields =>
    have hhidden : r.options.hiddenFields r.related.hidden = [] := by
      rw [RelationOptions.hiddenFields, hselect]
      rfl
    cases r.options.sort <;> simp [Model.query, Query.orderedBy, hnone, hhidden]

/-- Without conditions of the caller, a handle asks for what is tied to the owner as the options
say. -/
theorem resolve_eq (hscope : scope ⟨r, owner, r.related.query⟩ s = .ok terms) :
    resolve ⟨r, owner, r.related.query⟩ s =
      .ok { r.queryFor terms with select := r.options.select } := by
  rw [resolve, hscope, baseQuery_eq]
  rfl

/-- A handle finds what is seen of the related documents and meets the conditions of its scope,
sorted and limited, and answers with what its last stage shows of that. -/
theorem get_of_found {schema : Schema} {found shown : List Document}
    (hmarker : ∀ f, (r.related.policy r.trashed).field = some f → startsDollar f = false)
    (hscope : scope ⟨r, owner, r.related.query⟩ s = .ok terms) (hterms : ∀ t ∈ terms, t.Ties)
    (hfound : Stage.runAll s.documents (Relation.windowStages r.options)
      (((s.documents r.related.collection).filter (r.related.policy r.trashed).sees).filter
        fun d => terms.all (Term.meets d)) = .ok found)
    (hshown : Stage.runAll s.documents (Query.projectionStage?
      { r.queryFor terms with select := r.options.select } []).toList found = .ok shown) :
    get schema s ⟨r, owner, r.related.query⟩ =
      .ok (shown.map fun d => Entity.ofDocument r.related d []) := by
  obtain ⟨stage, hstage, hrun⟩ := Query.run_conditionStage hterms
  have hdocs : Stage.runAll s.documents ((r.related.policy r.trashed).stage?.toList ++
      stage.toList ++ [] ++ (r.queryFor terms).windowStages ++ [] ++ (Query.projectionStage?
        { r.queryFor terms with select := r.options.select } []).toList)
      (s.documents r.related.collection) = .ok shown := by
    simp only [List.append_nil, List.append_assoc]
    rw [TrashedPolicy.runAll_stage hmarker, hrun, Relation.windowStages_queryFor,
      Stage.runAll_append_ok hfound, hshown]
  rw [get, resolve_eq hscope]
  exact Query.get_eq_ok.mpr ⟨{}, _, shown, Relation.loadAll_nil _ _ _,
    (Query.stagesWith_eq_ok (Query.readsAlias_nil _)).mpr
      ⟨stage, none, rfl, hstage, rfl, rfl⟩, hdocs, rfl⟩

/-- Without a selection, that query shows all that is not hidden. -/
theorem get_of_scope {schema : Schema} (hselect : r.options.select = none)
    (hscope : scope ⟨r, owner, r.related.query⟩ s = .ok terms) :
    get schema s ⟨r, owner, r.related.query⟩ = (r.queryFor terms).get schema s := by
  rw [get, resolve_eq hscope, hselect]
  rfl

end RelationHandle

end DocMapper
