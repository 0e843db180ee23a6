import DocMapper.Proofs.Query.Shown
import DocMapper.Proofs.Relation.Agreement

/-! # Conditions that a caller adds

A caller adds conditions to a query one after the other, each tied to those before by AND or by OR.
The conditions of a caller are one filter, and what ties the documents to an owner, the scope, is
another one before it. So a caller can only choose among the documents of the owner, whatever ties
its conditions together:

  * calls that add conditions change the conditions of a query and the fault that it reports, and
    nothing else (`Query.exists_addingAll`);
  * a query without order, window and loads gets some of what it gets without conditions, in the
    same order (`Query.get_sublist`), and counts what it gets (`Query.count_of_get`);
  * the same holds of a handle, whose scope does not depend on what the caller asks for
    (`RelationHandle.predicates_stay_within_owner`). -/

namespace DocMapper

/-! ## Calls -/

/-- A call that adds a condition to a query. -/
inductive Predicate where
  /-- A test of a column. -/
  | test (connector : Connector) (column : String) (test : Test)
  /-- A comparison that is spelled out. -/
  | spelled (connector : Connector) (column symbol : String) (value : Json)

namespace Query

/-- A query after a call that adds a condition. -/
def adding (q : Query) : Predicate → Query
  | .test connector column test => q.withCondition connector column test
  | .spelled connector column symbol value => q.withComparison connector column symbol value

/-- A query after one call after the other. -/
def addingAll (q : Query) (calls : List Predicate) : Query := calls.foldl adding q

/-- The same query without conditions of the caller. -/
def withoutConditions (q : Query) : Query := { q with conditions := [] }

theorem exists_adding (q : Query) (call : Predicate) :
    ∃ conditions fault, q.adding call = { q with conditions, fault } := by
  cases call with
  | test connector column test => exact ⟨_, q.fault, rfl⟩
  | spelled connector column symbol value =>
    rw [adding, withComparison]
    cases Comparison.parse symbol with
    | ok comparison => exact ⟨_, q.fault, rfl⟩
    | error fault => exact ⟨q.conditions, _, rfl⟩

/-- Calls that add conditions change the conditions and the fault of a query only. -/
theorem exists_addingAll (q : Query) (calls : List Predicate) :
    ∃ conditions fault, q.addingAll calls = { q with conditions, fault } := by
  induction calls generalizing q with
  | nil => exact ⟨q.conditions, q.fault, rfl⟩
  | cons call calls ih =>
    obtain ⟨conditions, fault, hcall⟩ := q.exists_adding call
    obtain ⟨conditions', fault', hcalls⟩ := ih (q.adding call)
    refine ⟨conditions', fault', ?_⟩
    show (q.adding call).addingAll calls = _
    rw [hcalls, hcall]

/-! ## Queries for all that meets the conditions -/

/-- A query for all that meets its conditions, in the order of the collection, and for nothing along
with it: it has no order, no window and no relations to load. -/
structure Unwindowed (q : Query) : Prop where
  ordering : q.ordering = []
  skip : q.skip = none
  limit : q.limit = none
  eager : q.eager = []

theorem Unwindowed.windowStages {q : Query} (hq : q.Unwindowed) : q.windowStages = [] := by
  unfold Query.windowStages
  rw [hq.ordering, hq.skip, hq.limit]
  rfl

theorem loaded_of_eager_nil {q : Query} (h : q.eager = []) (schema : Schema) :
    q.loaded schema = .ok {} := by
  rw [Query.loaded, h, Relation.loadAll_nil]

theorem Unwindowed.loaded {q : Query} (hq : q.Unwindowed) (schema : Schema) :
    q.loaded schema = .ok {} := loaded_of_eager_nil hq.eager schema

/-- The stages of a query up to the conditions of the caller, given the stage of its scope. -/
def rootStages (q : Query) (scope : Option Stage) : List Stage :=
  (q.model.policy q.trashed).stage?.toList ++ scope.toList

/-- The conditions of a caller choose among the documents that they are given. -/
theorem sublist_of_conditions {terms : List Term} {conditions : Option Stage} {db : Collections}
    {docs kept : List Document} (h : conditionStage? terms = .ok conditions)
    (hkept : Stage.runAll db conditions.toList docs = .ok kept) : kept.Sublist docs := by
  obtain ⟨filter, -, rfl⟩ := map_eq_ok.mp h
  exact Stage.sublist_of_filter? hkept

theorem exists_spec_of_projectionStage {q : Query} {aliases : List EagerAlias} {stage : Stage}
    (h : q.projectionStage? aliases = some stage) : ∃ spec, stage = .project spec := by
  unfold projectionStage? at h
  split at h
  · exact ⟨_, (Option.some.inj h).symm⟩
  · split at h
    · cases h
    · exact ⟨_, (Option.some.inj h).symm⟩

/-- The stage that ends a query shows fields of one document after the other. -/
theorem exists_shown (q : Query) (aliases : List EagerAlias) :
    ∃ shown : Document → Except QueryFault Document, ∀ db docs out,
      Stage.runAll db (q.projectionStage? aliases).toList docs = .ok out →
        docs.mapM shown = .ok out := by
  cases hstage : q.projectionStage? aliases with
  | none =>
    refine ⟨.ok, fun db docs out hout => ?_⟩
    cases hout
    exact (mapM_ok (g := id) fun _ _ => rfl).trans (congrArg _ docs.map_id)
  | some stage =>
    obtain ⟨spec, rfl⟩ := exists_spec_of_projectionStage hstage
    refine ⟨fun d => Projection.ofSpec spec >>= fun p => p.apply d, fun db docs out hout => ?_⟩
    rw [Option.toList_some, Stage.runAll_singleton, Stage.run] at hout
    obtain ⟨p, hp, hout⟩ := bind_eq_ok.mp hout
    simpa only [hp, ok_bind] using hout

/-! ## What such a query gets and counts -/

section Unwindowed

variable {schema : Schema} {s : Store} {q : Query} {es all : List Entity}

/-- A query for all that meets its conditions finds documents whatever the conditions are, keeps
those that meet them, and shows their fields. -/
theorem Unwindowed.exists_of_get (hq : q.Unwindowed) (h : q.get schema s = .ok es) :
    ∃ scope conditions found kept docs, q.check = .ok () ∧
      conditionStage? q.scope = .ok scope ∧ conditionStage? q.conditions = .ok conditions ∧
      Stage.runAll s.documents (q.rootStages scope) (s.documents q.model.collection) = .ok found ∧
      Stage.runAll s.documents conditions.toList found = .ok kept ∧
      Stage.runAll s.documents (q.projectionStage? []).toList kept = .ok docs ∧
      es = docs.map fun d => Entity.ofDocument q.model d [] := by
  obtain ⟨loads, stages, docs, hloads, hstages, hdocs, rfl⟩ := get_eq_ok.mp h
  obtain rfl : {} = loads := Except.ok.inj ((hq.loaded schema).symm.trans hloads)
  obtain ⟨scope, conditions, hcheck, hscope, hconditions, rfl⟩ :=
    (stagesWith_eq_ok q.readsAlias_nil).mp hstages
  rw [hq.windowStages, List.append_nil, List.append_nil] at hdocs
  obtain ⟨kept, hkept, hdocs⟩ := Stage.runAll_append_eq_ok.mp hdocs
  obtain ⟨found, hfound, hkept⟩ := Stage.runAll_append_eq_ok.mp hkept
  exact ⟨scope, conditions, found, kept, docs, hcheck, hscope, hconditions, hfound, hkept, hdocs,
    rfl⟩

/-- What such a query gets is found without its conditions too, in the same order. -/
theorem get_sublist (hq : q.Unwindowed) {fault : Option QueryFault}
    (h : q.get schema s = .ok es)
    (hall : get schema s { q with conditions := [], fault } = .ok all) : es.Sublist all := by
  have hq' : Unwindowed { q with conditions := [], fault } :=
    ⟨hq.ordering, hq.skip, hq.limit, hq.eager⟩
  obtain ⟨scope, conditions, found, kept, docs, -, hscope, hconditions, hfound, hkept, hdocs,
    rfl⟩ := hq.exists_of_get h
  obtain ⟨scope', none', found', kept', docs', -, hscope', hnone, hfound', hkept', hdocs', rfl⟩ :=
    hq'.exists_of_get hall
  obtain rfl : scope' = scope := Except.ok.inj (hscope'.symm.trans hscope)
  obtain rfl : found' = found := Except.ok.inj (hfound'.symm.trans hfound)
  cases hnone
  cases hkept'
  obtain ⟨shown, hshown⟩ := q.exists_shown []
  exact (sublist_of_mapM (sublist_of_conditions hconditions hkept) (hshown _ _ _ hdocs)
    (hshown _ _ _ hdocs')).map _

theorem nat?_int {n : Nat} (h : n < twoTo 64) : (Json.int n).nat? = some n := by
  show (some (Number.int n)).bind (·.toNat?) = some n
  rw [Option.bind_some, Number.toNat?, if_pos, Int.toNat_natCast]
  rw [Bool.and_eq_true, decide_eq_true_eq, decide_eq_true_eq]
  omega

/-- The number in the document that counts documents; without documents there is none. -/
theorem counted_eq {docs : List Document} (h : docs.length < twoTo 64) :
    (((if docs.isEmpty then [] else [[("count", Json.int docs.length)]]).head?.bind
      (Document.get? · "count")).bind (·.nat?)).getD 0 = docs.length := by
  cases docs with
  | nil => rfl
  | cons d docs =>
    have hnumber : Document.get? [("count", Json.int (d :: docs).length)] "count" =
        some (.int (d :: docs).length) := if_pos rfl
    rw [List.isEmpty_cons, if_neg Bool.false_ne_true, List.head?_cons, Option.bind_some, hnumber,
      Option.bind_some, nat?_int h, Option.getD_some]

/-- Such a query counts what it gets. That a list has fewer than `twoTo 64` members holds of every
list that fits into a machine, and keeps the number within the format of documents. -/
theorem count_of_get (hq : q.Unwindowed) (h : q.get schema s = .ok es)
    (hlength : es.length < twoTo 64) : q.count schema s = .ok es.length := by
  obtain ⟨scope, conditions, found, kept, docs, hcheck, hscope, hconditions, hfound, hkept, hdocs,
    rfl⟩ := hq.exists_of_get h
  obtain ⟨shown, hshown⟩ := q.exists_shown []
  have hsame : kept.length = docs.length := (forall₂_mapM (hshown _ _ _ hdocs)).length_eq
  rw [List.length_map, ← hsame] at hlength ⊢
  have hstages : q.filterStages schema = .ok (q.rootStages scope ++ conditions.toList) := by
    rw [filterStages, hq.loaded schema, ok_bind, (stagesWith_eq_ok q.readsAlias_nil).mpr
      ⟨scope, conditions, hcheck, hscope, hconditions, rfl⟩, List.append_nil, List.append_nil]
    rfl
  have hrun : Stage.runAll s.documents (q.rootStages scope ++ conditions.toList ++ [.count "count"])
      (s.documents q.model.collection) =
        .ok (if kept.isEmpty then [] else [[("count", .int kept.length)]]) := by
    rw [Stage.runAll_append_ok (Stage.runAll_append_eq_ok.mpr ⟨found, hfound, hkept⟩),
      Stage.runAll_singleton, Stage.run]
  rw [count, hstages, ok_bind, Store.aggregate, hrun, mapError_ok, ok_bind]
  exact congrArg _ (counted_eq hlength)

end Unwindowed

end Query

/-! ## Handles -/

namespace RelationHandle

/-- A handle after one call after the other that adds a condition. -/
def addingAll (h : RelationHandle) (calls : List Predicate) : RelationHandle :=
  h.mapQuery (·.addingAll calls)

/-- The same handle without conditions of the caller. -/
def withoutConditions (h : RelationHandle) : RelationHandle := h.mapQuery (·.withoutConditions)

/-- The number of related documents of the owner. -/
def count (schema : Schema) (s : Store) (h : RelationHandle) : Except Error Nat := do
  (← h.resolve s).count schema s

/-- A handle for all related documents, in the order of their collection, and for nothing along with
them: neither its relation nor its caller asks for an order, a window or loads. -/
structure Unwindowed (h : RelationHandle) : Prop where
  sort : h.relation.options.sort = none
  skip : h.relation.options.skip = none
  limit : h.relation.options.limit = none
  query : h.query.Unwindowed

variable {schema : Schema} {s : Store} {h : RelationHandle} {q : Query}

theorem Unwindowed.resolve (hh : h.Unwindowed) (hq : h.resolve s = .ok q) : q.Unwindowed := by
  obtain ⟨terms, -, hq⟩ := bind_eq_ok.mp hq
  cases hq
  rw [baseQuery, withRelationOptions, hh.sort, hh.skip, hh.limit]
  cases h.relation.options.select <;>
    exact ⟨hh.query.ordering, hh.query.skip, hh.query.limit, hh.query.eager⟩

theorem withRelationOptions_of_conditions (q : Query) (o : RelationOptions)
    (conditions : List Term) (fault : Option QueryFault) :
    withRelationOptions { q with conditions, fault } o =
      { withRelationOptions q o with conditions, fault } := by
  obtain ⟨select, _, _, sort, _, _, _⟩ := o
  cases sort <;> cases select <;> rfl

/-- The conditions of a caller are kept apart from what the options of a relation ask for. -/
theorem baseQuery_of_conditions {f : Query → Query} {conditions : List Term}
    {fault : Option QueryFault} (hf : f h.query = { h.query with conditions, fault }) :
    (h.mapQuery f).baseQuery = { h.baseQuery with conditions, fault } := by
  show withRelationOptions { f h.query with trashed := h.relation.trashed } _ = _
  rw [hf]
  exact withRelationOptions_of_conditions { h.query with trashed := h.relation.trashed }
    h.relation.options conditions fault

/-- The scope of a handle does not depend on the conditions of its caller, which stay apart from
it. -/
theorem resolve_of_conditions {f : Query → Query} {conditions : List Term}
    {fault : Option QueryFault} (hf : f h.query = { h.query with conditions, fault })
    (s : Store) :
    (h.mapQuery f).resolve s = (h.resolve s).map fun q => { q with conditions, fault } := by
  have hscope : (h.mapQuery f).scope s = h.scope s := rfl
  rw [RelationHandle.resolve, RelationHandle.resolve, hscope, baseQuery_of_conditions hf]
  cases h.scope s <;> rfl

/-- A handle with conditions gets some of what it gets without them, in the same order, and counts
what it gets. -/
theorem predicates_stay_within_owner (schema : Schema) (s : Store) (h : RelationHandle)
    (hh : h.Unwindowed) (calls : List Predicate) {shown all : List Entity}
    (hshown : (h.addingAll calls).get schema s = .ok shown)
    (hall : h.withoutConditions.get schema s = .ok all) :
    shown.Sublist all ∧
      (shown.length < twoTo 64 → (h.addingAll calls).count schema s = .ok shown.length) := by
  obtain ⟨conditions, fault, hcalls⟩ := h.query.exists_addingAll calls
  have hwith : (h.addingAll calls).resolve s = _ :=
    resolve_of_conditions (f := (·.addingAll calls)) hcalls s
  have hwithout : h.withoutConditions.resolve s = _ :=
    resolve_of_conditions (f := (·.withoutConditions)) rfl s
  cases hq : h.resolve s with
  | error fault =>
    rw [get, hwith, hq] at hshown
    cases hshown
  | ok q =>
    rw [hq, map_ok] at hwith hwithout
    rw [get_of_resolve hwith] at hshown
    rw [get_of_resolve hwithout] at hall
    have hplain := hh.resolve hq
    have hplain' : Query.Unwindowed { q with conditions, fault } :=
      ⟨hplain.ordering, hplain.skip, hplain.limit, hplain.eager⟩
    refine ⟨Query.get_sublist hplain' hshown hall, fun hlength => ?_⟩
    rw [count, hwith, ok_bind]
    exact Query.count_of_get hplain' hshown hlength

end RelationHandle

/-! ## The posts of a country -/

namespace CountrySample

/-- The posts by the users of the country who are not deleted, in no particular order. -/
def allPosts : RelationHandle :=
  ⟨{ latestPosts with options := {} }, country, latestPosts.related.query⟩

/-- Asks for recent posts, or for the post of a deleted user. -/
def recentOrBobs : List Predicate :=
  [.test .and "year" (.compare .greater (.int 2020)), .spelled .or "_id" "=" (.string "b")]

theorem allPosts_unwindowed : allPosts.Unwindowed := ⟨rfl, rfl, rfl, ⟨rfl, rfl, rfl, rfl⟩⟩

/-- The post of a document as an entity. -/
def shownPost (entries : Document) : Entity := Entity.ofDocument latestPosts.related entries []

/-- The post of the deleted user is not found, though the conditions allow it. -/
theorem bobs_post_not_found :
    ∃ shown all, (allPosts.addingAll recentOrBobs).get schema store = .ok shown ∧
      allPosts.withoutConditions.get schema store = .ok all ∧ all.length = 2 ∧
      shown.Sublist all ∧ (allPosts.addingAll recentOrBobs).count schema store = .ok 1 := by
  have hshown : (allPosts.addingAll recentOrBobs).get schema store = .ok [shownPost
      [("_id", .string "c"), ("userId", .string "ann"), ("year", .int 2021)]] := by
    refine (RelationHandle.get_of_resolve rfl).trans ?_
    exact Query.get_eq_ok.mpr ⟨{}, _, _, Relation.loadAll_nil _ _ _, rfl, rfl, rfl⟩
  have hall : allPosts.withoutConditions.get schema store = .ok [
      shownPost [("_id", .string "a"), ("userId", .string "ann"), ("year", .int 2020)],
      shownPost [("_id", .string "c"), ("userId", .string "ann"), ("year", .int 2021)]] := by
    refine (RelationHandle.get_of_resolve rfl).trans ?_
    exact Query.get_eq_ok.mpr ⟨{}, _, _, Relation.loadAll_nil _ _ _, rfl, rfl, rfl⟩
  obtain ⟨hsublist, hcount⟩ := RelationHandle.predicates_stay_within_owner schema store allPosts
    allPosts_unwindowed recentOrBobs hshown hall
  exact ⟨_, _, hshown, hall, rfl, hsublist, hcount (by decide)⟩

end CountrySample

end DocMapper
