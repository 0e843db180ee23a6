import DocMapper.Proofs.Relation.Links

/-! # Loading a relation by its stages

What the stages of a relation make of one owner. They lead from the owner to the related documents
in steps, each with a lemma of its own:

  * conditions that compare a plain field with a constant keep the documents that a filter on that
    field keeps (`TrashedPolicy.all_condition`, `run_conditionStages`);
  * the lookups put the related documents, sorted and limited, under the alias (`run_directLookup`,
    `run_lookupsThrough`);
  * unwinding makes a copy of the owner for each of them, and leaving out what is hidden removes it
    from each (`run_shown`). -/

namespace DocMapper

/-! ## What a read sees -/

namespace TrashedPolicy

/-- Whether a read sees a document. -/
def sees (p : TrashedPolicy) (d : Document) : Bool :=
  p.requirement?.all fun (field, marker) => Filter.equals d field (.bool marker)

variable {p : TrashedPolicy} {docs : List Document} {d : Document}

theorem field_of_requirement {field : String} {marker : Bool}
    (h : p.requirement? = some (field, marker)) : p.field = some field := by
  obtain ⟨f, hf, h⟩ := Option.bind_eq_some_iff.mp h
  obtain ⟨m, -, h⟩ := Option.bind_eq_some_iff.mp h
  cases h
  exact hf

/-- The condition of a policy can be evaluated, unless its field looks like an operator. -/
theorem exists_eval_condition (h : ∀ f, p.field = some f → startsDollar f = false) (d : Document) :
    ∀ e ∈ p.condition?.toList, ∃ found, Expression.eval d e = .ok found := by
  intro e he
  obtain ⟨⟨field, marker⟩, hreq, rfl⟩ := Option.map_eq_some_iff.mp (Option.mem_toList.mp he)
  exact ⟨_, Expression.eval_fieldEquals (h field (field_of_requirement hreq)) rfl⟩

theorem canEval_condition (h : ∀ f, p.field = some f → IsPlain f) (d : Document) :
    ∀ e ∈ p.condition?.toList, ∃ found, Expression.eval d e = .ok found :=
  exists_eval_condition (fun f hf => (h f hf).noDollar) d

/-- Of a document that is marked, or marked as not deleted, a read sees what its mode asks for. -/
theorem sees_of_marker {m : Model} {x : SoftDelete} (hx : m.softDelete = some x)
    (hfield : IsField x.marker) {marked : Bool} (h : d.get? x.marker = some (.bool marked))
    (mode : TrashedMode) : (m.policy mode).sees d = mode.marker?.all (· == marked) := by
  have hequals : ∀ b : Bool, Filter.equals d x.marker (.bool b) = (b == marked) := by
    intro b
    rw [Filter.equals_of_get? hfield h fun _ => Json.noConfusion]
    cases b <;> cases marked <;> rfl
  rw [Model.policy, hx]
  cases mode with
  | hidden => exact hequals false
  | included => rfl
  | only => exact hequals true

/-- A document that is marked as not deleted, where its model has a marker, is seen. -/
theorem sees_of_unmarked {m : Model} (hfield : ∀ x, m.softDelete = some x → IsField x.marker)
    (h : ∀ x, m.softDelete = some x → d.get? x.marker = some (.bool false)) :
    (m.policy .hidden).sees d = true := by
  cases hsoft : m.softDelete with
  | none =>
    rw [Model.policy, hsoft]
    rfl
  | some x => exact sees_of_marker hsoft (hfield x hsoft) (h x hsoft) .hidden

/-- The condition of a policy is true of what a read sees. -/
theorem all_condition (h : ∀ f, p.field = some f → IsPlain f)
    (hd : ∀ f, p.field = some f → d.ScalarAt f) :
    p.condition?.toList.all (Expression.holdsOn d) = p.sees d := by
  rw [condition?, sees]
  cases hreq : p.requirement? with
  | none => rfl
  | some req =>
    obtain ⟨field, marker⟩ := req
    have hf := field_of_requirement hreq
    have hequals : Filter.equals d field (.bool marker) =
        Expression.holdsOn d (fieldEquals field (.bool marker)) :=
      Filter.equals_eq_holdsOn (h field hf) (hd field hf) Json.noConfusion rfl
    show (Expression.holdsOn d (fieldEquals field (.bool marker)) && true) =
      Filter.equals d field (.bool marker)
    rw [hequals, Bool.and_true]

/-- The stage of a policy keeps what a read sees. -/
theorem runAll_stage (h : ∀ f, p.field = some f → startsDollar f = false) (db : Collections)
    (docs : List Document) (rest : List Stage) :
    Stage.runAll db (p.stage?.toList ++ rest) docs = Stage.runAll db rest (docs.filter p.sees) := by
  rw [stage?, filter?]
  cases hreq : p.requirement? with
  | none =>
    have hall : p.sees = fun _ => true := by
      funext d
      rw [sees, hreq]
      rfl
    rw [hall, List.filter_eq_self.mpr fun _ _ => rfl]
    rfl
  | some req =>
    obtain ⟨field, marker⟩ := req
    have hf := field_of_requirement hreq
    have hsees : p.sees = fun d => Filter.equals d field (.bool marker) := by
      funext d
      rw [sees, hreq]
      rfl
    have hrun : Stage.run db (.filter (.single field (.bool marker))) docs =
        .ok (docs.filter p.sees) := by
      rw [hsees]
      exact Stage.run_filter (fun d _ => Filter.accepts_single (h field hf)
        (Filter.conditionHolds_of_scalar rfl d field)) db
    apply Stage.runAll_append_ok
    rw [← hrun]
    exact Stage.runAll_singleton db _ docs

end TrashedPolicy

namespace Relation

variable {r : Relation} {db : Collections} {docs : List Document}

/-! ## Valid relations -/

/-- A relation is valid only if its keys fit and its alias is a single key. -/
theorem validate_eq_ok (h : r.validate = .ok ()) : r.keysFit = true ∧ IsField r.aliasName := by
  rw [validate] at h
  cases hfit : r.keysFit with
  | false =>
    rw [hfit] at h
    cases h
  | true =>
    cases halias : isAlias r.aliasName with
    | false =>
      rw [hfit, halias] at h
      cases h
    | true =>
      refine ⟨rfl, fun hmem => ?_⟩
      rw [isAlias, List.contains_iff_mem.mpr hmem, Bool.not_true, Bool.and_false] at halias
      cases halias

/-- A valid relation through intermediate documents has a model of them. -/
theorem exists_through (h : r.keysFit = true) {firstKey secondKey localKey secondLocalKey : String}
    (hkeys : r.keys = .through firstKey secondKey localKey secondLocalKey) :
    ∃ m, r.through = some m := by
  cases hm : r.through with
  | some m => exact ⟨m, rfl⟩
  | none =>
    rw [keysFit, hkeys, hm] at h
    cases hkind : r.kind <;> rw [hkind] at h <;> cases h

/-- The lookups of a valid relation are one lookup of the related documents, or lookups over the
documents of a pivot collection or of the model in between. -/
theorem joinStages_cases (h : r.keysFit = true) (pipeline : List Stage) :
    (∃ here there, r.joinStages pipeline = [r.relatedLookup here there pipeline]) ∨
    (∃ keys, r.keys = .pivot keys ∧ r.joinStages pipeline =
      r.lookupsThrough "pivot" keys.collection keys.parentKey keys.foreignPivotKey
        (pivotConditions keys) keys.relatedPivotKey keys.relatedKey pipeline) ∨
    ∃ m firstKey secondKey localKey secondLocalKey, r.through = some m ∧ r.joinStages pipeline =
      r.lookupsThrough "through" m.collection localKey firstKey
        (m.policy .hidden).condition?.toList secondLocalKey secondKey pipeline := by
  rw [joinStages]
  cases hkeys : r.keys with
  | owning => exact .inl ⟨_, _, rfl⟩
  | inverse => exact .inl ⟨_, _, rfl⟩
  | morph => exact .inl ⟨_, _, rfl⟩
  | pivot keys => exact .inr (.inl ⟨keys, rfl, rfl⟩)
  | through firstKey secondKey localKey secondLocalKey =>
    obtain ⟨m, hm⟩ := exists_through h hkeys
    exact .inr (.inr ⟨m, firstKey, secondKey, localKey, secondLocalKey, hm, by rw [hm]⟩)

/-! ## Stages of the related side -/

/-- A stage of conditions that can be evaluated keeps the documents for which all are true. -/
theorem run_conditionStages {conditions : List Json}
    (h : ∀ e ∈ conditions, ∀ d ∈ docs, ∃ found, Expression.eval d e = .ok found)
    (rest : List Stage) :
    Stage.runAll db (conditionStages conditions ++ rest) docs =
      Stage.runAll db rest (docs.filter fun d => conditions.all (Expression.holdsOn d)) := by
  rw [conditionStages]
  cases conditions with
  | nil =>
    show Stage.runAll db rest docs = Stage.runAll db rest (docs.filter fun _ => true)
    rw [List.filter_eq_self.mpr fun _ _ => rfl]
  | cons e conditions =>
    apply Stage.runAll_append_ok
    exact (Stage.runAll_singleton db _ docs).trans (Stage.run_filterAll h db)

theorem exists_sorted (key : Option (String × SortDirection)) (db : Collections)
    (docs : List Document) :
    ∃ found, Stage.runAll db
      (key.map fun (column, direction) => Stage.sortBy [(column, direction.toInt)]).toList docs =
        .ok found := by
  cases key with
  | none => exact ⟨docs, rfl⟩
  | some key =>
    obtain ⟨column, direction⟩ := key
    cases direction with
    | ascending => exact ⟨Stage.sorted [(column, false)] docs, rfl⟩
    | descending => exact ⟨Stage.sorted [(column, true)] docs, rfl⟩

/-- Sorting and limiting always succeeds. -/
theorem exists_window (o : RelationOptions) (db : Collections) (docs : List Document) :
    ∃ found, Stage.runAll db (windowStages o) docs = .ok found := by
  obtain ⟨sorted, hsorted⟩ := exists_sorted o.sort db docs
  rw [windowStages, List.append_assoc, Stage.runAll_append_ok hsorted]
  cases o.skip <;> cases o.limit <;> exact ⟨_, rfl⟩

/-- Whether the conditions of the related side keep a document. -/
def keeps (r : Relation) (d : Document) : Bool :=
  (r.typeCondition?.toList ++ (r.related.policy r.trashed).condition?.toList).all
    (Expression.holdsOn d)

/-- The pipeline of the related side keeps documents, sorts and limits them, and loads what is
nested. -/
theorem run_relatedPipeline
    (h : ∀ e ∈ r.typeCondition?.toList ++ (r.related.policy r.trashed).condition?.toList,
      ∀ d ∈ docs, ∃ found, Expression.eval d e = .ok found) (nested : List Stage) :
    Stage.runAll db (r.relatedPipeline nested) docs =
      Stage.runAll db (windowStages r.options ++ nested) (docs.filter r.keeps) := by
  rw [relatedPipeline, List.append_assoc, run_conditionStages h]
  rfl

/-! ## Lookups -/

/-- A document that holds, without repeated keys, given documents under the alias. -/
structure Holds (r : Relation) (d : Document) (found : List Document) : Prop where
  unique : d.Unique
  under : d.get? r.aliasName = some (.array (found.map .object))

/-- Following a key under a field finds the documents that hold it. -/
theorem joined_of_key {here : String} (hhere : IsField here) {owner : Document} {v : Json}
    (hget : owner.get? here = some v) (hv : v.IsKey) (there : String) (docs : List Document) :
    Stage.joined docs (some (here, there)) owner = docs.filter fun e => Filter.equals e there v :=
  List.filter_congr fun e _ => Stage.agree_of_get? hhere hget hv there e

/-- Following the keys in documents under a field finds the documents that hold one of them. -/
theorem joined_of_rows {field onward : String} (hfield : IsField field) (honward : IsField onward)
    {d : Document} {rows : List Document} (hd : d.get? field = some (.array (rows.map .object)))
    (hlinks : ∀ row ∈ rows, row.KeysAt onward) (target : String) (docs : List Document) :
    Stage.joined docs (some (field ++ "." ++ onward, target)) d =
      docs.filter fun e => (rows.filterMap (·.get? onward)).any (Filter.equals e target) := by
  have hvalues : d.joinValues (field ++ "." ++ onward) = rows.filterMap (·.get? onward) :=
    Document.joinValues_under hfield honward hd
  apply List.filter_congr
  intro e _
  apply Stage.agree_eq hvalues
  intro w hw
  obtain ⟨row, hrow, hget⟩ := List.mem_filterMap.mp hw
  exact hlinks row hrow w hget

/-- The lookup that follows a key under a field of the owner. -/
theorem run_directLookup {here there : String} {pipeline : List Stage} {owner : Document} {v : Json}
    {found : List Document} (halias : IsField r.aliasName) (hhere : IsField here)
    (howner : owner.Unique) (hget : owner.get? here = some v) (hv : v.IsKey)
    (h : Stage.runAll db pipeline ((db r.related.collection).filter
      fun e => Filter.equals e there v) = .ok found) :
    ∃ d, Stage.runAll db [r.relatedLookup here there pipeline] [owner] = .ok [d] ∧
      r.Holds d found := by
  rw [← joined_of_key hhere hget hv] at h
  refine ⟨_, ?_, howner.insert _ _, Document.get?_insert_self _ _ _⟩
  rw [Stage.runAll_singleton, relatedLookup]
  exact Stage.run_lookup halias h

theorem isField_temporary (halias : IsField r.aliasName) {suffix : String} (h : IsField suffix) :
    IsField (r.temporary suffix) := by
  have hlist : (r.temporary suffix).toList = r.aliasName.toList ++ '_' :: suffix.toList := by
    simp [temporary]
  rw [IsField, hlist, List.mem_append, List.mem_cons]
  rintro (hmem | hmem | hmem)
  · exact halias hmem
  · cases hmem
  · exact h hmem

theorem temporary_ne (r : Relation) (suffix : String) : r.temporary suffix ≠ r.aliasName := by
  intro heq
  have hlength := congrArg (fun s : String => s.toList.length) heq
  simp [temporary] at hlength

theorem temporary_ne_id (r : Relation) {suffix : String} (h : 2 < suffix.toList.length) :
    r.temporary suffix ≠ "_id" := by
  intro heq
  have hlength := congrArg (fun s : String => s.toList.length) heq
  simp [temporary] at hlength h
  omega

/-- The temporary field is dropped once the alias holds what was found. -/
theorem holds_erase_temporary {d : Document} (hd : d.Unique) (suffix : String)
    (found : List Document) :
    r.Holds ((d.insert r.aliasName (.array (found.map .object))).erase (r.temporary suffix))
      found := by
  have hunique := hd.insert r.aliasName (.array (found.map .object))
  refine ⟨hunique.erase _, ?_⟩
  rw [Document.get?_erase_of_ne hunique (Ne.symm (temporary_ne r suffix)),
    Document.get?_insert_self]

/-- The documents in between that a key leads to and that meet the conditions. -/
def between (db : Collections) (source there : String) (v : Json) (conditions : List Json) :
    List Document :=
  ((db source).filter fun e => Filter.equals e there v).filter
    fun d => conditions.all (Expression.holdsOn d)

theorem mem_of_mem_between {source there : String} {v : Json} {conditions : List Json}
    {d : Document} (h : d ∈ between db source there v conditions) : d ∈ db source :=
  (List.mem_filter.mp (List.mem_filter.mp h).1).1

/-- The lookups that follow a key of the owner over documents in between: the first of them puts the
documents in between under the temporary field, from where the second one starts. -/
theorem run_lookupsThrough_of_rows {suffix source here there onward target : String}
    {conditions : List Json} {pipeline : List Stage} {owner : Document}
    {rows found : List Document} (halias : IsField r.aliasName) (hsuffix : IsField suffix)
    (hrows : Stage.runAll db (conditionStages conditions)
      (Stage.joined (db source) (some (here, there)) owner) = .ok rows)
    (hfound : ∀ d, d.get? (r.temporary suffix) = some (.array (rows.map .object)) →
      Stage.runAll db pipeline (Stage.joined (db r.related.collection)
        (some (r.temporary suffix ++ "." ++ onward, target)) d) = .ok found) :
    Stage.runAll db
        (r.lookupsThrough suffix source here there conditions onward target pipeline) [owner] =
      .ok [((owner.insert (r.temporary suffix) (.array (rows.map .object))).insert r.aliasName
        (.array (found.map .object))).erase (r.temporary suffix)] := by
  have hfield := isField_temporary halias hsuffix
  have hfirst := Stage.run_lookup hfield hrows
  have hsecond : Stage.run db
      (r.relatedLookup (r.temporary suffix ++ "." ++ onward) target pipeline)
      [owner.insert (r.temporary suffix) (.array (rows.map .object))] =
      .ok [(owner.insert (r.temporary suffix) (.array (rows.map .object))).insert r.aliasName
        (.array (found.map .object))] :=
    Stage.run_lookup halias (hfound _ (Document.get?_insert_self _ _ _))
  have hdrop : ∀ docs, Stage.run db (.exclude [r.temporary suffix]) docs =
      .ok (docs.map fun d => d.erase (r.temporary suffix)) := by
    intro docs
    rw [Stage.run_exclude (List.cons_ne_nil _ _) (List.pairwise_singleton _ _)]
    congr 2
    funext d
    exact Document.remove_field hfield d
  rw [lookupsThrough, Stage.runAll, hfirst, ok_bind, Stage.runAll, hsecond, ok_bind,
    Stage.runAll_singleton, hdrop]
  rfl

/-- The lookups that follow a key under a field of the owner over documents in between. -/
theorem run_lookupsThrough {suffix source here there onward target : String}
    {conditions : List Json} {pipeline : List Stage} {owner : Document} {v : Json}
    {found : List Document} (halias : IsField r.aliasName) (hsuffix : IsField suffix)
    (hhere : IsField here) (honward : IsField onward) (howner : owner.Unique)
    (hget : owner.get? here = some v) (hv : v.IsKey)
    (hconditions : ∀ e ∈ conditions, ∀ d ∈ db source, ∃ found, Expression.eval d e = .ok found)
    (hlinks : ∀ d ∈ between db source there v conditions, d.KeysAt onward)
    (h : Stage.runAll db pipeline ((db r.related.collection).filter fun e =>
      ((between db source there v conditions).filterMap (·.get? onward)).any
        (Filter.equals e target)) = .ok found) :
    ∃ d, Stage.runAll db
        (r.lookupsThrough suffix source here there conditions onward target pipeline) [owner] =
          .ok [d] ∧ r.Holds d found := by
  have hbetween : Stage.runAll db (conditionStages conditions)
      (Stage.joined (db source) (some (here, there)) owner) =
        .ok (between db source there v conditions) := by
    rw [joined_of_key hhere hget hv, ← List.append_nil (conditionStages conditions),
      run_conditionStages]
    · rfl
    · exact fun e he d hd => hconditions e he d (List.mem_filter.mp hd).1
  refine ⟨_, run_lookupsThrough_of_rows halias hsuffix hbetween fun d hd => ?_,
    holds_erase_temporary (howner.insert _ _) suffix found⟩
  rw [joined_of_rows (isField_temporary halias hsuffix) honward hd hlinks]
  exact h

/-! ## What is shown -/

/-- The related documents that documents hold under an alias, in their order. -/
def relatedUnder (name : String) (docs : List Document) : List Json :=
  docs.flatMap fun d => Entity.loadedItems ((d.get? name).getD .null)

/-- The stages that leave out what is hidden remove it from what is under the alias. -/
theorem get?_removeAll_under {name : String} (h : IsField name) (fields : List String)
    (d : Document) :
    (Update.removeAll d (fields.map fun field => name ++ "." ++ field)).get? name =
      (d.get? name).map fun v =>
        fields.foldl (fun v field => v.removeAt (Path.ofString field)) v := by
  induction fields generalizing d with
  | nil =>
    show d.get? name = (d.get? name).map fun v => v
    rw [Option.map_id']
  | cons field fields ih =>
    have hrest := ih (d.remove (name ++ "." ++ field))
    rw [Document.get?_remove_under h, if_pos rfl, Option.map_map] at hrest
    exact hrest

theorem foldl_removeAt_object (fields : List String) (d : Document) :
    fields.foldl (fun v field => Json.removeAt v (Path.ofString field)) (.object d) =
      .object (Update.removeAll d fields) := by
  induction fields generalizing d with
  | nil => rfl
  | cons field fields ih => exact ih (d.remove field)

/-- Removing fields from what was loaded removes them from each item. -/
theorem loadedItems_foldl_removeAt (fields : List String) (v : Json) :
    Entity.loadedItems (fields.foldl (fun v field => v.removeAt (Path.ofString field)) v) =
      (Entity.loadedItems v).map fun item =>
        fields.foldl (fun v field => v.removeAt (Path.ofString field)) item := by
  have hone : ∀ (v : Json) (path : Path), Entity.loadedItems (v.removeAt path) =
      (Entity.loadedItems v).map fun item => item.removeAt path := by
    intro v path
    cases v with
    | array items =>
      rw [Json.removeAt, Json.removeEach_eq_map]
      rfl
    | _ => rfl
  induction fields generalizing v with
  | nil => exact (List.map_id' _).symm
  | cons field fields ih =>
    rw [List.foldl_cons, ih, hone, List.map_map]
    rfl

/-- The related documents that documents hold under an alias lose the fields that are removed
there. -/
theorem relatedUnder_removeAll {name : String} (h : IsField name) (fields : List String)
    (docs : List Document) :
    relatedUnder name (docs.map fun d =>
        Update.removeAll d (fields.map fun field => name ++ "." ++ field)) =
      (relatedUnder name docs).map fun item =>
        fields.foldl (fun v field => v.removeAt (Path.ofString field)) item := by
  rw [relatedUnder, relatedUnder, List.flatMap_map, List.map_flatMap]
  congr 1
  funext d
  rw [get?_removeAll_under h]
  cases d.get? name with
  | none => rfl
  | some v => exact loadedItems_foldl_removeAt fields v

theorem nodup_hiddenFields (o : RelationOptions) (declared : List String) :
    (o.hiddenFields declared).Nodup := by
  rw [RelationOptions.hiddenFields]
  split
  · exact List.nodup_nil
  · exact nodup_foldl (fun _ field h => nodup_append_new h field) _ List.nodup_nil

/-- Without a selection, the last stages of a relation remove what is hidden under the alias. -/
theorem run_projectionStages (hselect : r.options.select = none) (nested : List EagerAlias)
    (db : Collections) (docs : List Document) :
    Stage.runAll db (r.projectionStages nested) docs = .ok (docs.map fun d =>
      Update.removeAll d ((r.options.hiddenFields r.related.hidden).map
        fun field => r.aliasName ++ "." ++ field)) := by
  have hnodup := nodup_hiddenFields r.options r.related.hidden
  rw [projectionStages, hselect]
  cases hhidden : r.options.hiddenFields r.related.hidden with
  | nil =>
    show Except.ok docs = .ok (docs.map fun d => d)
    rw [List.map_id']
  | cons field fields =>
    rw [hhidden] at hnodup
    apply (Stage.runAll_singleton db _ docs).trans
    apply Stage.run_exclude (by simp)
    refine List.pairwise_map.mpr (hnodup.imp fun hne heq => hne ?_)
    exact (String.append_right_inj _).mp heq

/-- Unwinding shows the documents that an owner holds. -/
theorem run_unwindStages (db : Collections) (halias : IsField r.aliasName) {d : Document}
    {found : List Document} (hd : r.Holds d found) :
    ∃ unwound, Stage.runAll db r.unwindStages [d] = .ok unwound ∧
      relatedUnder r.aliasName unwound = found.map .object := by
  rw [unwindStages]
  cases r.kind.isSingle with
  | false =>
    refine ⟨[d], rfl, ?_⟩
    rw [relatedUnder, List.flatMap_singleton, hd.under]
    rfl
  | true =>
    refine ⟨_, (Stage.runAll_singleton db _ [d]).trans rfl, ?_⟩
    rw [List.flatMap_singleton, Stage.unwound, Document.at?_field halias, hd.under]
    cases found with
    | nil =>
      show relatedUnder r.aliasName [d.remove r.aliasName] = []
      rw [relatedUnder, List.flatMap_singleton, Document.remove_field halias,
        Document.get?_erase_self hd.unique]
      rfl
    | cons e found =>
      have hone : ∀ x : Document, Entity.loadedItems
          (((d.set r.aliasName (.object x)).get? r.aliasName).getD .null) = [.object x] := by
        intro x
        rw [Document.set_field halias, Document.get?_insert_self]
        rfl
      show relatedUnder r.aliasName
        (((e :: found).map Json.object).map fun item => d.set r.aliasName item) = _
      rw [relatedUnder, List.map_map, List.flatMap_map]
      exact (congrArg (List.flatMap · (e :: found)) (funext hone)).trans List.map_eq_flatMap.symm

/-- Unwinding and leaving out what is hidden shows each of the documents that an owner holds
without its hidden fields. -/
theorem run_shown (db : Collections) (halias : IsField r.aliasName)
    (hselect : r.options.select = none) {d : Document} {found : List Document}
    (hd : r.Holds d found) :
    ∃ out, Stage.runAll db (r.unwindStages ++ r.projectionStages []) [d] = .ok out ∧
      relatedUnder r.aliasName out =
        (found.map fun e => Update.removeAll e (r.options.hiddenFields r.related.hidden)).map
          .object := by
  obtain ⟨unwound, hunwound, hunder⟩ := run_unwindStages db halias hd
  refine ⟨_, (Stage.runAll_append_ok hunwound _).trans
    (run_projectionStages hselect [] db unwound), ?_⟩
  rw [relatedUnder_removeAll halias, hunder, List.map_map, List.map_map]
  congr 1
  funext e
  exact foldl_removeAt_object _ e

end Relation

end DocMapper
