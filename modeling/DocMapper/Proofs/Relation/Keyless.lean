import DocMapper.Proofs.Query.Shown
import DocMapper.Proofs.Relation.Hydration

/-! # Owners without a key

An owner may lack the key from which a relation starts: the field is missing, or it holds null. A
handle answers then that there are no related documents. A join does not. It takes nothing for null
on either side, so it leads the owner to the related documents that lack the key on *their* side
(`Relation.strays`). For a direct relation these are the documents that belong to nobody; over a
pivot collection or an intermediate model they are what the rows that belong to nobody refer to.

So an owner without a key is loaded without related documents exactly if the relation, with its
conditions and its window, lets no stray through (`Relation.load_lacking`). -/

namespace DocMapper

/-! ## Joining without a key -/

/-- A document has no key: what stands there is null, if anything. -/
structure Document.Lacks (d : Document) (key : String) : Prop where
  get : ∀ v, d.get? key = some v → v = .null
  reach : ∀ v, d.at? key = some v → v = .null

/-- What documents hold at a path, where the arrays on the way are joined into one. -/
def valuesAt (docs : List Document) (path : String) : List Json :=
  match Path.ofString path with
  | [] => []
  | key :: rest => Json.collect (docs.map .object) key rest

namespace Document

variable {d : Document} {key : String}

theorem lacks_of_field (hkey : IsField key) (h : ∀ v, d.get? key = some v → v = .null) :
    d.Lacks key :=
  ⟨h, fun v hv => h v ((at?_field hkey d).symm.trans hv)⟩

theorem Lacks.joinValues_eq (h : d.Lacks key) : d.joinValues key = [.null] := by
  rw [joinValues]
  cases hat : d.at? key with
  | none => rfl
  | some v =>
    obtain rfl := h.reach v hat
    rfl

/-- The values by which a document is joined contain null exactly if a filter for null accepts the
document. -/
theorem any_joinValues_null (d : Document) (path : String) :
    (d.joinValues path).any (fun w => Json.null.equals w) = Filter.equals d path .null := by
  rw [joinValues, Filter.equals, candidates]
  cases d.at? path with
  | none => rfl
  | some w =>
    cases w with
    | array items =>
      have hnot : (Json.array items).equals .null = false :=
        Bool.eq_false_iff.mpr fun heq => Json.noConfusion (Json.equals_null_iff.mp heq)
      simp [hnot, Json.equals_comm .null]
    | _ => simp [Json.equals_comm .null]

/-- A path through a field that holds documents leads to what they hold at the rest. -/
theorem joinValues_through {field : String} (hfield : IsField field) {rows : List Document}
    (hd : d.get? field = some (.array (rows.map .object))) (path : String) :
    d.joinValues (field ++ "." ++ path) = valuesAt rows path := by
  obtain ⟨key, rest, hpath⟩ := List.exists_cons_of_ne_nil (Path.ofString_ne_nil path)
  rw [joinValues, at?, Path.ofString_under hfield, valuesAt, hpath, Json.get?, getEntry?_eq, hd,
    Option.bind_some, Json.get?]

end Document

/-- A join leads a document without a key to the documents that a filter for null accepts. -/
theorem Stage.joined_of_lacks {here : String} {d : Document} (h : d.Lacks here) (there : String)
    (docs : List Document) :
    joined docs (some (here, there)) d = docs.filter fun e => Filter.equals e there .null := by
  refine List.filter_congr fun e _ => ?_
  rw [agree, h.joinValues_eq, ← Document.any_joinValues_null]
  simp only [List.any_cons, List.any_nil, Bool.or_false]

namespace Relation

variable {r : Relation} {db : Collections} {docs out : List Document}

/-- Whether a join over rows leads to a document. -/
def reachedFrom (rows : List Document) (onward target : String) (e : Document) : Bool :=
  (e.joinValues target).any fun w => (valuesAt rows onward).any fun v => v.equals w

/-- The related documents to which the lookups of a relation lead an owner without a key. -/
def strays (r : Relation) (db : Collections) : List Document :=
  (db r.related.collection).filter <|
    match r.keys, r.through with
    | .owning foreignKey _, _ => fun e => Filter.equals e foreignKey .null
    | .inverse _ ownerKey, _ => fun e => Filter.equals e ownerKey .null
    | .morph _ idField _, _ => fun e => Filter.equals e idField .null
    | .pivot keys, _ =>
      reachedFrom (between db keys.collection keys.foreignPivotKey .null (pivotConditions keys))
        keys.relatedPivotKey keys.relatedKey
    | .through firstKey secondKey _ secondLocalKey, some m =>
      reachedFrom (between db m.collection firstKey .null (m.policy .hidden).condition?.toList)
        secondLocalKey secondKey
    | .through _ _ _ _, none => fun _ => false

section Lookups

variable {pipeline : List Stage} {owner : Document} {found : List Document}
  (halias : IsField r.aliasName) (howner : owner.Unique)

include halias howner

theorem run_directLookup_of_lacks {here there : String} (hkey : owner.Lacks here)
    (h : Stage.runAll db pipeline ((db r.related.collection).filter
      fun e => Filter.equals e there .null) = .ok found) :
    ∃ d, Stage.runAll db [r.relatedLookup here there pipeline] [owner] = .ok [d] ∧
      r.Holds d found := by
  rw [← Stage.joined_of_lacks hkey] at h
  refine ⟨_, ?_, howner.insert _ _, Document.get?_insert_self _ _ _⟩
  rw [Stage.runAll_singleton, relatedLookup]
  exact Stage.run_lookup halias h

theorem run_lookupsThrough_of_lacks {suffix source here there onward target : String}
    {conditions : List Json} (hsuffix : IsField suffix) (hkey : owner.Lacks here)
    (hconditions : ∀ d : Document, ∀ e ∈ conditions, ∃ found, Expression.eval d e = .ok found)
    (h : Stage.runAll db pipeline ((db r.related.collection).filter
      (reachedFrom (between db source there .null conditions) onward target)) = .ok found) :
    ∃ d, Stage.runAll db
        (r.lookupsThrough suffix source here there conditions onward target pipeline) [owner] =
          .ok [d] ∧ r.Holds d found := by
  have hrows : Stage.runAll db (conditionStages conditions)
      (Stage.joined (db source) (some (here, there)) owner) =
        .ok (between db source there .null conditions) := by
    rw [Stage.joined_of_lacks hkey, ← List.append_nil (conditionStages conditions),
      run_conditionStages fun e he d _ => hconditions d e he]
    rfl
  refine ⟨_, run_lookupsThrough_of_rows halias hsuffix hrows fun d hd => ?_,
    holds_erase_temporary (howner.insert _ _) suffix found⟩
  have hjoined : Stage.joined (db r.related.collection)
      (some (r.temporary suffix ++ "." ++ onward, target)) d = (db r.related.collection).filter
        (reachedFrom (between db source there .null conditions) onward target) := by
    refine List.filter_congr fun e _ => ?_
    rw [Stage.agree, Document.joinValues_through (isField_temporary halias hsuffix) hd,
      reachedFrom]
  rw [hjoined]
  exact h

/-- The lookups of a relation put the strays, after the pipeline of the related side, under the
alias of an owner without a key. -/
theorem run_joinStages_of_lacks (hfit : r.keysFit = true) (hnames : r.NoOperators)
    (hkey : owner.Lacks r.ownerKey)
    (h : Stage.runAll db pipeline (r.strays db) = .ok found) :
    ∃ d, Stage.runAll db (r.joinStages pipeline) [owner] = .ok [d] ∧ r.Holds d found := by
  rw [strays] at h
  cases hkeys : r.keys with
  | owning foreignKey localKey =>
    simp only [ownerKey, hkeys] at hkey
    simp only [hkeys] at h
    rw [joinStages, hkeys]
    exact run_directLookup_of_lacks halias howner hkey h
  | inverse foreignKey relatedKey =>
    simp only [ownerKey, hkeys] at hkey
    simp only [hkeys] at h
    rw [joinStages, hkeys]
    exact run_directLookup_of_lacks halias howner hkey h
  | morph typeField idField localKey =>
    simp only [ownerKey, hkeys] at hkey
    simp only [hkeys] at h
    rw [joinStages, hkeys]
    exact run_directLookup_of_lacks halias howner hkey h
  | pivot keys =>
    simp only [ownerKey, hkeys] at hkey
    simp only [hkeys] at h
    rw [joinStages, hkeys]
    exact run_lookupsThrough_of_lacks halias howner (by decide) hkey
      (hnames.exists_eval_pivot hkeys) h
  | through firstKey secondKey localKey secondLocalKey =>
    obtain ⟨m, hm⟩ := exists_through hfit hkeys
    simp only [ownerKey, hkeys] at hkey
    simp only [hkeys, hm] at h
    simp only [joinStages, hkeys, hm]
    have hmarker : ∀ f, (m.policy .hidden).field = some f → startsDollar f = false := fun f hf =>
      hnames.fields f (throughMarker_mem_fieldNames hm hf)
    exact run_lookupsThrough_of_lacks halias howner (by decide) hkey
      (TrashedPolicy.exists_eval_condition hmarker) h

end Lookups

/-! ## How many documents are shown -/

section Shown

variable {P : Document → Prop}

/-- Including fields of documents keeps their number. -/
theorem length_loadedItems_apply {nodes : List (String × Inclusion)} {root : Document} {v w : Json}
    (hv : ∀ item ∈ Entity.loadedItems v, ∃ e, item = .object e ∧ P e)
    (h : (Inclusion.fields nodes).apply root (some v) = .ok (some w)) :
    (Entity.loadedItems w).length = (Entity.loadedItems v).length := by
  rcases cases_of_items hv with rfl | ⟨docs, rfl, -⟩ | ⟨e, rfl, -⟩
  · cases h
  · obtain ⟨shown, rfl, hshown⟩ := exists_of_apply_documents h
    simpa [Entity.loadedItems] using hshown.length_eq.symm
  · rw [Inclusion.apply] at h
    obtain ⟨projected, -, h⟩ := bind_eq_ok.mp h
    cases h
    rfl

variable {nested : List EagerAlias} (halias : IsField r.aliasName)
  (hsaved : r.aliasName ≠ savedField)
  (hdocs : ∀ d ∈ docs, d.Unique ∧ d.EachUnder r.aliasName P)

include halias hsaved hdocs

/-- Leaving out what is not to be shown keeps the owners, and the number of documents that each
holds under the alias. -/
theorem forall₂_shown (h : Stage.runAll db (r.projectionStages nested) docs = .ok out) :
    List.Forall₂ (fun d d' => (Entity.loadedItems ((d'.get? r.aliasName).getD .null)).length =
      (Entity.loadedItems ((d.get? r.aliasName).getD .null)).length) docs out := by
  have hshown := forall₂_shows halias hsaved (fun d hd => (hdocs d hd).1) h
  refine ((List.forall₂_and_left docs out).mpr ⟨hdocs, hshown⟩).imp ?_
  rintro d d' ⟨⟨-, hunder⟩, hshows⟩
  cases hshows with
  | removed =>
    rw [get?_removeAll_under halias]
    cases d.get? r.aliasName with
    | none => rfl
    | some v =>
      show (Entity.loadedItems (List.foldl _ v _)).length = (Entity.loadedItems v).length
      rw [loadedItems_foldl_removeAt, List.length_map]
  | nothing => rfl
  | missing => rfl
  | included _ _ hfound =>
    rw [Document.get?_insert_self]
    cases hget : d.get? r.aliasName with
    | none =>
      rw [hget] at hfound
      cases hfound
    | some v =>
      rw [hget] at hfound
      exact length_loadedItems_apply (hunder v (Document.mem_of_get? hget)) hfound

end Shown

theorem length_relatedUnder {name : String} {docs out : List Document}
    (h : List.Forall₂ (fun d d' : Document =>
      (Entity.loadedItems ((d'.get? name).getD .null)).length =
        (Entity.loadedItems ((d.get? name).getD .null)).length) docs out) :
    (relatedUnder name out).length = (relatedUnder name docs).length := by
  induction h with
  | nil => rfl
  | cons hab _ ih =>
    rw [relatedUnder, relatedUnder, List.flatMap_cons, List.flatMap_cons, List.length_append,
      List.length_append, hab]
    exact congrArg _ ih

/-! ## Trees of loads -/

theorem unwound_ne_nil (path : String) (d : Document) : Stage.unwound path true d ≠ [] := by
  rw [Stage.unwound]
  split
  · exact List.cons_ne_nil _ _
  · next items hne _ => exact fun h => hne (List.map_eq_nil_iff.mp h)
  · exact List.cons_ne_nil _ _
  · exact List.cons_ne_nil _ _
  · exact List.cons_ne_nil _ _

/-- Loading a relation loses no owner and brings in none. -/
theorem loadWith_eq_nil_iff {nested : Loaded} (hvalid : r.validate = .ok ())
    (hsaved : r.aliasName ≠ savedField) (hdocs : ∀ d ∈ docs, d.Unique)
    (h : Stage.runAll db (r.loadWith nested) docs = .ok out) : out = [] ↔ docs = [] := by
  obtain ⟨-, halias⟩ := validate_eq_ok hvalid
  obtain ⟨joined, unwound, hparts⟩ := exists_parts hvalid hdocs h
  have hjoined := hparts.joins.length_eq
  have hshown := (forall₂_shown halias hsaved hparts.unwoundDocs hparts.project).length_eq
  have hunwound : unwound = [] ↔ joined = [] := by
    have hunwind := hparts.unwind
    rw [unwindStages] at hunwind
    split at hunwind
    · rw [Stage.runAll_singleton] at hunwind
      cases hunwind
      rw [List.flatMap_eq_nil_iff, List.eq_nil_iff_forall_not_mem]
      exact forall₂_congr fun d _ => iff_of_false (unwound_ne_nil _ d) not_false
    · cases hunwind
      rfl
  rw [← List.length_eq_zero_iff, ← hshown, List.length_eq_zero_iff, hunwound,
    ← List.length_eq_zero_iff, ← hjoined, List.length_eq_zero_iff]

/-- Loading a tree of relations loses no owner and brings in none. -/
theorem loadAll_eq_nil_iff {schema : Schema} (hdb : ∀ source, ∀ d ∈ db source, d.Unique)
    {owner : Model} {seen : List (String × String)} {loads : List EagerLoad} {loaded : Loaded}
    (hload : loadAll schema owner seen loads = .ok loaded)
    (hsaved : savedField ∉ EagerAlias.allNames loaded.aliases) (hdocs : ∀ d ∈ docs, d.Unique)
    (h : Stage.runAll db loaded.stages docs = .ok out) : out = [] ↔ docs = [] := by
  induction owner, seen, loads using loadAll.induct generalizing loaded docs out with
  | case1 owner seen =>
    rw [loadAll] at hload
    cases hload
    cases h
    rfl
  | case2 owner seen name options children rest _ ihRest =>
    obtain ⟨r, nested, others, -, -, hvalid, hnested, hothers, rfl⟩ := loadAll_cons_eq_ok hload
    obtain ⟨halias, hsavedNested, hsavedOthers⟩ := not_mem_allNames_cons.mp hsaved
    obtain ⟨mid, hmid, h⟩ := Stage.runAll_append_eq_ok.mp h
    have hunique := unique_of_loadWith hdb hvalid halias hnested hsavedNested hdocs hmid
    rw [ihRest r hothers hsavedOthers hunique h]
    exact loadWith_eq_nil_iff hvalid halias hdocs hmid

end Relation

/-! ## Reading through a handle -/

/-- A projection with all entries switched on can be read. -/
theorem Projection.exists_ofSpec_on (keys : List String) :
    ∃ p, ofSpec (Stage.entries keys (.int 1)) = .ok p := by
  have hon := fun e (he : e ∈ Stage.entries keys (.int 1)) => Stage.value_of_mem_entries he
  rw [ofSpec]
  split
  · exact ⟨_, rfl⟩
  · show ∃ p, (treeOf _ _).map inclusion = .ok p
    rw [treeOf_on hon]
    exact ⟨_, rfl⟩

namespace RelationHandle

open DocMapper.Relation

variable {r : Relation} {s : Store} {owner : Document}

theorem ownerValue?_of_lacks {h : RelationHandle} {key : String} (hkey : h.owner.Lacks key) :
    h.ownerValue? key = none := by
  rw [ownerValue?]
  cases hget : h.owner.get? key with
  | none => rfl
  | some v =>
    obtain rfl := hkey.get v hget
    rfl

/-- The scope of a handle whose owner lacks the key is a condition that nothing meets. -/
theorem scope_of_lacks (hfit : r.keysFit = true) (hkey : owner.Lacks r.ownerKey) :
    ∃ column ∈ r.fieldNames,
      scope ⟨r, owner, r.related.query⟩ s = .ok [⟨.and, column, .isIn []⟩] := by
  have hnone : ∀ key, owner.Lacks key →
      ownerValue? ⟨r, owner, r.related.query⟩ key = none := fun _ h => ownerValue?_of_lacks h
  cases hkeys : r.keys with
  | owning foreignKey localKey =>
    simp only [ownerKey, hkeys] at hkey
    refine ⟨foreignKey, by simp [fieldNames, hkeys], ?_⟩
    simp only [scope, hkeys, hnone _ hkey]
    rfl
  | inverse foreignKey relatedKey =>
    simp only [ownerKey, hkeys] at hkey
    refine ⟨relatedKey, by simp [fieldNames, hkeys], ?_⟩
    simp only [scope, hkeys, hnone _ hkey]
    rfl
  | morph typeField idField localKey =>
    simp only [ownerKey, hkeys] at hkey
    refine ⟨idField, by simp [fieldNames, hkeys], ?_⟩
    simp only [scope, hkeys, hnone _ hkey]
    rfl
  | pivot keys =>
    simp only [ownerKey, hkeys] at hkey
    refine ⟨keys.relatedKey, by simp [fieldNames, hkeys], ?_⟩
    simp only [scope, hkeys, hnone _ hkey]
    rfl
  | through firstKey secondKey localKey secondLocalKey =>
    obtain ⟨m, hm⟩ := exists_through hfit hkeys
    simp only [ownerKey, hkeys] at hkey
    refine ⟨secondKey, by simp [fieldNames, hkeys], ?_⟩
    simp only [scope, hkeys, hm, hnone _ hkey]
    rfl

/-- A stage that shows fields has nothing to show of no documents. -/
theorem run_projectionStage_nil (db : Collections) (terms : List Term) :
    Stage.runAll db (Query.projectionStage?
      { r.queryFor terms with select := r.options.select } []).toList [] = .ok [] := by
  cases hselect : r.options.select with
  | none => exact run_exclusion r.options r.related.hidden db []
  | some fields =>
    obtain ⟨p, hp⟩ := Projection.exists_ofSpec_on (fields ++ [])
    show Stage.runAll db [.project (Stage.entries (fields ++ []) (.int 1))] [] = .ok []
    rw [Stage.runAll_singleton, Stage.run, hp]
    rfl

/-- A handle finds nothing if nothing meets a condition of its scope. -/
theorem get_of_scope_isIn_nil {column : String} (hcolumn : startsDollar column = false)
    (hmarker : ∀ f, (r.related.policy r.trashed).field = some f → startsDollar f = false)
    (hscope : scope ⟨r, owner, r.related.query⟩ s = .ok [⟨.and, column, .isIn []⟩])
    (schema : Schema) : get schema s ⟨r, owner, r.related.query⟩ = .ok [] := by
  have hterms : ∀ t ∈ [(⟨.and, column, .isIn []⟩ : Term)], t.Ties :=
    List.forall_mem_singleton.mpr (.isIn hcolumn [])
  have hnone : ∀ docs : List Document,
      (docs.filter fun d => [(⟨.and, column, .isIn []⟩ : Term)].all (Term.meets d)) = [] :=
    fun docs => List.filter_eq_nil_iff.mpr fun d _ => by simp [Term.meets, Term.wanted]
  obtain ⟨found, hfound⟩ := exists_window r.options s.documents []
  obtain rfl : found = [] := List.eq_nil_iff_forall_not_mem.mpr fun e he =>
    List.not_mem_nil (mem_of_windowStages hfound e he)
  have hnothing : Stage.runAll s.documents (windowStages r.options)
      (((s.documents r.related.collection).filter (r.related.policy r.trashed).sees).filter
        fun d => [(⟨.and, column, .isIn []⟩ : Term)].all (Term.meets d)) = .ok [] := by
    rw [hnone, hfound]
  exact get_of_found hmarker hscope hterms hnothing (run_projectionStage_nil s.documents _)

/-- A handle of an owner without a key finds nothing. -/
theorem get_of_lacks (hfit : r.keysFit = true) (hnames : r.NoOperators)
    (hkey : owner.Lacks r.ownerKey) (schema : Schema) (s : Store) :
    get schema s ⟨r, owner, r.related.query⟩ = .ok [] := by
  obtain ⟨column, hcolumn, hscope⟩ := scope_of_lacks (s := s) hfit hkey
  exact get_of_scope_isIn_nil (hnames.fields column hcolumn)
    (fun f hf => hnames.fields f (marker_mem_fieldNames hf)) hscope schema

end RelationHandle

namespace Relation

variable {r : Relation} {schema : Schema}

/-- An owner without a key is loaded without related documents exactly if the relation lets no stray
through; a handle finds none in any case. -/
theorem load_lacking {loads : List EagerLoad} {loaded : List Stage × EagerAlias}
    (hload : load schema r loads = .ok loaded) (hnames : r.NoOperators)
    (hnested : NoOperatorsAll schema r.related loads) (hdollar : startsDollar r.aliasName = false)
    (hsaved : savedField ∉ loaded.2.names) {s : Store}
    (hs : ∀ source, ∀ d ∈ s.documents source, d.Unique) {owner : Document} (howner : owner.Unique)
    (hkey : owner.Lacks r.ownerKey) :
    ∃ kept out, Stage.runAll s.documents (windowStages r.options)
        ((r.strays s.documents).filter r.keeps) = .ok kept ∧
      Stage.runAll s.documents loaded.1 [owner] = .ok out ∧
      (relatedUnder r.aliasName out = [] ↔ kept = []) ∧
      RelationHandle.get schema s ⟨r, owner, r.related.query⟩ = .ok [] := by
  obtain ⟨⟨⟩, hvalid, h⟩ := bind_eq_ok.mp hload
  obtain ⟨nested, hloads, h⟩ := bind_eq_ok.mp h
  cases h
  have hvalid := mapError_eq_ok.mp hvalid
  obtain ⟨hfit, halias⟩ := validate_eq_ok hvalid
  rw [aliasWith, EagerAlias.names, List.mem_cons, not_or] at hsaved
  -- What the pipeline of the related side makes of the strays.
  obtain ⟨kept, hkept⟩ := exists_window r.options s.documents
    ((r.strays s.documents).filter r.keeps)
  have hstray : ∀ e ∈ kept, e ∈ s.documents r.related.collection := fun e he =>
    (List.mem_filter.mp (List.mem_filter.mp (mem_of_windowStages hkept e he)).1).1
  have hunique : ∀ e ∈ kept, e.Unique := fun e he => hs _ e (hstray e he)
  obtain ⟨found, hfound⟩ := exists_run_loadAll hs hloads hnested hsaved.2 hunique
  have hpipeline : Stage.runAll s.documents (r.relatedPipeline nested.stages)
      (r.strays s.documents) = .ok found := by
    rw [run_relatedPipeline fun e he d _ => hnames.exists_eval_related d e he,
      Stage.runAll_append_ok hkept, hfound]
  obtain ⟨joined, hjoined, hholds⟩ :=
    run_joinStages_of_lacks halias howner hfit hnames hkey hpipeline
  obtain ⟨unwound, hunwound, hunder⟩ := run_unwindStages s.documents halias hholds
  have hjoin := step_joinStages (P := fun _ => True) halias (List.forall_mem_singleton.mpr howner)
    (fun _ _ _ _ _ _ => trivial) hfit hjoined
  have heach := (step_unwindStages halias hjoin.each hunwound).each
  obtain ⟨out, hout⟩ :
      ∃ out, Stage.runAll s.documents (r.projectionStages nested.aliases) unwound = .ok out :=
    exists_run_projectionStages halias hdollar (Ne.symm hsaved.1) fun d hd => (heach d hd).1
  refine ⟨kept, out, hkept, ?_, ?_, RelationHandle.get_of_lacks hfit hnames hkey schema s⟩
  · show Stage.runAll s.documents (r.joinStages _ ++ r.unwindStages ++ _) [owner] = .ok out
    rw [List.append_assoc, Stage.runAll_append_ok hjoined, Stage.runAll_append_ok hunwound, hout]
  · have hlength := length_relatedUnder (forall₂_shown halias (Ne.symm hsaved.1) heach hout)
    rw [hunder, List.length_map] at hlength
    rw [← List.length_eq_zero_iff, hlength, List.length_eq_zero_iff]
    exact loadAll_eq_nil_iff hs hloads hsaved.2 hunique hfound

end Relation

/-! ## The accounts of a user without an email -/

namespace AccountSample

open AuthorSample (userModel)

/-- The accounts that hold the email of a user. -/
def accounts : Relation where
  kind := .hasMany
  name := "accounts"
  owner := userModel
  related := ⟨"Account", "accounts", "uid", none, none, []⟩
  keys := .owning "ownerRef" "email"

def ann : Document := [("_id", .string "ann"), ("name", .string "Ann")]

/-- The account of another user. -/
def owned : Document := [("uid", .string "a"), ("ownerRef", .string "bob")]

/-- The account of nobody. -/
def orphan : Document := [("uid", .string "b")]

def schema : Schema := ⟨fun model => if model = "User" then [("accounts", accounts)] else []⟩

def storeOf (docs : List Document) : Store where
  collections := [("users", [ann]), ("accounts", docs)]
  ids := ⟨fun n => ⟨BitVec.ofNat 128 n⟩, 0⟩

theorem load_accounts :
    accounts.load schema [] = .ok (accounts.loadWith {}, accounts.aliasWith {}) := by
  rw [Relation.load, Relation.loadAll]
  rfl

theorem ann_lacks_email : ann.Lacks accounts.ownerKey :=
  Document.lacks_of_field (by decide) nofun

/-- A user without an email has no accounts if each of them belongs to somebody. -/
theorem owned_account_not_loaded :
    ∃ out, Stage.runAll (storeOf [owned]).documents (accounts.loadWith {}) [ann] = .ok out ∧
      Relation.relatedUnder "accounts" out = [] ∧
      RelationHandle.get schema (storeOf [owned]) ⟨accounts, ann, accounts.related.query⟩ =
        .ok [] := by
  have hunique : ∀ source, ∀ d ∈ (storeOf [owned]).documents source, d.Unique :=
    Store.forall_documents (by decide)
  obtain ⟨kept, out, hkept, hout, hiff, hget⟩ := Relation.load_lacking load_accounts
    ⟨by decide, by decide⟩ (by simp [Relation.NoOperatorsAll]) (by decide) (by decide) hunique
    (by decide) ann_lacks_email
  have hnone : Stage.runAll (storeOf [owned]).documents (Relation.windowStages accounts.options)
      ((accounts.strays (storeOf [owned]).documents).filter accounts.keeps) = .ok [] := rfl
  exact ⟨out, hout, hiff.mpr (Except.ok.inj (hkept.symm.trans hnone)), hget⟩

/-- An account that belongs to nobody is loaded with a user without an email, whose handle finds
none. -/
theorem orphan_account_loaded :
    ∃ loaded out, accounts.load schema [] = .ok loaded ∧ ann.Lacks accounts.ownerKey ∧
      Stage.runAll (storeOf [orphan]).documents loaded.1 [ann] = .ok out ∧
      Relation.relatedUnder "accounts" out = [.object orphan] ∧
      RelationHandle.get schema (storeOf [orphan]) ⟨accounts, ann, accounts.related.query⟩ =
        .ok [] :=
  ⟨_, _, load_accounts, ann_lacks_email, rfl, rfl,
    RelationHandle.get_of_lacks rfl ⟨by decide, by decide⟩ ann_lacks_email schema _⟩

end AccountSample

end DocMapper
