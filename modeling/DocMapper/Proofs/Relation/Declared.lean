import DocMapper.Proofs.Relation.Batch
import DocMapper.Proofs.Relation.Predicates
import DocMapper.Proofs.Relation.Spelling

/-! # Declaring a relation from a handle

A relation may be declared from a handle, and is then loaded by its name. A handle is more than its
relation, since a caller may have added conditions to it. The two ways of using it part there:

  * declaring takes the relation alone (`Relation.loadAll_declare`), so loading by the name attaches
    what is tied to the owner, sorted and limited, whatever the caller asked for;
  * reading keeps what meets the caller's conditions before it sorts and limits
    (`Relation.get_handleFor`).

So the two find the same documents if all that is tied to the owner meets the conditions, and where
nothing is skipped or limited, only then (`Relation.declared_without_conditions`). -/

namespace DocMapper

/-! ## Loading by name -/

/-- A relation under another name. -/
def Relation.named (r : Relation) (name : String) : Relation := { r with name }

theorem Registry.lookup_define (registry : Registry) (name : String) (r : Relation) :
    (registry.define name r).lookup name = some (r.named name) := by
  induction registry with
  | nil => exact List.lookup_cons_self
  | cons entry rest ih =>
    obtain ⟨n, old⟩ := entry
    rw [define]
    split
    · exact List.lookup_cons_self
    · next hne =>
      have hbeq : (name == n) = false := beq_eq_false_iff_ne.mpr (Ne.symm hne)
      rw [List.lookup_cons, hbeq]
      exact ih

namespace Relation

variable {r : Relation} {name : String}

/-- A relation that was declared from a handle is loaded as the relation of the handle. -/
theorem loadAll_declare {h : RelationHandle} (hvalid : (h.relation.named name).validate = .ok ())
    (schema : Schema) :
    loadAll (schema.declare name h) h.relation.owner [] [⟨name, none, []⟩] =
      .ok ⟨(h.relation.named name).loadWith {}, [(h.relation.named name).aliasWith {}]⟩ := by
  have hresolve : (schema.declare name h).resolve h.relation.owner name =
      .ok (h.relation.named name) := by
    rw [Schema.resolve, Schema.declare]
    simp only [if_pos]
    rw [Registry.resolve, Registry.lookup_define]
    simp only
    rw [hvalid]
    rfl
  rw [loadAll, requested, hresolve]
  simp only [ok_bind, pure_bind, List.lookup_nil]
  rw [hvalid]
  simp [loadAll_nil, pure, Except.pure]

end Relation

/-! ## Reading through the handle -/

/-- Whether a document meets conditions; all do if there are none. -/
def Term.admits (terms : List Term) (d : Document) : Bool :=
  match Term.filterAll terms with
  | .ok (some filter) => (Filter.accepts d filter).toOption.getD false
  | _ => true

/-- Whether a document meets the conditions that callers added to a handle. -/
def RelationHandle.wants (h : RelationHandle) (d : Document) : Bool :=
  Term.admits h.query.conditions d

namespace Query

/-- What a query makes of the documents of its scope: those that meet its conditions, in its order
and window, and of these what its last stage shows. -/
def choose (q : Query) (db : Collections) (docs : List Document) :
    Except QueryFault (List Document) := do
  q.check
  let conditions ← conditionStage? q.conditions
  Stage.runAll db (conditions.toList ++ q.windowStages ++ (q.projectionStage? []).toList) docs

variable {q : Query} {db : Collections} {docs out : List Document}

/-- The stage of conditions keeps the documents that meet them. -/
theorem kept_eq_filter {terms : List Term} {conditions : Option Stage} {kept : List Document}
    (h : conditionStage? terms = .ok conditions)
    (hkept : Stage.runAll db conditions.toList docs = .ok kept) :
    kept = docs.filter (Term.admits terms) := by
  obtain ⟨filter, hfilter, rfl⟩ := map_eq_ok.mp h
  cases filter with
  | none =>
    cases hkept
    exact (List.filter_eq_self.mpr fun d _ => by rw [Term.admits, hfilter]).symm
  | some filter =>
    rw [Option.map_some, Option.toList_some, Stage.runAll_singleton, Stage.run, Stage.matching]
      at hkept
    have hadmits : ∀ d ∈ docs, Filter.accepts d filter = .ok (Term.admits terms d) := by
      intro d hd
      obtain ⟨b, hb⟩ := filterM_succeeds_iff.mp ⟨kept, hkept⟩ d hd
      rw [Term.admits, hfilter]
      simp only [hb]
      rfl
    exact Except.ok.inj (hkept.symm.trans (filterM_ok hadmits))

/-- A query that makes something of documents shows those that meet its conditions, sorted and
limited. -/
theorem exists_of_choose (h : q.choose db docs = .ok out) :
    ∃ found, Stage.runAll db q.windowStages (docs.filter (Term.admits q.conditions)) = .ok found ∧
      Stage.runAll db (q.projectionStage? []).toList found = .ok out := by
  obtain ⟨⟨⟩, -, h⟩ := bind_eq_ok.mp h
  obtain ⟨conditions, hconditions, h⟩ := bind_eq_ok.mp h
  obtain ⟨found, hfound, hout⟩ := Stage.runAll_append_eq_ok.mp h
  obtain ⟨kept, hkept, hfound⟩ := Stage.runAll_append_eq_ok.mp hfound
  obtain rfl := kept_eq_filter hconditions hkept
  exact ⟨found, hfound, hout⟩

/-- A query whose scope ties documents chooses among those that are seen and tied. -/
theorem get_eq_choose {schema : Schema} {s : Store} (heager : q.eager = [])
    (hmarker : ∀ f, (q.model.policy q.trashed).field = some f → startsDollar f = false)
    (hterms : ∀ t ∈ q.scope, t.Ties) :
    q.get schema s = ((q.choose s.documents
        (((s.documents q.model.collection).filter (q.model.policy q.trashed).sees).filter
          fun d => q.scope.all (Term.meets d))).mapError Error.query).map
      fun docs => docs.map fun d => Entity.ofDocument q.model d [] := by
  obtain ⟨stage, hstage, hrun⟩ := run_conditionStage hterms
  have hloaded : q.loaded schema = .ok {} := by rw [loaded, heager, Relation.loadAll_nil]
  have hchoose : (q.stagesWith {} q.windowStages [] >>= fun stages =>
      Stage.runAll s.documents (stages ++ (q.projectionStage? []).toList)
        (s.documents q.model.collection)) = q.choose s.documents
        (((s.documents q.model.collection).filter (q.model.policy q.trashed).sees).filter
          fun d => q.scope.all (Term.meets d)) := by
    rw [stagesWith, choose, hstage, readsAlias_nil]
    cases q.check with
    | error fault => rfl
    | ok _ =>
      cases conditionStage? q.conditions with
      | error fault => rfl
      | ok conditions =>
        show Stage.runAll s.documents ((q.model.policy q.trashed).stage?.toList ++ stage.toList ++
          conditions.toList ++ q.windowStages ++ [] ++ _) _ = _
        simp only [List.append_nil, List.append_assoc]
        rw [TrashedPolicy.runAll_stage hmarker, hrun]
        simp only [ok_bind]
  rw [get_eq hloaded, hchoose]

end Query

namespace Relation

/-- The related documents that pass a test and that the conditions of the relation keep. -/
def kept (r : Relation) (s : Store) (test : Document → Bool) : List Document :=
  ((s.documents r.related.collection).filter test).filter r.keeps

/-- The handle of a stored document on a relation, after calls that add conditions. -/
def handleFor (r : Relation) (owner : Document) (calls : List Predicate) : RelationHandle :=
  (RelationHandle.ofEntity r (Entity.ofDocument r.owner owner [])).addingAll calls

variable {r : Relation} {s : Store} {owner : Document} {v : Json}

/-- Calls that add conditions leave what the options of the relation ask for as it is. -/
theorem baseQuery_handleFor (r : Relation) (owner : Document) (calls : List Predicate) :
    (r.handleFor owner calls).baseQuery =
      { r.queryFor [] with
        select := r.options.select
        conditions := (r.handleFor owner calls).query.conditions
        fault := (r.handleFor owner calls).query.fault } := by
  obtain ⟨conditions, fault, hcalls⟩ := r.related.query.exists_addingAll calls
  have hquery : (r.handleFor owner calls).query = { r.related.query with conditions, fault } :=
    hcalls
  have hbase := RelationHandle.baseQuery_of_conditions (h := ⟨r, owner, r.related.query⟩)
    (f := (·.addingAll calls)) hcalls
  rw [RelationHandle.baseQuery_eq] at hbase
  rw [hquery]
  exact hbase

/-- A handle with conditions chooses among the documents that are tied to its owner in canonical
form. -/
theorem get_handleFor (hfit : r.keysFit = true) (hnames : r.PlainNames) (hkeyed : r.Keyed s)
    (hkey : owner.get? r.ownerKey = some v) (hv : v.IsKey) (calls : List Predicate)
    (schema : Schema) :
    (r.handleFor owner calls).get schema s =
      (((r.handleFor owner calls).baseQuery.choose s.documents
          (r.kept s (r.asked s.documents v))).mapError Error.query).map
        fun docs => docs.map fun d => Entity.ofDocument r.related d [] := by
  obtain ⟨terms, hscope, hterms, hmeets⟩ :=
    RelationHandle.exists_scope_of_keyed hfit hnames hkeyed hkey hv
  have hscope : (r.handleFor owner calls).scope s = .ok terms := hscope
  have hresolve : (r.handleFor owner calls).resolve s =
      .ok ((r.handleFor owner calls).baseQuery.scopedBy terms) := by
    rw [RelationHandle.resolve, hscope]
    rfl
  rw [RelationHandle.get_of_resolve hresolve, kept, filter_keeps_eq hnames hkeyed hmeets,
    baseQuery_handleFor]
  exact Query.get_eq_choose rfl (fun f hf => (isPlain_marker hnames r.trashed f hf).noDollar) hterms

end Relation

/-! ## Both ways -/

namespace RelationOptions

theorem length_sorted (o : RelationOptions) (docs : List Document) :
    (o.sorted docs).length = docs.length := by
  rw [sorted]
  cases o.sort with
  | none => rfl
  | some key => exact List.length_mergeSort docs

/-- Where nothing is skipped or limited, options keep all documents. -/
theorem length_window {o : RelationOptions} (hskip : o.skip = none) (hlimit : o.limit = none)
    (docs : List Document) : (o.window docs).length = docs.length := by
  rw [window, hskip, hlimit]
  exact length_sorted o docs

end RelationOptions

namespace Relation

variable {r : Relation} {s : Store} {name : String} {owner : Document} {v : Json}

/-- What a relation declared from a handle loads for the owner of the handle, and what the handle
reads. -/
structure TwoWays (schema : Schema) (s : Store) (r : Relation) (name : String) (owner : Document)
    (v : Json) (calls : List Predicate) : Prop where
  /-- Loading by the name loads the relation of the handle. -/
  loads : loadAll (schema.declare name (r.handleFor owner calls)) r.owner [] [⟨name, none, []⟩] =
    .ok ⟨(r.named name).loadWith {}, [(r.named name).aliasWith {}]⟩
  /-- That attaches what is tied to the owner's key, sorted and limited. -/
  attaches : (r.named name).Attaches s owner (r.options.window (r.kept s (r.tied s.documents v)))
  /-- Reading chooses among what is tied to the owner's key in canonical form. -/
  reads : (r.handleFor owner calls).get schema s =
    (((r.handleFor owner calls).baseQuery.choose s.documents
        (r.kept s (r.asked s.documents v))).mapError Error.query).map
      fun docs => docs.map fun d => Entity.ofDocument r.related d []
  /-- If no fields are selected, the one shows what it attaches, and the other what the caller
  wants. -/
  shows : r.options.select = none → ∀ answer, (r.handleFor owner calls).get schema s = .ok answer →
    ∃ out, Stage.runAll s.documents ((r.named name).loadWith {}) [owner] = .ok out ∧
      relatedUnder (r.named name).aliasName out =
        (r.options.window (r.kept s (r.tied s.documents v))).map (fun d => .object (r.shown d)) ∧
      answer.map (fun e => Json.object e.attributes) =
        (r.options.window ((r.kept s (r.asked s.documents v)).filter
          (r.handleFor owner calls).wants)).map fun d => Json.object (r.shown d)
  /-- Where the same is tied in either way, they show the same if the caller wants all of that, and
  only then if nothing is skipped or limited. -/
  agree : r.options.select = none →
    r.kept s (r.tied s.documents v) = r.kept s (r.asked s.documents v) → ∀ answer out,
      (r.handleFor owner calls).get schema s = .ok answer →
      Stage.runAll s.documents ((r.named name).loadWith {}) [owner] = .ok out →
        ((∀ d ∈ r.kept s (r.tied s.documents v), (r.handleFor owner calls).wants d = true) →
          relatedUnder (r.named name).aliasName out =
            answer.map fun e => Json.object e.attributes) ∧
        (r.options.skip = none → r.options.limit = none →
          (relatedUnder (r.named name).aliasName out =
            answer.map fun e => Json.object e.attributes) →
          ∀ d ∈ r.kept s (r.tied s.documents v), (r.handleFor owner calls).wants d = true)

variable {calls : List Predicate} {db : Collections} {docs out : List Document}

/-- What a handle with conditions makes of documents, if no fields are selected. -/
theorem eq_of_choose (hselect : r.options.select = none)
    (h : (r.handleFor owner calls).baseQuery.choose db docs = .ok out) :
    out = (r.options.window (docs.filter (r.handleFor owner calls).wants)).map r.shown := by
  rw [baseQuery_handleFor] at h
  obtain ⟨found, hfound, hout⟩ := Query.exists_of_choose h
  have hwindow := windowStages_queryFor r []
  rw [Query.windowStages] at hfound hwindow
  rw [hwindow, run_windowStages, Except.ok.injEq] at hfound
  have hshown := run_exclusion r.options r.related.hidden db found
  rw [Query.projectionStage?, hselect] at hout
  obtain rfl := Except.ok.inj (hshown.symm.trans hout)
  rw [← hfound]
  rfl

/-- What a handle with conditions shows, if no fields are selected: of what is tied to its owner,
what the caller wants, sorted and limited. -/
theorem shown_of_get {schema : Schema} {answer : List Entity} (hselect : r.options.select = none)
    (hfit : r.keysFit = true) (hnames : r.PlainNames) (hkeyed : r.Keyed s)
    (hkey : owner.get? r.ownerKey = some v) (hv : v.IsKey)
    (hget : (r.handleFor owner calls).get schema s = .ok answer) :
    answer.map (fun e => Json.object e.attributes) =
      (r.options.window ((r.kept s (r.asked s.documents v)).filter
        (r.handleFor owner calls).wants)).map fun d => Json.object (r.shown d) := by
  rw [get_handleFor hfit hnames hkeyed hkey hv] at hget
  obtain ⟨docs, hdocs, rfl⟩ := map_eq_ok.mp hget
  rw [eq_of_choose hselect (mapError_eq_ok.mp hdocs), List.map_map, List.map_map]
  rfl

theorem load_of_validate (hvalid : r.validate = .ok ()) (schema : Schema) :
    load schema r [] = .ok (r.loadWith {}, r.aliasWith {}) := by
  rw [load, hvalid, loadAll]
  rfl

/-- **Declaring takes the relation of a handle, and not the conditions of its caller.** What the
declared relation loads for the owner of the handle, and what the handle reads. -/
theorem declared_without_conditions (hvalid : (r.named name).validate = .ok ())
    (hnames : r.PlainNames) (hkeyed : r.Keyed s) (howner : owner.Unique)
    (hkey : owner.get? r.ownerKey = some v) (hv : v.IsKey) (schema : Schema)
    (calls : List Predicate) : TwoWays schema s r name owner v calls := by
  obtain ⟨hfit, halias⟩ := validate_eq_ok hvalid
  have hfit' : r.keysFit = true := hfit
  have hnames' : (r.named name).PlainNames := ⟨hnames.fields, hnames.types⟩
  have hkeyed' : (r.named name).Keyed s :=
    ⟨hkeyed.keys, hkeyed.types, hkeyed.markers, hkeyed.throughMarkers⟩
  have hattaches : (r.named name).Attaches s owner
      (r.options.window (r.kept s (r.tied s.documents v))) :=
    attaches hfit halias hnames' hkeyed' howner hkey hv (run_windowStages _ _ _)
  have hloads : r.options.select = none → ∃ out,
      Stage.runAll s.documents ((r.named name).loadWith {}) [owner] = .ok out ∧
      relatedUnder (r.named name).aliasName out =
        (r.options.window (r.kept s (r.tied s.documents v))).map
          fun d => .object (r.shown d) := by
    intro hselect
    obtain ⟨loaded, out, hload, hout, hunder⟩ := hattaches.exists_load hvalid hselect schema
    obtain rfl := Except.ok.inj ((load_of_validate hvalid schema).symm.trans hload)
    exact ⟨out, hout, hunder⟩
  refine ⟨loadAll_declare (h := r.handleFor owner calls) hvalid schema, hattaches,
    get_handleFor hfit' hnames hkeyed hkey hv calls schema, fun hselect answer hget => ?_,
    fun hselect hsame answer out hget hout => ?_⟩
  · obtain ⟨out, hout, hunder⟩ := hloads hselect
    exact ⟨out, hout, hunder, shown_of_get hselect hfit' hnames hkeyed hkey hv hget⟩
  · obtain ⟨out', hout', hunder⟩ := hloads hselect
    obtain rfl := Except.ok.inj (hout.symm.trans hout')
    rw [hunder, shown_of_get hselect hfit' hnames hkeyed hkey hv hget, hsame]
    refine ⟨fun hall => by rw [List.filter_eq_self.mpr hall], fun hskip hlimit heq => ?_⟩
    -- As many documents are wanted as are tied.
    have hlength := congrArg List.length heq
    rw [List.length_map, List.length_map, RelationOptions.length_window hskip hlimit,
      RelationOptions.length_window hskip hlimit] at hlength
    exact List.length_filter_eq_length_iff.mp hlength.symm

end Relation

/-! ## The posts of a user -/

namespace AuthorSample

/-- A post of the user with a title. -/
def postOf (title : String) : Document := [("title", .string title), ("userId", lettered.toJson)]

def titledStore : Store where
  collections := [("users", [letteredUser]), ("posts", [postOf "A", postOf "B"])]
  ids := ⟨fun n => ⟨BitVec.ofNat 128 n⟩, 0⟩

/-- Asks for posts by the user. -/
def byUser : List Predicate := [.test .and "userId" (.compare .equal lettered.toJson)]

/-- Asks for posts with the first title. -/
def titledA : List Predicate := [.test .and "title" (.compare .equal (.string "A"))]

theorem posts_plainNames : posts.PlainNames := by
  refine ⟨fun name hname => ?_, fun name hname => ?_⟩
  · have hcases : name = "userId" ∨ name = "_id" := by
      simpa [Relation.fieldNames, posts, userModel, postModel] using hname
    rcases hcases with rfl | rfl
    all_goals exact ⟨by decide, by decide⟩
  · cases hname

theorem posts_keyed : posts.Keyed titledStore := by
  refine ⟨fun _ _ h => ?_, fun _ h => ?_, fun _ h => ?_, fun _ _ h => ?_⟩
  all_goals cases h

/-- Conditions that all posts of the user meet make no difference. -/
theorem posts_by_user_agree :
    ∃ answer out, (posts.handleFor letteredUser byUser).get schema titledStore = .ok answer ∧
      Stage.runAll titledStore.documents ((posts.named "posts").loadWith {}) [letteredUser] =
        .ok out ∧
      answer.length = 2 ∧
      Relation.relatedUnder "posts" out = answer.map fun e => .object e.attributes := by
  have hvalid : (posts.named "posts").validate = .ok () := rfl
  have hunique : letteredUser.Unique := by decide
  have hboth := Relation.declared_without_conditions hvalid posts_plainNames posts_keyed hunique rfl
    (Json.isLink_toJson lettered).isKey schema byUser
  have hget : (posts.handleFor letteredUser byUser).get schema titledStore =
      .ok ([postOf "A", postOf "B"].map fun d => Entity.ofDocument postModel d []) := by
    refine (RelationHandle.get_of_resolve rfl).trans ?_
    exact Query.get_eq_ok.mpr ⟨{}, _, _, Relation.loadAll_nil _ _ _, rfl, rfl, rfl⟩
  obtain ⟨out, hout, -, -⟩ := hboth.shows rfl _ hget
  refine ⟨_, out, hget, hout, rfl, (hboth.agree rfl rfl _ out hget hout).1 ?_⟩
  decide +kernel

/-- A post that the handle does not find is loaded with the user. -/
theorem untitled_post_loaded :
    ¬ ∀ loaded out answer,
      Relation.loadAll (schema.declare "posts" (posts.handleFor letteredUser titledA)) userModel
          [] loads = .ok loaded →
        Stage.runAll titledStore.documents loaded.stages [letteredUser] = .ok out →
          (posts.handleFor letteredUser titledA).get schema titledStore = .ok answer →
            ∀ d, .object d ∈ Relation.relatedUnder "posts" out ↔
              d ∈ answer.map (·.attributes) := by
  intro hsame
  have hvalid : ((posts.handleFor letteredUser titledA).relation.named "posts").validate = .ok () :=
    rfl
  have hload := Relation.loadAll_declare hvalid schema
  have hout : Stage.runAll titledStore.documents ((posts.named "posts").loadWith {})
      [letteredUser] = .ok [letteredUser.insert "posts"
        (.array [.object (postOf "A"), .object (postOf "B")])] := rfl
  have hget : (posts.handleFor letteredUser titledA).get schema titledStore =
      .ok [Entity.ofDocument postModel (postOf "A") []] := by
    refine (RelationHandle.get_of_resolve rfl).trans ?_
    exact Query.get_eq_ok.mpr ⟨{}, _, _, Relation.loadAll_nil _ _ _, rfl, rfl, rfl⟩
  have hmem := (hsame _ _ _ hload hout hget (postOf "B")).mp
    (List.mem_cons_of_mem _ List.mem_cons_self)
  have htitle := congrArg (Document.textAt · "title") (List.mem_singleton.mp hmem)
  exact absurd htitle (by decide)

end AuthorSample

end DocMapper
