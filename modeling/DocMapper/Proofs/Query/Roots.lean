import DocMapper.Proofs.Query.Plan
import DocMapper.Proofs.Relation.Copies

/-! # Roots

The **roots** of a query are the documents that it finds before it loads anything with them
(`Query.roots`). A query whose conditions and sort read nothing of what it loads, and that shows all
fields, answers with its roots and what the stages of its loads make of them
(`Query.get_roots`). So the same query without loads fails if and only if it does, and otherwise the
identifiers that it answers with are those of the query without loads, each once or several times in
a row: once if every relation finds at most one document where it should, and only then
(`Query.get_repeats_roots`). -/

namespace DocMapper

/-! ## Stages before the loads -/

namespace Stage

/-- Whether a stage takes from documents, puts them in order or adds fields to them, and loads
nothing. -/
def isPlain : Stage → Bool
  | .filter _ | .addFields _ | .sort _ | .skip _ | .limit _ => true
  | .project spec => Projection.isExclusion spec
  | _ => false

variable {db : Collections} {docs out : List Document}

theorem unique_extended {spec d d' : Document} (hd : d.Unique) (h : extended spec d = .ok d') :
    d'.Unique := by
  obtain ⟨values, -, heq⟩ := bind_eq_ok.mp h
  clear h
  cases heq
  induction values generalizing d with
  | nil => exact hd
  | cons value values ih =>
    obtain ⟨path, found⟩ := value
    cases found with
    | none => exact ih hd
    | some v => exact ih (hd.set path v)

/-- A plain stage leaves keys distinct. -/
theorem unique_run {stage : Stage} (hplain : stage.isPlain = true) (hdocs : ∀ d ∈ docs, d.Unique)
    (h : stage.run db docs = .ok out) : ∀ d ∈ out, d.Unique := by
  intro d hd
  cases stage with
  | filter f => exact hdocs d (Relation.mem_of_run_filter h d hd)
  | sort spec => exact hdocs d (Relation.mem_of_run_sort h d hd)
  | skip n =>
    rw [run] at h
    cases h
    exact hdocs d (List.mem_of_mem_drop hd)
  | limit n =>
    rw [run] at h
    cases h
    exact hdocs d (List.mem_of_mem_take hd)
  | addFields spec =>
    rw [run] at h
    obtain ⟨d₀, hd₀, hextended⟩ := exists_of_mem_mapM h hd
    exact unique_extended (hdocs d₀ hd₀) hextended
  | project spec =>
    have hexclusion : Projection.isExclusion spec = true := hplain
    rw [run, Projection.ofSpec, if_pos hexclusion, ok_bind] at h
    obtain ⟨d₀, hd₀, hremoved⟩ := exists_of_mem_mapM h hd
    cases hremoved
    exact Update.unique_removeAll (hdocs d₀ hd₀) _
  | _ => cases hplain

theorem unique_runAll {stages : List Stage} (hplain : ∀ stage ∈ stages, stage.isPlain = true)
    (hdocs : ∀ d ∈ docs, d.Unique) (h : runAll db stages docs = .ok out) :
    ∀ d ∈ out, d.Unique := by
  induction stages generalizing docs with
  | nil =>
    cases h
    exact hdocs
  | cons stage stages ih =>
    obtain ⟨hfirst, hrest⟩ := List.forall_mem_cons.mp hplain
    obtain ⟨mid, hmid, h⟩ := runAll_cons_eq_ok.mp h
    exact ih hrest (unique_run hfirst hdocs hmid) h

end Stage

/-- Taking out what was loaded erases the aliases. -/
theorem Entity.splitRelations_eq (aliases : List EagerAlias) (d : Document)
    (relations : List (String × LoadedRelation)) :
    (splitRelations d relations aliases).1 = (aliases.map (·.name)).foldl Document.erase d := by
  induction aliases generalizing d relations with
  | nil => rfl
  | cons a aliases ih => exact ih (d.erase a.name) _

namespace Query

variable {schema : Schema} {s : Store} {q : Query} {loads : Relation.Loaded}

theorem isPlain_orderingStages (ordering : List SortKey) :
    ∀ stage ∈ orderingStages ordering, stage.isPlain = true := by
  intro stage hstage
  unfold orderingStages at hstage
  split at hstage
  · cases hstage
  · rw [List.mem_singleton.mp hstage]
    rfl
  · next hne =>
    simp only [List.mem_cons, List.not_mem_nil, or_false] at hstage
    rcases hstage with rfl | rfl | rfl
    · rfl
    · rfl
    · refine Stage.isExclusion_off fun hnil => hne ?_
      exact List.map_eq_nil_iff.mp hnil

theorem isPlain_windowStages (q : Query) : ∀ stage ∈ q.windowStages, stage.isPlain = true := by
  intro stage hstage
  rw [windowStages, List.mem_append, List.mem_append] at hstage
  rcases hstage with (hstage | hstage) | hstage
  · exact isPlain_orderingStages q.ordering stage hstage
  · obtain ⟨n, -, rfl⟩ := Option.map_eq_some_iff.mp (Option.mem_toList.mp hstage)
    rfl
  · obtain ⟨n, -, rfl⟩ := Option.map_eq_some_iff.mp (Option.mem_toList.mp hstage)
    rfl

theorem isPlain_conditionStage? {terms : List Term} {stage? : Option Stage}
    (h : conditionStage? terms = .ok stage?) : ∀ stage ∈ stage?.toList, stage.isPlain = true := by
  obtain ⟨filter?, -, rfl⟩ := map_eq_ok.mp h
  intro stage hstage
  obtain ⟨filter, -, rfl⟩ := Option.map_eq_some_iff.mp (Option.mem_toList.mp hstage)
  rfl

/-! ## Roots -/

/-- The same query, loading nothing. -/
def withoutLoads (q : Query) : Query := { q with eager := [] }

/-- The documents that a query finds before it loads anything with them. -/
def roots (s : Store) (q : Query) : Except QueryFault (List Document) := do
  let stages ← q.withoutLoads.stagesWith {} q.windowStages []
  Stage.runAll s.documents stages (s.documents q.model.collection)

theorem unique_roots {found : List Document} (hs : ∀ source, ∀ d ∈ s.documents source, d.Unique)
    (h : q.roots s = .ok found) : ∀ d ∈ found, d.Unique := by
  obtain ⟨stages, hstages, hfound⟩ := bind_eq_ok.mp h
  obtain ⟨scope, conditions, -, hscope, hconditions, rfl⟩ :=
    (stagesWith_eq_ok (readsAlias_nil _)).mp hstages
  refine Stage.unique_runAll (fun stage hstage => ?_) (hs _) hfound
  simp only [List.mem_append, List.not_mem_nil, or_false] at hstage
  rcases hstage with ((hstage | hstage) | hstage) | hstage
  · obtain ⟨filter, -, rfl⟩ := Option.map_eq_some_iff.mp (Option.mem_toList.mp hstage)
    rfl
  · exact isPlain_conditionStage? hscope stage hstage
  · exact isPlain_conditionStage? hconditions stage hstage
  · exact isPlain_windowStages q stage hstage

/-- If nothing that is loaded is read, the stages of a query are those of the query without loads and
then those that load. -/
theorem stagesWith_eq (hreads : q.readsAlias loads.aliases = false) (window last : List Stage) :
    q.stagesWith loads window last =
      (q.withoutLoads.stagesWith {} window []).map (· ++ last) := by
  have hreads' : q.withoutLoads.readsAlias [] = false := readsAlias_nil _
  rw [stagesWith, stagesWith, hreads, hreads']
  show (q.check >>= fun _ => conditionStage? q.scope >>= _) =
    (q.check >>= fun _ => conditionStage? q.scope >>= _).map _
  cases q.check with
  | error fault => rfl
  | ok =>
    cases conditionStage? q.scope with
    | error fault => rfl
    | ok scope =>
      show (conditionStage? q.conditions >>= _) = (conditionStage? q.conditions >>= _).map _
      cases conditionStage? q.conditions with
      | error fault => rfl
      | ok conditions =>
        show Except.ok (_ ++ last) = Except.ok (_ ++ [] ++ last)
        rw [List.append_nil]
        rfl

/-- A query that reads nothing of what it loads and shows all fields answers with its roots and what
is loaded with them. -/
theorem get_roots (hloads : q.loaded schema = .ok loads)
    (hreads : q.readsAlias loads.aliases = false) (hselect : q.select = none)
    (hexclude : q.exclude = []) :
    q.get schema s = ((q.roots s >>= Stage.runAll s.documents loads.stages).mapError Error.query).map
      fun docs => docs.map fun d => Entity.ofDocument q.model d loads.aliases := by
  rw [get_eq hloads, stagesWith_eq hreads, projectionStage?, hselect, hexclude, roots]
  cases q.withoutLoads.stagesWith {} q.windowStages [] with
  | error fault => rfl
  | ok stages =>
    rw [map_ok, ok_bind, ok_bind]
    show ((Stage.runAll s.documents (stages ++ loads.stages ++ [])
      (s.documents q.model.collection)).mapError Error.query).map _ = _
    rw [List.append_nil, Stage.runAll_append]

/-- A query that loads nothing and shows all fields answers with its roots. -/
theorem get_withoutLoads (schema : Schema) (s : Store) (hselect : q.select = none)
    (hexclude : q.exclude = []) :
    q.withoutLoads.get schema s = ((q.roots s).mapError Error.query).map
      fun docs => docs.map fun d => Entity.ofDocument q.model d [] := by
  have hloads : q.withoutLoads.loaded schema = .ok {} := Relation.loadAll_nil _ _ _
  have hroots : q.withoutLoads.roots s = q.roots s := rfl
  rw [get_roots hloads (readsAlias_nil _) hselect hexclude, hroots]
  cases q.roots s <;> rfl

/-! ## Loads and roots -/

theorem get?_splitRelations {aliases : List EagerAlias} {d : Document} (hd : d.Unique)
    (relations : List (String × LoadedRelation)) {key : String}
    (hkey : key ∉ aliases.map (·.name)) :
    (Entity.splitRelations d relations aliases).1.get? key = d.get? key := by
  rw [Entity.splitRelations_eq, Document.get?_foldl_erase hd, if_neg hkey]

/-- Taking out what was loaded leaves the identifiers, unless something was loaded in their place. -/
theorem map_id_ofDocument {aliases : List EagerAlias} {docs : List Document} (m : Model)
    (hdocs : ∀ d ∈ docs, d.Unique) (hid : "_id" ∉ aliases.map (·.name)) :
    (docs.map fun d => Entity.ofDocument m d aliases).map (·.get? "_id") =
      docs.map (·.get? "_id") := by
  rw [List.map_map]
  exact List.map_congr_left fun d hd => get?_splitRelations (hdocs d hd) [] hid

/-- A query that reads nothing of what it loads fails if and only if it does without loads. If not,
it answers with the same identifiers, each once or several times in a row; and with the same sequence
of identifiers exactly if every relation of a kind with at most one related document finds no
more. -/
theorem get_repeats_roots (hs : ∀ source, ∀ d ∈ s.documents source, d.Unique)
    (hloads : q.loaded schema = .ok loads) (hnames : Relation.NoOperatorsAll schema q.model q.eager)
    (hid : "_id" ∉ loads.aliases.map (·.name))
    (hsaved : Relation.savedField ∉ EagerAlias.allNames loads.aliases)
    (hreads : q.readsAlias loads.aliases = false) (hselect : q.select = none)
    (hexclude : q.exclude = []) :
    (∀ fault, q.get schema s = .error fault ↔ q.withoutLoads.get schema s = .error fault) ∧
      ∀ bare, q.withoutLoads.get schema s = .ok bare →
        ∃ es, q.get schema s = .ok es ∧
          Repeats (bare.map (·.get? "_id")) (es.map (·.get? "_id")) ∧
          (es.map (·.get? "_id") = bare.map (·.get? "_id") ↔
            Relation.AllFindAtMostOne schema s.documents q.model q.eager
              (bare.map (·.attributes))) := by
  rw [get_roots hloads hreads hselect hexclude, get_withoutLoads schema s hselect hexclude]
  cases hroots : q.roots s with
  | error fault => exact ⟨fun _ => Iff.rfl, nofun⟩
  | ok found =>
    have hunique := unique_roots hs hroots
    obtain ⟨out, hout⟩ := Relation.exists_run_loadAll hs hloads hnames hsaved hunique
    rw [ok_bind, hout]
    refine ⟨fun fault => ⟨nofun, nofun⟩, fun bare hbare => ⟨_, rfl, ?_⟩⟩
    cases hbare
    obtain ⟨hrepeats, hone⟩ := Relation.repeats_loadAll hs hloads hid hsaved hunique hout
    have houtUnique := fun d hd =>
      (Relation.covers_loadAll hs hloads hsaved hunique hout d hd).1
    have hattributes : (found.map fun d => Entity.ofDocument q.model d []).map (·.attributes) =
        found := by
      rw [List.map_map]
      exact List.map_id found
    rw [map_id_ofDocument q.model houtUnique hid,
      map_id_ofDocument q.model hunique List.not_mem_nil, hattributes, ← hone]
    -- Repeats are the same sequence exactly if there are as many.
    refine ⟨hrepeats, fun heq => ?_, fun hlength => hrepeats.eq_of_length_le ?_⟩
    · simpa using congrArg List.length heq
    · simp [hlength]

end Query

/-! ## The profile of a user -/

namespace ProfileSample

open AuthorSample (userModel user)

def profileModel : Model := ⟨"Profile", "profiles", "_id", none, none, []⟩

/-- The profile of a user, of which there is meant to be one. -/
def profile : Relation where
  kind := .hasOne
  name := "profile"
  owner := userModel
  related := profileModel
  keys := .owning "userId" "_id"

def schema : Schema := ⟨fun model => if model = "User" then [("profile", profile)] else []⟩

/-- A profile of the user. -/
def profileOf (id : String) : Document := [("_id", .string id), ("userId", .string "ann")]

def store (profiles : List Document) : Store where
  collections := [("users", [user]), ("profiles", profiles)]
  ids := ⟨fun n => ⟨BitVec.ofNat 128 n⟩, 0⟩

/-- The users with their profiles. -/
def users : Query := { model := userModel, eager := [⟨"profile", none, []⟩] }

/-- What loading the profiles of users comes to. -/
def loads : Relation.Loaded := ⟨profile.loadWith {}, [profile.aliasWith {}]⟩

theorem loaded_users_profile : users.loaded schema = .ok loads := by
  rw [Query.loaded, users, Relation.loadAll]
  simp only [Relation.loadAll_nil]
  rfl

theorem bare_users (profiles : List Document) :
    users.withoutLoads.get schema (store profiles) = .ok [Entity.ofDocument userModel user []] :=
  (Query.get_withoutLoads schema _ rfl rfl).trans rfl

theorem noOperators_users : Relation.NoOperatorsAll schema userModel users.eager := by
  rw [users, Relation.NoOperatorsAll, Relation.NoOperatorsAll]
  refine ⟨fun r hr => ?_, trivial⟩
  cases hr
  refine ⟨⟨?_, ?_⟩, by decide, ?_⟩
  · decide
  · decide
  · rw [Relation.NoOperatorsAll]
    trivial

theorem store_profile_unique :
    ∀ source, ∀ d ∈ (store [profileOf "a"]).documents source, d.Unique :=
  Store.forall_documents (by decide)

/-- A user with one profile comes once. -/
theorem one_profile_keeps_user :
    ∃ es, users.get schema (store [profileOf "a"]) = .ok es ∧
      es.map (·.get? "_id") = [some (.string "ann")] := by
  obtain ⟨-, hbare⟩ := Query.get_repeats_roots store_profile_unique loaded_users_profile
    noOperators_users (by decide) (by decide) rfl rfl rfl
  obtain ⟨es, hes, -, hone⟩ := hbare _ (bare_users _)
  refine ⟨es, hes, hone.mpr ?_⟩
  have hjoin : Stage.runAll (store [profileOf "a"]).documents
      (profile.joinStages (profile.relatedPipeline [])) [user] =
        .ok [user ++ [("profile", .array [.object (profileOf "a")])]] := rfl
  show Relation.AllFindAtMostOne _ _ _ [⟨"profile", none, []⟩] [user]
  rw [Relation.AllFindAtMostOne]
  refine ⟨profile, {}, _, rfl, Relation.loadAll_nil _ _ _, fun _ joined hjoined => ?_, rfl, ?_⟩
  · cases hjoin.symm.trans hjoined
    decide
  · trivial

/-- The user with a profile. -/
def withProfile (id : String) : Entity :=
  Entity.ofDocument userModel (user ++ [("profile", .object (profileOf id))]) loads.aliases

/-- A user with two profiles comes twice. -/
theorem two_profiles_repeat_user :
    ∃ bare es, users.withoutLoads.get schema (store [profileOf "a", profileOf "b"]) = .ok bare ∧
      users.get schema (store [profileOf "a", profileOf "b"]) = .ok es ∧
        es.map (·.get? "_id") ≠ bare.map (·.get? "_id") := by
  refine ⟨_, [withProfile "a", withProfile "b"], bare_users _, ?_, ?_⟩
  · exact (Query.get_roots loaded_users_profile rfl rfl rfl).trans rfl
  · intro heq
    cases congrArg List.length heq

end ProfileSample

end DocMapper
