import DocMapper.Proofs.Query.Pages
import DocMapper.Proofs.Relation.Batch

/-! # The first of what a query gets

To find the first entity, a query runs with the limit one in place of its own. It finds the head of
what it gets, unless its own limit is zero:

  * the stages in front of the window are the same, and cutting a stretch down to its first document
    leaves the head of it (`Query.run_window_first`);
  * the stages behind the window make of the first document the beginning of what they make of the
    whole stretch (`Stage.Batches`), and they leave something of every document
    (`Stage.LeavesSome`): what is unwound keeps the documents without items;
  * so the head of what becomes of the stretch is that of what becomes of its first document
    (`Stage.Batches.head?_take`). -/

namespace DocMapper

namespace Stage

variable {db : Collections} {stages rest : List Stage} {docs out : List Document}

/-! ## Stages that leave something -/

/-- Stages that leave something of every list of documents but the empty one. -/
def LeavesSome (db : Collections) (stages : List Stage) : Prop :=
  ∀ docs out, runAll db stages docs = .ok out → docs ≠ [] → out ≠ []

theorem leavesSome_nil : LeavesSome db [] := by
  intro docs out h hne
  cases h
  exact hne

theorem LeavesSome.append (h : LeavesSome db stages) (h' : LeavesSome db rest) :
    LeavesSome db (stages ++ rest) := by
  intro docs out hrun hne
  obtain ⟨mid, hmid, hout⟩ := runAll_append_eq_ok.mp hrun
  exact h' mid out hout (h docs mid hmid hne)

/-- Stages that make one document of each leave something. -/
theorem EachAlone.leavesSome (h : EachAlone db stages) : LeavesSome db stages := by
  intro docs out hrun hne hnil
  have hall := (h _ _).mp hrun
  rw [hnil, List.forall₂_nil_right_iff] at hall
  exact hne hall

/-- Unwinding makes no document disappear if it keeps those without items. -/
theorem unwound_ne_nil (path : String) (d : Document) : unwound path true d ≠ [] := by
  unfold unwound
  split
  · exact List.cons_ne_nil _ _
  · next items hitems _ =>
    intro h
    exact hitems (List.map_eq_nil_iff.mp h)
  · exact List.cons_ne_nil _ _
  · exact List.cons_ne_nil _ _
  · exact List.cons_ne_nil _ _

theorem leavesSome_unwindAlias (name : String) : LeavesSome db [unwindAlias name] := by
  intro docs out h hne
  obtain ⟨d, docs, rfl⟩ := List.exists_cons_of_ne_nil hne
  rw [runAll_singleton, unwindAlias, run] at h
  cases h
  rw [List.flatMap_cons]
  exact List.append_ne_nil_of_left_ne_nil (unwound_ne_nil name d) _

/-- What becomes of the first document begins with the head of what becomes of the whole list. -/
theorem Batches.head?_take (h : Batches db stages) (hsome : LeavesSome db stages)
    (hrun : runAll db stages docs = .ok out) :
    ∃ first, runAll db stages (docs.take 1) = .ok first ∧ first.head? = out.head? := by
  cases docs with
  | nil => exact ⟨out, hrun, rfl⟩
  | cons d docs =>
    rw [← List.singleton_append, h.append_iff] at hrun
    obtain ⟨first, second, hfirst, -, rfl⟩ := hrun
    have hne := hsome [d] first hfirst (List.cons_ne_nil d [])
    obtain ⟨e, first, rfl⟩ := List.exists_cons_of_ne_nil hne
    exact ⟨e :: first, hfirst, rfl⟩

end Stage

/-! ## Loads -/

namespace Relation

variable {r : Relation} {schema : Schema} {owner : Model} {seen : List (String × String)}
  {loads : List EagerLoad} {loaded : Loaded}

/-- An owner stays, whether or not related documents are found. -/
theorem leavesSome_loadWith (hvalid : r.validate = .ok ()) (nested : Loaded) (db : Collections) :
    Stage.LeavesSome db (r.loadWith nested) := by
  have hunwind : Stage.LeavesSome db r.unwindStages := by
    rw [unwindStages]
    split
    · exact Stage.leavesSome_unwindAlias r.aliasName
    · exact Stage.leavesSome_nil
  exact ((eachAlone_joinStages (validate_eq_ok hvalid).1 _).leavesSome.append hunwind).append
    (eachAlone_projectionStages r nested.aliases).leavesSome

theorem leavesSome_loadAll (hload : loadAll schema owner seen loads = .ok loaded)
    (db : Collections) : Stage.LeavesSome db loaded.stages := by
  induction loads generalizing seen loaded with
  | nil =>
    rw [loadAll_nil] at hload
    cases hload
    exact Stage.leavesSome_nil
  | cons load loads ih =>
    obtain ⟨name, options, children⟩ := load
    obtain ⟨r, nested, others, -, -, hvalid, -, hothers, rfl⟩ := loadAll_cons_eq_ok hload
    exact (leavesSome_loadWith hvalid nested db).append (ih hothers)

end Relation

/-! ## The first of a query -/

namespace Query

variable {schema : Schema} {s : Store} {q : Query} {loads : Relation.Loaded} {es : List Entity}

/-- With the limit one, a window cuts its stretch down to the first document. -/
theorem run_window_first {db : Collections} {found cut : List Document}
    (hlimit : q.limit ≠ some 0) (h : Stage.runAll db q.windowStages found = .ok cut) :
    Stage.runAll db (windowStages { q with limit := some 1 }) found = .ok (cut.take 1) := by
  obtain ⟨rest, hrest, hcut⟩ := Stage.runAll_append_eq_ok.mp h
  refine (Stage.runAll_append_ok hrest _).trans ?_
  show Except.ok (rest.take 1) = _
  cases hq : q.limit with
  | none =>
    rw [hq] at hcut
    cases hcut
    rfl
  | some n =>
    rw [hq] at hcut
    cases hcut
    have hn : n ≠ 0 := by
      rintro rfl
      exact hlimit hq
    rw [List.take_take, Nat.min_eq_left (Nat.one_le_iff_ne_zero.mpr hn)]

/-- The stages behind the window take a batch apart and leave something of every document. -/
theorem batches_closingStages (hloads : q.loaded schema = .ok loads) {db : Collections}
    {docs out : List Document} (h : Stage.runAll db (q.closingStages loads) docs = .ok out) :
    Stage.Batches db (q.closingStages loads) ∧ Stage.LeavesSome db (q.closingStages loads) := by
  obtain ⟨mid, -, hshown⟩ := Stage.runAll_append_eq_ok.mp h
  have hprojection := eachAlone_projectionStage hshown
  rw [closingStages]
  split
  · exact ⟨Stage.batches_nil.append hprojection.batches,
      Stage.leavesSome_nil.append hprojection.leavesSome⟩
  · exact ⟨(Relation.batches_loadAll hloads db).append hprojection.batches,
      (Relation.leavesSome_loadAll hloads db).append hprojection.leavesSome⟩

/-- How a query gets what it gets: it finds documents, cuts a stretch out of them, and closes. -/
theorem exists_cut (h : q.get schema s = .ok es) :
    ∃ loads before found cut docs, q.loaded schema = .ok loads ∧
      q.stagesWith loads [] [] = .ok before ∧
      Stage.runAll s.documents before (s.documents q.model.collection) = .ok found ∧
      Stage.runAll s.documents q.windowStages found = .ok cut ∧
      Stage.runAll s.documents (q.closingStages loads) cut = .ok docs ∧
      es = docs.map fun d => Entity.ofDocument q.model d loads.aliases := by
  obtain ⟨loads, stages, docs, hloads, hstages, hdocs, rfl⟩ := get_eq_ok.mp h
  rw [stagesWith_eq_append] at hstages
  obtain ⟨before, hbefore, rfl⟩ := map_eq_ok.mp hstages
  rw [List.append_assoc, List.append_assoc] at hdocs
  obtain ⟨found, hfound, hdocs⟩ := Stage.runAll_append_eq_ok.mp hdocs
  obtain ⟨cut, hcut, hdocs⟩ := Stage.runAll_append_eq_ok.mp hdocs
  exact ⟨loads, before, found, cut, docs, hloads, hbefore, hfound, hcut, hdocs, rfl⟩

/-- A query finds the head of what it gets, unless its limit is zero. -/
theorem first_eq_head? (hlimit : q.limit ≠ some 0) (h : q.get schema s = .ok es) :
    q.first schema s = .ok es.head? := by
  obtain ⟨loads, before, found, cut, docs, hloads, hbefore, hfound, hcut, hdocs, rfl⟩ :=
    exists_cut h
  obtain ⟨hbatches, hsome⟩ := batches_closingStages hloads hdocs
  obtain ⟨firsts, hfirsts, hhead⟩ := hbatches.head?_take hsome hdocs
  have hone : get schema s { q with limit := some 1 } =
      .ok (firsts.map fun d => Entity.ofDocument q.model d loads.aliases) := by
    refine get_eq_ok.mpr ⟨loads, _, firsts, hloads,
      (stagesWith_eq_append _ _ _ _).trans (congrArg _ hbefore), ?_, rfl⟩
    show Stage.runAll s.documents (before ++ windowStages { q with limit := some 1 } ++
      (if q.readsAlias loads.aliases then [] else loads.stages) ++
        (q.projectionStage? loads.aliases).toList) _ = _
    rw [List.append_assoc, List.append_assoc, Stage.runAll_append_ok hfound,
      Stage.runAll_append_ok (run_window_first hlimit hcut)]
    exact hfirsts
  rw [first, hone, ok_bind, List.head?_map, hhead, ← List.head?_map]
  rfl

/-- With the limit zero, a query gets nothing. -/
theorem eq_nil_of_limit_zero (hlimit : q.limit = some 0) (h : q.get schema s = .ok es) :
    es = [] := by
  obtain ⟨loads, before, found, cut, docs, hloads, -, -, hcut, hdocs, rfl⟩ := exists_cut h
  obtain ⟨rest, -, hcut⟩ := Stage.runAll_append_eq_ok.mp hcut
  rw [hlimit] at hcut
  obtain rfl : [] = cut := Except.ok.inj hcut
  have hnil := (batches_closingStages hloads hdocs).1.nil
  obtain rfl : [] = docs := Except.ok.inj (hnil.symm.trans hdocs)
  rfl

end Query

namespace RelationHandle

variable {h : RelationHandle} {s : Store} {q : Query}

/-- The limit of what a handle asks for: that of the options, or else that of the caller. -/
def limit (h : RelationHandle) : Option Nat := h.relation.options.limit <|> h.query.limit

theorem limit_withRelationOptions (q : Query) (o : RelationOptions) :
    (withRelationOptions q o).limit = (o.limit <|> q.limit) := by
  unfold withRelationOptions
  cases o.sort <;> cases o.select <;> rfl

theorem limit_resolve (hq : h.resolve s = .ok q) : q.limit = h.limit := by
  obtain ⟨scope, -, hq⟩ := bind_eq_ok.mp hq
  cases hq
  exact limit_withRelationOptions _ _

end RelationHandle

/-- **The first is the head of what is got.** A query or a handle on a relation that gets entities
finds the first of them, and none exactly if there are none, unless its limit is zero: then it gets
nothing, and finds what it would find without a limit. -/
theorem first_is_head (schema : Schema) (s : Store) :
    (∀ (q : Query) (es : List Entity), q.get schema s = .ok es →
      (q.limit ≠ some 0 →
        q.first schema s = .ok es.head? ∧ (q.first schema s = .ok none ↔ es = [])) ∧
      (q.limit = some 0 →
        es = [] ∧ q.first schema s = Query.first schema s { q with limit := none })) ∧
    ∀ (h : RelationHandle) (es : List Entity), h.get schema s = .ok es →
      (h.limit ≠ some 0 →
        h.first schema s = .ok es.head? ∧ (h.first schema s = .ok none ↔ es = [])) ∧
      (h.limit = some 0 → es = [] ∧ ∃ q, h.resolve s = .ok q ∧
        h.first schema s = Query.first schema s { q with limit := none }) := by
  have hquery : ∀ (q : Query) (es : List Entity), q.get schema s = .ok es → q.limit ≠ some 0 →
      q.first schema s = .ok es.head? ∧ (q.first schema s = .ok none ↔ es = []) := by
    intro q es hes hlimit
    have hfirst := Query.first_eq_head? hlimit hes
    refine ⟨hfirst, ?_⟩
    rw [hfirst, Except.ok.injEq, List.head?_eq_none_iff]
  refine ⟨fun q es hes => ⟨hquery q es hes, fun hlimit => ?_⟩, fun h es hes => ?_⟩
  · exact ⟨Query.eq_nil_of_limit_zero hlimit hes, rfl⟩
  · obtain ⟨q, hq, hes⟩ := bind_eq_ok.mp hes
    have hfirst : h.first schema s = q.first schema s := by
      rw [RelationHandle.first, hq, ok_bind]
    rw [hfirst, ← RelationHandle.limit_resolve hq]
    exact ⟨hquery q es hes, fun hlimit =>
      ⟨Query.eq_nil_of_limit_zero hlimit hes, q, hq, rfl⟩⟩

/-! ## A user with two profiles -/

namespace ProfileSample

open AuthorSample (userModel user)

/-- The users, limited in number before their profiles are loaded. -/
def limitedTo (n : Nat) : Query := { users with limit := some n }

/-- The profiles of the user after the first one. -/
def laterProfiles : RelationHandle where
  relation := { profile with options := { skip := some 1, limit := some 5 } }
  owner := user
  query := profileModel.query

theorem limited_users :
    (limitedTo 1).get schema (store [profileOf "a", profileOf "b"]) =
      .ok [withProfile "a", withProfile "b"] := by
  have hloads : (limitedTo 1).loaded schema = .ok loads := loaded_users_profile
  exact (Query.get_roots hloads rfl rfl rfl).trans rfl

theorem later_profiles :
    laterProfiles.get schema (store [profileOf "a", profileOf "b"]) =
      .ok [Entity.ofDocument profileModel (profileOf "b") []] := by
  refine bind_eq_ok.mpr ⟨_, rfl, ?_⟩
  exact Query.get_eq_ok.mpr ⟨{}, _, _, Relation.loadAll_nil _ _ _, rfl, rfl, rfl⟩

/-- Limited to one, the users are the one user once with each profile; the first of them has the
first profile. The first of the later profiles is the second one. -/
theorem first_profiles_found :
    ((limitedTo 1).get schema (store [profileOf "a", profileOf "b"]) =
        .ok [withProfile "a", withProfile "b"] ∧
      (limitedTo 1).first schema (store [profileOf "a", profileOf "b"]) =
        .ok (some (withProfile "a"))) ∧
    laterProfiles.get schema (store [profileOf "a", profileOf "b"]) =
        .ok [Entity.ofDocument profileModel (profileOf "b") []] ∧
      laterProfiles.first schema (store [profileOf "a", profileOf "b"]) =
        .ok (some (Entity.ofDocument profileModel (profileOf "b") [])) := by
  obtain ⟨hquery, hhandle⟩ := first_is_head schema (store [profileOf "a", profileOf "b"])
  have husers := (hquery _ _ limited_users).1 (by decide)
  have hprofiles := (hhandle _ _ later_profiles).1 (by decide)
  exact ⟨⟨limited_users, husers.1⟩, later_profiles, hprofiles.1⟩

/-- With the limit zero the user is found, although nothing is got. -/
theorem first_of_none : ¬ ∀ (schema : Schema) (s : Store) (q : Query) (es : List Entity),
    q.get schema s = .ok es → q.first schema s = .ok es.head? := by
  intro h
  have hnone : (limitedTo 0).withoutLoads.get schema (store []) = .ok [] :=
    (Query.get_withoutLoads (q := limitedTo 0) schema _ rfl rfl).trans rfl
  have hone : (limitedTo 1).withoutLoads.get schema (store []) =
      .ok [Entity.ofDocument userModel user []] :=
    (Query.get_withoutLoads (q := limitedTo 1) schema _ rfl rfl).trans rfl
  have hfirst : (limitedTo 0).withoutLoads.first schema (store []) =
      .ok (some (Entity.ofDocument userModel user [])) :=
    bind_eq_ok.mpr ⟨_, hone, rfl⟩
  cases hfirst.symm.trans (h _ _ _ [] hnone)

end ProfileSample

end DocMapper
