import DocMapper.Proofs.Pipeline
import DocMapper.Query.Run

/-! # What a query gets

A query that gets documents loads what it is asked to load, puts its stages together, and ends with
the stage that shows fields, if there is one. It answers with an entity for each document that this
pipeline makes of the collection (`Query.get_eq`, `Query.get_eq_ok`); two queries that differ in the
last stage only get the same if those stages make the same of all documents (`Query.get_congr`). -/

namespace DocMapper

namespace Query

variable {schema : Schema} {s : Store} {q : Query} {loads : Relation.Loaded}

/-! ## Stages -/

@[simp] theorem readsAlias_nil (q : Query) : q.readsAlias [] = false :=
  List.any_eq_false.mpr fun _ _ h => Bool.noConfusion h

/-- If nothing that is loaded is read, the stages that load come last. -/
theorem stagesWith_eq_ok (hreads : q.readsAlias loads.aliases = false) {window last : List Stage}
    {stages : List Stage} :
    q.stagesWith loads window last = .ok stages ↔ ∃ scope conditions,
      q.check = .ok () ∧ conditionStage? q.scope = .ok scope ∧
      conditionStage? q.conditions = .ok conditions ∧
      stages = (q.model.policy q.trashed).stage?.toList ++ scope.toList ++ conditions.toList ++
        window ++ last := by
  rw [stagesWith, hreads]
  constructor
  · intro h
    obtain ⟨⟨⟩, hcheck, h⟩ := bind_eq_ok.mp h
    obtain ⟨scope, hscope, h⟩ := bind_eq_ok.mp h
    obtain ⟨conditions, hconditions, h⟩ := bind_eq_ok.mp h
    cases h
    exact ⟨scope, conditions, hcheck, hscope, hconditions, rfl⟩
  · rintro ⟨scope, conditions, hcheck, hscope, hconditions, rfl⟩
    rw [hcheck, hscope, hconditions]
    rfl

/-- The documents that a query finds, before they are put in order and cut. -/
def Finds (schema : Schema) (s : Store) (q : Query) (found : List Document) : Prop :=
  ∃ stages, q.filterStages schema = .ok stages ∧
    Stage.runAll s.documents stages (s.documents q.model.collection) = .ok found

/-! ## Answers -/

/-- A query that can load what it is asked to load runs its pipeline. -/
theorem get_eq (hloads : q.loaded schema = .ok loads) :
    q.get schema s =
      ((q.stagesWith loads q.windowStages loads.stages >>= fun stages =>
        Stage.runAll s.documents (stages ++ (q.projectionStage? loads.aliases).toList)
          (s.documents q.model.collection)).mapError Error.query).map
        fun docs => docs.map fun d => Entity.ofDocument q.model d loads.aliases := by
  rw [get, plan, hloads, ok_bind]
  cases q.stagesWith loads q.windowStages loads.stages with
  | error fault => rfl
  | ok stages =>
    show s.aggregate q.model.collection _ >>= _ = _
    rw [Store.aggregate, ok_bind]
    cases Stage.runAll s.documents _ (s.documents q.model.collection) <;> rfl

/-- The entities that a query gets are those of the documents that its pipeline makes of the
collection. -/
theorem get_eq_ok {es : List Entity} :
    q.get schema s = .ok es ↔ ∃ loads stages docs,
      q.loaded schema = .ok loads ∧
      q.stagesWith loads q.windowStages loads.stages = .ok stages ∧
      Stage.runAll s.documents (stages ++ (q.projectionStage? loads.aliases).toList)
        (s.documents q.model.collection) = .ok docs ∧
      es = docs.map fun d => Entity.ofDocument q.model d loads.aliases := by
  constructor
  · intro h
    obtain ⟨loads, hloads⟩ : ∃ loads, q.loaded schema = .ok loads := by
      obtain ⟨plan, hplan, -⟩ := bind_eq_ok.mp h
      obtain ⟨loads, hloads, -⟩ := bind_eq_ok.mp hplan
      exact ⟨loads, hloads⟩
    rw [get_eq hloads] at h
    obtain ⟨docs, hrun, rfl⟩ := map_eq_ok.mp h
    obtain ⟨stages, hstages, hdocs⟩ := bind_eq_ok.mp (mapError_eq_ok.mp hrun)
    exact ⟨loads, stages, docs, hloads, hstages, hdocs, rfl⟩
  · rintro ⟨loads, stages, docs, hloads, hstages, hdocs, rfl⟩
    rw [get_eq hloads, hstages, ok_bind, hdocs]
    rfl

/-- What a query gets depends on the fields that it shows or leaves out only as far as the stage
for them does. -/
theorem get_congr {select : Option (List String)} {exclude : List String}
    (hloads : q.loaded schema = .ok loads)
    (h : ∀ docs, Stage.runAll s.documents (q.projectionStage? loads.aliases).toList docs =
      Stage.runAll s.documents
        (projectionStage? { q with select, exclude } loads.aliases).toList docs) :
    q.get schema s = get schema s { q with select, exclude } := by
  have hloads' : loaded schema { q with select, exclude } = .ok loads := hloads
  have hstages : stagesWith { q with select, exclude } loads
      (windowStages { q with select, exclude }) loads.stages =
        q.stagesWith loads q.windowStages loads.stages := rfl
  rw [get_eq hloads, get_eq hloads', hstages]
  simp only [Stage.runAll_append, funext h]

end Query

end DocMapper
