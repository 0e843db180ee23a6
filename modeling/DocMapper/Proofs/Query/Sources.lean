import DocMapper.Proofs.Query.Carrying
import DocMapper.Proofs.Query.Roots
import DocMapper.Proofs.Query.Shown

/-! # Where a query has what it shows

An entity that a query gets holds a cut of one stored document, whatever the query asks for
(`Query.exists_source`). What stands at the end of the pipeline is followed back through it:

  * conditions, a window and a sort leave documents of those there were, and the temporary fields of
    a sort are gone when it is done (`Query.draws_orderingStages`);
  * loads add nothing but what stands under their aliases (`Relation.draws_loadAll`), which an entity
    does not count among its attributes;
  * the last stage cuts (`Query.cut_of_projectionStage`): it leaves out what is excluded, or copies
    what is selected. -/

namespace DocMapper

/-! ## Stages that draw on documents -/

/-- Outside some names, a document holds nothing but what another one holds. -/
def Document.DrawnFrom (names : List String) (d' d : Document) : Prop :=
  ∀ key ∉ names, ∀ v, d'.get? key = some v → d.get? key = some v

namespace Stage

variable {db : Collections} {names : List String} {stages rest : List Stage}

/-- Stages that make of documents with distinct keys others with distinct keys, each of which holds,
outside some names, nothing but what one of the documents holds. -/
def Draws (db : Collections) (names : List String) (stages : List Stage) : Prop :=
  ∀ docs out, (∀ d ∈ docs, d.Unique) → runAll db stages docs = .ok out →
    ∀ d' ∈ out, d'.Unique ∧ ∃ d ∈ docs, d'.DrawnFrom names d

/-- Stages that leave some of the documents as they are draw on them. -/
theorem draws_of_subset
    (h : ∀ docs out, runAll db stages docs = .ok out → ∀ d ∈ out, d ∈ docs) :
    Draws db names stages := by
  intro docs out hdocs hout d hd
  have hmem := h docs out hout d hd
  exact ⟨hdocs d hmem, d, hmem, fun _ _ _ hv => hv⟩

theorem draws_nil : Draws db names [] := by
  refine draws_of_subset fun docs out hout => ?_
  cases hout
  exact fun _ hd => hd

theorem Draws.append (h : Draws db names stages) (h' : Draws db names rest) :
    Draws db names (stages ++ rest) := by
  intro docs out hdocs hout d'' hd''
  obtain ⟨mid, hmid, hrest⟩ := runAll_append_eq_ok.mp hout
  obtain ⟨hunique, d', hd', hdrawn'⟩ :=
    h' mid out (fun d' hd' => (h docs mid hdocs hmid d' hd').1) hrest d'' hd''
  obtain ⟨-, d, hd, hdrawn⟩ := h docs mid hdocs hmid d' hd'
  exact ⟨hunique, d, hd, fun key hkey v hv => hdrawn key hkey v (hdrawn' key hkey v hv)⟩

/-- A stage that an option asks for draws on the documents if it always leaves some of them. -/
theorem draws_option {α : Type} {stage : α → Stage}
    (h : ∀ a docs out, run db (stage a) docs = .ok out → ∀ d ∈ out, d ∈ docs) (o : Option α) :
    Draws db names (o.map stage).toList :=
  draws_of_subset fun _ _ hout => Relation.mem_of_runAll_option h hout

end Stage

namespace Relation

variable {db : Collections} {schema : Schema}

/-- The stages that load relations add to a document nothing but what stands under the aliases. -/
theorem draws_loadAll (hdb : ∀ source, ∀ d ∈ db source, d.Unique) {owner : Model}
    {seen : List (String × String)} {loads : List EagerLoad} {loaded : Loaded}
    (hload : loadAll schema owner seen loads = .ok loaded)
    (hsaved : savedField ∉ EagerAlias.allNames loaded.aliases) :
    Stage.Draws db (loaded.aliases.map (·.name)) loaded.stages := by
  induction owner, seen, loads using loadAll.induct generalizing loaded with
  | case1 owner seen =>
    rw [loadAll] at hload
    cases hload
    exact Stage.draws_nil
  | case2 owner seen name options children rest _ ihRest =>
    obtain ⟨r, nested, others, -, -, hvalid, hnested, hothers, rfl⟩ := loadAll_cons_eq_ok hload
    obtain ⟨halias, hsavedNested, hsavedOthers⟩ := not_mem_allNames_cons.mp hsaved
    intro docs out hdocs hout d'' hd''
    obtain ⟨mid, hmid, hrest⟩ := Stage.runAll_append_eq_ok.mp hout
    obtain ⟨P, hsteps⟩ := steps_loadWith hdb hvalid halias hnested hsavedNested hdocs hmid
    obtain ⟨hunique, d', hd', hdrawn⟩ := ihRest r hothers hsavedOthers mid out
      (fun d hd => (hsteps.each d hd).1) hrest d'' hd''
    obtain ⟨d, hd, hstep⟩ := hsteps d' hd'
    refine ⟨hunique, d, hd, fun key hkey v hv => ?_⟩
    obtain ⟨hfirst, hothers⟩ := not_or.mp fun hmem => hkey (List.mem_cons.mpr hmem)
    rw [Document.get?_eq_some_iff (hdocs d hd)]
    exact hstep.within key hfirst v (Document.mem_of_get? (hdrawn key hothers v hv))

end Relation

/-! ## Projections that only show -/

/-- A projection with all entries switched on leaves a cut. -/
theorem Projection.cut_of_on {spec : Document} (hon : ∀ e ∈ spec, e.2 = .int 1) {p : Projection}
    (hp : ofSpec spec = .ok p) {d d' : Document} (hd : d.Unique) (h : p.apply d = .ok d') :
    d'.Unique ∧ Json.Cut (.object d') (.object d) := by
  rw [ofSpec] at hp
  split at hp
  · cases hp
    cases h
    exact ⟨Update.unique_removeAll hd _, Update.removeAll_cut _ d⟩
  · obtain ⟨tree, htree, rfl⟩ := map_eq_ok.mp hp
    rw [treeOf_on hon] at htree
    cases htree
    refine ⟨Inclusion.unique_applyAll (Inclusion.nodup_foldl_insert ?_) h, Inclusion.applyAll_cut
      (fun node hnode => (Inclusion.copies_foldl_insert ?_ node hnode).cut d) h⟩
    · split
      · exact List.nodup_nil
      · exact List.pairwise_singleton _ _
    · split
      · exact fun _ hnode => absurd hnode List.not_mem_nil
      · exact List.forall_mem_singleton.mpr .whole

namespace Query

variable {db : Collections} {names : List String} {schema : Schema} {s : Store} {q : Query}
  {loads : Relation.Loaded} {es : List Entity} {e : Entity}

/-! ## The stages of a query -/

/-- Of the temporary fields of a sort nothing is left when it is done. -/
theorem draws_foldedSort {ordering : List SortKey} (hne : foldedFields ordering ≠ [])
    (keys : List (String × Int)) :
    Stage.Draws db names [.addFields (foldedFields ordering), .sortBy keys,
      .exclude (foldedFields ordering).keys] := by
  intro docs out hdocs hout d' hd'
  obtain ⟨added, hadded, hout⟩ := Stage.runAll_cons_eq_ok.mp hout
  obtain ⟨sorted, hsorted, hout⟩ := Stage.runAll_cons_eq_ok.mp hout
  have hkeys : (foldedFields ordering).keys ≠ [] := fun hnil => hne (List.map_eq_nil_iff.mp hnil)
  rw [Stage.runAll_singleton, Stage.run_exclude_keys hkeys] at hout
  cases hout
  obtain ⟨d₁, hd₁, rfl⟩ := List.mem_map.mp hd'
  obtain ⟨d, hd, hextended⟩ := exists_of_mem_mapM hadded (Relation.mem_of_run_sort hsorted d₁ hd₁)
  have hunique := Stage.unique_extended (hdocs d hd) hextended
  obtain ⟨found, hnames, rfl, -⟩ := Stage.exists_extendedBy (fun _ _ => rfl) hextended
  have hfound : ∀ entry ∈ found, IsField entry.1 ∧ entry.1 ∈ (foldedFields ordering).keys := by
    intro entry hentry
    have hmem : entry.1 ∈ (foldedFields ordering).keys := hnames ▸ List.mem_map_of_mem hentry
    exact ⟨isField_of_mem_foldedFields hmem, hmem⟩
  have hdropped : ∀ field ∈ (Stage.entries (foldedFields ordering).keys (.int 0)).keys,
      IsField field ∧ field ∈ (foldedFields ordering).keys := by
    intro field hfield
    have hmem := Stage.mem_keys_entries.mp hfield
    exact ⟨isField_of_mem_foldedFields hmem, hmem⟩
  have hagree := Update.agreeOutside_removeAll_right hdropped hunique
    (Stage.agreeOutside_extendedBy_right hfound (.refl _ d))
  refine ⟨Update.unique_removeAll hunique _, d, hd, fun key _ v hv => ?_⟩
  refine (hagree key fun hkey => ?_).trans hv
  -- What is still there is no temporary field.
  exact Relation.not_mem_keys_removeAll (isField_of_mem_foldedFields hkey)
    (Stage.mem_keys_entries.mpr hkey) hunique (Document.mem_keys_of_mem (Document.mem_of_get? hv))

theorem draws_orderingStages (ordering : List SortKey) :
    Stage.Draws db names (orderingStages ordering) := by
  unfold orderingStages
  split
  · exact Stage.draws_nil
  · refine Stage.draws_of_subset fun docs out hout => ?_
    rw [Stage.runAll_singleton] at hout
    exact Relation.mem_of_run_sort hout
  · next hne => exact draws_foldedSort hne _

theorem draws_windowStages (q : Query) : Stage.Draws db names q.windowStages := by
  refine ((draws_orderingStages q.ordering).append (Stage.draws_option ?_ q.skip)).append
    (Stage.draws_option ?_ q.limit)
  · rintro n docs _ ⟨⟩
    exact fun _ hd => List.mem_of_mem_drop hd
  · rintro n docs _ ⟨⟩
    exact fun _ hd => List.mem_of_mem_take hd

theorem draws_conditionStage? {terms : List Term} {stage? : Option Stage}
    (h : conditionStage? terms = .ok stage?) : Stage.Draws db names stage?.toList := by
  obtain ⟨filter?, -, rfl⟩ := map_eq_ok.mp h
  exact Stage.draws_option (fun _ _ _ hout => Relation.mem_of_run_filter hout) filter?

/-- Up to the last stage, a query adds to a document nothing but what it loads. -/
theorem draws_stagesWith (hloads : Stage.Draws db names loads.stages) {stages : List Stage}
    (h : q.stagesWith loads q.windowStages loads.stages = .ok stages) :
    Stage.Draws db names stages := by
  obtain ⟨⟨⟩, -, h⟩ := bind_eq_ok.mp h
  obtain ⟨scope, hscope, h⟩ := bind_eq_ok.mp h
  obtain ⟨conditions, hconditions, h⟩ := bind_eq_ok.mp h
  have hpolicy : Stage.Draws db names (q.model.policy q.trashed).stage?.toList :=
    Stage.draws_option (fun _ _ _ hout => Relation.mem_of_run_filter hout) _
  have hroot := hpolicy.append (draws_conditionStage? hscope)
  have hconditions : Stage.Draws db names conditions.toList := draws_conditionStage? hconditions
  split at h
  · cases h
    exact ((hroot.append hloads).append hconditions).append q.draws_windowStages
  · cases h
    exact ((hroot.append hconditions).append q.draws_windowStages).append hloads

/-! ## The last stage -/

/-- The last stage of a query leaves cuts of the documents. -/
theorem cut_of_projectionStage {aliases : List EagerAlias} {docs out : List Document}
    (hdocs : ∀ d ∈ docs, d.Unique)
    (h : Stage.runAll db (q.projectionStage? aliases).toList docs = .ok out) :
    ∀ d' ∈ out, d'.Unique ∧ ∃ d ∈ docs, Json.Cut (.object d') (.object d) := by
  intro d' hd'
  unfold projectionStage? at h
  split at h
  · rw [Option.toList_some, Stage.runAll_singleton, Stage.run] at h
    obtain ⟨p, hp, h⟩ := bind_eq_ok.mp h
    obtain ⟨d, hd, happly⟩ := exists_of_mem_mapM h hd'
    obtain ⟨hunique, hcut⟩ :=
      Projection.cut_of_on (fun _ he => Stage.value_of_mem_entries he) hp (hdocs d hd) happly
    exact ⟨hunique, d, hd, hcut⟩
  · split at h
    · cases h
      exact ⟨hdocs d' hd', d', hd', .refl _⟩
    · next hne =>
      rw [Option.toList_some, Stage.runAll_singleton,
        Stage.run_exclude_keys fun hnil => hne (List.isEmpty_iff.mpr hnil)] at h
      cases h
      obtain ⟨d, hd, rfl⟩ := List.mem_map.mp hd'
      exact ⟨Update.unique_removeAll (hdocs d hd) _, d, hd, Update.removeAll_cut _ d⟩

/-! ## Sources -/

/-- **Sources.** What an entity that a query gets holds as stored is a cut of one document of the
collection, whatever the query loads, sorts by, selects and excludes. -/
theorem exists_source (hs : ∀ source, ∀ d ∈ s.documents source, d.Unique)
    (hloads : q.loaded schema = .ok loads)
    (hsaved : Relation.savedField ∉ EagerAlias.allNames loads.aliases)
    (hes : q.get schema s = .ok es) (he : e ∈ es) :
    e.stored.Unique ∧ ∃ d ∈ s.documents q.model.collection,
      Json.Cut (.object e.stored) (.object d) := by
  obtain ⟨loads', stages, docs, hloads', hstages, hdocs, rfl⟩ := get_eq_ok.mp hes
  obtain rfl : loads' = loads := Except.ok.inj (hloads'.symm.trans hloads)
  obtain ⟨d'', hd'', rfl⟩ := List.mem_map.mp he
  obtain ⟨mid, hmid, hshown⟩ := Stage.runAll_append_eq_ok.mp hdocs
  have hdraws := draws_stagesWith (Relation.draws_loadAll hs hloads hsaved) hstages _ mid (hs _) hmid
  obtain ⟨hunique, d', hd', hcut⟩ :=
    cut_of_projectionStage (fun d hd => (hdraws d hd).1) hshown d'' hd''
  obtain ⟨hunique', d, hd, hdrawn⟩ := hdraws d' hd'
  have hstored : (Entity.ofDocument q.model d'' loads'.aliases).stored =
      (loads'.aliases.map (·.name)).foldl Document.erase d'' := Entity.splitRelations_eq _ _ _
  rw [hstored]
  refine ⟨hunique.foldl_erase _, d, hd, .of_entries fun entry hentry => ?_⟩
  obtain ⟨key, v⟩ := entry
  rw [← Document.get?_eq_some_iff (hunique.foldl_erase _), Document.get?_foldl_erase hunique]
    at hentry
  split at hentry
  · cases hentry
  · next hkey =>
    obtain ⟨w, hw, hvw⟩ := hcut.exists_entry (Document.mem_of_get? hentry)
    rw [← Document.get?_eq_some_iff hunique'] at hw
    exact ⟨w, Document.mem_of_get? (hdrawn key hkey w hw), hvw⟩

end Query

end DocMapper
