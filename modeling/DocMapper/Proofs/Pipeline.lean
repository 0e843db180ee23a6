import DocMapper.Pipeline.Run
import DocMapper.Proofs.Filter
import DocMapper.Store.Update

/-! # Running stages

What the stages that relations and queries are made of do to documents, as plain operations on
lists: a stage of conditions filters (`run_filter`), a lookup puts what it joins under its target
(`run_lookup`), an exclusion removes its paths from each document (`run_exclude`). A pipeline that
is put together of two runs the one and then the other (`runAll_append`). -/

namespace DocMapper

/-! ## Removing several fields -/

namespace Update

theorem unique_removeAll {d : Document} (hd : d.Unique) (paths : List String) :
    (removeAll d paths).Unique := by
  induction paths generalizing d with
  | nil => exact hd
  | cons path paths ih => exact ih (hd.remove path)

/-- Removing plain fields is erasing them. -/
theorem removeAll_eq_erase {paths : List String} (h : ∀ path ∈ paths, IsField path) (d : Document) :
    removeAll d paths = paths.foldl Document.erase d := by
  induction paths generalizing d with
  | nil => rfl
  | cons path paths ih =>
    obtain ⟨hpath, hrest⟩ := List.forall_mem_cons.mp h
    have hcons : removeAll d (path :: paths) = removeAll (d.erase path) paths := by
      rw [← Document.remove_field hpath]
      rfl
    rw [hcons, List.foldl_cons, ih hrest]

end Update

/-! ## Entries with one value -/

namespace Stage

theorem foldl_insert_of_nodup {keys : List String} (value : Json) {d : Document}
    (h : (d.keys ++ keys).Nodup) :
    keys.foldl (fun d key => Document.insert d key value) d =
      d ++ keys.map fun key => (key, value) := by
  induction keys generalizing d with
  | nil => exact (List.append_nil d).symm
  | cons key keys ih =>
    have hnot : key ∉ d.keys := by
      intro hmem
      exact (List.nodup_append.mp h).2.2 key hmem key List.mem_cons_self rfl
    have hkeys : Document.keys (d ++ [(key, value)]) = d.keys ++ [key] := by simp [Document.keys]
    rw [List.foldl_cons, Document.insert_of_not_mem hnot, ih, List.append_assoc]
    · rfl
    · rw [hkeys, List.append_assoc]
      exact h

/-- The entries of distinct keys are in the order of the keys. -/
theorem entries_eq {keys : List String} (h : keys.Nodup) (value : Json) :
    entries keys value = keys.map fun key => (key, value) := by
  have hfold := foldl_insert_of_nodup (d := []) value h
  exact hfold

theorem keys_entries {keys : List String} (h : keys.Nodup) (value : Json) :
    Document.keys (entries keys value) = keys := by
  rw [entries_eq h, Document.keys, List.map_map]
  exact List.map_id keys

theorem mem_keys_entries {keys : List String} {value : Json} {key : String} :
    key ∈ (entries keys value).keys ↔ key ∈ keys := by
  have hfold : ∀ d : Document, key ∈ Document.keys
      (keys.foldl (fun d key => Document.insert d key value) d) ↔ key ∈ d.keys ∨ key ∈ keys := by
    induction keys with
    | nil => simp
    | cons first keys ih =>
      intro d
      rw [List.foldl_cons, ih, Document.mem_keys_insert, List.mem_cons, or_right_comm, or_comm]
  exact (hfold []).trans (or_iff_right List.not_mem_nil)

/-- All entries hold the one value. -/
theorem value_of_mem_entries {keys : List String} {value : Json} {e : String × Json}
    (h : e ∈ entries keys value) : e.2 = value := by
  have hfold : ∀ d : Document, (∀ e ∈ d, e.2 = value) →
      ∀ e ∈ keys.foldl (fun d key => Document.insert d key value) d, e.2 = value := by
    clear h
    induction keys with
    | nil => exact fun _ h => h
    | cons key keys ih =>
      refine fun d hd => ih _ fun e he => ?_
      rcases Document.mem_of_mem_insert he with he | rfl
      · exact hd e he
      · rfl
  exact hfold [] (fun e he => absurd he List.not_mem_nil) e h

/-- Entries for one key again and again are one entry. -/
theorem entries_of_all_eq {keys : List String} {key : String} (hne : keys ≠ [])
    (h : ∀ k ∈ keys, k = key) (value : Json) : entries keys value = [(key, value)] := by
  have hfold : ∀ keys : List String, (∀ k ∈ keys, k = key) →
      keys.foldl (fun d key => Document.insert d key value) [(key, value)] = [(key, value)] := by
    intro keys
    induction keys with
    | nil => exact fun _ => rfl
    | cons k keys ih =>
      intro h
      obtain rfl : k = key := h k List.mem_cons_self
      rw [List.foldl_cons, Document.insert, if_pos rfl]
      exact ih fun k hk => h k (List.mem_cons_of_mem _ hk)
  obtain ⟨first, rest, rfl⟩ := List.exists_cons_of_ne_nil hne
  obtain rfl : first = key := h first List.mem_cons_self
  exact hfold rest fun k hk => h k (List.mem_cons_of_mem _ hk)

/-! ## One stage after the other -/

theorem runAll_append (db : Collections) (stages rest : List Stage) (docs : List Document) :
    runAll db (stages ++ rest) docs = runAll db stages docs >>= runAll db rest := by
  induction stages generalizing docs with
  | nil => rfl
  | cons stage stages ih =>
    rw [List.cons_append, runAll, runAll]
    cases stage.run db docs with
    | error fault => rfl
    | ok docs => exact ih docs

theorem runAll_append_ok {db : Collections} {stages : List Stage} {docs found : List Document}
    (h : runAll db stages docs = .ok found) (rest : List Stage) :
    runAll db (stages ++ rest) docs = runAll db rest found := by
  rw [runAll_append, h, ok_bind]

theorem runAll_singleton (db : Collections) (stage : Stage) (docs : List Document) :
    runAll db [stage] docs = stage.run db docs := by
  rw [runAll]
  cases stage.run db docs <;> rfl

theorem runAll_cons_eq_ok {db : Collections} {stage : Stage} {rest : List Stage}
    {docs out : List Document} :
    runAll db (stage :: rest) docs = .ok out ↔
      ∃ mid, stage.run db docs = .ok mid ∧ runAll db rest mid = .ok out := by
  rw [runAll]
  exact bind_eq_ok

theorem runAll_append_eq_ok {db : Collections} {stages rest : List Stage}
    {docs out : List Document} :
    runAll db (stages ++ rest) docs = .ok out ↔
      ∃ mid, runAll db stages docs = .ok mid ∧ runAll db rest mid = .ok out := by
  rw [runAll_append]
  exact bind_eq_ok

/-! ## Filtering -/

theorem run_filter {filter : Json} {docs : List Document} {p : Document → Bool}
    (h : ∀ d ∈ docs, Filter.accepts d filter = .ok (p d)) (db : Collections) :
    run db (.filter filter) docs = .ok (docs.filter p) := by
  rw [run, matching]
  exact filterM_ok h

/-- A filter, if there is one, chooses among the documents that it is given. -/
theorem sublist_of_filter? {filter : Option Json} {db : Collections} {docs kept : List Document}
    (h : runAll db (filter.map Stage.filter).toList docs = .ok kept) : kept.Sublist docs := by
  cases filter with
  | none =>
    cases h
    exact List.Sublist.refl _
  | some filter =>
    rw [Option.map_some, Option.toList_some, runAll_singleton] at h
    exact sublist_of_filterM h

theorem run_filterAll {conditions : List Json} {docs : List Document}
    (h : ∀ e ∈ conditions, ∀ d ∈ docs, ∃ found, Expression.eval d e = .ok found)
    (db : Collections) :
    run db (.filterAll conditions) docs =
      .ok (docs.filter fun d => conditions.all (Expression.holdsOn d)) :=
  run_filter (fun d hd => Filter.accepts_filterAll fun e he => h e he d hd) db

/-! ## Joining -/

/-- A lookup puts the documents that it joins, after its own pipeline, under its target. -/
theorem run_lookup {db : Collections} {source : String} {on : Option (String × String)}
    {target : String} {pipeline : List Stage} {d : Document} {found : List Document}
    (htarget : IsField target)
    (h : runAll db pipeline (joined (db source) on d) = .ok found) :
    run db (.lookup source on target pipeline) [d] =
      .ok [d.insert target (.array (found.map .object))] := by
  rw [run, List.mapM_cons, h]
  simp only [ok_bind, Document.set_field htarget]
  rfl

/-! ## Leaving fields out -/

/-- A projection with all entries switched off leaves out. -/
theorem isExclusion_off {fields : List String} (hne : fields ≠ []) :
    Projection.isExclusion (entries fields (.int 0)) = true := by
  have hoff : Projection.switch? (.int 0) = some false := by decide
  obtain ⟨field, rest, rfl⟩ := List.exists_cons_of_ne_nil hne
  have hsome : field ∈ (entries (field :: rest) (.int 0)).keys :=
    mem_keys_entries.mpr List.mem_cons_self
  rw [Projection.isExclusion, Bool.and_eq_true, List.all_eq_true]
  refine ⟨?_, fun e he => ?_⟩
  · cases hentries : entries (field :: rest) (.int 0) with
    | nil =>
      rw [hentries] at hsome
      cases hsome
    | cons => rfl
  · show (e.1 == "_id" || Projection.switch? e.2 == some false) = true
    simp [value_of_mem_entries he, hoff]

theorem ofSpec_exclude {fields : List String} (hne : fields ≠ []) (h : fields.Nodup) :
    Projection.ofSpec (entries fields (.int 0)) = .ok (.exclusion fields) := by
  rw [Projection.ofSpec, if_pos (isExclusion_off hne), keys_entries h]

/-- An exclusion removes what it names from each document. -/
theorem run_exclude_keys {fields : List String} (hne : fields ≠ []) (db : Collections)
    (docs : List Document) : run db (.exclude fields) docs =
      .ok (docs.map fun d => Update.removeAll d (entries fields (.int 0)).keys) := by
  rw [exclude, run, Projection.ofSpec, if_pos (isExclusion_off hne), ok_bind]
  exact mapM_ok fun d _ => rfl

/-- An exclusion removes its paths from each document. -/
theorem run_exclude {fields : List String} (hne : fields ≠ []) (h : fields.Nodup)
    (db : Collections) (docs : List Document) :
    run db (.exclude fields) docs = .ok (docs.map fun d => Update.removeAll d fields) := by
  rw [run_exclude_keys hne, keys_entries h]

end Stage

end DocMapper
