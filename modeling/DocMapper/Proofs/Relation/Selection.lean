import DocMapper.Proofs.Projection
import DocMapper.Proofs.Relation.Join

/-! # Showing selected fields

The stages of a selection save the document under a field of their own, include the selected paths
below the alias, and merge what was included over the saved document. What this does to a document
depends on whether there is a path to include at all:

  * if there is, the value under the alias becomes its inclusion by the selected paths
    (`Relation.forall₂_included`);
  * if there is none, nothing is included under the alias, and the merge brings the value back as it
    was (`Relation.run_selection_nil`).

Together with the case without a selection, these are all that the last stages of a relation can do
to a document (`Relation.Shows`, `Relation.forall₂_shows`). -/

namespace DocMapper

/-! ## Expressions over the alias -/

namespace Expression

/-- An operator that is given nothing but a failed argument fails, unless it takes it literally. -/
theorem eq_raw_of_apply_error {operator : String} {raw : Json} {fault : QueryFault}
    {v : Option Json} (h : apply operator raw [.error fault] = .ok v) : v = some raw := by
  unfold apply at h
  split at h
  all_goals first
    | cases h; rfl
    | cases h

/-- Taken for an operator, an alias gives no object to merge. -/
theorem isScalar_of_dollar {name : String} (hfield : IsField name) (h : startsDollar name = true)
    {d : Document} {v : Option Json} (hv : eval d (.single name (.string ("$" ++ name))) = .ok v) :
    ∃ w, v = some w ∧ w.isScalar = true ∧ w ≠ .null := by
  obtain ⟨cs, hcs⟩ : ∃ cs, name.toList = '$' :: cs := by
    rw [startsDollar] at h
    cases hlist : name.toList with
    | nil =>
      rw [hlist] at h
      cases h
    | cons c cs =>
      rw [hlist] at h
      have hc : c = '$' := by simpa using h
      exact ⟨cs, by rw [hc]⟩
  have hsplit : Text.splitChars '.' cs = [cs] := by
    apply Text.splitChars_of_not_mem
    intro hmem
    exact hfield (hcs ▸ List.mem_cons_of_mem _ hmem)
  have hlist : ("$" ++ name).toList = '$' :: '$' :: cs := by simp [hcs]
  have happly : eval d (.single name (.string ("$" ++ name))) =
      apply name (.string ("$" ++ name)) [lookUpVariable d ("$" ++ name)] := by
    rw [Json.single, eval, if_pos h, eval, reference, hlist]
    · rfl
    · exact fun args hargs => Json.noConfusion hargs
  rw [happly, lookUpVariable, hlist] at hv
  simp only [List.drop, hsplit] at hv
  split at hv
  · next hroot =>
    -- The variables that refer to something name no operator.
    have hname : name = "$ROOT" ∨ name = "$CURRENT" := by
      have hwhole : name = String.ofList ('$' :: cs) := by rw [← hcs, String.ofList_toList]
      rcases Bool.or_eq_true_iff.mp hroot with hvar | hvar
      · left
        have heq : cs = ['R', 'O', 'O', 'T'] := by
          have heq := congrArg String.toList (beq_iff_eq.mp hvar)
          simpa using heq
        rw [hwhole, heq]
      · right
        have heq : cs = ['C', 'U', 'R', 'R', 'E', 'N', 'T'] := by
          have heq := congrArg String.toList (beq_iff_eq.mp hvar)
          simpa using heq
        rw [hwhole, heq]
    rcases hname with rfl | rfl
    · simp [apply] at hv
    · simp [apply] at hv
  · exact ⟨_, eq_raw_of_apply_error hv, rfl, Json.noConfusion⟩

/-- An object with one plain key holds what its expression finds. -/
theorem eval_single {name : String} (h : startsDollar name = false) {d : Document} {arg : Json}
    (harg : ∀ items, arg ≠ .array items) {found : Option Json} (hfound : eval d arg = .ok found) :
    eval d (.single name arg) =
      .ok (some (.object (found.map fun v => (name, v)).toList)) := by
  rw [Json.single, eval]
  · rw [h, evalFields, hfound, ok_bind, evalFields]
    cases found <;> rfl
  · exact fun items => harg items

/-- Merging what stands at a field with another object. -/
theorem eval_merge {field : String} (hfield : IsField field) (h : startsDollar field = false)
    {p d : Document} (hd : d.Unique) (hp : p.get? field = some (.object d)) (other : Json) :
    eval p (.single "$mergeObjects" (.array [.string ("$" ++ field), other])) =
      eval p other >>= fun found => mergeObjects d [found] := by
  have hfound : eval p (.string ("$" ++ field)) = .ok (some (.object d)) := by
    rw [eval_reference h, Document.at?_field hfield, hp]
  have hmerge : ∀ found, mergeObjects [] [some (.object d), found] = mergeObjects d [found] := by
    intro found
    rw [mergeObjects, Document.merge_nil_left hd]
  rw [Json.single, eval, if_pos (by decide), evalEach, evalEach, evalEach, hfound, apply]
  cases hother : eval p other with
  | error fault => rfl
  | ok found => exact hmerge found

end Expression

/-! ## Putting the alias back -/

namespace Stage

open Expression

/-- What puts the value under an alias back into the saved document. -/
def restored (name : String) : Json :=
  .single "$mergeObjects" (.array [.string ("$" ++ Relation.savedField),
    .single name (.string ("$" ++ name))])

variable {name : String} {p d : Document}

/-- A document that was saved gets the value under the alias, if there is one. -/
theorem replaced_restored (hname : IsField name) (h : startsDollar name = false) (hd : d.Unique)
    (hp : p.get? Relation.savedField = some (.object d)) :
    replaced (restored name) p = .ok (d.merge ((p.get? name).map fun v => (name, v)).toList) := by
  have hfound : eval p (.string ("$" ++ name)) = .ok (p.get? name) := by
    rw [eval_reference h, Document.at?_field hname]
  rw [replaced, restored, eval_merge (by decide) (by decide) hd hp,
    eval_single h (fun _ => Json.noConfusion) hfound]
  rfl

/-- An alias that looks like an operator cannot be put back. -/
theorem noDollar_of_replaced {out : Document} (hname : IsField name) (hd : d.Unique)
    (hp : p.get? Relation.savedField = some (.object d))
    (h : replaced (restored name) p = .ok out) : startsDollar name = false := by
  refine Bool.eq_false_iff.mpr fun hdollar => ?_
  rw [replaced, restored, eval_merge (by decide) (by decide) hd hp] at h
  obtain ⟨merged, hmerged, -⟩ := bind_eq_ok.mp h
  obtain ⟨found, hfound, hmerged⟩ := bind_eq_ok.mp hmerged
  obtain ⟨v, rfl, hv, hnull⟩ := isScalar_of_dollar hname hdollar hfound
  cases v with
  | null => exact hnull rfl
  | object | array => cases hv
  | _ => cases hmerged

/-- An array that stands where a document was to be saved cannot be merged. -/
theorem not_replaced_of_array {out : Document} {items : List Json}
    (hp : p.get? Relation.savedField = some (.array items)) :
    replaced (restored name) p ≠ .ok out := by
  intro h
  have hfound : eval p (.string ("$" ++ Relation.savedField)) = .ok (some (.array items)) := by
    rw [eval_reference (by decide), Document.at?_field (by decide), hp]
  rw [replaced, restored, Json.single, eval, if_pos (by decide), evalEach, evalEach, evalEach,
    hfound, apply] at h
  obtain ⟨merged, hmerged, -⟩ := bind_eq_ok.mp h
  cases hother : eval p (.single name (.string ("$" ++ name))) with
  | error fault =>
    rw [hother] at hmerged
    cases hmerged
  | ok found =>
    rw [hother] at hmerged
    cases hmerged

end Stage

namespace RelationOptions

theorem mem_addNew {fields : List String} {field f : String} :
    f ∈ addNew fields field ↔ f ∈ fields ∨ f = field := by
  rw [addNew]
  split
  · next h =>
    rw [List.contains_iff_mem] at h
    constructor
    · exact .inl
    · rintro (h' | rfl)
      · exact h'
      · exact h
  · rw [List.mem_append, List.mem_singleton]

/-- Taking in fields one by one, each once, keeps all of them. -/
theorem mem_foldl_addNew {fields sofar : List String} {f : String} :
    f ∈ fields.foldl addNew sofar ↔ f ∈ sofar ∨ f ∈ fields := by
  induction fields generalizing sofar with
  | nil => simp
  | cons field fields ih => rw [List.foldl_cons, ih, mem_addNew, List.mem_cons, or_assoc]

end RelationOptions

namespace Relation

variable {r : Relation} {name : String} {db : Collections} {docs out : List Document}
  {fields : List String} {nested : List EagerAlias}

/-! ## The description of a selection -/

/-- The description of a projection that saves the document and includes paths below an alias. -/
def selectionSpec (name : String) (paths : List String) : Document :=
  (savedField, .string "$$ROOT") :: paths.map fun path => (name ++ "." ++ path, .int 1)

theorem savedField_ne_under (name path : String) : savedField ≠ name ++ "." ++ path := by
  intro heq
  have hdot : '.' ∈ savedField.toList := by
    rw [heq]
    simp
  exact absurd hdot (by decide)

theorem under_inj {name p q : String} (h : name ++ "." ++ p = name ++ "." ++ q) : p = q :=
  (String.append_right_inj _).mp h

theorem mem_keys_selectionSpec {paths : List String} {path : String} :
    name ++ "." ++ path ∈ (selectionSpec name paths).keys ↔ path ∈ paths := by
  rw [selectionSpec, Document.keys_cons, List.mem_cons, Document.keys, List.map_map, List.mem_map]
  constructor
  · rintro (h | ⟨p, hp, heq⟩)
    · exact absurd h.symm (savedField_ne_under name path)
    · exact under_inj heq ▸ hp
  · exact fun h => .inr ⟨path, h, rfl⟩

theorem get?_selectionSpec {paths : List String} {path : String} (h : path ∈ paths) :
    (selectionSpec name paths).get? (name ++ "." ++ path) = some (.int 1) := by
  have hsome : ((selectionSpec name paths).get? (name ++ "." ++ path)).isSome :=
    Document.get?_isSome_iff.mpr (mem_keys_selectionSpec.mpr h)
  obtain ⟨v, hv⟩ := Option.isSome_iff_exists.mp hsome
  rcases List.mem_cons.mp (Document.mem_of_get? hv) with heq | hmem
  · exact absurd (congrArg Prod.fst heq).symm (savedField_ne_under name path)
  · obtain ⟨p, -, heq⟩ := List.mem_map.mp hmem
    rw [hv, ← (Prod.mk.inj heq).2]

/-- Entering paths one after the other describes each of them once. -/
theorem foldl_insert_eq_selectionSpec (name : String) (paths : List String) :
    (paths.map fun path => name ++ "." ++ path).foldl
        (fun (d : Document) path => d.insert path (.int 1)) [(savedField, .string "$$ROOT")] =
      selectionSpec name (paths.foldl RelationOptions.addNew []) := by
  have hinsert : ∀ (paths : List String) (path : String),
      (selectionSpec name paths).insert (name ++ "." ++ path) (.int 1) =
        selectionSpec name (RelationOptions.addNew paths path) := by
    intro paths path
    rw [RelationOptions.addNew]
    split
    · next h => exact Document.insert_eq_self (get?_selectionSpec (List.contains_iff_mem.mp h))
    · next h =>
      rw [Document.insert_of_not_mem]
      · rw [selectionSpec, selectionSpec, List.map_append]
        rfl
      · rw [mem_keys_selectionSpec]
        exact fun hmem => h (List.contains_iff_mem.mpr hmem)
  have hfold : ∀ sofar, (paths.map fun path => name ++ "." ++ path).foldl
      (fun (d : Document) path => d.insert path (.int 1)) (selectionSpec name sofar) =
        selectionSpec name (paths.foldl RelationOptions.addNew sofar) := by
    induction paths with
    | nil => exact fun _ => rfl
    | cons path paths ih =>
      intro sofar
      rw [List.map_cons, List.foldl_cons, hinsert, ih]
      rfl
  exact hfold []

/-- What a selection starts from: the identifier, and the whole document in its own field. -/
def selectionBase : List (String × Inclusion) :=
  [("_id", .whole), (savedField, .computed (.string "$$ROOT"))]

theorem contains_id_selectionSpec (name : String) (paths : List String) :
    (selectionSpec name paths).contains "_id" = false := by
  refine Bool.eq_false_iff.mpr fun h => ?_
  rw [Document.contains_iff, selectionSpec, Document.keys_cons, List.mem_cons, Document.keys,
    List.map_map, List.mem_map] at h
  rcases h with h | ⟨path, -, heq⟩
  · exact absurd h (by decide)
  · have hdot : '.' ∈ "_id".toList := by
      rw [← heq]
      simp
    exact absurd hdot (by decide)

theorem treeOf_selected (name : String) (paths : List String) (tree : List (String × Inclusion)) :
    Projection.treeOf tree (paths.map fun path => (name ++ "." ++ path, .int 1)) =
      .ok (paths.foldl
        (fun tree path => Inclusion.insert tree (Path.ofString (name ++ "." ++ path)) .whole)
          tree) := by
  have hon : Projection.switch? (.int 1) = some true := by decide
  induction paths generalizing tree with
  | nil => rfl
  | cons path paths ih =>
    rw [List.map_cons, Projection.treeOf, hon]
    exact ih _

/-- A selection is an inclusion. -/
theorem ofSpec_selectionSpec (name : String) (paths : List String) :
    Projection.ofSpec (selectionSpec name paths) = .ok (.inclusion (paths.foldl
      (fun tree path => Inclusion.insert tree (Path.ofString (name ++ "." ++ path)) .whole)
        selectionBase)) := by
  have hnotExclusion : Projection.isExclusion (selectionSpec name paths) = false := rfl
  have hbase : Inclusion.insert [("_id", .whole)] (Path.ofString savedField)
      (.computed (.string "$$ROOT")) = selectionBase := by
    rw [Path.ofString_field (by decide)]
    rfl
  have hsaved : Projection.switch? (.string "$$ROOT") = none := rfl
  -- The identifier is not left out, so it is the first that the inclusion shows.
  rw [Projection.ofSpec, hnotExclusion, contains_id_selectionSpec]
  show (Projection.treeOf [("_id", .whole)] _).map Projection.inclusion = _
  rw [selectionSpec, Projection.treeOf, hsaved]
  show (Projection.treeOf (Inclusion.insert _ _ _) _).map Projection.inclusion = _
  rw [hbase, treeOf_selected]
  rfl

/-- The stages of a selection. -/
theorem projectionStages_select (hselect : r.options.select = some fields)
    (nested : List EagerAlias) :
    r.projectionStages nested =
      [.project (selectionSpec r.aliasName
          ((fields ++ nested.map (·.name)).foldl RelationOptions.addNew [])),
        .replaceRoot (Stage.restored r.aliasName)] := by
  rw [projectionStages, hselect]
  show [Stage.project (List.foldl _ _ _), _] = _
  rw [foldl_insert_eq_selectionSpec]
  rfl

/-! ## Running a selection -/

theorem children_selectionBase (name : String) : Inclusion.children selectionBase name = [] := by
  by_cases hid : "_id" = name
  · simp [selectionBase, Inclusion.children, hid]
  · by_cases hsaved : savedField = name
    · simp [selectionBase, Inclusion.children, hid, hsaved]
    · simp [selectionBase, Inclusion.children, hid, hsaved]

theorem nodup_selectionBase : (selectionBase.map (·.1)).Nodup := by decide

theorem apply_saved (root : Document) (found : Option Json) :
    (Inclusion.computed (.string "$$ROOT")).apply root found = .ok (some (.object root)) := rfl

/-- What a selection of some paths includes. -/
def selectionTree (name : String) (paths : List String) : List (String × Inclusion) :=
  Inclusion.put selectionBase name (.fields (Inclusion.ofPaths paths))

/-- A selection of some paths includes them in each document and then puts the alias back. -/
theorem runAll_selection (halias : IsField r.aliasName) (hselect : r.options.select = some fields)
    (hne : fields ++ nested.map (·.name) ≠ []) :
    ∃ paths, (∀ path, path ∈ paths ↔ path ∈ fields ++ nested.map (·.name)) ∧
      ∀ (db : Collections) (docs : List Document),
        Stage.runAll db (r.projectionStages nested) docs =
          docs.mapM (fun d => Inclusion.applyAll d (selectionTree r.aliasName paths) d) >>=
            fun projected => projected.mapM (Stage.replaced (Stage.restored r.aliasName)) := by
  obtain ⟨paths, hpaths⟩ :
      ∃ paths, paths = (fields ++ nested.map (·.name)).foldl RelationOptions.addNew [] := ⟨_, rfl⟩
  have hmem : ∀ path, path ∈ paths ↔ path ∈ fields ++ nested.map (·.name) := by
    intro path
    rw [hpaths, RelationOptions.mem_foldl_addNew, or_iff_right List.not_mem_nil]
  have hpathsNe : paths ≠ [] := by
    obtain ⟨path, rest, heq⟩ := List.exists_cons_of_ne_nil hne
    exact List.ne_nil_of_mem ((hmem path).mpr (heq ▸ List.mem_cons_self))
  refine ⟨paths, hmem, fun db docs => ?_⟩
  rw [projectionStages_select hselect, ← hpaths, Stage.runAll, Stage.run, ofSpec_selectionSpec,
    ok_bind, Inclusion.foldl_insert_under selectionBase halias hpathsNe, children_selectionBase]
  refine bind_congr fun projected => ?_
  rw [Stage.runAll_singleton, Stage.run]

/-- What a selection includes under the alias. -/
theorem apply_selected {paths : List String} {d p : Document}
    (h : Inclusion.applyAll d (selectionTree name paths) d = .ok p) :
    (Inclusion.fields (Inclusion.ofPaths paths)).apply d (d.get? name) = .ok (p.get? name) :=
  Inclusion.apply_eq_get? (Inclusion.nodup_put nodup_selectionBase name _) h
    (Inclusion.mem_put_self _ _ _)

/-- What a selection includes of a document: the whole document in its own field, and what the paths
lead to under the alias. -/
theorem get?_selected {paths : List String} (hsaved : name ≠ savedField) {d p : Document}
    (h : Inclusion.applyAll d (selectionTree name paths) d = .ok p) :
    p.get? savedField = some (.object d) ∧
      (Inclusion.fields (Inclusion.ofPaths paths)).apply d (d.get? name) = .ok (p.get? name) := by
  have hnodup := Inclusion.nodup_put nodup_selectionBase name (.fields (Inclusion.ofPaths paths))
  have hnode : (savedField, Inclusion.computed (.string "$$ROOT")) ∈ selectionTree name paths :=
    Inclusion.mem_put_of_ne (by simp [selectionBase]) (Ne.symm hsaved)
  have hroot := Inclusion.apply_eq_get? hnodup h hnode
  rw [apply_saved] at hroot
  exact ⟨(Except.ok.inj hroot).symm, apply_selected h⟩

/-- A selection of some paths leaves each document as it was but for the value under the alias,
which becomes its inclusion by the paths. -/
theorem forall₂_included (halias : IsField r.aliasName) (hsaved : r.aliasName ≠ savedField)
    (hselect : r.options.select = some fields) (hne : fields ++ nested.map (·.name) ≠ [])
    (hdocs : ∀ d ∈ docs, d.Unique)
    (h : Stage.runAll db (r.projectionStages nested) docs = .ok out) :
    ∃ paths, (∀ path, path ∈ paths ↔ path ∈ fields ++ nested.map (·.name)) ∧
      List.Forall₂ (fun d d' => ∃ found,
        (Inclusion.fields (Inclusion.ofPaths paths)).apply d (d.get? r.aliasName) = .ok found ∧
          d' = d.merge (found.map fun v => (r.aliasName, v)).toList) docs out := by
  obtain ⟨paths, hpaths, hrun⟩ := runAll_selection halias hselect hne
  rw [hrun] at h
  obtain ⟨projected, hprojected, h⟩ := bind_eq_ok.mp h
  have hfirst := (List.forall₂_and_left docs projected).mpr ⟨hdocs, forall₂_mapM hprojected⟩
  have hboth := forall₂_trans hfirst (forall₂_mapM h)
  refine ⟨paths, hpaths, hboth.imp ?_⟩
  -- The document is saved in its field, and stands there when its alias is put back.
  rintro d d' ⟨p, ⟨hd, happly⟩, hreplaced⟩
  obtain ⟨hroot, hunder⟩ := get?_selected hsaved happly
  have hdollar := Stage.noDollar_of_replaced halias hd hroot hreplaced
  rw [Stage.replaced_restored halias hdollar hd hroot] at hreplaced
  exact ⟨p.get? r.aliasName, hunder, (Except.ok.inj hreplaced).symm⟩

/-- What a selection of nothing makes of a document before it is put back. -/
def onlySaved (d : Document) : Document :=
  ((d.get? "_id").map fun v => ("_id", v)).toList ++ [(savedField, .object d)]

theorem apply_selectionBase (d : Document) :
    (Projection.inclusion selectionBase).apply d = .ok (onlySaved d) := by
  rw [Projection.apply, selectionBase, Inclusion.applyAll, Inclusion.applyAll, apply_saved,
    Inclusion.applyAll, Inclusion.apply, onlySaved]
  cases d.get? "_id" <;> rfl

theorem get?_onlySaved (d : Document) {key : String} (h : key ≠ savedField) :
    (onlySaved d).get? key = if "_id" = key then d.get? "_id" else none := by
  rw [onlySaved]
  cases d.get? "_id" with
  | none => simp [Document.get?, Ne.symm h]
  | some v => simp [Document.get?, Ne.symm h]

theorem get?_savedField_onlySaved (d : Document) :
    (onlySaved d).get? savedField = some (.object d) := by
  rw [onlySaved]
  cases d.get? "_id" <;> rfl

/-- A document that was saved is restored as it was. -/
theorem replaced_onlySaved (hname : IsField name) (hsaved : name ≠ savedField)
    (hdollar : startsDollar name = false) {d : Document} (hd : d.Unique) :
    Stage.replaced (Stage.restored name) (onlySaved d) = .ok d := by
  rw [Stage.replaced_restored hname hdollar hd (get?_savedField_onlySaved d),
    get?_onlySaved d hsaved]
  split
  · next hid =>
    subst hid
    cases hget : d.get? "_id" with
    | none => rfl
    | some v =>
      show Except.ok (d.insert "_id" v) = .ok d
      rw [Document.insert_eq_self hget]
  · rfl

/-- A selection of nothing saves and restores each document. -/
theorem runAll_selection_nil (hselect : r.options.select = some []) (db : Collections)
    (docs : List Document) :
    Stage.runAll db (r.projectionStages []) docs =
      docs.mapM fun d => Stage.replaced (Stage.restored r.aliasName) (onlySaved d) := by
  rw [projectionStages_select hselect]
  show Stage.runAll db [.project (selectionSpec r.aliasName []), _] docs = _
  rw [Stage.runAll, Stage.run, ofSpec_selectionSpec, ok_bind]
  show docs.mapM (Projection.inclusion selectionBase).apply >>= _ = _
  rw [mapM_ok fun d _ => apply_selectionBase d, ok_bind, Stage.runAll_singleton, Stage.run,
    List.mapM_map]
  rfl

section Nothing

variable (halias : IsField r.aliasName) (hsaved : r.aliasName ≠ savedField)
  (hselect : r.options.select = some []) (hdocs : ∀ d ∈ docs, d.Unique)

include halias hsaved hselect hdocs

/-- A selection of nothing leaves every document as it was. -/
theorem run_selection_nil (hdollar : startsDollar r.aliasName = false) (db : Collections) :
    Stage.runAll db (r.projectionStages []) docs = .ok docs := by
  have hrestored := mapM_ok fun d hd => replaced_onlySaved halias hsaved hdollar (hdocs d hd)
  rw [runAll_selection_nil hselect, hrestored, List.map_id']

/-- A selection of nothing makes nothing of documents but what they were. -/
theorem eq_of_selection_nil (h : Stage.runAll db (r.projectionStages []) docs = .ok out) :
    out = docs := by
  rw [runAll_selection_nil hselect] at h
  cases docs with
  | nil =>
    cases h
    rfl
  | cons d docs =>
    have hall := h
    rw [List.mapM_cons] at h
    obtain ⟨d', hd', -⟩ := bind_eq_ok.mp h
    have hdollar := Stage.noDollar_of_replaced halias (hdocs d List.mem_cons_self)
      (get?_savedField_onlySaved d) hd'
    rw [← runAll_selection_nil hselect db, run_selection_nil halias hsaved hselect hdocs hdollar]
      at hall
    exact (Except.ok.inj hall).symm

end Nothing

/-! ## What is shown -/

/-- What the last stages of a relation may make of a document. -/
inductive Shows (r : Relation) (nested : List EagerAlias) (d : Document) : Document → Prop where
  /-- Without a selection, what is hidden is removed under the alias. -/
  | removed : r.options.select = none →
      Shows r nested d (Update.removeAll d ((r.options.hiddenFields r.related.hidden).map
        fun field => r.aliasName ++ "." ++ field))
  /-- A selection of nothing leaves the document as it was. -/
  | nothing : r.options.select = some [] → nested = [] → Shows r nested d d
  /-- A selection of paths that include nothing under the alias leaves it as it was, too. -/
  | missing {fields paths : List String} : r.options.select = some fields →
      (Inclusion.fields (Inclusion.ofPaths paths)).apply d (d.get? r.aliasName) = .ok none →
      Shows r nested d d
  /-- A selection of paths puts what they include under the alias. -/
  | included {fields paths : List String} {w : Json} : r.options.select = some fields →
      (∀ path, path ∈ paths ↔ path ∈ fields ++ nested.map (·.name)) →
      (Inclusion.fields (Inclusion.ofPaths paths)).apply d (d.get? r.aliasName) = .ok (some w) →
      Shows r nested d (d.insert r.aliasName w)

/-- The last stages of a relation take the documents one by one. -/
theorem forall₂_shows (halias : IsField r.aliasName) (hsaved : r.aliasName ≠ savedField)
    (hdocs : ∀ d ∈ docs, d.Unique)
    (h : Stage.runAll db (r.projectionStages nested) docs = .ok out) :
    List.Forall₂ (r.Shows nested) docs out := by
  cases hselect : r.options.select with
  | none =>
    rw [run_projectionStages hselect] at h
    cases h
    rw [List.forall₂_map_right_iff, List.forall₂_same]
    exact fun d _ => .removed hselect
  | some fields =>
    by_cases hne : fields ++ nested.map (·.name) = []
    · -- With no path to include, the documents stay as they were.
      obtain ⟨rfl, hnil⟩ := List.append_eq_nil_iff.mp hne
      obtain rfl := List.map_eq_nil_iff.mp hnil
      obtain rfl := eq_of_selection_nil halias hsaved hselect hdocs h
      exact List.forall₂_same.mpr fun _ _ => .nothing hselect rfl
    · obtain ⟨paths, hpaths, hincluded⟩ := forall₂_included halias hsaved hselect hne hdocs h
      refine hincluded.imp ?_
      rintro d _ ⟨found, hfound, rfl⟩
      cases found with
      | none => exact .missing hselect hfound
      | some w => exact .included hselect hpaths hfound

end Relation

end DocMapper
