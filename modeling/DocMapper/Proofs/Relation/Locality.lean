import DocMapper.Proofs.Relation.Execution

/-! # What loading a relation reads and changes of an owner

The stages of a relation of a kind with many related documents keep the owners one by one. Of an
owner they read nothing but the field that the owner's key starts with, and they change nothing but
the alias and the temporary fields, which are gone in the end. So two owners that hold the same
under that one field get the same under the alias, whatever else they hold (`Relation.Gives`,
`Relation.exists_gives_loadWith`), and the stages do to each owner of a list what they do to it
alone (`Relation.eachAlone_loadWith`). -/

namespace DocMapper

/-! ## Reading a path -/

namespace Document

variable {d e : Document} {path : String}

/-- Reading a path reads the field that the path starts with. -/
theorem at?_congr (h : d.get? (Path.head path) = e.get? (Path.head path)) :
    d.at? path = e.at? path := by
  unfold Path.head at h
  unfold Document.at?
  match hpath : Path.ofString path with
  | [] => exact absurd hpath (Path.ofString_ne_nil path)
  | key :: rest =>
    rw [hpath] at h
    rw [Json.get?, Json.get?, getEntry?_eq, getEntry?_eq]
    exact congrArg (·.bind (·.get? rest)) h

theorem joinValues_congr (h : d.get? (Path.head path) = e.get? (Path.head path)) :
    d.joinValues path = e.joinValues path := by
  rw [joinValues, joinValues, at?_congr h]

end Document

/-! ## Documents that agree outside of some fields -/

namespace Document

variable {fields : List String} {d e : Document}

/-- Two documents hold the same under every key but the given fields. -/
def AgreeOutside (fields : List String) (d e : Document) : Prop :=
  ∀ key ∉ fields, d.get? key = e.get? key

namespace AgreeOutside

theorem refl (fields : List String) (d : Document) : AgreeOutside fields d d := fun _ _ => rfl

theorem at? (h : AgreeOutside fields d e) {path : String} (hpath : Path.head path ∉ fields) :
    d.at? path = e.at? path :=
  at?_congr (h _ hpath)

/-- Documents that agree outside of some fields still do if the same is put into both. -/
theorem insert (h : AgreeOutside fields d e) (key : String) (v : Json) :
    AgreeOutside fields (d.insert key v) (e.insert key v) := by
  intro other hother
  rw [get?_insert, get?_insert, h other hother]

/-- They still do if the same is taken out of both. -/
theorem erase (hd : d.Unique) (he : e.Unique) (h : AgreeOutside fields d e) (key : String) :
    AgreeOutside fields (d.erase key) (e.erase key) := by
  intro other hother
  by_cases hkey : other = key
  · rw [hkey, get?_erase_self hd, get?_erase_self he]
  · rw [get?_erase_of_ne hd hkey, get?_erase_of_ne he hkey, h other hother]

/-- What is put into one of the fields makes no difference outside of them. -/
theorem insert_right (h : AgreeOutside fields d e) {key : String} (hkey : key ∈ fields) (v : Json) :
    AgreeOutside fields d (e.insert key v) := by
  intro other hother
  rw [h other hother, get?_insert_of_ne (ne_of_mem_of_not_mem hkey hother)]

theorem erase_right (he : e.Unique) (h : AgreeOutside fields d e) {key : String}
    (hkey : key ∈ fields) : AgreeOutside fields d (e.erase key) := by
  intro other hother
  rw [h other hother, get?_erase_of_ne he (ne_of_mem_of_not_mem hkey hother).symm]

end AgreeOutside

end Document

/-! ## Lookups and inclusions -/

/-- What a lookup joins to a document depends on the field that its path here starts with. -/
theorem Stage.joined_congr {docs : List Document} {here there : String} {d e : Document}
    (h : d.get? (Path.head here) = e.get? (Path.head here)) :
    joined docs (some (here, there)) d = joined docs (some (here, there)) e := by
  have hagree : agree here there d = agree here there e := by
    funext other
    rw [agree, agree, Document.joinValues_congr h]
  rw [joined, joined, hagree]

namespace Inclusion

theorem applyAll_congr {tree : List (String × Inclusion)} {root root' : Document}
    (h : ∀ node ∈ tree, ∀ found, node.2.apply root found = node.2.apply root' found)
    (source : Document) : applyAll root tree source = applyAll root' tree source := by
  induction tree with
  | nil => rfl
  | cons first tree ih =>
    obtain ⟨key, node⟩ := first
    rw [applyAll, applyAll, h _ List.mem_cons_self,
      ih fun node hnode => h node (List.mem_cons_of_mem _ hnode)]

/-- What copies show does not depend on the document that is projected as a whole. -/
theorem Copies.apply_congr {node : Inclusion} (h : node.Copies) (root root' : Document) :
    ∀ found, node.apply root found = node.apply root' found := by
  induction h with
  | whole => exact fun _ => rfl
  | fields _ ih =>
    intro found
    match found with
    | some (.object source) => rw [apply, apply, applyAll_congr ih]
    | some (.array items) =>
      rw [apply, apply]
      simp only [applyAll_congr ih]
    | none | some .null | some (.bool _) | some (.number _) | some (.string _) => rfl

end Inclusion

/-! ## Stages that take documents one by one -/

namespace Stage

variable {db : Collections} {stages rest : List Stage}

/-- Stages that make of a list of documents what they make of each document alone. -/
def EachAlone (db : Collections) (stages : List Stage) : Prop :=
  ∀ docs out, runAll db stages docs = .ok out ↔
    List.Forall₂ (fun d d' => runAll db stages [d] = .ok [d']) docs out

theorem eachAlone_nil : EachAlone db [] := by
  intro docs out
  refine ⟨?_, fun h => ?_⟩
  · rintro ⟨⟩
    exact List.forall₂_same.mpr fun _ _ => rfl
  · induction h with
    | nil => rfl
    | cons hd _ ih =>
      cases hd
      cases ih
      rfl

theorem eachAlone_of_mapM {f : Document → Except QueryFault Document}
    (h : ∀ docs, runAll db stages docs = docs.mapM f) : EachAlone db stages := by
  have hone : ∀ d d', runAll db stages [d] = .ok [d'] ↔ f d = .ok d' := by
    intro d d'
    rw [h, mapM_eq_ok_iff, List.forall₂_cons, and_iff_left .nil]
  intro docs out
  simp only [hone]
  rw [h, mapM_eq_ok_iff]

theorem EachAlone.append (h : EachAlone db stages) (h' : EachAlone db rest) :
    EachAlone db (stages ++ rest) := by
  have hone : ∀ d d', runAll db (stages ++ rest) [d] = .ok [d'] ↔
      ∃ e, runAll db stages [d] = .ok [e] ∧ runAll db rest [e] = .ok [d'] := by
    intro d d'
    rw [runAll_append_eq_ok]
    constructor
    · rintro ⟨mid, hmid, hrest⟩
      -- One document stays one document.
      have hlength := ((h _ _).mp hmid).length_eq
      obtain ⟨e, rfl⟩ := List.length_eq_one_iff.mp hlength.symm
      exact ⟨e, hmid, hrest⟩
    · rintro ⟨e, he, hrest⟩
      exact ⟨[e], he, hrest⟩
  intro docs out
  simp only [hone]
  rw [runAll_append_eq_ok]
  constructor
  · rintro ⟨mid, hmid, hrest⟩
    exact forall₂_trans ((h _ _).mp hmid) ((h' _ _).mp hrest)
  · intro hboth
    obtain ⟨mid, hmid, hrest⟩ := exists_forall₂_between hboth
    exact ⟨mid, (h _ _).mpr hmid, (h' _ _).mpr hrest⟩

/-- Such stages succeed on a list exactly if they do on each document alone. -/
theorem EachAlone.succeeds_iff (h : EachAlone db stages) (docs : List Document) :
    (∃ out, runAll db stages docs = .ok out) ↔
      ∀ d ∈ docs, ∃ d', runAll db stages [d] = .ok [d'] := by
  constructor
  · rintro ⟨out, hout⟩
    have hall := (h _ _).mp hout
    clear hout
    induction hall with
    | nil => exact fun _ hd => absurd hd List.not_mem_nil
    | cons hd _ ih => exact List.forall_mem_cons.mpr ⟨⟨_, hd⟩, ih⟩
  · intro hall
    obtain ⟨out, hout⟩ : ∃ out,
        List.Forall₂ (fun d d' => runAll db stages [d] = .ok [d']) docs out := by
      induction docs with
      | nil => exact ⟨[], .nil⟩
      | cons d docs ih =>
        obtain ⟨⟨d', hd'⟩, hrest⟩ := List.forall_mem_cons.mp hall
        obtain ⟨out, hout⟩ := ih hrest
        exact ⟨d' :: out, .cons hd' hout⟩
    exact ⟨out, (h _ _).mpr hout⟩

theorem eachAlone_lookup (source : String) (on : Option (String × String)) (target : String)
    (pipeline : List Stage) : EachAlone db [.lookup source on target pipeline] :=
  eachAlone_of_mapM fun docs => by rw [runAll_singleton, run]

theorem eachAlone_replaceRoot (expression : Json) : EachAlone db [.replaceRoot expression] :=
  eachAlone_of_mapM fun docs => by rw [runAll_singleton, run]

theorem eachAlone_project {spec : Document} {p : Projection} (h : Projection.ofSpec spec = .ok p) :
    EachAlone db [.project spec] :=
  eachAlone_of_mapM fun docs => by rw [runAll_singleton, run, h, ok_bind]

theorem eachAlone_exclude {fields : List String} (hne : fields ≠ []) (h : fields.Nodup) :
    EachAlone db [.exclude fields] :=
  eachAlone_project (ofSpec_exclude hne h)

end Stage

namespace Relation

variable {r : Relation} {db : Collections} {nested : Loaded} {pipeline : List Stage}
  {d e : Document} {v : Json} {out : List Document}

/-! ## The fields that a relation writes -/

/-- The fields of an owner that the stages of a relation hold documents in between under. -/
def temporaries (r : Relation) : List String :=
  match r.keys with
  | .pivot _ => [r.temporary "pivot"]
  | .through _ _ _ _ => [r.temporary "through"]
  | _ => []

/-- The fields of an owner that the stages of a relation write. -/
def written (r : Relation) : List String := r.aliasName :: r.temporaries

/-- The field of an owner that the stages of a relation read. -/
def start (r : Relation) : String := Path.head r.ownerKey

/-- The lookups of a valid relation start from the owner's key, whatever the pipeline of the related
side is. -/
theorem joinStages_eq (h : r.keysFit = true) :
    (∃ there, r.temporaries = [] ∧
      ∀ pipeline, r.joinStages pipeline = [r.relatedLookup r.ownerKey there pipeline]) ∨
    ∃ suffix source there conditions onward target, IsField suffix ∧
      r.temporaries = [r.temporary suffix] ∧ ∀ pipeline, r.joinStages pipeline =
        r.lookupsThrough suffix source r.ownerKey there conditions onward target pipeline := by
  unfold joinStages temporaries ownerKey
  cases hkeys : r.keys with
  | owning => exact .inl ⟨_, rfl, fun _ => rfl⟩
  | inverse => exact .inl ⟨_, rfl, fun _ => rfl⟩
  | morph => exact .inl ⟨_, rfl, fun _ => rfl⟩
  | pivot keys => exact .inr ⟨"pivot", _, _, _, _, _, by decide, rfl, fun _ => rfl⟩
  | through firstKey secondKey localKey secondLocalKey =>
    obtain ⟨m, hm⟩ := exists_through h hkeys
    rw [hm]
    exact .inr ⟨"through", _, _, _, _, _, by decide, rfl, fun _ => rfl⟩

theorem ne_alias_of_mem_temporaries {key : String} (h : key ∈ r.temporaries) :
    key ≠ r.aliasName := by
  unfold temporaries at h
  split at h
  · exact List.mem_singleton.mp h ▸ temporary_ne r "pivot"
  · exact List.mem_singleton.mp h ▸ temporary_ne r "through"
  · cases h

theorem ne_alias_of_not_mem_written {key : String} (h : key ∉ r.written) : key ≠ r.aliasName := by
  rintro rfl
  exact h List.mem_cons_self

/-- A document with a value under the alias, nothing under the temporary fields, and everything else
as it was. -/
structure Puts (r : Relation) (v : Json) (d d' : Document) : Prop where
  unique : d'.Unique
  under : d'.get? r.aliasName = some v
  dropped : ∀ key ∈ r.temporaries, d'.get? key = none
  kept : ∀ key, key ∉ r.written → d'.get? key = d.get? key

/-- Stages that put a value under the alias of every owner that holds something under the field
where the relation starts. -/
def Gives (r : Relation) (db : Collections) (stages : List Stage) (found : Option Json)
    (v : Json) : Prop :=
  ∀ d : Document, d.Unique → d.get? r.start = found →
    ∃ d', Stage.runAll db stages [d] = .ok [d'] ∧ r.Puts v d d'

/-! ## Lookups -/

theorem exists_gives_relatedLookup (halias : IsField r.aliasName) (hnone : r.temporaries = [])
    {there : String}
    (h : Stage.runAll db [r.relatedLookup r.ownerKey there pipeline] [d] = .ok out) :
    ∃ found : List Document, r.Gives db [r.relatedLookup r.ownerKey there pipeline]
      (d.get? r.start) (.array (found.map .object)) := by
  rw [Stage.runAll_singleton] at h
  obtain ⟨_, ⟨found, hfound, -⟩, -⟩ := forall₂_singleton.mp (forall₂_found halias h)
  refine ⟨found, fun e he hstart => ⟨_, ?_, he.insert _ _,
    Document.get?_insert_self _ _ _, fun key hkey => ?_, fun key hkey => ?_⟩⟩
  · rw [Stage.runAll_singleton, relatedLookup]
    refine Stage.run_lookup halias ?_
    rw [Stage.joined_congr hstart]
    exact hfound
  · rw [hnone] at hkey
    cases hkey
  · exact Document.get?_insert_of_ne (ne_alias_of_not_mem_written hkey).symm _ _

theorem exists_gives_lookupsThrough (halias : IsField r.aliasName) {suffix : String}
    (hsuffix : IsField suffix) (hone : r.temporaries = [r.temporary suffix])
    {source there onward target : String} {conditions : List Json}
    (h : Stage.runAll db
      (r.lookupsThrough suffix source r.ownerKey there conditions onward target pipeline) [d] =
        .ok out) :
    ∃ found : List Document, r.Gives db
      (r.lookupsThrough suffix source r.ownerKey there conditions onward target pipeline)
      (d.get? r.start) (.array (found.map .object)) := by
  have hfield := isField_temporary halias hsuffix
  obtain ⟨first, hfirst, h⟩ := Stage.runAll_cons_eq_ok.mp h
  obtain ⟨second, hsecond, -⟩ := Stage.runAll_cons_eq_ok.mp h
  obtain ⟨_, ⟨rows, hrows, rfl⟩, rfl⟩ := forall₂_singleton.mp (forall₂_found hfield hfirst)
  obtain ⟨_, ⟨found, hfound, -⟩, -⟩ := forall₂_singleton.mp (forall₂_found halias hsecond)
  refine ⟨found, fun e he hstart => ?_⟩
  -- The second lookup starts from the rows that the first one has put under the temporary field.
  have hrun : Stage.runAll db
      (r.lookupsThrough suffix source r.ownerKey there conditions onward target pipeline) [e] =
        .ok [((e.insert (r.temporary suffix) (.array (rows.map .object))).insert r.aliasName
          (.array (found.map .object))).erase (r.temporary suffix)] := by
    refine run_lookupsThrough_of_rows halias hsuffix ?_ fun d₁ hd₁ => ?_
    · rw [Stage.joined_congr hstart]
      exact hrows
    · rw [Stage.joined_congr (e := d.insert (r.temporary suffix) (.array (rows.map .object)))]
      · exact hfound
      · rw [Path.head_under hfield, hd₁, Document.get?_insert_self]
  have hunique := he.insert (r.temporary suffix) (.array (rows.map .object))
  have hholds := holds_erase_temporary (r := r) hunique suffix found
  refine ⟨_, hrun, hholds.unique, hholds.under, fun key hkey => ?_, fun key hkey => ?_⟩
  · rw [hone, List.mem_singleton] at hkey
    rw [hkey]
    exact Document.get?_erase_self (hunique.insert _ _) _
  · rw [written, hone, List.mem_cons, List.mem_singleton, not_or] at hkey
    rw [Document.get?_erase_of_ne (hunique.insert _ _) hkey.2,
      Document.get?_insert_of_ne (Ne.symm hkey.1), Document.get?_insert_of_ne (Ne.symm hkey.2)]

/-- The lookups of a relation put the same documents under the alias of all owners that hold the
same where the relation starts. -/
theorem exists_gives_joinStages (halias : IsField r.aliasName) (hfit : r.keysFit = true)
    (h : Stage.runAll db (r.joinStages pipeline) [d] = .ok out) :
    ∃ found : List Document, r.Gives db (r.joinStages pipeline) (d.get? r.start)
      (.array (found.map .object)) := by
  rcases joinStages_eq hfit with
    ⟨there, hnone, heq⟩ | ⟨suffix, source, there, conditions, onward, target, hsuffix, hone, heq⟩
  · rw [heq] at h ⊢
    exact exists_gives_relatedLookup halias hnone h
  · rw [heq] at h ⊢
    exact exists_gives_lookupsThrough halias hsuffix hone h

/-! ## What is shown -/

/-- A selection that could be put back has an alias that does not look like an operator. -/
theorem noDollar_of_selection (halias : IsField r.aliasName) (hsaved : r.aliasName ≠ savedField)
    {fields : List String} (hselect : r.options.select = some fields) {nested : List EagerAlias}
    (hd : d.Unique) (h : Stage.runAll db (r.projectionStages nested) [d] = .ok out) :
    startsDollar r.aliasName = false := by
  by_cases hne : fields ++ nested.map (·.name) = []
  · obtain ⟨rfl, hnil⟩ := List.append_eq_nil_iff.mp hne
    obtain rfl := List.map_eq_nil_iff.mp hnil
    rw [runAll_selection_nil hselect] at h
    obtain ⟨d', hd', -⟩ := forall₂_singleton.mp (forall₂_mapM h)
    exact Stage.noDollar_of_replaced halias hd (get?_savedField_onlySaved d) hd'
  · obtain ⟨paths, -, hrun⟩ := runAll_selection halias hselect hne
    rw [hrun] at h
    obtain ⟨projected, hprojected, h⟩ := bind_eq_ok.mp h
    obtain ⟨p, hp, rfl⟩ := forall₂_singleton.mp (forall₂_mapM hprojected)
    obtain ⟨d', hd', -⟩ := forall₂_singleton.mp (forall₂_mapM h)
    exact Stage.noDollar_of_replaced halias hd (get?_selected hsaved hp).1 hd'

/-- Stages that make one value under the alias of a relation into another, and leave the rest of the
owner alone. -/
def Turns (r : Relation) (db : Collections) (stages : List Stage) (v w : Json) : Prop :=
  ∀ e : Document, e.Unique → e.get? r.aliasName = some v →
    ∃ e', Stage.runAll db stages [e] = .ok [e'] ∧ e'.Unique ∧ e'.get? r.aliasName = some w ∧
      ∀ key ≠ r.aliasName, e'.get? key = e.get? key

/-- The same value under the alias is cut down in the same way, whatever is beside it. -/
theorem get?_selected_congr {name : String} {paths : List String} {e p q : Document}
    (hsame : e.get? name = d.get? name)
    (hp : Inclusion.applyAll d (selectionTree name paths) d = .ok p)
    (hq : Inclusion.applyAll e (selectionTree name paths) e = .ok q) :
    q.get? name = p.get? name := by
  have hincluded := apply_selected hq
  rw [hsame, (Inclusion.copies_ofPaths paths).apply_congr e d, apply_selected hp] at hincluded
  exact (Except.ok.inj hincluded).symm

/-- A selection of some paths that succeeds on an owner does the same to all that hold the same
value under the alias. -/
theorem exists_turns_selection {nested : List EagerAlias} {fields : List String}
    (halias : IsField r.aliasName) (hsaved : r.aliasName ≠ savedField)
    (hdollar : startsDollar r.aliasName = false) (hselect : r.options.select = some fields)
    (hne : fields ++ nested.map (·.name) ≠ []) (hv : d.get? r.aliasName = some v)
    (h : Stage.runAll db (r.projectionStages nested) [d] = .ok out) :
    ∃ w, r.Turns db (r.projectionStages nested) v w := by
  obtain ⟨paths, -, hrun⟩ := runAll_selection halias hselect hne
  rw [hrun] at h
  obtain ⟨projected, hprojected, -⟩ := bind_eq_ok.mp h
  obtain ⟨p, hp, rfl⟩ := forall₂_singleton.mp (forall₂_mapM hprojected)
  refine ⟨(p.get? r.aliasName).getD v, fun e he hunder => ?_⟩
  obtain ⟨q, hq⟩ := exists_selected r.aliasName paths e
  have hreplaced := Stage.replaced_restored halias hdollar he (get?_selected hsaved hq).1
  rw [get?_selected_congr (hunder.trans hv.symm) hp hq] at hreplaced
  have hshown : Stage.runAll db (r.projectionStages nested) [e] =
      .ok [e.merge ((p.get? r.aliasName).map fun w => (r.aliasName, w)).toList] := by
    have hprojected' : [e].mapM (fun d =>
        Inclusion.applyAll d (selectionTree r.aliasName paths) d) = .ok [q] :=
      mapM_eq_ok_iff.mpr (.cons hq .nil)
    rw [hrun, hprojected', ok_bind]
    exact mapM_eq_ok_iff.mpr (.cons hreplaced .nil)
  refine ⟨_, hshown, he.merge _, ?_, fun key hkey => ?_⟩
  · cases p.get? r.aliasName with
    | none => exact hunder
    | some w => exact Document.get?_insert_self _ _ _
  · cases p.get? r.aliasName with
    | none => rfl
    | some w => exact Document.get?_insert_of_ne (Ne.symm hkey) _ _

/-- What is shown of the value under an alias depends on that value only, and nothing else of the
owner changes. -/
theorem exists_turns_of_run {nested : List EagerAlias} (halias : IsField r.aliasName)
    (hsaved : r.options.select ≠ none → r.aliasName ≠ savedField) (hd : d.Unique)
    (hv : d.get? r.aliasName = some v)
    (h : Stage.runAll db (r.projectionStages nested) [d] = .ok out) :
    ∃ w, r.Turns db (r.projectionStages nested) v w := by
  cases hselect : r.options.select with
  | none =>
    have hunder := get?_removeAll_under halias (r.options.hiddenFields r.related.hidden)
    exact ⟨_, fun e he hget => ⟨_, run_projectionStages hselect nested db [e],
      Update.unique_removeAll he _, (hunder e).trans (congrArg _ hget),
      fun key hkey => get?_removeAll_of_ne halias hkey _ e⟩⟩
  | some fields =>
    have hsaved := hsaved (hselect ▸ Option.some_ne_none fields)
    have hdollar := noDollar_of_selection halias hsaved hselect hd h
    by_cases hne : fields ++ nested.map (·.name) = []
    · obtain ⟨rfl, hnil⟩ := List.append_eq_nil_iff.mp hne
      obtain rfl := List.map_eq_nil_iff.mp hnil
      refine ⟨v, fun e he hunder => ⟨e, ?_, he, hunder, fun _ _ => rfl⟩⟩
      exact run_selection_nil halias hsaved hselect (by simpa using he) hdollar db
    · exact exists_turns_selection halias hsaved hdollar hselect hne hv h

/-! ## One relation -/

/-- Where there are many related documents, nothing is unwound. -/
theorem loadWith_of_many (h : r.kind.isSingle = false) (nested : Loaded) : r.loadWith nested =
    r.joinStages (r.relatedPipeline nested.stages) ++ r.projectionStages nested.aliases := by
  have hunwind : r.unwindStages = [] := by
    rw [unwindStages, h]
    rfl
  rw [loadWith, hunwind, List.append_nil]

/-- The stages of a relation of a kind with many related documents put the same under the alias of
all owners that hold the same where the relation starts. -/
theorem exists_gives_loadWith (hvalid : r.validate = .ok ()) (hmany : r.kind.isSingle = false)
    (hsaved : r.options.select ≠ none → r.aliasName ≠ savedField) (hd : d.Unique)
    (h : Stage.runAll db (r.loadWith nested) [d] = .ok out) :
    ∃ v, r.Gives db (r.loadWith nested) (d.get? r.start) v := by
  obtain ⟨hfit, halias⟩ := validate_eq_ok hvalid
  rw [loadWith_of_many hmany] at h ⊢
  obtain ⟨joined, hjoined, hshown⟩ := Stage.runAll_append_eq_ok.mp h
  obtain ⟨found, hgives⟩ := exists_gives_joinStages halias hfit hjoined
  obtain ⟨d₁, hd₁, hputs⟩ := hgives d hd rfl
  cases hjoined.symm.trans hd₁
  obtain ⟨w, hturns⟩ := exists_turns_of_run halias hsaved hputs.unique hputs.under hshown
  refine ⟨w, fun e he hstart => ?_⟩
  obtain ⟨e₁, he₁, hputs₁⟩ := hgives e he hstart
  obtain ⟨e', he', hunique, hunder, hkept⟩ := hturns e₁ hputs₁.unique hputs₁.under
  refine ⟨e', (Stage.runAll_append_ok he₁ _).trans he', hunique, hunder, fun key hkey => ?_,
    fun key hkey => ?_⟩
  · rw [hkept key (ne_alias_of_mem_temporaries hkey), hputs₁.dropped key hkey]
  · rw [hkept key (ne_alias_of_not_mem_written hkey), hputs₁.kept key hkey]

/-- A selection that is put under the field where the owner is saved fails, but for a selection of
nothing, which puts the owner there. -/
theorem exists_insert_of_selection_saved {nested : List EagerAlias} {fields : List String}
    {found : List Json} {d' : Document} (hsaved : r.aliasName = savedField)
    (hselect : r.options.select = some fields) (hd : d.Unique)
    (hfound : d.get? r.aliasName = some (.array found))
    (h : Stage.runAll db (r.projectionStages nested) [d] = .ok [d']) :
    ∃ w, d' = d.insert r.aliasName w := by
  have halias : IsField r.aliasName := by
    rw [hsaved]
    decide
  by_cases hne : fields ++ nested.map (·.name) = []
  · obtain ⟨rfl, hnil⟩ := List.append_eq_nil_iff.mp hne
    obtain rfl := List.map_eq_nil_iff.mp hnil
    rw [runAll_selection_nil hselect, mapM_eq_ok_iff, List.forall₂_cons, and_iff_left .nil,
      Stage.replaced_restored halias (by rw [hsaved]; decide) hd (get?_savedField_onlySaved d)] at h
    rw [hsaved, get?_savedField_onlySaved] at h
    cases h
    exact ⟨.object d, by rw [hsaved]; rfl⟩
  · obtain ⟨paths, -, hrun⟩ := runAll_selection halias hselect hne
    rw [hrun] at h
    obtain ⟨projected, hprojected, h⟩ := bind_eq_ok.mp h
    obtain ⟨p, hp, rfl⟩ := forall₂_singleton.mp (forall₂_mapM hprojected)
    obtain ⟨out, hout, -⟩ := forall₂_singleton.mp (forall₂_mapM h)
    have hincluded := apply_selected hp
    rw [hfound, Inclusion.apply, hsaved] at hincluded
    obtain ⟨items, -, hitems⟩ := bind_eq_ok.mp hincluded
    exact absurd hout (Stage.not_replaced_of_array (Except.ok.inj hitems).symm)

/-- What is shown of the documents under an alias leaves everything else of the owner alone,
whatever the alias is. -/
theorem agreeOutside_projectionStages {nested : List EagerAlias} {found : List Json} {d' : Document}
    (halias : IsField r.aliasName) (hd : d.Unique)
    (hfound : d.get? r.aliasName = some (.array found))
    (h : Stage.runAll db (r.projectionStages nested) [d] = .ok [d']) :
    d'.Unique ∧ ∀ key ≠ r.aliasName, d.get? key = d'.get? key := by
  have hinsert : ∀ w, (d.insert r.aliasName w).Unique ∧
      ∀ key ≠ r.aliasName, d.get? key = (d.insert r.aliasName w).get? key :=
    fun w => ⟨hd.insert _ w, fun key hkey => (Document.get?_insert_of_ne hkey.symm d w).symm⟩
  by_cases hsaved : r.options.select ≠ none ∧ r.aliasName = savedField
  · obtain ⟨fields, hselect⟩ := Option.ne_none_iff_exists'.mp hsaved.1
    obtain ⟨w, rfl⟩ := exists_insert_of_selection_saved hsaved.2 hselect hd hfound h
    exact hinsert w
  · cases hselect : r.options.select with
    | none =>
      rw [run_projectionStages hselect] at h
      cases h
      exact ⟨Update.unique_removeAll hd _,
        fun key hkey => (get?_removeAll_of_ne halias hkey _ d).symm⟩
    | some fields =>
      have hne : r.aliasName ≠ savedField :=
        fun heq => hsaved ⟨hselect ▸ Option.some_ne_none fields, heq⟩
      have hshows := forall₂_shows halias hne (by simpa using hd) h
      rw [List.forall₂_cons, and_iff_left .nil] at hshows
      cases hshows with
      | removed hnone =>
        rw [hselect] at hnone
        cases hnone
      | nothing | missing => exact ⟨hd, fun _ _ => rfl⟩
      | included => exact hinsert _

/-- The stages of a relation of a kind with many related documents change nothing of an owner but
the fields that they write. -/
theorem agreeOutside_loadWith (hvalid : r.validate = .ok ()) (hmany : r.kind.isSingle = false)
    (hd : d.Unique) {d' : Document} (h : Stage.runAll db (r.loadWith nested) [d] = .ok [d']) :
    d'.Unique ∧ Document.AgreeOutside r.written d d' := by
  obtain ⟨hfit, halias⟩ := validate_eq_ok hvalid
  rw [loadWith_of_many hmany] at h
  obtain ⟨joined, hjoined, hshown⟩ := Stage.runAll_append_eq_ok.mp h
  obtain ⟨found, hgives⟩ := exists_gives_joinStages halias hfit hjoined
  obtain ⟨d₁, hd₁, hputs⟩ := hgives d hd rfl
  cases hjoined.symm.trans hd₁
  obtain ⟨hunique, hkept⟩ := agreeOutside_projectionStages halias hputs.unique hputs.under hshown
  exact ⟨hunique, fun key hkey =>
    (hputs.kept key hkey).symm.trans (hkept key (ne_alias_of_not_mem_written hkey))⟩

theorem eachAlone_joinStages (hfit : r.keysFit = true) (pipeline : List Stage) :
    Stage.EachAlone db (r.joinStages pipeline) := by
  rcases joinStages_eq hfit with
    ⟨there, -, heq⟩ | ⟨suffix, source, there, conditions, onward, target, -, -, heq⟩
  · rw [heq]
    exact Stage.eachAlone_lookup _ _ _ _
  · rw [heq]
    exact (Stage.eachAlone_lookup _ _ _ _).append ((Stage.eachAlone_lookup _ _ _ _).append
      (Stage.eachAlone_exclude (List.cons_ne_nil _ _) (List.pairwise_singleton _ _)))

theorem eachAlone_projectionStages (r : Relation) (nested : List EagerAlias) :
    Stage.EachAlone db (r.projectionStages nested) := by
  cases hselect : r.options.select with
  | none =>
    refine Stage.eachAlone_of_mapM (f := fun d => .ok (Update.removeAll d
      ((r.options.hiddenFields r.related.hidden).map fun field => r.aliasName ++ "." ++ field)))
      fun docs => ?_
    rw [run_projectionStages hselect]
    exact (mapM_ok fun d _ => rfl).symm
  | some fields =>
    rw [projectionStages_select hselect]
    exact (Stage.eachAlone_project (ofSpec_selectionSpec _ _)).append
      (Stage.eachAlone_replaceRoot _)

/-- The stages of a relation of a kind with many related documents take the owners one by one. -/
theorem eachAlone_loadWith (hvalid : r.validate = .ok ()) (hmany : r.kind.isSingle = false)
    (nested : Loaded) (db : Collections) : Stage.EachAlone db (r.loadWith nested) := by
  rw [loadWith_of_many hmany]
  exact (eachAlone_joinStages (validate_eq_ok hvalid).1 _).append
    (eachAlone_projectionStages r nested.aliases)

end Relation

end DocMapper
