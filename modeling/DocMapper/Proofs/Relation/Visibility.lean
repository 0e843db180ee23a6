import DocMapper.Proofs.Contents
import DocMapper.Proofs.Relation.Loads
import DocMapper.Proofs.Relation.Step

/-! # What loaded documents show

A field that a model declares hidden is not shown where documents of the model are loaded as related
documents, unless it is made visible, selected, or holds what is loaded under the relation
(`Relation.MayShow`); and where fields are selected, nothing else is shown (`Relation.Covers`). This
holds at every depth of a tree of loads (`Relation.CoversAll`), with one exception: a relation that
is asked to select nothing at all (`Relation.SelectsNothing`) shows everything
(`Relation.load_covers`).

The stages of a relation change a document only under the alias (`Document.Step`), so what one
relation leaves there is not touched by the next; and what later stages leave of a loaded document
is a cut of it, which shows no more. -/

namespace DocMapper

/-! ## What a relation may show -/

mutual

/-- The name of an alias, with the names of those under it. -/
def EagerAlias.names : EagerAlias → List String
  | ⟨name, _, children⟩ => name :: EagerAlias.allNames children

/-- The names of several aliases, with the names of those under them. -/
def EagerAlias.allNames : List EagerAlias → List String
  | [] => []
  | a :: rest => a.names ++ EagerAlias.allNames rest

end

namespace Relation

/-- A name is not among those of a tree if it is not that of the first alias, and not among those
under it and among the others. -/
theorem not_mem_allNames_cons {r : Relation} {nested : Loaded} {others : List EagerAlias}
    {name : String} :
    name ∉ EagerAlias.allNames (r.aliasWith nested :: others) ↔ r.aliasName ≠ name ∧
      name ∉ EagerAlias.allNames nested.aliases ∧ name ∉ EagerAlias.allNames others := by
  rw [aliasWith, EagerAlias.allNames, EagerAlias.names, List.mem_append, List.mem_cons, not_or,
    not_or, and_assoc, eq_comm]

/-- Whether a relation may show a field of related documents although the model hides it: the field
is made visible, or selected, itself or in part, or holds what is loaded under the relation. -/
def MayShow (r : Relation) (nested : List EagerAlias) (field : String) : Prop :=
  field ∈ r.options.makeVisible ∨
    (∃ fields, r.options.select = some fields ∧ field ∈ fields.map Path.head) ∨
    field ∈ nested.map (·.name)

/-- Whether a relation is asked to show no field and nothing is loaded under it. -/
def SelectsNothing (r : Relation) (nested : List EagerAlias) : Prop :=
  r.options.select = some [] ∧ nested = []

/-- A related document shows nothing that the relation may not show. -/
structure Covers (r : Relation) (nested : List EagerAlias) (e : Document) : Prop where
  hidden : ∀ field ∈ r.related.hidden, IsField field → field ∈ e.keys → r.MayShow nested field
  selected : ∀ fields, r.options.select = some fields →
    ∀ key ∈ e.keys, key ∈ fields.map Path.head ∨ key ∈ nested.map (·.name)

/-- Of each requested relation, the related documents in a document show nothing that they may not
show, and neither do those that are loaded with them. A relation that selects nothing is
excepted. -/
def CoversAll (schema : Schema) (owner : Model) : List EagerLoad → Document → Prop
  | [], _ => True
  | ⟨name, options, children⟩ :: rest, d =>
    (∃ r nested, requested schema owner name options = .ok r ∧
      loadAll schema r.related [] children = .ok nested ∧
      d.EachUnder r.aliasName fun e =>
        (¬ r.SelectsNothing nested.aliases → r.Covers nested.aliases e) ∧
          CoversAll schema r.related children e) ∧
    CoversAll schema owner rest d

variable {r : Relation} {nested : List EagerAlias} {d e : Document} {schema : Schema}

theorem Covers.cut (h : r.Covers nested e) (hcut : Json.Cut (.object d) (.object e)) :
    r.Covers nested d where
  hidden field hfield hplain hkey := h.hidden field hfield hplain (hcut.keys_subset field hkey)
  selected fields hfields key hkey := h.selected fields hfields key (hcut.keys_subset key hkey)

/-- A cut of a document shows no more than the document. -/
theorem CoversAll.cut {owner : Model} {loads : List EagerLoad}
    (h : CoversAll schema owner loads e) (hcut : Json.Cut (.object d) (.object e)) :
    CoversAll schema owner loads d := by
  induction owner, loads, e using CoversAll.induct generalizing d with
  | case1 =>
    rw [CoversAll]
    trivial
  | case2 owner name options children rest e ihChildren ihRest =>
    rw [CoversAll] at h ⊢
    obtain ⟨⟨r, nested, hr, hnested, hunder⟩, hrest⟩ := h
    refine ⟨⟨r, nested, hr, hnested, hunder.cut ?_ hcut⟩, ihRest hrest hcut⟩
    intro d' e' hcut' ⟨hcovers, hall⟩
    exact ⟨fun hselects => (hcovers hselects).cut hcut', ihChildren r e' hall hcut'⟩

end Relation

/-! ## What is left of a loaded document -/

/-- Removing fields leaves a cut of a document. -/
theorem Update.removeAll_cut (fields : List String) (d : Document) :
    Json.Cut (.object (removeAll d fields)) (.object d) := by
  induction fields generalizing d with
  | nil => exact .refl _
  | cons field fields ih =>
    exact (ih (d.remove field)).trans (.of_entries (Document.removeEntry_cut d _))

namespace Relation

variable {r : Relation} {db : Collections} {docs out : List Document} {P : Document → Prop}

section Shown

variable {nested : List EagerAlias} (halias : IsField r.aliasName)
  (hcut : ∀ d e : Document, Json.Cut (.object d) (.object e) → P e → P d)
  (hdocs : ∀ d ∈ docs, d.Unique ∧ d.EachUnder r.aliasName fun e => e.Unique ∧ P e)

/-- Of fields that are removed nothing is left. -/
theorem not_mem_keys_removeAll {fields : List String} {field : String} (h : IsField field)
    (hmem : field ∈ fields) {d : Document} (hd : d.Unique) :
    field ∉ (Update.removeAll d fields).keys := by
  induction fields generalizing d with
  | nil => cases hmem
  | cons first fields ih =>
    rcases List.mem_cons.mp hmem with rfl | hmem
    · -- The field goes when it is its turn, and what is removed later brings nothing back.
      intro hkey
      have hkey := (Update.removeAll_cut fields (d.remove field)).keys_subset _ hkey
      rw [Document.remove_field h, Document.mem_keys_erase hd] at hkey
      exact hkey.2 rfl
    · exact ih hmem (hd.remove first)

/-- Leaving out what is hidden covers a document. -/
theorem covers_removeAll (hselect : r.options.select = none) (nested : List EagerAlias)
    {e : Document} (he : e.Unique) :
    r.Covers nested (Update.removeAll e (r.options.hiddenFields r.related.hidden)) where
  hidden field hfield hplain hkey := by
    refine Classical.byContradiction fun hnot => ?_
    have hvisible : field ∉ r.options.makeVisible := fun hmem => hnot (.inl hmem)
    refine not_mem_keys_removeAll hplain ?_ he hkey
    rw [RelationOptions.hiddenFields, hselect]
    show field ∈ List.foldl RelationOptions.addNew [] _
    rw [RelationOptions.mem_foldl_addNew, or_iff_right List.not_mem_nil, List.mem_filter]
    refine ⟨List.mem_append_left _ hfield, ?_⟩
    simpa using hvisible
  selected fields hfields := by
    rw [hselect] at hfields
    cases hfields

/-- Selected fields and what is loaded under a relation cover a document. -/
theorem covers_of_keys {fields paths : List String} (hselect : r.options.select = some fields)
    (hnested : ∀ a ∈ nested, IsField a.name)
    (hpaths : ∀ path ∈ paths, path ∈ fields ++ nested.map (·.name)) {e : Document}
    (he : ∀ key ∈ e.keys, key ∈ (Inclusion.ofPaths paths).map (·.1)) : r.Covers nested e := by
  have hselected : ∀ key ∈ e.keys, key ∈ fields.map Path.head ∨ key ∈ nested.map (·.name) := by
    intro key hkey
    obtain ⟨path, hpath, rfl⟩ := List.mem_map.mp (Inclusion.mem_keys_ofPaths (he key hkey))
    rcases List.mem_append.mp (hpaths path hpath) with hmem | hmem
    · exact .inl (List.mem_map.mpr ⟨path, hmem, rfl⟩)
    · obtain ⟨a, ha, rfl⟩ := List.mem_map.mp hmem
      rw [Path.head, Path.ofString_field (hnested a ha)]
      exact .inr (List.mem_map.mpr ⟨a, ha, rfl⟩)
  refine ⟨fun field _ _ hkey => ?_, fun fields' hfields' => ?_⟩
  · rcases hselected field hkey with hmem | hmem
    · exact .inr (.inl ⟨fields, hselect, hmem⟩)
    · exact .inr (.inr hmem)
  · rw [hselect] at hfields'
    cases hfields'
    exact hselected

include halias hcut hdocs in
/-- The last stages of a relation leave of each related document something that it covers, unless
they select nothing. -/
theorem step_projectionStages (hsaved : r.aliasName ≠ savedField)
    (hnested : ∀ a ∈ nested, IsField a.name)
    (h : Stage.runAll db (r.projectionStages nested) docs = .ok out) :
    Document.Steps r.aliasName
      (fun e => (¬ r.SelectsNothing nested → r.Covers nested e) ∧ P e) docs out := by
  intro d' hd'
  obtain ⟨d, hd, hshows⟩ :=
    exists_of_mem_forall₂ (forall₂_shows halias hsaved (fun d hd => (hdocs d hd).1) h) hd'
  obtain ⟨hunique, hunder⟩ := hdocs d hd
  refine ⟨d, hd, ?_⟩
  cases hshows with
  | removed hselect =>
    refine step_removeAll halias hunique hunder _ fun e ⟨he, hP⟩ => ⟨fun _ => ?_, ?_⟩
    · exact covers_removeAll hselect nested he
    · exact hcut _ _ (Update.removeAll_cut _ e) hP
  | nothing hselect hnil =>
    -- This is the exception.
    refine .refl hunique (hunder.mono fun e ⟨_, hP⟩ => ⟨fun hselects => ?_, hP⟩)
    exact absurd ⟨hselect, hnil⟩ hselects
  | missing _ hfound =>
    -- Nothing is included only where nothing was loaded.
    refine .refl hunique fun v hv => ?_
    rw [(Document.get?_eq_some_iff hunique).mpr hv] at hfound
    rw [items_of_apply_none (hunder v hv) hfound]
    exact fun item hitem => absurd hitem List.not_mem_nil
  | @included fields paths w hselect hpaths hfound =>
    obtain ⟨v, hv, hvw⟩ := (Inclusion.copies_ofPaths paths).cut d _ w hfound
    refine .insert hunique fun item hitem => ?_
    obtain ⟨e, rfl, hkeys⟩ := keys_of_apply_fields hfound item hitem
    obtain ⟨whole, hwhole, hitemCut⟩ := hvw.exists_loaded hitem
    obtain ⟨e', rfl, -, hP⟩ := hunder v (Document.mem_of_get? hv) whole hwhole
    refine ⟨e, rfl, fun _ => ?_, hcut e e' hitemCut hP⟩
    exact covers_of_keys hselect hnested (fun path => (hpaths path).mp) hkeys

end Shown

/-! ## Trees of loads -/

variable {schema : Schema}

/-- A relation changes a document only under its alias, and leaves there what it covers. -/
theorem step_loadWith {nested : Loaded} (hvalid : r.validate = .ok ())
    (hsaved : r.aliasName ≠ savedField) (hnested : ∀ a ∈ nested.aliases, IsField a.name)
    (hcut : ∀ d e : Document, Json.Cut (.object d) (.object e) → P e → P d)
    (hdocs : ∀ d ∈ docs, d.Unique)
    (hrelated : ∀ related found, (∀ e ∈ related, e ∈ db r.related.collection) →
      Stage.runAll db nested.stages related = .ok found → ∀ e ∈ found, e.Unique ∧ P e)
    (h : Stage.runAll db (r.loadWith nested) docs = .ok out) :
    Document.Steps r.aliasName
      (fun e => (¬ r.SelectsNothing nested.aliases → r.Covers nested.aliases e) ∧ P e)
      docs out := by
  obtain ⟨hfit, halias⟩ := validate_eq_ok hvalid
  obtain ⟨unwound, hunwound, hshown⟩ := Stage.runAll_append_eq_ok.mp h
  obtain ⟨joined, hjoined, hunwound⟩ := Stage.runAll_append_eq_ok.mp hunwound
  have hpipeline : ∀ related found, (∀ e ∈ related, e ∈ db r.related.collection) →
      Stage.runAll db (r.relatedPipeline nested.stages) related = .ok found →
        ∀ e ∈ found, e.Unique ∧ P e := by
    intro related found hsubset hfound
    obtain ⟨kept, hkept, hfound⟩ := exists_related hfound
    exact hrelated kept found (fun e he => hsubset e (hkept e he)) hfound
  have hjoin := step_joinStages halias hdocs hpipeline hfit hjoined
  have hunwind := step_unwindStages halias hjoin.each hunwound
  have hshow := step_projectionStages halias hcut hunwind.each hsaved hnested hshown
  exact (hjoin.trans hunwind).trans hshow

/-- A step under an alias that is free leaves alone what stands under those that are taken. -/
theorem within_seen {d d₁ d' : Document} {seen : List (String × String)} {name : String}
    (hfree : seen.lookup r.aliasName = none) (hstep : d.Step r.aliasName P d₁)
    (hwithin : ∀ first ∈ (r.aliasName, name) :: seen, ∀ v, (first.1, v) ∈ d' → (first.1, v) ∈ d₁) :
    ∀ first ∈ seen, ∀ v, (first.1, v) ∈ d' → (first.1, v) ∈ d := by
  intro first hfirst v hv
  have hne : first.1 ≠ r.aliasName :=
    Ne.symm (bne_iff_ne.mp (List.lookup_eq_none_iff.mp hfree first hfirst))
  exact hstep.within _ hne v (hwithin first (List.mem_cons_of_mem _ hfirst) v hv)

/-- The stages of a tree of loads leave what its relations cover, and change nothing under the
aliases that were taken before. -/
theorem covers_loadAll (hdb : ∀ source, ∀ d ∈ db source, d.Unique) {owner : Model}
    {seen : List (String × String)} {loads : List EagerLoad} {loaded : Loaded}
    (hload : loadAll schema owner seen loads = .ok loaded)
    (hsaved : savedField ∉ EagerAlias.allNames loaded.aliases) (hdocs : ∀ d ∈ docs, d.Unique)
    (h : Stage.runAll db loaded.stages docs = .ok out) :
    ∀ d' ∈ out, d'.Unique ∧ CoversAll schema owner loads d' ∧
      ∃ d ∈ docs, ∀ first ∈ seen, ∀ v, (first.1, v) ∈ d' → (first.1, v) ∈ d := by
  -- By induction on the tree: the first relation with what is nested under it, then the others,
  -- which keep off its alias since it is taken.
  induction owner, seen, loads using loadAll.induct generalizing loaded docs out with
  | case1 owner seen =>
    rw [loadAll] at hload
    cases hload
    cases h
    intro d' hd'
    rw [CoversAll]
    exact ⟨hdocs d' hd', trivial, d', hd', fun _ _ _ hv => hv⟩
  | case2 owner seen name options children rest ihChildren ihRest =>
    obtain ⟨r, nested, others, hr, hfree, hvalid, hnested, hothers, rfl⟩ := loadAll_cons_eq_ok hload
    obtain ⟨halias, hsavedNested, hsavedOthers⟩ := not_mem_allNames_cons.mp hsaved
    obtain ⟨mid, hmid, h⟩ := Stage.runAll_append_eq_ok.mp h
    have hstep := step_loadWith (P := CoversAll schema r.related children) hvalid halias
      (isField_of_loadAll hnested) (fun d e hcut he => he.cut hcut) hdocs
      (fun related found hsubset hfound e he => by
        have hcovers := ihChildren r hnested hsavedNested
          (fun d hd => hdb _ d (hsubset d hd)) hfound e he
        exact ⟨hcovers.1, hcovers.2.1⟩) hmid
    intro d' hd'
    obtain ⟨hunique, hall, d₁, hd₁, hwithin⟩ := ihRest r hothers hsavedOthers
      (fun d hd => (hstep.each d hd).1) h d' hd'
    obtain ⟨d, hd, hstep⟩ := hstep d₁ hd₁
    refine ⟨hunique, ?_, d, hd, within_seen hfree hstep hwithin⟩
    rw [CoversAll]
    refine ⟨⟨r, nested, hr, hnested, fun v hv => ?_⟩, hall⟩
    exact hstep.under v (hwithin _ List.mem_cons_self v hv)

/-- The stages that load a relation show of the related documents, and of those loaded with them,
only what they may show, unless a relation is asked to select nothing at all. One that is shows the
related documents as they were found, with all that is hidden. -/
theorem load_covers {loads : List EagerLoad} {loaded : List Stage × EagerAlias}
    (hload : load schema r loads = .ok loaded)
    (hsaved : savedField ∉ loaded.2.names) {s : Store}
    (hs : ∀ source, ∀ d ∈ s.documents source, d.Unique) (hdocs : ∀ d ∈ docs, d.Unique) :
    (∀ out, Stage.runAll s.documents loaded.1 docs = .ok out → ∀ d ∈ out,
        d.EachUnder r.aliasName fun e =>
          (¬ r.SelectsNothing loaded.2.children → r.Covers loaded.2.children e) ∧
            CoversAll schema r.related loads e) ∧
      (r.SelectsNothing loaded.2.children → startsDollar r.aliasName = false →
        Stage.runAll s.documents loaded.1 docs =
          Stage.runAll s.documents (r.joinStages (r.relatedPipeline []) ++ r.unwindStages)
            docs) := by
  obtain ⟨⟨⟩, hvalid, h⟩ := bind_eq_ok.mp hload
  obtain ⟨nested, hnested, h⟩ := bind_eq_ok.mp h
  cases h
  have hvalid := mapError_eq_ok.mp hvalid
  obtain ⟨hfit, halias⟩ := validate_eq_ok hvalid
  rw [aliasWith, EagerAlias.names, List.mem_cons, not_or] at hsaved
  refine ⟨fun out h d hd => ?_, fun ⟨hselect, hnil⟩ hdollar => ?_⟩
  · obtain ⟨d₀, -, hstep⟩ := step_loadWith (P := CoversAll schema r.related loads) hvalid
      (Ne.symm hsaved.1) (isField_of_loadAll hnested) (fun d e hcut he => he.cut hcut) hdocs
      (fun related found hsubset hfound e he => by
        have hcovers := covers_loadAll hs hnested hsaved.2
          (fun d hd => hs _ d (hsubset d hd)) hfound e he
        exact ⟨hcovers.1, hcovers.2.1⟩) h d hd
    exact hstep.under
  · obtain rfl := eq_nil_of_loadAll hnested hnil
    show Stage.runAll s.documents (r.joinStages (r.relatedPipeline []) ++ r.unwindStages ++
      r.projectionStages []) docs = _
    rw [Stage.runAll_append]
    cases hfound : Stage.runAll s.documents
        (r.joinStages (r.relatedPipeline []) ++ r.unwindStages) docs with
    | error fault => rfl
    | ok found =>
      obtain ⟨joined, hjoined, hunwound⟩ := Stage.runAll_append_eq_ok.mp hfound
      have hjoin := step_joinStages (P := fun _ => True) halias hdocs
        (fun _ _ _ _ _ _ => trivial) hfit hjoined
      have hunwind := step_unwindStages halias hjoin.each hunwound
      exact run_selection_nil halias (Ne.symm hsaved.1) hselect
        (fun d hd => (hunwind.each d hd).1) hdollar _

end Relation

/-! ## The author of a post -/

namespace AuthorSample

def userModel : Model := ⟨"User", "users", "_id", none, none, ["password"]⟩

def postModel : Model := ⟨"Post", "posts", "_id", none, none, []⟩

/-- The author of a post, with options. -/
def author (options : RelationOptions) : Relation where
  kind := .belongsTo
  name := "author"
  owner := postModel
  related := userModel
  keys := .inverse "userId" "_id"
  options := options

/-- The posts of a user. -/
def posts : Relation where
  kind := .hasMany
  name := "posts"
  owner := userModel
  related := postModel
  keys := .owning "userId" "_id"

def schema : Schema := ⟨fun model => if model = "User" then [("posts", posts)] else []⟩

def user : Document :=
  [("_id", .string "ann"), ("name", .string "Ann"), ("password", .string "secret")]

def post : Document := [("_id", .string "p"), ("userId", .string "ann")]

def store : Store where
  collections := [("users", [user]), ("posts", [post])]
  ids := ⟨fun n => ⟨BitVec.ofNat 128 n⟩, 0⟩

/-- A request for the posts of a user. -/
def loads : List EagerLoad := [⟨"posts", none, []⟩]

/-- What loading the posts of a user comes to. -/
def loadedPosts : Relation.Loaded := ⟨posts.loadWith {}, [posts.aliasWith {}]⟩

theorem store_unique : ∀ source, ∀ d ∈ store.documents source, d.Unique :=
  Store.forall_documents (by decide)

theorem load_author : (author {}).load schema loads =
    .ok ((author {}).loadWith loadedPosts, (author {}).aliasWith loadedPosts) := by
  have hposts : Relation.loadAll schema userModel [] loads = .ok loadedPosts := by
    rw [loads, Relation.loadAll]
    simp only [Relation.loadAll_nil]
    rfl
  rw [Relation.load, author, hposts]
  rfl

/-- The author of a post is shown without the password, and so are the posts of the author. -/
theorem author_covered :
    (∀ out, Stage.runAll store.documents ((author {}).loadWith loadedPosts) [post] = .ok out →
        ∀ d ∈ out, d.EachUnder "author" fun e =>
          (¬ (author {}).SelectsNothing loadedPosts.aliases →
            (author {}).Covers loadedPosts.aliases e) ∧
              Relation.CoversAll schema userModel loads e) ∧
      ((author {}).SelectsNothing loadedPosts.aliases → startsDollar "author" = false →
        Stage.runAll store.documents ((author {}).loadWith loadedPosts) [post] =
          Stage.runAll store.documents ((author {}).joinStages ((author {}).relatedPipeline []) ++
            (author {}).unwindStages) [post]) :=
  Relation.load_covers load_author (by decide) store_unique (by decide)

/-- The author of a post, of whom no field is selected. -/
def nothingOfAuthor : Relation := author { select := some [] }

/-- The author of a post is shown with the password if no field is selected. -/
theorem nothingOfAuthor_shows_password :
    ∃ loaded out, nothingOfAuthor.load schema [] = .ok loaded ∧
      Stage.runAll store.documents loaded.1 [post] = .ok out ∧
        ∃ d ∈ out, ¬ d.EachUnder "author" (nothingOfAuthor.Covers loaded.2.children) := by
  have hload : nothingOfAuthor.load schema [] =
      .ok (nothingOfAuthor.loadWith {}, nothingOfAuthor.aliasWith {}) := by
    rw [Relation.load, Relation.loadAll]
    rfl
  have hjoin : Stage.runAll store.documents
      (nothingOfAuthor.joinStages (nothingOfAuthor.relatedPipeline []) ++
        nothingOfAuthor.unwindStages) [post] = .ok [post ++ [("author", .object user)]] := rfl
  have hrun : Stage.runAll store.documents (nothingOfAuthor.loadWith {}) [post] =
      .ok [post ++ [("author", .object user)]] :=
    (Stage.runAll_append_ok hjoin _).trans
      (Relation.run_selection_nil (by decide) (by decide) rfl (by decide) (by decide) _)
  refine ⟨_, _, hload, hrun, _, List.mem_singleton_self _, fun hcovers => ?_⟩
  obtain ⟨e, he, hcovered⟩ := hcovers (.object user)
    (List.mem_append_right _ (List.mem_singleton_self _)) _ (List.mem_singleton_self _)
  cases he
  rcases hcovered.hidden "password" (by decide) (by decide) (by decide) with
    hvisible | ⟨fields, hfields, hhead⟩ | hnested
  · cases hvisible
  · cases hfields
    cases hhead
  · cases hnested

end AuthorSample

end DocMapper
