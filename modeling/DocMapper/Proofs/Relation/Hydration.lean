import DocMapper.Proofs.Relation.Execution
import DocMapper.Query.Run

/-! # Loaded documents as entities

What was loaded with a document is taken out of it by alias, and each item that was loaded becomes an
entity of its own, from which what was loaded with it is taken out in turn (`Entity.Hydrated`). This
cannot fail where under every alias there are documents only, at every depth, and no array under an
alias of a kind with at most one related document (`EagerAlias.HydratesAll`).

The stages of a tree of relations leave such documents (`Relation.hydrates_loadAll`): a lookup puts
documents under the alias, unwinding takes one of them out of the array, and what is left out
afterwards cuts them down without making anything else of them. -/

namespace DocMapper

/-! ## Documents that hydrate -/

/-- What stands under a key is no array. -/
def Document.NoArrayUnder (name : String) (d : Document) : Prop := ∀ items, (name, .array items) ∉ d

/-- Whether a value is an array is not changed by leaving out parts of it. -/
theorem Json.Cut.exists_array {items : List Json} {w : Json} (h : Cut (.array items) w) :
    ∃ whole, w = .array whole := by
  cases h with
  | refl => exact ⟨items, rfl⟩
  | array => exact ⟨_, rfl⟩

/-- No array stands under a key of a document if what stands there is cut from what stands in one
without an array. -/
theorem Document.NoArrayUnder.of_cut {name : String} {d d' : Document} (h : d.NoArrayUnder name)
    (hcut : ∀ v, (name, v) ∈ d' → ∃ w, (name, w) ∈ d ∧ Json.Cut v w) : d'.NoArrayUnder name := by
  intro items hitems
  obtain ⟨w, hw, hvw⟩ := hcut _ hitems
  obtain ⟨whole, rfl⟩ := hvw.exists_array
  exact h whole hw

namespace EagerAlias

/-- Under each of some aliases, which are distinct, a document holds documents of which the same is
true with the aliases below; and no array where there is at most one. -/
def HydratesAll : List EagerAlias → Document → Prop
  | [], _ => True
  | ⟨name, single, children⟩ :: rest, d =>
    name ∉ rest.map (·.name) ∧ d.EachUnder name (HydratesAll children) ∧
      (single = true → d.NoArrayUnder name) ∧ HydratesAll rest d

variable {aliases : List EagerAlias} {d e : Document}

theorem HydratesAll.cut (h : HydratesAll aliases e) (hcut : Json.Cut (.object d) (.object e)) :
    HydratesAll aliases d := by
  induction aliases, e using HydratesAll.induct generalizing d with
  | case1 =>
    rw [HydratesAll]
    trivial
  | case2 name single children rest e ihChildren ihRest =>
    rw [HydratesAll] at h ⊢
    obtain ⟨hfree, hunder, hsingle, hrest⟩ := h
    refine ⟨hfree, hunder.cut (fun d' e' hcut' he' => ihChildren e' he' hcut') hcut,
      fun hs => (hsingle hs).of_cut fun v hv => hcut.exists_entry hv, ihRest hrest hcut⟩

theorem HydratesAll.nodup (h : HydratesAll aliases d) : (aliases.map (·.name)).Nodup := by
  induction aliases with
  | nil => exact List.nodup_nil
  | cons a rest ih =>
    obtain ⟨name, single, children⟩ := a
    rw [HydratesAll] at h
    exact List.nodup_cons.mpr ⟨h.1, ih h.2.2.2⟩

end EagerAlias

/-! ## Entities from documents that hydrate -/

theorem lookup_insertNamed {α : Type} (name : String) (value : α) (l : List (String × α))
    (key : String) :
    (insertNamed name value l).lookup key = if name = key then some value else l.lookup key := by
  have hcons : ∀ (n : String) (v : α) (rest : List (String × α)),
      List.lookup key ((n, v) :: rest) = if n = key then some v else rest.lookup key := by
    intro n v rest
    by_cases h : n = key
    · simp [h]
    · simp [List.lookup_cons, beq_false_of_ne (Ne.symm h), h]
  induction l with
  | nil => exact hcons name value []
  | cons entry l ih =>
    obtain ⟨n, old⟩ := entry
    rw [insertNamed]
    cases hcompare : compare name n with
    | lt => exact hcons name value _
    | eq =>
      cases Std.LawfulEqOrd.compare_eq_iff_eq.mp hcompare
      simp only [hcons]
      split <;> rfl
    | gt =>
      have hne : name ≠ n := by
        rintro rfl
        simp at hcompare
      simp only [hcons, ih]
      split
      · next h => simp [← h, hne]
      · rfl

namespace Entity

variable {aliases : List EagerAlias} {d : Document}

/-- Every alias can be asked for what was loaded under it, as entities of any model: there is at
most one for kinds with at most one related document, and the same is true of each of them with the
aliases below. -/
def Hydrated : List EagerAlias → Entity → Prop
  | [], _ => True
  | ⟨name, single, children⟩ :: rest, e =>
    (∀ m : Model, ∃ found, e.related name m = .ok found ∧ (single = true → found.length ≤ 1) ∧
      ∀ child ∈ found, Hydrated children child) ∧
    Hydrated rest e

theorem lookup_splitRelations_of_not_mem {name : String} (h : name ∉ aliases.map (·.name))
    (d : Document) (relations : List (String × LoadedRelation)) :
    (splitRelations d relations aliases).2.lookup name = relations.lookup name := by
  induction aliases generalizing d relations with
  | nil => rfl
  | cons a aliases ih =>
    rw [List.map_cons, List.mem_cons, not_or] at h
    rw [splitRelations, ih h.2, lookup_insertNamed, if_neg (Ne.symm h.1)]

/-- What is found under an alias of an entity stood there in its document, if anything did. -/
theorem lookup_splitRelations (hnodup : (aliases.map (·.name)).Nodup) (d : Document)
    (relations : List (String × LoadedRelation)) {a : EagerAlias} (ha : a ∈ aliases) :
    ∃ v, (splitRelations d relations aliases).2.lookup a.name = some ⟨v, a.children⟩ ∧
      (v = nothingUnder a ∨ (a.name, v) ∈ d) := by
  induction aliases generalizing d relations with
  | nil => cases ha
  | cons b aliases ih =>
    obtain ⟨hfree, hnodup⟩ := List.nodup_cons.mp hnodup
    rw [splitRelations]
    rcases List.mem_cons.mp ha with rfl | ha
    · rw [lookup_splitRelations_of_not_mem hfree, lookup_insertNamed, if_pos rfl]
      refine ⟨_, rfl, ?_⟩
      cases hget : d.get? a.name with
      | none => exact .inl rfl
      | some v => exact .inr (Document.mem_of_get? hget)
    · obtain ⟨v, hv, hfrom⟩ := ih hnodup (d.erase b.name) _ ha
      exact ⟨v, hv, hfrom.imp_right Document.mem_of_mem_erase⟩

/-- Documents that were loaded are found as entities, with what was loaded with each of them. -/
theorem related_eq {e : Entity} {name : String} {v : Json} {children : List EagerAlias}
    (hlookup : e.relations.lookup name = some ⟨v, children⟩) {docs : List Document}
    (hdocs : loadedItems v = docs.map .object) (m : Model) :
    e.related name m = .ok (docs.map fun fields => ofDocument m fields children) := by
  rw [related, hlookup]
  show (loadedItems v).mapM _ = _
  rw [hdocs, List.mapM_map]
  exact mapM_ok fun _ _ => rfl

theorem length_loadedItems_le {v : Json} (h : ∀ items, v ≠ .array items) :
    (loadedItems v).length ≤ 1 := by
  cases v with
  | array items => exact absurd rfl (h items)
  | null => exact Nat.zero_le 1
  | _ => exact Nat.le_refl 1

/-- An entity can be asked for what was loaded under its aliases if that comes from a document that
hydrates. -/
theorem hydrated_of_lookup {e : Entity} (h : EagerAlias.HydratesAll aliases d)
    (hlookup : ∀ a ∈ aliases, ∃ v, e.relations.lookup a.name = some ⟨v, a.children⟩ ∧
      (v = nothingUnder a ∨ (a.name, v) ∈ d)) : Hydrated aliases e := by
  induction aliases, d using EagerAlias.HydratesAll.induct generalizing e with
  | case1 =>
    rw [Hydrated]
    trivial
  | case2 name single children rest d ihChildren ihRest =>
    rw [EagerAlias.HydratesAll] at h
    obtain ⟨-, hunder, hsingle, hrest⟩ := h
    obtain ⟨⟨v, hv, hfrom⟩, hothers⟩ := List.forall_mem_cons.mp hlookup
    -- What is loaded under the alias are documents, at most one of them where that is asked.
    obtain ⟨docs, hdocs, hhydrates⟩ : ∃ docs : List Document, loadedItems v = docs.map .object ∧
        ∀ fields ∈ docs, EagerAlias.HydratesAll children fields := by
      rcases hfrom with rfl | hmem
      · refine ⟨[], ?_, fun _ hfields => absurd hfields List.not_mem_nil⟩
        cases single <;> rfl
      · exact Relation.exists_documents (hunder v hmem)
    have hone : single = true → docs.length ≤ 1 := by
      intro hs
      have hlength : (loadedItems v).length = docs.length := by simp [hdocs]
      rw [← hlength]
      refine length_loadedItems_le fun items => ?_
      rintro rfl
      rcases hfrom with heq | hmem
      · simp [nothingUnder, hs] at heq
      · exact hsingle hs items hmem
    rw [Hydrated]
    refine ⟨fun m => ⟨_, related_eq hv hdocs m, ?_, fun child hchild => ?_⟩, ihRest hrest hothers⟩
    · simpa using hone
    · obtain ⟨fields, hfields, rfl⟩ := List.mem_map.mp hchild
      have hfields := hhydrates fields hfields
      exact ihChildren fields hfields fun a ha => lookup_splitRelations hfields.nodup fields [] ha

/-- The entity of a document that hydrates can be asked for all that was loaded. -/
theorem hydrated_ofDocument (h : EagerAlias.HydratesAll aliases d) (m : Model) :
    Hydrated aliases (ofDocument m d aliases) :=
  hydrated_of_lookup h fun _ ha => lookup_splitRelations h.nodup d [] ha

end Entity

/-! ## What the stages of a relation leave -/

namespace Relation

variable {r : Relation} {db : Collections} {docs out : List Document} {P : Document → Prop}

/-- Unwinding leaves no array under the alias of a kind with at most one related document. -/
theorem noArray_unwindStages (halias : IsField r.aliasName) (hsingle : r.kind.isSingle = true)
    (hdocs : ∀ d ∈ docs, d.Unique ∧ d.EachUnder r.aliasName P)
    (h : Stage.runAll db r.unwindStages docs = .ok out) :
    ∀ d ∈ out, d.NoArrayUnder r.aliasName := by
  rw [unwindStages, hsingle, if_pos rfl, Stage.runAll_singleton] at h
  cases h
  intro d' hd' items hitems
  obtain ⟨d, hd, hmem⟩ := List.mem_flatMap.mp hd'
  obtain ⟨hunique, hunder⟩ := hdocs d hd
  rw [Stage.unwound, Document.at?_field halias] at hmem
  split at hmem
  · rw [if_pos rfl, List.mem_singleton, Document.remove_field halias] at hmem
    subst hmem
    exact ((Document.mem_erase hunique).mp hitems).2 rfl
  · next whole hget =>
    obtain ⟨item, hitem, rfl⟩ := List.mem_map.mp hmem
    obtain ⟨e, rfl, -⟩ := hunder _ (Document.mem_of_get? hget) item hitem
    rw [Document.set_field halias, Document.mem_insert hunique] at hitems
    rcases hitems with ⟨-, heq⟩ | ⟨hne, -⟩
    · cases heq
    · exact hne rfl
  · next hget =>
    rw [if_pos rfl, List.mem_singleton] at hmem
    subst hmem
    rw [(Document.get?_eq_some_iff hunique).mpr hitems] at hget
    cases hget
  · next hget =>
    rw [if_pos rfl, List.mem_singleton] at hmem
    subst hmem
    rw [(Document.get?_eq_some_iff hunique).mpr hitems] at hget
    cases hget
  · next v _ hnotArray _ hget =>
    obtain rfl := List.mem_singleton.mp hmem
    rw [(Document.get?_eq_some_iff hunique).mpr hitems, Option.some_inj] at hget
    exact hnotArray items hget.symm

/-- Leaving out fields makes no array of what stands under the alias. -/
theorem noArray_projectionStages {nested : List EagerAlias} (halias : IsField r.aliasName)
    (hsaved : r.aliasName ≠ savedField) (hdocs : ∀ d ∈ docs, d.Unique)
    (hnone : ∀ d ∈ docs, d.NoArrayUnder r.aliasName)
    (h : Stage.runAll db (r.projectionStages nested) docs = .ok out) :
    ∀ d ∈ out, d.NoArrayUnder r.aliasName := by
  intro d' hd'
  obtain ⟨d, hd, hshows⟩ := exists_of_mem_forall₂ (forall₂_shows halias hsaved hdocs h) hd'
  cases hshows with
  | removed =>
    exact (hnone d hd).of_cut fun v hv => (Update.removeAll_cut _ d).exists_entry hv
  | nothing => exact hnone _ hd
  | missing => exact hnone _ hd
  | @included _ paths w _ _ hfound =>
    obtain ⟨whole, hwhole, hcut⟩ := (Inclusion.copies_ofPaths paths).cut d _ w hfound
    refine (hnone d hd).of_cut fun v hv => ?_
    rcases (Document.mem_insert (hdocs d hd)).mp hv with ⟨-, rfl⟩ | ⟨hne, -⟩
    · exact ⟨whole, Document.mem_of_get? hwhole, hcut⟩
    · exact absurd rfl hne

/-- A relation of a kind with at most one related document leaves no array under its alias. -/
theorem noArray_loadWith {nested : Loaded} (hvalid : r.validate = .ok ())
    (hsingle : r.kind.isSingle = true) (hsaved : r.aliasName ≠ savedField)
    (hdocs : ∀ d ∈ docs, d.Unique) (h : Stage.runAll db (r.loadWith nested) docs = .ok out) :
    ∀ d ∈ out, d.NoArrayUnder r.aliasName := by
  obtain ⟨-, halias⟩ := validate_eq_ok hvalid
  obtain ⟨joined, unwound, hparts⟩ := exists_parts hvalid hdocs h
  exact noArray_projectionStages halias hsaved (fun d hd => (hparts.unwoundDocs d hd).1)
    (noArray_unwindStages halias hsingle hparts.joinedDocs hparts.unwind) hparts.project

/-! ## Trees of loads -/

variable {schema : Schema}

/-- No relation of a tree is put under an alias that was taken before. -/
theorem lookup_seen_of_loadAll {owner : Model} {seen : List (String × String)}
    {loads : List EagerLoad} {loaded : Loaded} (h : loadAll schema owner seen loads = .ok loaded) :
    ∀ a ∈ loaded.aliases, seen.lookup a.name = none := by
  induction owner, seen, loads using loadAll.induct generalizing loaded with
  | case1 owner seen =>
    rw [loadAll] at h
    cases h
    exact fun a ha => absurd ha List.not_mem_nil
  | case2 owner seen name options children rest ihChildren ihRest =>
    obtain ⟨r, nested, others, -, hfree, -, -, hothers, rfl⟩ := loadAll_cons_eq_ok h
    intro a ha
    rcases List.mem_cons.mp ha with rfl | ha
    · exact hfree
    · have hseen := ihRest r hothers a ha
      rw [List.lookup_cons] at hseen
      split at hseen
      · cases hseen
      · exact hseen

/-- The stages of a tree of loads leave documents that hydrate, and change nothing under the aliases
that were taken before. -/
theorem hydrates_loadAll (hdb : ∀ source, ∀ d ∈ db source, d.Unique) {owner : Model}
    {seen : List (String × String)} {loads : List EagerLoad} {loaded : Loaded}
    (hload : loadAll schema owner seen loads = .ok loaded)
    (hsaved : savedField ∉ EagerAlias.allNames loaded.aliases) (hdocs : ∀ d ∈ docs, d.Unique)
    (h : Stage.runAll db loaded.stages docs = .ok out) :
    ∀ d' ∈ out, EagerAlias.HydratesAll loaded.aliases d' ∧
      ∃ d ∈ docs, ∀ first ∈ seen, ∀ v, (first.1, v) ∈ d' → (first.1, v) ∈ d := by
  induction owner, seen, loads using loadAll.induct generalizing loaded docs out with
  | case1 owner seen =>
    rw [loadAll] at hload
    cases hload
    cases h
    intro d' hd'
    rw [EagerAlias.HydratesAll]
    exact ⟨trivial, d', hd', fun _ _ _ hv => hv⟩
  | case2 owner seen name options children rest ihChildren ihRest =>
    obtain ⟨r, nested, others, hr, hfree, hvalid, hnested, hothers, rfl⟩ := loadAll_cons_eq_ok hload
    obtain ⟨halias, hsavedNested, hsavedOthers⟩ := not_mem_allNames_cons.mp hsaved
    obtain ⟨mid, hmid, h⟩ := Stage.runAll_append_eq_ok.mp h
    have hstep := step_loadWith (P := EagerAlias.HydratesAll nested.aliases) hvalid halias
      (isField_of_loadAll hnested) (fun d e hcut he => he.cut hcut) hdocs
      (fun related found hsubset hfound e he =>
        have hrelated := fun d hd => hdb _ d (hsubset d hd)
        ⟨(covers_loadAll hdb hnested hsavedNested hrelated hfound e he).1,
          (ihChildren r hnested hsavedNested hrelated hfound e he).1⟩) hmid
    intro d' hd'
    obtain ⟨hall, d₁, hd₁, hwithin⟩ := ihRest r hothers hsavedOthers
      (fun d hd => (hstep.each d hd).1) h d' hd'
    have hkept := hwithin _ List.mem_cons_self
    obtain ⟨d, hd, hstep⟩ := hstep d₁ hd₁
    refine ⟨?_, d, hd, within_seen hfree hstep hwithin⟩
    rw [aliasWith, EagerAlias.HydratesAll]
    refine ⟨fun hmem => ?_, fun v hv => ?_, fun hsingle => ?_, hall⟩
    · -- The others keep off the alias, since it is taken.
      obtain ⟨a, ha, hname⟩ := List.mem_map.mp hmem
      have hseen := lookup_seen_of_loadAll hothers a ha
      simp [hname] at hseen
    · exact (hstep.under.mono fun e he => he.2) v (hkept v hv)
    · have hnone := noArray_loadWith hvalid hsingle halias hdocs hmid d₁ hd₁
      exact hnone.of_cut fun v hv => ⟨v, hkept v hv, .refl v⟩

end Relation

/-! ## Families of models -/

/-- No name of a field, of a type or of an alias that the relations of a family of models use looks
like an operator, and no alias is the field that selections keep for themselves. -/
structure Schema.Plain (schema : Schema) : Prop where
  noOperators : ∀ type name r, (schema.registry type).lookup name = some r → r.NoOperators
  aliases : ∀ type name r, (schema.registry type).lookup name = some r →
    startsDollar r.aliasName = false ∧ r.aliasName ≠ Relation.savedField

namespace Relation

variable {schema : Schema} {owner : Model} {name : String} {options : Option RelationOptions}
  {r : Relation} {loads : List EagerLoad} {loaded : Loaded}

/-- Options of a request change no name. -/
theorem plain_of_requested (hschema : schema.Plain)
    (h : requested schema owner name options = .ok r) :
    r.NoOperators ∧ startsDollar r.aliasName = false ∧ r.aliasName ≠ savedField := by
  obtain ⟨declared, hdeclared, h⟩ := bind_eq_ok.mp h
  have hlookup : (schema.registry owner.typeName).lookup name = some declared := by
    rw [Schema.resolve, Registry.resolve] at hdeclared
    split at hdeclared
    · cases hdeclared
    · next found hfound =>
      obtain ⟨-, -, hdeclared⟩ := bind_eq_ok.mp hdeclared
      cases hdeclared
      exact hfound
  have hnames := hschema.noOperators _ _ _ hlookup
  have halias := hschema.aliases _ _ _ hlookup
  cases options with
  | none =>
    cases h
    exact ⟨hnames, halias⟩
  | some o =>
    cases h
    exact ⟨⟨hnames.fields, hnames.types⟩, halias⟩

theorem noOperatorsAll_of_plain (hschema : schema.Plain) (owner : Model) (loads : List EagerLoad) :
    NoOperatorsAll schema owner loads := by
  induction owner, loads using NoOperatorsAll.induct with
  | case1 owner =>
    rw [NoOperatorsAll]
    trivial
  | case2 owner name options children rest ihChildren ihRest =>
    rw [NoOperatorsAll]
    refine ⟨fun r hr => ?_, ihRest⟩
    obtain ⟨hnames, hdollar, -⟩ := plain_of_requested hschema hr
    exact ⟨hnames, hdollar, ihChildren r⟩

theorem savedField_not_mem_of_plain (hschema : schema.Plain) {seen : List (String × String)}
    (h : loadAll schema owner seen loads = .ok loaded) :
    savedField ∉ EagerAlias.allNames loaded.aliases := by
  induction owner, seen, loads using loadAll.induct generalizing loaded with
  | case1 owner seen =>
    rw [loadAll] at h
    cases h
    exact List.not_mem_nil
  | case2 owner seen name options children rest ihChildren ihRest =>
    obtain ⟨r, nested, others, hr, -, -, hnested, hothers, rfl⟩ := loadAll_cons_eq_ok h
    obtain ⟨-, -, hsaved⟩ := plain_of_requested hschema hr
    exact not_mem_allNames_cons.mpr ⟨hsaved, ihChildren r hnested, ihRest r hothers⟩

/-- In a family of models with plain names, the stages of every tree of relations run on every
store, and all that they load can be asked for as entities, to any depth. -/
theorem loadAll_hydrates (hschema : schema.Plain)
    (hload : loadAll schema owner [] loads = .ok loaded) {s : Store}
    (hs : ∀ source, ∀ d ∈ s.documents source, d.Unique) :
    ∃ docs, s.aggregate owner.collection loaded.stages = .ok docs ∧
      ∀ d ∈ docs, Entity.Hydrated loaded.aliases (Entity.ofDocument owner d loaded.aliases) := by
  have hsaved := savedField_not_mem_of_plain hschema hload
  obtain ⟨docs, hrun⟩ := exists_run_loadAll hs hload (noOperatorsAll_of_plain hschema owner loads)
    hsaved (hs owner.collection)
  refine ⟨docs, by rw [Store.aggregate, hrun, mapError_ok], fun d hd => ?_⟩
  exact Entity.hydrated_ofDocument
    (hydrates_loadAll hs hload hsaved (hs owner.collection) hrun d hd).1 owner

end Relation

/-! ## The posts of a user, with their authors -/

namespace BlogSample

open AuthorSample (userModel posts author store store_unique)

/-- Users declare their posts, and posts their author, of whom the name is shown. -/
def schema : Schema := ⟨fun model =>
  if model = "User" then [("posts", posts)]
  else if model = "Post" then [("author", author { select := some ["name"] })]
  else []⟩

/-- The posts of users, each with its author. -/
def loads : List EagerLoad := [⟨"posts", none, [⟨"author", none, []⟩]⟩]

theorem cases_of_lookup {type name : String} {r : Relation}
    (h : (schema.registry type).lookup name = some r) :
    r = posts ∨ r = author { select := some ["name"] } := by
  have hsingle : ∀ (key : String) (declared : Relation),
      List.lookup name [(key, declared)] = some r → r = declared := by
    intro key declared hlookup
    rw [List.lookup_cons] at hlookup
    split at hlookup <;> cases hlookup
    rfl
  simp only [schema] at h
  split at h
  · exact .inl (hsingle _ _ h)
  · split at h
    · exact .inr (hsingle _ _ h)
    · cases h

theorem schema_plain : schema.Plain := by
  refine ⟨fun type name r h => ?_, fun type name r h => ?_⟩
  · rcases cases_of_lookup h with rfl | rfl <;> exact ⟨by decide, by decide⟩
  · rcases cases_of_lookup h with rfl | rfl <;> exact ⟨by decide, by decide⟩

/-- What loading the authors of posts comes to. -/
def loadedAuthors : Relation.Loaded :=
  ⟨(author { select := some ["name"] }).loadWith {},
    [(author { select := some ["name"] }).aliasWith {}]⟩

def loaded : Relation.Loaded := ⟨posts.loadWith loadedAuthors, [posts.aliasWith loadedAuthors]⟩

theorem loadAll_loads : Relation.loadAll schema userModel [] loads = .ok loaded := by
  have hauthors : Relation.loadAll schema posts.related [] [⟨"author", none, []⟩] =
      .ok loadedAuthors := by
    rw [Relation.loadAll]
    simp only [Relation.loadAll_nil]
    rfl
  have hposts : Relation.requested schema userModel "posts" none = .ok posts := rfl
  rw [loads, Relation.loadAll, hposts, ok_bind]
  simp only [List.lookup_nil, hauthors, Relation.loadAll_nil]
  rfl

/-- The users can be asked for their posts, and the posts for their authors. -/
theorem users_hydrate :
    ∃ docs, store.aggregate "users" loaded.stages = .ok docs ∧
      ∀ d ∈ docs, Entity.Hydrated loaded.aliases (Entity.ofDocument userModel d loaded.aliases) :=
  Relation.loadAll_hydrates schema_plain loadAll_loads store_unique

end BlogSample

end DocMapper
