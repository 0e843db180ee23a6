import DocMapper.Proofs.Relation.Siblings

/-! # Loading a batch is loading each owner

A lookup runs its own pipeline once for each document, and the stages that load relations are
lookups, unwinds and projections: none of them looks at two owners at a time. So the stages of every
tree of relations make of a list of owners what they make of each owner alone, one after the other
(`Stage.Batches`, `Relation.batches_loadAll`). Unlike the stages of kinds with many related
documents (`Stage.EachAlone`), they may make several documents of an owner, or copies of it.

Sorting, skipping and limiting stand in the pipelines of the lookups. They are applied to the
documents that the lookups find for one owner (`Relation.LoadsFor`), and what is nested is loaded
for each document that is left, in the same way (`Relation.Level`). -/

namespace DocMapper

/-! ## Stages that take a batch apart -/

namespace Stage

variable {db : Collections} {stages rest : List Stage} {docs docs' out : List Document}

/-- Stages that make of two lists, one after the other, what they make of each of them. -/
structure Batches (db : Collections) (stages : List Stage) : Prop where
  nil : runAll db stages [] = .ok []
  append_iff : ∀ docs docs' out, runAll db stages (docs ++ docs') = .ok out ↔
    ∃ first second, runAll db stages docs = .ok first ∧ runAll db stages docs' = .ok second ∧
      out = first ++ second

theorem batches_nil : Batches db [] := by
  refine ⟨rfl, fun docs docs' out => ⟨?_, ?_⟩⟩
  · rintro ⟨⟩
    exact ⟨docs, docs', rfl, rfl, rfl⟩
  · rintro ⟨first, second, ⟨⟩, ⟨⟩, rfl⟩
    rfl

theorem Batches.append (h : Batches db stages) (h' : Batches db rest) :
    Batches db (stages ++ rest) := by
  refine ⟨(runAll_append_ok h.nil rest).trans h'.nil, fun docs docs' out => ?_⟩
  simp only [runAll_append_eq_ok]
  constructor
  · rintro ⟨mid, hmid, hout⟩
    obtain ⟨mid₁, mid₂, hmid₁, hmid₂, rfl⟩ := (h.append_iff _ _ _).mp hmid
    obtain ⟨first, second, hfirst, hsecond, rfl⟩ := (h'.append_iff _ _ _).mp hout
    exact ⟨first, second, ⟨mid₁, hmid₁, hfirst⟩, ⟨mid₂, hmid₂, hsecond⟩, rfl⟩
  · rintro ⟨first, second, ⟨mid₁, hmid₁, hfirst⟩, ⟨mid₂, hmid₂, hsecond⟩, rfl⟩
    exact ⟨mid₁ ++ mid₂, (h.append_iff _ _ _).mpr ⟨mid₁, mid₂, hmid₁, hmid₂, rfl⟩,
      (h'.append_iff _ _ _).mpr ⟨first, second, hfirst, hsecond, rfl⟩⟩

/-- Such stages make of a list what they make of each document alone, one after the other. -/
theorem Batches.run_iff (h : Batches db stages) (docs out : List Document) :
    runAll db stages docs = .ok out ↔
      ∃ outs, List.Forall₂ (fun d out => runAll db stages [d] = .ok out) docs outs ∧
        out = outs.flatten := by
  induction docs generalizing out with
  | nil =>
    rw [h.nil]
    constructor
    · rintro ⟨⟩
      exact ⟨[], .nil, rfl⟩
    · rintro ⟨_, ⟨⟩, rfl⟩
      rfl
  | cons d docs ih =>
    rw [← List.singleton_append, h.append_iff]
    constructor
    · rintro ⟨first, second, hfirst, hsecond, rfl⟩
      obtain ⟨outs, houts, rfl⟩ := (ih second).mp hsecond
      exact ⟨first :: outs, .cons hfirst houts, rfl⟩
    · rintro ⟨_, hall, rfl⟩
      cases hall with
      | @cons _ first _ outs hfirst houts =>
        exact ⟨first, outs.flatten, hfirst, (ih _).mpr ⟨outs, houts, rfl⟩, rfl⟩

/-- Stages that make one document of each take a batch apart. -/
theorem EachAlone.batches (h : EachAlone db stages) : Batches db stages := by
  refine ⟨(h _ _).mpr .nil, fun docs docs' out => ?_⟩
  constructor
  · intro hrun
    have hall := ((h _ _).mp hrun).flip
    refine ⟨out.take docs.length, out.drop docs.length, (h _ _).mpr ?_, (h _ _).mpr ?_,
      (List.take_append_drop _ _).symm⟩
    · exact (List.forall₂_take_append _ _ _ hall).flip
    · exact (List.forall₂_drop_append _ _ _ hall).flip
  · rintro ⟨first, second, hfirst, hsecond, rfl⟩
    exact (h _ _).mpr (List.rel_append ((h _ _).mp hfirst) ((h _ _).mp hsecond))

theorem batches_unwind (path : String) (preserve : Bool) : Batches db [.unwind path preserve] := by
  refine ⟨rfl, fun docs docs' out => ?_⟩
  simp only [runAll_singleton, run, Except.ok.injEq, List.flatMap_append]
  constructor
  · rintro rfl
    exact ⟨_, _, rfl, rfl, rfl⟩
  · rintro ⟨_, _, rfl, rfl, rfl⟩
    rfl

end Stage

/-! ## Windows -/

namespace RelationOptions

/-- The documents in the order that options ask for. -/
def sorted (o : RelationOptions) (docs : List Document) : List Document :=
  match o.sort with
  | some (column, direction) => Stage.sorted [(column, direction = SortDirection.descending)] docs
  | none => docs

/-- What options make of documents: sorted, without those that are skipped, and of the rest no more
than the limit. -/
def window (o : RelationOptions) (docs : List Document) : List Document :=
  let rest := (o.sorted docs).drop (o.skip.getD 0)
  match o.limit with
  | some n => rest.take n
  | none => rest

end RelationOptions

namespace Relation

variable {r : Relation} {nested : Loaded} {db : Collections} {d : Document}
  {docs out found : List Document} {pipeline : List Stage}

theorem run_sorted (o : RelationOptions) (db : Collections) (docs : List Document) :
    Stage.runAll db
      (o.sort.map fun (column, direction) => Stage.sortBy [(column, direction.toInt)]).toList docs =
        .ok (o.sorted docs) := by
  rw [RelationOptions.sorted]
  cases o.sort with
  | none => rfl
  | some key =>
    obtain ⟨column, direction⟩ := key
    cases direction <;> rfl

theorem run_windowStages (o : RelationOptions) (db : Collections) (docs : List Document) :
    Stage.runAll db (windowStages o) docs = .ok (o.window docs) := by
  rw [windowStages, List.append_assoc, Stage.runAll_append_ok (run_sorted o db docs),
    RelationOptions.window]
  cases o.skip <;> cases o.limit <;> rfl

/-! ## One relation -/

theorem batches_unwindStages (r : Relation) (db : Collections) :
    Stage.Batches db r.unwindStages := by
  rw [unwindStages]
  split
  · exact Stage.batches_unwind _ _
  · exact Stage.batches_nil

/-- The stages of a relation take a batch apart. -/
theorem batches_loadWith (hvalid : r.validate = .ok ()) (nested : Loaded) (db : Collections) :
    Stage.Batches db (r.loadWith nested) :=
  ((eachAlone_joinStages (validate_eq_ok hvalid).1 _).batches.append
    (batches_unwindStages r db)).append (eachAlone_projectionStages r nested.aliases).batches

/-- The documents that the lookups of a relation lead to from an owner: those that they put under
the alias if the related side has no pipeline. -/
def LeadsTo (r : Relation) (db : Collections) (d : Document) (related : List Document) : Prop :=
  ∃ d', Stage.runAll db (r.joinStages []) [d] = .ok [d'] ∧
    d'.get? r.aliasName = some (.array (related.map .object))

/-- The second of two lookups leads to the same documents, whatever pipeline it runs on them. -/
theorem exists_related_lookupsThrough (halias : IsField r.aliasName) {suffix : String}
    (hsuffix : IsField suffix) {source here there onward target : String} {conditions : List Json}
    (hd : d.Unique)
    (h : Stage.runAll db
      (r.lookupsThrough suffix source here there conditions onward target pipeline) [d] =
        .ok out) :
    ∃ related found, Stage.runAll db pipeline related = .ok found ∧
      ∀ pipeline found, Stage.runAll db pipeline related = .ok found → ∃ d', r.Holds d' found ∧
        Stage.runAll db
          (r.lookupsThrough suffix source here there conditions onward target pipeline) [d] =
            .ok [d'] := by
  have hfield := isField_temporary halias hsuffix
  obtain ⟨first, hfirst, h⟩ := Stage.runAll_cons_eq_ok.mp h
  obtain ⟨second, hsecond, -⟩ := Stage.runAll_cons_eq_ok.mp h
  obtain ⟨_, ⟨rows, hrows, rfl⟩, rfl⟩ := forall₂_singleton.mp (forall₂_found hfield hfirst)
  obtain ⟨_, ⟨found, hfound, -⟩, -⟩ := forall₂_singleton.mp (forall₂_found halias hsecond)
  refine ⟨_, found, hfound, fun pipeline found hfound => ?_⟩
  have hunique := hd.insert (r.temporary suffix) (.array (rows.map .object))
  refine ⟨_, holds_erase_temporary hunique suffix found, ?_⟩
  refine run_lookupsThrough_of_rows halias hsuffix hrows fun e he => ?_
  rw [Stage.joined_congr (e := d.insert (r.temporary suffix) (.array (rows.map .object)))]
  · exact hfound
  · rw [Path.head_under hfield, he, Document.get?_insert_self]

/-- Whatever the pipeline of the related side is, it is run on the documents that the lookups lead
to from the one owner. -/
theorem exists_leadsTo (hvalid : r.validate = .ok ()) (hd : d.Unique)
    (h : Stage.runAll db (r.joinStages pipeline) [d] = .ok out) :
    ∃ related found d', r.LeadsTo db d related ∧ Stage.runAll db pipeline related = .ok found ∧
      out = [d'] ∧ d'.get? r.aliasName = some (.array (found.map .object)) := by
  obtain ⟨hfit, halias⟩ := validate_eq_ok hvalid
  rcases joinStages_eq hfit with
    ⟨there, -, heq⟩ | ⟨suffix, source, there, conditions, onward, target, hsuffix, -, heq⟩
  · have hlookup : ∀ pipeline found, Stage.runAll db pipeline
        (Stage.joined (db r.related.collection) (some (r.ownerKey, there)) d) = .ok found →
          Stage.runAll db (r.joinStages pipeline) [d] =
            .ok [d.insert r.aliasName (.array (found.map .object))] := by
      intro pipeline found hfound
      rw [heq, Stage.runAll_singleton]
      exact Stage.run_lookup halias hfound
    rw [heq, Stage.runAll_singleton] at h
    obtain ⟨_, ⟨found, hfound, rfl⟩, rfl⟩ := forall₂_singleton.mp (forall₂_found halias h)
    exact ⟨_, found, _, ⟨_, hlookup [] _ rfl, Document.get?_insert_self _ _ _⟩, hfound, rfl,
      Document.get?_insert_self _ _ _⟩
  · rw [heq] at h
    obtain ⟨related, found, hfound, hany⟩ :=
      exists_related_lookupsThrough halias hsuffix hd h
    obtain ⟨d₀, hholds₀, hrun₀⟩ := hany [] related rfl
    obtain ⟨d', hholds, hrun'⟩ := hany pipeline found hfound
    refine ⟨related, found, d', ⟨d₀, (heq []).symm ▸ hrun₀, hholds₀.under⟩, hfound, ?_,
      hholds.under⟩
    exact Except.ok.inj (h.symm.trans hrun')

/-- What a relation puts under the alias of an owner, as a list: of the documents that the lookups
lead to from this owner, those that meet the conditions, sorted and limited, and each of these with
what is nested loaded for it alone. -/
def LoadsFor (r : Relation) (nested : Loaded) (db : Collections) (d : Document)
    (found : List Document) : Prop :=
  ∃ related kept founds, r.LeadsTo db d related ∧
    Stage.runAll db (conditionStages
      (r.typeCondition?.toList ++ (r.related.policy r.trashed).condition?.toList)) related =
        .ok kept ∧
    List.Forall₂ (fun e out => Stage.runAll db nested.stages [e] = .ok out)
      (r.options.window kept) founds ∧
    found = founds.flatten

/-- If the stages of a relation succeed on one owner, their lookups put the documents under the
alias that are loaded for this owner; the other stages unwind the alias and leave fields out. -/
theorem exists_loadsFor (hvalid : r.validate = .ok ()) (hnested : Stage.Batches db nested.stages)
    (hd : d.Unique) (h : Stage.runAll db (r.loadWith nested) [d] = .ok out) :
    ∃ found d', r.LoadsFor nested db d found ∧
      Stage.runAll db (r.joinStages (r.relatedPipeline nested.stages)) [d] = .ok [d'] ∧
      d'.get? r.aliasName = some (.array (found.map .object)) ∧
      Stage.runAll db (r.unwindStages ++ r.projectionStages nested.aliases) [d'] = .ok out := by
  rw [loadWith, List.append_assoc] at h
  obtain ⟨joined, hjoined, hrest⟩ := Stage.runAll_append_eq_ok.mp h
  obtain ⟨related, found, d', hleads, hfound, rfl, hunder⟩ := exists_leadsTo hvalid hd hjoined
  rw [relatedPipeline, List.append_assoc] at hfound
  obtain ⟨kept, hkept, hfound⟩ := Stage.runAll_append_eq_ok.mp hfound
  obtain ⟨window, hwindow, hfound⟩ := Stage.runAll_append_eq_ok.mp hfound
  obtain rfl : r.options.window kept = window :=
    Except.ok.inj ((run_windowStages r.options db kept).symm.trans hwindow)
  obtain ⟨founds, hfounds, rfl⟩ := (hnested.run_iff _ _).mp hfound
  exact ⟨_, d', ⟨related, kept, founds, hleads, hkept, hfounds, rfl⟩, hjoined, hunder, hrest⟩

/-! ## Trees of loads -/

variable {schema : Schema} {owner m : Model} {loads children : List EagerLoad} {loaded : Loaded}
  {seen : List (String × String)}

/-- The stages of a tree of loads take a batch apart. -/
theorem batches_loadAll (hload : loadAll schema owner seen loads = .ok loaded) (db : Collections) :
    Stage.Batches db loaded.stages := by
  induction loads generalizing seen loaded with
  | nil =>
    rw [loadAll_nil] at hload
    cases hload
    exact Stage.batches_nil
  | cons load loads ih =>
    obtain ⟨name, options, children⟩ := load
    obtain ⟨r, nested, others, -, -, hvalid, -, hothers, rfl⟩ := loadAll_cons_eq_ok hload
    exact (batches_loadWith hvalid nested db).append (ih hothers)

/-- A level of a tree of loads: a model with what is requested of it. Below a request, it is the
related model with what is nested under the request. -/
inductive Level (schema : Schema) : Model → List EagerLoad → Model → List EagerLoad → Prop
  | top {owner : Model} {loads : List EagerLoad} : Level schema owner loads owner loads
  | under {owner m : Model} {loads children : List EagerLoad} {load : EagerLoad} {r : Relation} :
      load ∈ loads → requested schema owner load.name load.options = .ok r →
      Level schema r.related load.children m children → Level schema owner loads m children

open Sibling in
/-- If a tree of loads can be put into stages, so can each of its levels. -/
theorem exists_together_of_level (hlevel : Level schema owner loads m children)
    (hload : loadAll schema owner [] loads = .ok loaded) :
    ∃ xs, List.Forall₂ (IsRequested schema m) children xs ∧
      loadAll schema m [] children = .ok (together xs) := by
  induction hlevel generalizing loaded with
  | top =>
    obtain ⟨xs, hxs, rfl⟩ := exists_together_of_loadAll hload
    exact ⟨xs, hxs, hload⟩
  | under hmem hr _ ih =>
    obtain ⟨xs, hxs, -⟩ := exists_together_of_loadAll hload
    obtain ⟨x, -, hx⟩ := exists_of_mem_forall₂ hxs.flip hmem
    obtain rfl := Except.ok.inj (hr.symm.trans hx.relation)
    exact ih hx.nested

open Sibling in
/-- **Loading a batch is loading each owner.** The stages of a tree of loads succeed on a list of
owners exactly if they succeed on each of them alone, and then make of the list what they make of
each owner, one after the other. So do the stages of every level of the tree, and at every level
sorting, skipping and limiting are applied to the documents that are found for one owner. -/
theorem batch_loads_each_owner (hload : loadAll schema owner [] loads = .ok loaded)
    (db : Collections) :
    (∀ docs out, Stage.runAll db loaded.stages docs = .ok out ↔
      ∃ outs, List.Forall₂ (fun d out => Stage.runAll db loaded.stages [d] = .ok out) docs outs ∧
        out = outs.flatten) ∧
    ∀ m children, Level schema owner loads m children →
      ∃ xs, List.Forall₂ (IsRequested schema m) children xs ∧
        loadAll schema m [] children = .ok (together xs) ∧
        (∀ docs out, Stage.runAll db (together xs).stages docs = .ok out ↔
          ∃ outs, List.Forall₂
            (fun d out => Stage.runAll db (together xs).stages [d] = .ok out) docs outs ∧
              out = outs.flatten) ∧
        ∀ x ∈ xs, ∀ d out, d.Unique → Stage.runAll db x.stages [d] = .ok out →
          ∃ found d', x.relation.LoadsFor x.nested db d found ∧
            Stage.runAll db (x.relation.joinStages
              (x.relation.relatedPipeline x.nested.stages)) [d] = .ok [d'] ∧
            d'.get? x.relation.aliasName = some (.array (found.map .object)) ∧
            Stage.runAll db (x.relation.unwindStages ++
              x.relation.projectionStages x.nested.aliases) [d'] = .ok out := by
  refine ⟨(batches_loadAll hload db).run_iff, fun m children hlevel => ?_⟩
  obtain ⟨xs, hxs, hall⟩ := exists_together_of_level hlevel hload
  refine ⟨xs, hxs, hall, (batches_loadAll hall db).run_iff, fun x hx d out hd hrun => ?_⟩
  obtain ⟨load, -, hrequested⟩ := exists_of_mem_forall₂ hxs hx
  exact exists_loadsFor hrequested.valid (batches_loadAll hrequested.nested db) hd hrun

end Relation

/-! ## The second posts of users, with their second comments -/

namespace FeedSample

open AuthorSample (userModel postModel)
open DocMapper.Relation (Sibling)

def commentModel : Model := ⟨"Comment", "comments", "_id", none, none, []⟩

/-- Nothing but the second one. -/
def second : RelationOptions := { skip := some 1, limit := some 1 }

def posts : Relation := { AuthorSample.posts with options := second }

def comments : Relation where
  kind := .hasMany
  name := "comments"
  owner := postModel
  related := commentModel
  keys := .owning "postId" "_id"
  options := second

def schema : Schema := ⟨fun model =>
  if model = "User" then [("posts", posts)]
  else if model = "Post" then [("comments", comments)]
  else []⟩

def loads : List EagerLoad := [⟨"posts", none, [⟨"comments", none, []⟩]⟩]

def loadedComments : Relation.Loaded := Sibling.together [⟨comments, {}⟩]

def loaded : Relation.Loaded := Sibling.together [⟨posts, loadedComments⟩]

def ann : Document := [("_id", .string "ann")]

def bob : Document := [("_id", .string "bob")]

def entry (key owner id : String) : Document := [("_id", .string id), (key, .string owner)]

def store : Store where
  collections := [
    ("users", [ann, bob]),
    ("posts", [entry "userId" "ann" "p1", entry "userId" "bob" "p2", entry "userId" "ann" "p3",
      entry "userId" "bob" "p4"]),
    ("comments", [entry "postId" "p3" "c1", entry "postId" "p3" "c2", entry "postId" "p4" "c3"])]
  ids := ⟨fun n => ⟨BitVec.ofNat 128 n⟩, 0⟩

theorem loadAll_loads : Relation.loadAll schema userModel [] loads = .ok loaded := by
  have hcomments : Relation.loadAll schema postModel [] [⟨"comments", none, []⟩] =
      .ok loadedComments :=
    Sibling.loadAll_eq_together (.cons ⟨rfl, rfl, Relation.loadAll_nil _ _ _⟩ .nil)
      (fun _ _ => rfl) (by decide)
  exact Sibling.loadAll_eq_together (.cons ⟨rfl, rfl, hcomments⟩ .nil) (fun _ _ => rfl) (by decide)

/-- The keys of the documents under an alias. -/
def keysUnder (name : String) (d : Document) : List (Option String) :=
  (Relation.relatedUnder name [d]).map fun item => (item.object?.getD []).textAt "_id"

/-- Each of two users is loaded with the second post of their own, as if alone. -/
theorem feeds_loaded_alone :
    ∃ out outs, Stage.runAll store.documents loaded.stages [ann, bob] = .ok out ∧
      out.map (keysUnder "posts") = [[some "p3"], [some "p4"]] ∧
      List.Forall₂ (fun d out => Stage.runAll store.documents loaded.stages [d] = .ok out)
        [ann, bob] outs ∧ out = outs.flatten := by
  have hrun : (Stage.runAll store.documents loaded.stages [ann, bob]).toOption.map
      (·.map (keysUnder "posts")) = some [[some "p3"], [some "p4"]] := by decide +kernel
  obtain ⟨out, hout, hkeys⟩ := toOption_map_eq_some.mp hrun
  obtain ⟨hbatch, -⟩ := Relation.batch_loads_each_owner loadAll_loads store.documents
  obtain ⟨outs, houts, hflatten⟩ := (hbatch _ _).mp hout
  exact ⟨out, outs, hout, hkeys, houts, hflatten⟩

end FeedSample

end DocMapper
