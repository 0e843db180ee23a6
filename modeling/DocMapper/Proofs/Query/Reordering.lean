import DocMapper.Proofs.Query.Carrying
import DocMapper.Proofs.Query.Roots
import DocMapper.Proofs.Query.Shown
import DocMapper.Proofs.Relation.Siblings

/-! # Loading first or last

A query loads its relations last, unless its conditions or its sort read what they load; then it
loads them first. If the relations are of kinds with many related documents, and the query refers to
nothing that they write, it does not matter: loading first, if it succeeds, finds what loading last
finds (`Query.loads_first_or_last`).

What carries this is a relation between the documents on the way of either order, the one as it was
found and the other with what is loaded (`Query.LoadedUpTo`). Stages that take from documents, or
put them in order, by what both agree on do the same to either list (`Stage.Carries`). A sort
without regard to case gives temporary fields to both and drops them again, and with them whatever
stood under their names; relations that are to come last must not read or write these fields.

Whether the columns of a query start with an alias is not enough to tell: an expression and the
reference to a column may read what is loaded all the same, and relations may get in the way of the
temporary fields (`OrderSample.order_matters`). -/

namespace DocMapper

namespace Query

variable {schema : Schema} {db : Collections} {q : Query}

/-! ## Temporary fields of sorts and of relations -/

/-- The temporary fields of a sort end in a digit or an underscore, those of a relation do not. -/
theorem foldedField_ne_temporary (position : Nat) (r : Relation) (suffix : String) (c : Char)
    (hlast : suffix.toList.getLast? = some c) (hdigit : c.isDigit = false) (hunderscore : c ≠ '_') :
    foldedField position ≠ r.temporary suffix := by
  intro heq
  have hends := congrArg (fun s : String => s.toList.getLast?) heq
  simp only [toList_foldedField, Relation.temporary, String.toList_append, List.getLast?_append,
    hlast, Option.some_or] at hends
  cases hdigits : (Nat.toDigits 10 position).getLast? with
  | none =>
    rw [hdigits] at hends
    exact hunderscore (Option.some.inj hends).symm
  | some c' =>
    rw [hdigits] at hends
    have hdigit' := Nat.isDigit_of_mem_toDigits (by decide) (by decide)
      (List.mem_of_getLast? hdigits)
    rw [Option.some.inj hends, hdigit] at hdigit'
    cases hdigit'

theorem foldedField_not_mem_written {position : Nat} {r : Relation}
    (h : r.aliasName ≠ foldedField position) : foldedField position ∉ r.written := by
  rw [Relation.written, List.mem_cons, not_or]
  refine ⟨h.symm, ?_⟩
  unfold Relation.temporaries
  split
  · exact fun hmem => foldedField_ne_temporary position r "pivot" 't' rfl rfl (by decide)
      (List.mem_singleton.mp hmem)
  · exact fun hmem => foldedField_ne_temporary position r "through" 'h' rfl rfl (by decide)
      (List.mem_singleton.mp hmem)
  · exact List.not_mem_nil

/-! ## Documents and what is loaded with them -/

/-- A relation that a query loads with the documents that it finds. -/
def Loads (schema : Schema) (q : Query) (r : Relation) : Prop :=
  ∃ load ∈ q.eager, Relation.requested schema q.model load.name load.options = .ok r

/-- A document that is what loading makes of another one, if either is taken without the temporary
fields of a sort. Both agree outside of what loading writes. -/
structure LoadedUpTo (db : Collections) (stages : List Stage) (temporary written : List String)
    (d d' : Document) : Prop where
  unique : d.Unique
  unique' : d'.Unique
  agree : Document.AgreeOutside written d d'
  origin : ∃ d₀ d₀', d₀.Unique ∧ Stage.runAll db stages [d₀] = .ok [d₀'] ∧
    Document.AgreeOutside temporary d₀ d ∧ Document.AgreeOutside temporary d₀' d'

namespace LoadedUpTo

variable {stages : List Stage} {temporary written : List String}

/-- Both documents may get temporary fields, if these are the same. -/
theorem carries_addFields {spec : Document}
    (hspec : ∀ field ∈ spec.keys, IsField field ∧ field ∈ temporary)
    (heval : ∀ d d', Document.AgreeOutside written d d' → ∀ entry ∈ spec,
      Expression.eval d entry.2 = Expression.eval d' entry.2) :
    Stage.Carries db (LoadedUpTo db stages temporary written) [.addFields spec] := by
  refine Stage.carries_of_mapM (fun docs => by rw [Stage.runAll_singleton, Stage.run]) ?_
  rintro d d' e' ⟨hd, hd', hagree, d₀, d₀', hd₀, hrun, horigin, horigin'⟩ he'
  obtain ⟨found, hkeys, heq, he⟩ := Stage.exists_extendedBy (heval d d' hagree) he'
  have hfields : ∀ entry ∈ found, IsField entry.1 ∧ entry.1 ∈ temporary := fun entry hentry =>
    hspec _ (hkeys ▸ List.mem_map_of_mem hentry)
  refine ⟨_, he, Stage.unique_extended hd he, Stage.unique_extended hd' he', ?_,
    d₀, d₀', hd₀, hrun, ?_, ?_⟩
  · rw [heq]
    exact Stage.agreeOutside_extendedBy (fun entry hentry => (hfields entry hentry).1) hagree
  · exact Stage.agreeOutside_extendedBy_right hfields horigin
  · rw [heq]
    exact Stage.agreeOutside_extendedBy_right hfields horigin'

/-- The temporary fields of both may be dropped. -/
theorem carries_exclude {fields : List String} (hne : fields ≠ [])
    (hfields : ∀ field ∈ fields, IsField field ∧ field ∈ temporary) :
    Stage.Carries db (LoadedUpTo db stages temporary written) [.exclude fields] := by
  have hdropped : ∀ field ∈ (Stage.entries fields (.int 0)).keys,
      IsField field ∧ field ∈ temporary :=
    fun field hfield => hfields field (Stage.mem_keys_entries.mp hfield)
  refine Stage.carries_of_mapM
    (f := fun d => .ok (Update.removeAll d (Stage.entries fields (.int 0)).keys)) ?_ ?_
  · intro docs
    rw [Stage.runAll_singleton, Stage.run_exclude_keys hne]
    exact (mapM_ok fun _ _ => rfl).symm
  · rintro d d' _ ⟨hd, hd', hagree, d₀, d₀', hd₀, hrun, horigin, horigin'⟩ ⟨⟩
    exact ⟨_, rfl, Update.unique_removeAll hd _, Update.unique_removeAll hd' _,
      Update.agreeOutside_removeAll (fun field hfield => (hdropped field hfield).1) hd hd' hagree,
      d₀, d₀', hd₀, hrun, Update.agreeOutside_removeAll_right hdropped hd horigin,
      Update.agreeOutside_removeAll_right hdropped hd' horigin'⟩

end LoadedUpTo

section Siblings

open Relation.Sibling (together written)

variable {xs : List Relation.Sibling} {conditions : Option Stage} {docs b : List Document}
  (hvalid : ∀ x ∈ xs, x.relation.validate = .ok ())
  (hmany : ∀ x ∈ xs, x.relation.kind.isSingle = false)

include hvalid hmany

/-- Loading what siblings ask for with a document, or having done so before it got temporary fields
or lost them, comes to the same. -/
theorem LoadedUpTo.exists_perm {temporary : List String} {d d' : Document}
    (hsaved : ∀ x ∈ xs, x.relation.options.select ≠ none →
      x.relation.aliasName ≠ Relation.savedField)
    (hstart : ∀ x ∈ xs, x.relation.start ∉ temporary)
    (hwritten : ∀ key ∈ written xs, key ∉ temporary)
    (h : LoadedUpTo db (together xs).stages temporary (written xs) d d') :
    ∃ e, Stage.runAll db (together xs).stages [d] = .ok [e] ∧ e.Perm d' := by
  obtain ⟨d₀, d₀', hd₀, hrun, horigin, horigin'⟩ := h.origin
  obtain ⟨e, hrun', he, hagree, hkept⟩ := Relation.Sibling.exists_run_outside hvalid hmany hsaved
    hstart hwritten hd₀ h.unique horigin hrun
  refine ⟨e, hrun', Document.perm_of_get? he h.unique' fun key => ?_⟩
  by_cases hkey : key ∈ temporary
  · rw [hkept key hkey, h.agree key fun hmem => hwritten key hmem hkey]
  · rw [← hagree key hkey, horigin' key hkey]

variable (hconditions : conditionStage? q.conditions = .ok conditions)
  (hreferences : ∀ reference ∈ q.references, reference.Outside (written xs))
  (hdocs : ∀ d ∈ docs, d.Unique)
  (hfirst : Stage.runAll db ((together xs).stages ++ (conditions.toList ++ q.windowStages)) docs =
    .ok b)

include hconditions hreferences hdocs hfirst

/-- Without temporary fields, nothing changes the documents but loading, and siblings may come
last. -/
theorem run_loads_last (hnil : foldedFields q.ordering = []) :
    Stage.runAll db (conditions.toList ++ q.windowStages ++ (together xs).stages) docs = .ok b := by
  have halone := Relation.Sibling.eachAlone_together hvalid hmany db
  obtain ⟨loaded, hloaded, hrest⟩ := Stage.runAll_append_eq_ok.mp hfirst
  have hrun := (List.forall₂_and_left _ _).mpr ⟨hdocs, (halone _ _).mp hloaded⟩
  have hcarries : Stage.Carries db
      (fun d d' => d.Unique ∧ Stage.runAll db (together xs).stages [d] = .ok [d'])
      (conditions.toList ++ q.windowStages) := by
    refine carries_stages hconditions ?_ hreferences ?_ fun hne => absurd hnil hne
    · exact fun d d' h => (Relation.Sibling.agreeOutside_together hvalid hmany h.1 h.2).2
    · intro field hfield
      rw [hnil] at hfield
      cases hfield
  obtain ⟨mid, hmid, hall⟩ := hcarries docs loaded b hrun hrest
  exact Stage.runAll_append_eq_ok.mpr ⟨mid, hmid, (halone mid b).mpr (hall.imp fun _ _ h => h.2)⟩

/-- Siblings that neither write nor read the temporary fields of a sort may come last as well. -/
theorem exists_run_loads_last (hne : foldedFields q.ordering ≠ [])
    (hsaved : ∀ x ∈ xs, x.relation.options.select ≠ none →
      x.relation.aliasName ≠ Relation.savedField)
    (hstart : ∀ x ∈ xs, x.relation.start ∉ (foldedFields q.ordering).keys)
    (hwritten : ∀ key ∈ written xs, key ∉ (foldedFields q.ordering).keys) :
    ∃ a,
      Stage.runAll db (conditions.toList ++ q.windowStages ++ (together xs).stages) docs = .ok a ∧
      List.Forall₂ List.Perm a b := by
  have hfields : ∀ field ∈ (foldedFields q.ordering).keys,
      IsField field ∧ field ∈ (foldedFields q.ordering).keys :=
    fun field hfield => ⟨isField_of_mem_foldedFields hfield, hfield⟩
  have hordering : ∀ key ∈ q.ordering, key.reference.Outside (written xs) := fun key hkey =>
    hreferences _ (List.mem_append_right _ (List.mem_map_of_mem hkey))
  have halone := Relation.Sibling.eachAlone_together hvalid hmany db
  obtain ⟨loaded, hloaded, hrest⟩ := Stage.runAll_append_eq_ok.mp hfirst
  have hstarts : List.Forall₂ (LoadedUpTo db (together xs).stages (foldedFields q.ordering).keys
      (written xs)) docs loaded := by
    refine ((List.forall₂_and_left _ _).mpr ⟨hdocs, (halone _ _).mp hloaded⟩).imp ?_
    rintro d d' ⟨hd, hrun⟩
    obtain ⟨hd', hagree⟩ := Relation.Sibling.agreeOutside_together hvalid hmany hd hrun
    exact ⟨hd, hd', hagree, d, d', hd, hrun, .refl _ _, .refl _ _⟩
  have hcarries : Stage.Carries db
      (LoadedUpTo db (together xs).stages (foldedFields q.ordering).keys (written xs))
      (conditions.toList ++ q.windowStages) := by
    refine carries_stages hconditions (fun d d' h => h.agree) hreferences
      (fun field hfield hmem => hwritten field hmem hfield) fun _ => ⟨?_, ?_⟩
    · exact LoadedUpTo.carries_addFields hfields
        fun d d' hagree => eval_foldedFields_congr hagree hordering
    · exact LoadedUpTo.carries_exclude (fun heq => hne (List.map_eq_nil_iff.mp heq)) hfields
  obtain ⟨mid, hmid, hall⟩ := hcarries docs loaded b hstarts hrest
  obtain ⟨a, hlast, hsame⟩ := exists_forall₂_between
    (hall.imp fun d d' h => h.exists_perm hvalid hmany hsaved hstart hwritten)
  exact ⟨a, Stage.runAll_append_eq_ok.mpr ⟨mid, hmid, (halone _ _).mpr hlast⟩, hsame⟩

end Siblings

/-- What is referred to stays outside of the fields of several relations if it stays outside of
those of each, and there is one. -/
theorem outside_written {xs : List Relation.Sibling} (hne : xs ≠ []) {reference : Reference}
    (h : ∀ x ∈ xs, reference.Outside x.relation.written) :
    reference.Outside (Relation.Sibling.written xs) := by
  cases reference with
  | nothing => trivial
  | field name =>
    intro hmem
    obtain ⟨x, hx, hmem⟩ := List.mem_flatMap.mp hmem
    exact h x hx hmem
  | document =>
    obtain ⟨x, hx⟩ := List.exists_mem_of_ne_nil xs hne
    exact h x hx

/-- **Loading first or last.** If a query loads relations of kinds with many related documents and
refers to nothing that they write, then wherever it can load them first, filter, sort and cut out a
stretch, it can also do so before it loads them, and finds the same documents in the same order. If
it sorts without regard to case, the relations must not get in the way of the temporary fields. -/
theorem loads_first_or_last {loads : Relation.Loaded} {conditions : Option Stage}
    (hloads : q.loaded schema = .ok loads)
    (hconditions : conditionStage? q.conditions = .ok conditions)
    (hmany : ∀ r, q.Loads schema r → r.kind.isSingle = false)
    (hreferences : ∀ r, q.Loads schema r → ∀ reference ∈ q.references, reference.Outside r.written)
    (hfolded : ∀ r, q.Loads schema r → ∀ field ∈ (foldedFields q.ordering).keys,
      r.aliasName ≠ field ∧ r.start ≠ field ∧
        (r.options.select ≠ none → r.aliasName ≠ Relation.savedField))
    {docs b : List Document} (hdocs : ∀ d ∈ docs, d.Unique)
    (hfirst :
      Stage.runAll db (loads.stages ++ (conditions.toList ++ q.windowStages)) docs = .ok b) :
    ∃ a, Stage.runAll db (conditions.toList ++ q.windowStages ++ loads.stages) docs = .ok a ∧
      List.Forall₂ List.Perm a b ∧ (foldedFields q.ordering = [] → a = b) := by
  obtain ⟨xs, hxs, rfl⟩ := Relation.Sibling.exists_together_of_loadAll hloads
  have hrequested : ∀ x ∈ xs, x.relation.validate = .ok () ∧ q.Loads schema x.relation := by
    intro x hx
    obtain ⟨load, hload, hrequested⟩ := exists_of_mem_forall₂ hxs hx
    exact ⟨hrequested.valid, load, hload, hrequested.relation⟩
  have hvalid : ∀ x ∈ xs, x.relation.validate = .ok () := fun x hx => (hrequested x hx).1
  have hmany : ∀ x ∈ xs, x.relation.kind.isSingle = false :=
    fun x hx => hmany _ (hrequested x hx).2
  have hsame : List.Forall₂ List.Perm b b := List.forall₂_same.mpr fun d _ => .refl d
  by_cases hnone : xs = []
  · subst hnone
    exact ⟨b, by simpa [Relation.Sibling.together] using hfirst, hsame, fun _ => rfl⟩
  have hreferences : ∀ reference ∈ q.references,
      reference.Outside (Relation.Sibling.written xs) := fun reference hreference =>
    outside_written hnone fun x hx => hreferences _ (hrequested x hx).2 reference hreference
  by_cases hnil : foldedFields q.ordering = []
  · exact ⟨b, run_loads_last hvalid hmany hconditions hreferences hdocs hfirst hnil, hsame,
      fun _ => rfl⟩
  · have hfolded := fun x hx => hfolded _ (hrequested x hx).2
    obtain ⟨field, hfield⟩ : ∃ field, field ∈ (foldedFields q.ordering).keys :=
      List.exists_mem_of_ne_nil _ fun heq => hnil (List.map_eq_nil_iff.mp heq)
    obtain ⟨a, hlast, hperm⟩ :=
      exists_run_loads_last hvalid hmany hconditions hreferences hdocs hfirst
      hnil (fun x hx => (hfolded x hx field hfield).2.2)
      (fun x hx hmem => (hfolded x hx _ hmem).2.1 rfl) fun key hkey hmem => by
        obtain ⟨x, hx, hkey⟩ := List.mem_flatMap.mp hkey
        obtain ⟨-, position, -, -, rfl⟩ := mem_keys_foldedFields.mp hmem
        exact foldedField_not_mem_written (hfolded x hx _ hmem).1 hkey
    exact ⟨a, hlast, hperm, fun heq => absurd heq hnil⟩

end Query

/-! ## Users with their posts -/

namespace OrderSample

open AuthorSample (userModel posts user post store loads)

/-- Users with one relation. -/
def only (r : Relation) : Schema := ⟨fun model => if model = "User" then [("posts", r)] else []⟩

section Only

variable {r : Relation} (h : r.validate = .ok ())

include h

theorem requested_only : Relation.requested (only r) userModel "posts" none = .ok r := by
  show (Except.mapError Error.query r.validate >>= fun _ => Except.ok r) >>= _ = _
  rw [h]
  rfl

variable {q : Query} (hmodel : q.model = userModel) (heager : q.eager = loads)

include hmodel heager

theorem loaded_only : q.loaded (only r) = .ok ⟨r.loadWith {}, [r.aliasWith {}]⟩ := by
  rw [Query.loaded, heager, hmodel, loads, Relation.loadAll, requested_only h, ok_bind]
  simp [h]

theorem eq_of_loads {r' : Relation} (hr' : q.Loads (only r) r') : r' = r := by
  obtain ⟨load, hload, hrequested⟩ := hr'
  rw [heager] at hload
  obtain rfl := List.mem_singleton.mp hload
  rw [hmodel, requested_only h] at hrequested
  exact (Except.ok.inj hrequested).symm

end Only

/-- Users with their posts, sorted by a column without regard to case. -/
def sortedBy (column : String) : Query where
  model := userModel
  ordering := [⟨column, .ascending, true⟩]
  eager := loads

theorem run_sortedBy {db : Collections} {column : String} (docs : List Document)
    {sorted : List Document}
    (h : Stage.run db (.addFields
      [("__order_0", .single "$toLower" (.string ("$" ++ column)))]) docs = .ok sorted) :
    Stage.runAll db (sortedBy column).windowStages docs =
      .ok ((Stage.sorted [("__order_0", false)] sorted).map
        fun d => Update.removeAll d ["__order_0"]) := by
  have hstages : (sortedBy column).windowStages =
      [.addFields [("__order_0", .single "$toLower" (.string ("$" ++ column)))],
        .sortBy [("__order_0", 1)], .exclude ["__order_0"]] := rfl
  rw [hstages]
  refine Stage.runAll_cons_eq_ok.mpr ⟨sorted, h, Stage.runAll_cons_eq_ok.mpr ⟨_, rfl, ?_⟩⟩
  rw [Stage.runAll_singleton,
    Stage.run_exclude (List.cons_ne_nil _ _) (List.pairwise_singleton _ _)]

/-- A single document keeps its place. -/
theorem run_sortedBy_one {db : Collections} {column : String} {d : Document} (d' : Document)
    (h : Stage.run db (.addFields
      [("__order_0", .single "$toLower" (.string ("$" ++ column)))]) [d] = .ok [d']) :
    Stage.runAll db (sortedBy column).windowStages [d] =
      .ok [Update.removeAll d' ["__order_0"]] := by
  rw [run_sortedBy [d] h, Stage.sorted, List.mergeSort_singleton, List.map_singleton]

/-! ### The user is found either way -/

/-- The users of a name with their posts, in order. -/
def named (name : String) : Query :=
  { sortedBy "name" with conditions := [⟨.and, "name", .compare .equal (.string name)⟩] }

/-- A user with the post. -/
def withPost (d : Document) : Document := d ++ [("posts", .array [.object post])]

/-- The user is found with the post in either order. -/
theorem user_found_either_way :
    ∃ loads conditions a, (named "Ann").loaded (only posts) = .ok loads ∧
      Query.conditionStage? (named "Ann").conditions = .ok conditions ∧
      Stage.runAll store.documents
        (loads.stages ++ (conditions.toList ++ (named "Ann").windowStages)) [user] =
          .ok [withPost user] ∧
      Stage.runAll store.documents
        (conditions.toList ++ (named "Ann").windowStages ++ loads.stages) [user] = .ok a ∧
      List.Forall₂ List.Perm a [withPost user] := by
  have hload : posts.validate = .ok () := rfl
  have hloads : (named "Ann").loaded (only posts) = _ := loaded_only hload rfl rfl
  obtain ⟨conditions, hconditions, hkept⟩ : ∃ conditions,
      Query.conditionStage? (named "Ann").conditions = .ok conditions ∧
      Stage.runAll store.documents conditions.toList [withPost user] = .ok [withPost user] :=
    ⟨_, rfl, rfl⟩
  have hloaded : Stage.runAll store.documents (posts.loadWith {}) [user] = .ok [withPost user] :=
    rfl
  have hwindow : Stage.runAll store.documents (named "Ann").windowStages [withPost user] =
      .ok [withPost user] :=
    (run_sortedBy_one (withPost user ++ [("__order_0", .string "ann")]) rfl).trans rfl
  have hfirst := (Stage.runAll_append_ok hloaded _).trans
    ((Stage.runAll_append_ok hkept _).trans hwindow)
  have hresult := Query.loads_first_or_last hloads hconditions
    (fun r hr => by rw [eq_of_loads hload rfl rfl hr]; rfl)
    (fun r hr => by rw [eq_of_loads hload rfl rfl hr]; decide)
    (fun r hr => by rw [eq_of_loads hload rfl rfl hr]; decide) (by decide) hfirst
  obtain ⟨a, hlast, hsame, -⟩ := hresult
  exact ⟨_, _, a, hloads, hconditions, hfirst, hlast, hsame⟩

end OrderSample

/-! ## Where the order matters -/

namespace Query

/-- The columns that the conditions of the caller and the sort of a query are about. -/
def columns (q : Query) : List String := q.conditions.map (·.column) ++ q.ordering.map (·.column)

/-- A query loads relations of kinds with many related documents, and none of its columns starts
with an alias of theirs or with a temporary field. -/
structure ColumnsApart (schema : Schema) (q : Query) : Prop where
  many : ∀ r, q.Loads schema r → r.kind.isSingle = false
  notLoaded : ∀ r, q.Loads schema r → ∀ column ∈ q.columns, Path.head column ∉
    [r.aliasName, r.temporary "pivot", r.temporary "through", Relation.savedField]
  notFolded : ∀ column ∈ q.columns, ∀ position, Path.head column ≠ foldedField position

/-- The columns of a query are apart from what it loads; loading first and loading last both succeed
on some documents, and yet they do not find the same. -/
structure OrderMatters (schema : Schema) (db : Collections) (q : Query) (docs : List Document) :
    Prop where
  apart : q.ColumnsApart schema
  unique : ∀ d ∈ docs, d.Unique
  differs : ∃ loads conditions a b, q.loaded schema = .ok loads ∧
    conditionStage? q.conditions = .ok conditions ∧
    Stage.runAll db (loads.stages ++ (conditions.toList ++ q.windowStages)) docs = .ok b ∧
    Stage.runAll db (conditions.toList ++ q.windowStages ++ loads.stages) docs = .ok a ∧
    ¬ List.Forall₂ List.Perm a b

end Query

namespace OrderSample

open AuthorSample (userModel posts user post store loads)

section Only

variable {r : Relation} (h : r.validate = .ok ()) {q : Query} (hmodel : q.model = userModel)
  (heager : q.eager = loads)

include h hmodel heager

theorem columnsApart_only (hmany : r.kind.isSingle = false)
    (hcolumns : ∀ column ∈ q.columns, Path.head column ∉
        [r.aliasName, r.temporary "pivot", r.temporary "through", Relation.savedField] ∧
      (Path.head column).toList.head? ≠ some '_') :
    q.ColumnsApart (only r) where
  many r' hr' := by rw [eq_of_loads h hmodel heager hr', hmany]
  notLoaded r' hr' column hcolumn := by
    rw [eq_of_loads h hmodel heager hr']
    exact (hcolumns column hcolumn).1
  notFolded column hcolumn position heq := by
    refine (hcolumns column hcolumn).2 ?_
    rw [heq, Query.toList_foldedField]
    rfl

theorem orderMatters_only (hmany : r.kind.isSingle = false)
    (hcolumns : ∀ column ∈ q.columns, Path.head column ∉
        [r.aliasName, r.temporary "pivot", r.temporary "through", Relation.savedField] ∧
      (Path.head column).toList.head? ≠ some '_')
    {db : Collections} {docs loaded found a b : List Document} {conditions : Option Stage}
    (hdocs : ∀ d ∈ docs, d.Unique)
    (hconditions : Query.conditionStage? q.conditions = .ok conditions)
    (hloaded : Stage.runAll db (r.loadWith {}) docs = .ok loaded)
    (hb : Stage.runAll db (conditions.toList ++ q.windowStages) loaded = .ok b)
    (hfound : Stage.runAll db (conditions.toList ++ q.windowStages) docs = .ok found)
    (ha : Stage.runAll db (r.loadWith {}) found = .ok a) (hne : ¬ List.Forall₂ List.Perm a b) :
    q.OrderMatters (only r) db docs where
  apart := columnsApart_only h hmodel heager hmany hcolumns
  unique := hdocs
  differs := ⟨_, conditions, a, b, loaded_only h hmodel heager, hconditions,
    (Stage.runAll_append_ok hloaded _).trans hb, (Stage.runAll_append_ok hfound _).trans ha, hne⟩

end Only

/-- There are no posts. -/
def noPosts : Collections := fun _ => []

/-- An expression for the posts being the empty list. -/
def noneLoaded : Json := .array [.string "$posts", .array []]

/-- The users for whom the expression holds. -/
def withoutPosts : Query where
  model := userModel
  conditions := [⟨.and, "$expr", .compare .equal noneLoaded⟩]
  eager := loads

/-- An expression reads what is loaded. -/
theorem withoutPosts_orderMatters : withoutPosts.OrderMatters (only posts) noPosts [user] := by
  have hconditions : Query.conditionStage? withoutPosts.conditions =
      .ok (some (.filter (.single "$and" (.array [.single "$expr" (.single "$eq" noneLoaded)])))) :=
    rfl
  have hloaded : Stage.runAll noPosts (posts.loadWith {}) [user] =
      .ok [user ++ [("posts", .array [])]] := rfl
  have hlast : Stage.runAll noPosts (posts.loadWith {}) [] = .ok [] := rfl
  have hdiffers : ¬ List.Forall₂ List.Perm [] [user ++ [("posts", .array [])]] := nofun
  exact orderMatters_only rfl rfl rfl rfl (by decide) (by decide) hconditions hloaded rfl rfl hlast
    hdiffers

theorem sorted_pair (keys : List (String × Bool)) (d e : Document) :
    Stage.sorted keys [d, e] =
      if Stage.compareBy keys d e != .gt then [d, e] else [e, d] := by
  simp [Stage.sorted, List.mergeSort, List.merge]

/-- The user, and another one, with texts in place of their posts. -/
def ann : Document := user ++ [("posts", .string "b")]

def bob : Document := [("_id", .string "bob"), ("posts", .string "a")]

/-- A column that starts with a variable reads what is loaded. -/
theorem sortedByVariable_orderMatters :
    (sortedBy "$ROOT.posts").OrderMatters (only posts) noPosts [ann, bob] := by
  have hfound : Stage.runAll noPosts (sortedBy "$ROOT.posts").windowStages [ann, bob] =
      .ok [bob, ann] := by
    have hadded : Stage.run noPosts (.addFields
        [("__order_0", .single "$toLower" (.string ("$" ++ "$ROOT.posts")))]) [ann, bob] =
          .ok [ann ++ [("__order_0", .string "b")], bob ++ [("__order_0", .string "a")]] := rfl
    rw [run_sortedBy _ hadded, sorted_pair]
    rfl
  have hb : Stage.runAll noPosts (sortedBy "$ROOT.posts").windowStages
      [ann.insert "posts" (.array []), bob.insert "posts" (.array [])] =
        .ok [ann.insert "posts" (.array []), bob.insert "posts" (.array [])] := by
    have hadded : Stage.run noPosts (.addFields
        [("__order_0", .single "$toLower" (.string ("$" ++ "$ROOT.posts")))])
          [ann.insert "posts" (.array []), bob.insert "posts" (.array [])] =
            .ok [ann.insert "posts" (.array []) ++ [("__order_0", .string "[]")],
              bob.insert "posts" (.array []) ++ [("__order_0", .string "[]")]] := rfl
    rw [run_sortedBy _ hadded, sorted_pair]
    rfl
  refine orderMatters_only rfl rfl rfl rfl (by decide) (by decide) rfl rfl hb hfound rfl fun h => ?_
  exact absurd (List.forall₂_cons.mp h).1.length_eq (by decide)

/-- The posts of a user, put under a temporary field of a sort. -/
def postsUnderOrder : Relation := { posts with alias? := some "__order_0" }

/-- What is loaded under a temporary field is dropped with it. -/
theorem postsUnderOrder_orderMatters :
    (sortedBy "name").OrderMatters (only postsUnderOrder) noPosts [user] := by
  have hfound : Stage.runAll noPosts (sortedBy "name").windowStages [user] = .ok [user] :=
    (run_sortedBy_one (user ++ [("__order_0", .string "ann")]) rfl).trans rfl
  have hb : Stage.runAll noPosts (sortedBy "name").windowStages
      [user ++ [("__order_0", .array [])]] = .ok [user] :=
    (run_sortedBy_one (user ++ [("__order_0", .string "ann")]) rfl).trans rfl
  refine orderMatters_only rfl rfl rfl rfl (by decide) (by decide) rfl rfl hb hfound rfl fun h => ?_
  exact absurd (List.forall₂_cons.mp h).1.length_eq (by decide)

/-- The posts that name what a user holds under a temporary field of a sort. -/
def postsByOrder : Relation := { posts with keys := .owning "userId" "__order_0" }

/-- The user, with its identifier under a temporary field of a sort. -/
def ranked : Document := user ++ [("__order_0", .string "ann")]

/-- A key that is a temporary field is dropped before a relation that comes last reads it. -/
theorem postsByOrder_orderMatters :
    (sortedBy "name").OrderMatters (only postsByOrder) store.documents [ranked] := by
  have hfound : Stage.runAll store.documents (sortedBy "name").windowStages [ranked] = .ok [user] :=
    (run_sortedBy_one ranked rfl).trans rfl
  have hb : Stage.runAll store.documents (sortedBy "name").windowStages [withPost ranked] =
      .ok [withPost user] :=
    (run_sortedBy_one (withPost ranked) rfl).trans rfl
  have hlast : Stage.runAll store.documents (postsByOrder.loadWith {}) [user] =
      .ok [user ++ [("posts", .array [])]] := rfl
  refine orderMatters_only rfl rfl rfl rfl (by decide) (by decide) rfl rfl hb hfound hlast
    fun h => ?_
  have hmem := (List.forall₂_cons.mp h).1.subset
    (List.mem_append_right user (List.mem_singleton_self _))
  simp [withPost, user] at hmem

/-- The posts of a user, of which nothing is selected, put where a selection saves the user. -/
def postsUnderSaved : Relation :=
  { posts with alias? := some "_document", options := { select := some [] } }

/-- A document with a copy of itself, as a selection leaves it. -/
def withSaved (d : Document) : Document :=
  d ++ [("_document", .object (d ++ [("_document", .array [])]))]

theorem run_postsUnderSaved {d : Document} (hd : d.Unique) (hnone : "_document" ∉ d.keys) :
    Stage.runAll noPosts (postsUnderSaved.loadWith {}) [d] = .ok [withSaved d] := by
  have hjoin : Stage.runAll noPosts
      (postsUnderSaved.joinStages (postsUnderSaved.relatedPipeline [])) [d] =
        .ok [d.insert "_document" (.array [])] := rfl
  have hsaved := Relation.get?_savedField_onlySaved (d.insert "_document" (.array []))
  have halias : postsUnderSaved.aliasName = Relation.savedField := rfl
  have hfield : IsField Relation.savedField := by decide
  have hplain : startsDollar Relation.savedField = false := by decide
  have hrestored := Stage.replaced_restored hfield hplain (hd.insert _ _) hsaved
  rw [Relation.loadWith_of_many rfl, Stage.runAll_append_ok hjoin,
    Relation.runAll_selection_nil rfl, mapM_eq_ok_iff, List.forall₂_cons, and_iff_left .nil, halias,
    hrestored, hsaved]
  show Except.ok ((d.insert "_document" _).insert "_document" _) = _
  rw [Document.insert_insert, Document.insert_of_not_mem hnone, Document.insert_of_not_mem hnone]
  rfl

/-- A selection that is put where it saves the user saves the temporary fields, too. -/
theorem postsUnderSaved_orderMatters :
    (sortedBy "name").OrderMatters (only postsUnderSaved) noPosts [ranked] := by
  have hfound : Stage.runAll noPosts (sortedBy "name").windowStages [ranked] = .ok [user] :=
    (run_sortedBy_one ranked rfl).trans rfl
  have hb : Stage.runAll noPosts (sortedBy "name").windowStages [withSaved ranked] =
      .ok [user ++ [("_document", .object (ranked ++ [("_document", .array [])]))]] :=
    (run_sortedBy_one (withSaved ranked) rfl).trans rfl
  refine orderMatters_only rfl rfl rfl rfl (by decide) (by decide) rfl
    (run_postsUnderSaved (by decide) (by decide)) hb hfound
    (run_postsUnderSaved (by decide) (by decide)) fun h => ?_
  have hmem := (List.forall₂_cons.mp h).1.subset
    (List.mem_append_right user (List.mem_singleton_self _))
  simp [user, ranked] at hmem

/-- That the columns of a query are apart from what it loads is not enough: the order matters if an
expression or the reference to a column reads what is loaded, if a relation is put under or starts
from a temporary field, and if a selection is put where it saves the owner. -/
theorem order_matters :
    withoutPosts.OrderMatters (only posts) noPosts [user] ∧
    (sortedBy "$ROOT.posts").OrderMatters (only posts) noPosts [ann, bob] ∧
    (sortedBy "name").OrderMatters (only postsUnderOrder) noPosts [user] ∧
    (sortedBy "name").OrderMatters (only postsByOrder) store.documents [ranked] ∧
    (sortedBy "name").OrderMatters (only postsUnderSaved) noPosts [ranked] :=
  ⟨withoutPosts_orderMatters, sortedByVariable_orderMatters, postsUnderOrder_orderMatters,
    postsByOrder_orderMatters, postsUnderSaved_orderMatters⟩

end OrderSample

end DocMapper
