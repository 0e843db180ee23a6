import DocMapper.Proofs.Projection
import DocMapper.Proofs.Query.Plan
import DocMapper.Proofs.Relation.Visibility
import DocMapper.Relation.Handle

/-! # What a selection shows

A query that selects fields ends with a projection of the fields and of the aliases of what was
loaded, all switched on. The executor takes that projection for

  * an inclusion, in general: it shows the identifier, the first keys of the fields, and the aliases
    (`Projection.keys_of_selected`);
  * an exclusion, if it names the identifier and nothing else, since the entry of the identifier
    does not count for what a projection is: then the identifier is the one field that is *not*
    shown (`Projection.ofSpec_onlyId`).

Both hold for a query and for a handle, whose selection becomes that of its query
(`Query.select_shows_named`). -/

namespace DocMapper

/-! ## Projections with all entries switched on -/

namespace Projection

theorem switch?_one : switch? (.int 1) = some true := by decide

/-- Paths that are switched on are put into the tree one after the other. -/
theorem treeOf_on {spec : Document} (h : ∀ e ∈ spec, e.2 = .int 1)
    (tree : List (String × Inclusion)) :
    treeOf tree spec = .ok (spec.keys.foldl
      (fun tree path => Inclusion.insert tree (Path.ofString path) .whole) tree) := by
  induction spec generalizing tree with
  | nil => rfl
  | cons e spec ih =>
    obtain ⟨key, v⟩ := e
    obtain rfl : v = .int 1 := h _ List.mem_cons_self
    rw [treeOf, switch?_one]
    exact ih (fun e he => h e (List.mem_cons_of_mem _ he)) _

/-- With all entries switched on, a projection leaves out only if it names only the identifier. -/
theorem isExclusion_on {spec : Document} (h : ∀ e ∈ spec, e.2 = .int 1) :
    isExclusion spec = true ↔ spec.keys ≠ [] ∧ ∀ key ∈ spec.keys, key = "_id" := by
  rw [isExclusion, Bool.and_eq_true, List.all_eq_true, Bool.not_eq_true', List.isEmpty_eq_false_iff,
    Document.keys, List.forall_mem_map, ne_eq, ne_eq, List.map_eq_nil_iff]
  refine and_congr_right fun _ => forall₂_congr fun e he => ?_
  show (e.1 == "_id" || switch? e.2 == some false) = true ↔ e.1 = "_id"
  rw [h e he, switch?_one]
  simp

variable {keys : List String} {d d' : Document} {p : Projection}

/-- A projection of names that are not all the identifier shows the identifier and the first keys
of the names. -/
theorem keys_of_selected (hnames : ¬ (keys ≠ [] ∧ ∀ key ∈ keys, key = "_id"))
    (hp : ofSpec (Stage.entries keys (.int 1)) = .ok p) (hd : p.apply d = .ok d') :
    ∀ key ∈ d'.keys, key ∈ "_id" :: keys.map Path.head := by
  have hon := fun e (he : e ∈ Stage.entries keys (.int 1)) => Stage.value_of_mem_entries he
  have hnot : isExclusion (Stage.entries keys (.int 1)) = false := by
    rw [Bool.eq_false_iff, ne_eq, isExclusion_on hon]
    rintro ⟨hne, hall⟩
    refine hnames ⟨?_, fun key hkey => ?_⟩
    · rintro rfl
      exact hne rfl
    · exact hall key (Stage.mem_keys_entries.mpr hkey)
  rw [ofSpec, hnot] at hp
  obtain ⟨tree, htree, rfl⟩ := map_eq_ok.mp hp
  rw [treeOf_on hon] at htree
  cases htree
  intro key hkey
  rcases Inclusion.mem_keys_foldl_insert (Inclusion.mem_keys_of_applyAll hd hkey) with
    hpath | hstart
  · obtain ⟨path, hpath, heq⟩ := List.mem_map.mp hpath
    exact List.mem_cons_of_mem _ (List.mem_map.mpr ⟨path, Stage.mem_keys_entries.mp hpath, heq⟩)
  · -- The tree starts with the identifier, or with nothing where that is among the names.
    split at hstart
    · cases hstart
    · exact List.mem_cons.mpr (.inl (List.mem_singleton.mp hstart))

/-- A projection that names the identifier and nothing else leaves it out. -/
theorem ofSpec_onlyId (hne : keys ≠ []) (hall : ∀ key ∈ keys, key = "_id") :
    ofSpec (Stage.entries keys (.int 1)) = .ok (.exclusion ["_id"]) := by
  rw [Stage.entries_of_all_eq hne hall]
  rfl

end Projection

/-! ## Entities -/

/-- The names under which an entity holds something. -/
def Entity.names (e : Entity) : List String := e.attributes.keys ++ e.relations.map (·.1)

theorem mem_names_insertNamed {α : Type} {name other : String} {value : α}
    {named : List (String × α)} (h : other ∈ (insertNamed name value named).map (·.1)) :
    other = name ∨ other ∈ named.map (·.1) := by
  induction named with
  | nil => exact .inl (List.mem_singleton.mp h)
  | cons first named ih =>
    obtain ⟨n, old⟩ := first
    rw [insertNamed] at h
    split at h
    · exact List.mem_cons.mp h
    · exact .inr h
    · rcases List.mem_cons.mp h with rfl | h
      · exact .inr List.mem_cons_self
      · exact (ih h).imp_right (List.mem_cons_of_mem _)

/-- Taking out what was loaded leaves attributes of the document, and puts the rest under
aliases. -/
theorem Entity.names_splitRelations {aliases : List EagerAlias} {d : Document}
    {relations : List (String × LoadedRelation)} {name : String}
    (h : name ∈ (splitRelations d relations aliases).1.keys ++
      (splitRelations d relations aliases).2.map (·.1)) :
    name ∈ d.keys ∨ name ∈ relations.map (·.1) ∨ name ∈ aliases.map (·.name) := by
  induction aliases generalizing d relations with
  | nil =>
    rcases List.mem_append.mp h with h | h
    · exact .inl h
    · exact .inr (.inl h)
  | cons a aliases ih =>
    rcases ih h with h | h | h
    · obtain ⟨e, he, rfl⟩ := List.mem_map.mp h
      exact .inl (List.mem_map.mpr ⟨e, Document.mem_of_mem_erase he, rfl⟩)
    · rcases mem_names_insertNamed h with rfl | h
      · exact .inr (.inr List.mem_cons_self)
      · exact .inr (.inl h)
    · exact .inr (.inr (List.mem_cons_of_mem _ h))

theorem Entity.names_ofDocument {m : Model} {d : Document} {aliases : List EagerAlias}
    {name : String} (h : name ∈ (ofDocument m d aliases).names) :
    name ∈ d.keys ∨ name ∈ aliases.map (·.name) := by
  rcases @names_splitRelations aliases d [] name h with h | h | h
  · exact .inl h
  · cases h
  · exact .inr h

/-! ## Selections -/

/-- What a selection may show: the identifier, the fields under their first keys, and what was
loaded, under the aliases. -/
def namesShown (fields : List String) (aliases : List EagerAlias) : List String :=
  "_id" :: (fields.map Path.head ++ aliases.map (·.name))

/-- Whether a selection and the aliases together name the identifier and nothing else. -/
def NamesOnlyId (fields : List String) (aliases : List EagerAlias) : Prop :=
  fields ++ aliases.map (·.name) ≠ [] ∧ ∀ name ∈ fields ++ aliases.map (·.name), name = "_id"

/-- What a read with a selection answers, compared with the same read that leaves out the identifier
instead. -/
structure ShowsSelected (fields : List String) (aliases : List EagerAlias)
    (answer withoutId : Except Error (List Entity)) : Prop where
  named : ¬ NamesOnlyId fields aliases → ∀ es, answer = .ok es →
    ∀ e ∈ es, ∀ name ∈ e.names, name ∈ namesShown fields aliases
  onlyId : NamesOnlyId fields aliases → answer = withoutId

namespace Query

/-- The same query, with all fields but the identifier. -/
def withoutId (q : Query) : Query := { q with select := none, exclude := ["_id"] }

variable {schema : Schema} {s : Store} {q : Query} {fields : List String} {loads : Relation.Loaded}

theorem showsSelected (hselect : q.select = some fields) (hloads : q.loaded schema = .ok loads) :
    ShowsSelected fields loads.aliases (q.get schema s) (q.withoutId.get schema s) where
  named hnames es hes e he name hname := by
    obtain ⟨loads', stages, docs, hloads', -, hdocs, rfl⟩ := get_eq_ok.mp hes
    obtain rfl : loads' = loads := Except.ok.inj (hloads'.symm.trans hloads)
    obtain ⟨d, hd, rfl⟩ := List.mem_map.mp he
    rw [projectionStage?, hselect] at hdocs
    obtain ⟨found, -, hdocs⟩ := Stage.runAll_append_eq_ok.mp hdocs
    rw [Option.toList_some, Stage.runAll_singleton, Stage.run] at hdocs
    obtain ⟨p, hp, hdocs⟩ := bind_eq_ok.mp hdocs
    obtain ⟨d₀, -, hd⟩ := exists_of_mem_mapM hdocs hd
    rcases Entity.names_ofDocument hname with hname | hname
    · rcases List.mem_cons.mp (Projection.keys_of_selected hnames hp hd name hname) with
        rfl | hname
      · exact List.mem_cons_self
      · rw [List.map_append, List.map_map, List.mem_append] at hname
        refine List.mem_cons_of_mem _ (List.mem_append.mpr (hname.imp_right fun hname => ?_))
        obtain ⟨a, ha, rfl⟩ := List.mem_map.mp hname
        rw [Function.comp_apply, Path.head_field (Relation.isField_of_loadAll hloads a ha)]
        exact List.mem_map.mpr ⟨a, ha, rfl⟩
    · exact List.mem_cons_of_mem _ (List.mem_append_right _ hname)
  onlyId hnames := by
    refine get_congr hloads fun docs => ?_
    have hspec := Projection.ofSpec_onlyId hnames.1 hnames.2
    have hexclude : Projection.ofSpec (Stage.entries ["_id"] (.int 0)) =
        .ok (.exclusion ["_id"]) := rfl
    rw [projectionStage?, hselect]
    show Stage.runAll s.documents [.project _] docs = Stage.runAll s.documents [.exclude ["_id"]] docs
    rw [Stage.runAll_singleton, Stage.runAll_singleton, Stage.exclude, Stage.run, Stage.run, hspec,
      hexclude]

end Query

namespace RelationHandle

/-- The fields that are selected through a handle: those of its options, or else of its query. -/
def selection? (h : RelationHandle) : Option (List String) :=
  h.relation.options.select <|> h.query.select

variable {schema : Schema} {s : Store} {h : RelationHandle} {q : Query}

/-- The query of a handle selects and loads what the handle is asked to. -/
theorem select_resolve (schema : Schema) (hq : h.resolve s = .ok q) :
    q.select = h.selection? ∧ q.loaded schema = h.query.loaded schema := by
  obtain ⟨terms, -, hq⟩ := bind_eq_ok.mp hq
  cases hq
  rw [baseQuery, withRelationOptions, selection?]
  cases h.relation.options.sort <;> cases h.relation.options.select <;> exact ⟨rfl, rfl⟩

theorem get_of_resolve (hq : h.resolve s = .ok q) : h.get schema s = q.get schema s := by
  rw [get, hq, ok_bind]

end RelationHandle

/-- A query that selects fields, or a handle, shows only the identifier, the fields, and what was
loaded, unless it names the identifier alone. If it does, it shows what it would show without a
selection, all but the identifier. -/
theorem Query.select_shows_named (schema : Schema) (s : Store) (fields : List String)
    (loads : Relation.Loaded) :
    (∀ q : Query, q.select = some fields → q.loaded schema = .ok loads →
      ShowsSelected fields loads.aliases (q.get schema s) (q.withoutId.get schema s)) ∧
    ∀ h : RelationHandle, h.selection? = some fields → h.query.loaded schema = .ok loads →
      ShowsSelected fields loads.aliases (h.get schema s)
        (h.resolve s >>= fun q => q.withoutId.get schema s) := by
  refine ⟨fun q hselect hloads => Query.showsSelected hselect hloads, fun h hselect hloads => ?_⟩
  cases hq : h.resolve s with
  | error fault =>
    rw [RelationHandle.get, hq, error_bind, error_bind]
    exact ⟨nofun, fun _ => rfl⟩
  | ok q =>
    obtain ⟨hselect', hloads'⟩ := RelationHandle.select_resolve schema hq
    rw [RelationHandle.get_of_resolve hq, ok_bind]
    exact Query.showsSelected (hselect'.trans hselect) (hloads'.trans hloads)

/-! ## Users, and the author of a post -/

namespace AuthorSample

/-- The users, each with selected fields. -/
def users (fields : List String) : Query := { model := userModel, select := some fields }

/-- The author of the post, with selected fields. -/
def authorOf (fields : List String) : RelationHandle :=
  ⟨author { select := some fields }, post, userModel.query⟩

theorem loaded_users (fields : List String) : (users fields).loaded schema = .ok {} :=
  Relation.loadAll_nil _ _ _

theorem loaded_authorOf (fields : List String) : (authorOf fields).query.loaded schema = .ok {} :=
  Relation.loadAll_nil _ _ _

/-- The document of the user as an entity with some of its entries. -/
def shownUser (entries : Document) : Entity := Entity.ofDocument userModel entries []

/-- What is read with a selection of the name, as users or as the author of a post, shows the name
and the identifier. -/
theorem select_name_shows_name :
    ∃ es, (users ["name"]).get schema store = .ok es ∧
      (authorOf ["name"]).get schema store = .ok es ∧ es ≠ [] ∧
        ∀ e ∈ es, ∀ name ∈ e.names, name ∈ ["_id", "name"] := by
  have hshows := Query.select_shows_named schema store ["name"] {}
  have husers : (users ["name"]).get schema store =
      .ok [shownUser [("_id", .string "ann"), ("name", .string "Ann")]] :=
    Query.get_eq_ok.mpr ⟨{}, _, _, loaded_users _, rfl, rfl, rfl⟩
  refine ⟨_, husers, ?_, List.cons_ne_nil _ _, ?_⟩
  · refine (RelationHandle.get_of_resolve rfl).trans ?_
    exact Query.get_eq_ok.mpr ⟨{}, _, _, loaded_authorOf ["name"], rfl, rfl, rfl⟩
  · exact (hshows.1 _ rfl (loaded_users _)).named (by simp [NamesOnlyId]) _ husers

/-- A selection of the identifier shows all but the identifier, the password too. -/
theorem select_id_shows_password :
    ∃ es, (users ["_id"]).get schema store = .ok es ∧
      (authorOf ["_id"]).get schema store = .ok es ∧
        ∃ e ∈ es, ∃ name ∈ e.names, name ∉ namesShown ["_id"] [] := by
  have husers : (users ["_id"]).get schema store =
      .ok [shownUser [("password", .string "secret"), ("name", .string "Ann")]] :=
    Query.get_eq_ok.mpr ⟨{}, _, _, loaded_users _, rfl, rfl, rfl⟩
  refine ⟨_, husers, ?_, _, List.mem_singleton_self _, "password", ?_, ?_⟩
  · refine (RelationHandle.get_of_resolve rfl).trans ?_
    exact Query.get_eq_ok.mpr ⟨{}, _, _, loaded_authorOf ["_id"], rfl, rfl, rfl⟩
  · decide
  · decide

end AuthorSample

end DocMapper
