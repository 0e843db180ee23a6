import DocMapper.Proofs.Relation.Lazy

/-! # Loading along and reading later

Related documents are found in two ways: by stages at the end of the owner's pipeline
(`Relation.load`), and by a query with the owner's key in it (`RelationHandle.get`). Both find the
documents that are tied to the owner's key (`Relation.tied`), are of the right type and are seen;
both sort and limit them and leave out the same fields. So they show the same documents in the same
order (`Relation.load_agrees_with_get`), if

  * the names that the relation is made of are plain (`Relation.PlainNames`), and
  * keys hold links, and markers and types scalars (`Relation.Regular`).

Most of this is proved for keys in any form (`Relation.Keyed`), of which the query asks for the
canonical one (`Relation.asked`); for links the two are the same (`Regular.asked_eq_tied`). -/

namespace DocMapper

namespace Relation

/-! ## Regular relations -/

/-- The fields that a relation reads: its keys, and the markers of the models. -/
def fieldNames (r : Relation) : List String :=
  (match r.keys with
    | .owning foreignKey localKey => [foreignKey, localKey]
    | .inverse foreignKey ownerKey => [foreignKey, ownerKey]
    | .pivot keys =>
      [keys.foreignPivotKey, keys.relatedPivotKey, keys.parentKey, keys.relatedKey] ++
        (keys.morphType.map (·.1)).toList ++ (keys.softDelete.map (·.marker)).toList
    | .through firstKey secondKey localKey secondLocalKey =>
      [firstKey, secondKey, localKey, secondLocalKey]
    | .morph typeField idField localKey => [typeField, idField, localKey]) ++
  (r.related.softDelete.map (·.marker)).toList ++
  ((r.through.bind (·.softDelete)).map (·.marker)).toList

/-- The names of types that documents must hold to be tied by a relation. -/
def typeNames (r : Relation) : List String :=
  match r.keys with
  | .pivot keys => (keys.morphType.map (·.2)).toList
  | .morph _ _ _ => [r.owner.typeName]
  | _ => []

/-- Fields are plain. The names of types, which are names of models, do not look like references. -/
structure PlainNames (r : Relation) : Prop where
  fields : ∀ name ∈ r.fieldNames, IsPlain name
  types : ∀ name ∈ r.typeNames, startsDollar name = false

/-- No name of the relation looks like an operator or a reference. -/
structure NoOperators (r : Relation) : Prop where
  fields : ∀ name ∈ r.fieldNames, startsDollar name = false
  types : ∀ name ∈ r.typeNames, startsDollar name = false

/-- The collection in between, with the field of its documents that refers to related ones. -/
def onward? (r : Relation) : Option (String × String) :=
  match r.keys, r.through with
  | .pivot keys, _ => some (keys.collection, keys.relatedPivotKey)
  | .through _ _ _ secondLocalKey, some m => some (m.collection, secondLocalKey)
  | _, _ => none

/-- The field of a related document that holds the owner's type. -/
def typeField? (r : Relation) : Option String :=
  match r.keys with
  | .morph typeField _ _ => some typeField
  | _ => none

/-- What documents hold at the fields that a relation reads, if they hold anything: links where they
refer to related documents, and scalars where they say what they are. -/
structure Regular (r : Relation) (s : Store) : Prop where
  links : ∀ source field, r.onward? = some (source, field) →
    ∀ d ∈ s.documents source, d.LinksAt field
  types : ∀ field, r.typeField? = some field →
    ∀ d ∈ s.documents r.related.collection, d.ScalarAt field
  markers : ∀ marks, r.related.softDelete = some marks →
    ∀ d ∈ s.documents r.related.collection, d.ScalarAt marks.marker
  throughMarkers : ∀ m marks, r.through = some m → m.softDelete = some marks →
    ∀ d ∈ s.documents m.collection, d.ScalarAt marks.marker

/-- What documents hold at the fields that a relation reads, if links may be in any form. -/
structure Keyed (r : Relation) (s : Store) : Prop where
  keys : ∀ source field, r.onward? = some (source, field) →
    ∀ d ∈ s.documents source, d.KeysAt field
  types : ∀ field, r.typeField? = some field →
    ∀ d ∈ s.documents r.related.collection, d.ScalarAt field
  markers : ∀ marks, r.related.softDelete = some marks →
    ∀ d ∈ s.documents r.related.collection, d.ScalarAt marks.marker
  throughMarkers : ∀ m marks, r.through = some m → m.softDelete = some marks →
    ∀ d ∈ s.documents m.collection, d.ScalarAt marks.marker

variable {r : Relation} {s : Store} {owner : Document} {v : Json}

theorem Regular.keyed (h : r.Regular s) : r.Keyed s :=
  ⟨fun source field hon d hd v hv => (h.links source field hon d hd v hv).isKey, h.types,
    h.markers, h.throughMarkers⟩

/-! ## What is tied to a key -/

/-- Whether a related document is tied to a key of an owner. -/
def tied (r : Relation) (db : Collections) (v : Json) : Document → Bool :=
  match r.keys, r.through with
  | .owning foreignKey _, _ => fun e => Filter.equals e foreignKey v
  | .inverse _ ownerKey, _ => fun e => Filter.equals e ownerKey v
  | .morph _ idField _, _ => fun e => Filter.equals e idField v
  | .pivot keys, _ => fun e =>
    ((between db keys.collection keys.foreignPivotKey v (pivotConditions keys)).filterMap
      (·.get? keys.relatedPivotKey)).any (Filter.equals e keys.relatedKey)
  | .through firstKey secondKey _ secondLocalKey, some m => fun e =>
    ((between db m.collection firstKey v (m.policy .hidden).condition?.toList).filterMap
      (·.get? secondLocalKey)).any (Filter.equals e secondKey)
  | .through _ _ _ _, none => fun _ => false

/-- Whether a related document is tied to a key of an owner, if keys are put in canonical form
before they are followed. -/
def asked (r : Relation) (db : Collections) (v : Json) : Document → Bool :=
  match r.keys, r.through with
  | .owning foreignKey _, _ => fun e => Filter.equals e foreignKey v.canonicalize
  | .inverse _ ownerKey, _ => fun e => Filter.equals e ownerKey v.canonicalize
  | .morph _ idField _, _ => fun e => Filter.equals e idField v.canonicalize
  | .pivot keys, _ => fun e =>
    ((between db keys.collection keys.foreignPivotKey v.canonicalize
        (pivotConditions keys)).filterMap
      (·.get? keys.relatedPivotKey)).any fun w => Filter.equals e keys.relatedKey w.canonicalize
  | .through firstKey secondKey _ secondLocalKey, some m => fun e =>
    ((between db m.collection firstKey v.canonicalize
        (m.policy .hidden).condition?.toList).filterMap
      (·.get? secondLocalKey)).any fun w => Filter.equals e secondKey w.canonicalize
  | .through _ _ _ _, none => fun _ => false

/-- Whether a related document is of the type that the relation asks for, if it asks for one. -/
def ofType (r : Relation) (e : Document) : Bool :=
  r.typeField?.all fun field => Filter.equals e field (.string r.owner.typeName)

theorem marker_mem_fieldNames {mode : TrashedMode} {f : String}
    (hf : (r.related.policy mode).field = some f) : f ∈ r.fieldNames := by
  have hmem : f ∈ (r.related.softDelete.map (·.marker)).toList := Option.mem_toList.mpr hf
  rw [fieldNames]
  exact List.mem_append_left _ (List.mem_append_right _ hmem)

theorem throughMarker_mem_fieldNames {m : Model} (hm : r.through = some m) {mode : TrashedMode}
    {f : String} (hf : (m.policy mode).field = some f) : f ∈ r.fieldNames := by
  have hmem : f ∈ ((r.through.bind (·.softDelete)).map (·.marker)).toList := by
    rw [hm]
    exact Option.mem_toList.mpr hf
  rw [fieldNames]
  exact List.mem_append_right _ hmem

theorem isPlain_marker (h : r.PlainNames) (mode : TrashedMode) :
    ∀ f, (r.related.policy mode).field = some f → IsPlain f :=
  fun f hf => h.fields f (marker_mem_fieldNames hf)

theorem isPlain_throughMarker (h : r.PlainNames) {m : Model} (hm : r.through = some m)
    (mode : TrashedMode) : ∀ f, (m.policy mode).field = some f → IsPlain f :=
  fun f hf => h.fields f (throughMarker_mem_fieldNames hm hf)

theorem PlainNames.noOperators (h : r.PlainNames) : r.NoOperators :=
  ⟨fun name hname => (h.fields name hname).noDollar, h.types⟩

theorem PlainNames.of_morph (h : r.PlainNames) {typeField idField localKey : String}
    (hkeys : r.keys = .morph typeField idField localKey) :
    IsPlain typeField ∧ startsDollar r.owner.typeName = false :=
  ⟨h.fields typeField (by simp [fieldNames, hkeys]), h.types _ (by simp [typeNames, hkeys])⟩

theorem Keyed.keys_pivot (h : r.Keyed s) {keys : PivotKeys} (hkeys : r.keys = .pivot keys)
    (v : Json) (conditions : List Json) :
    ∀ row ∈ between s.documents keys.collection keys.foreignPivotKey v conditions,
      row.KeysAt keys.relatedPivotKey := fun row hrow =>
  h.keys keys.collection keys.relatedPivotKey (by rw [onward?, hkeys]) row
    (mem_of_mem_between hrow)

theorem Keyed.keys_through (h : r.Keyed s) {m : Model} (hm : r.through = some m)
    {firstKey secondKey localKey secondLocalKey : String}
    (hkeys : r.keys = .through firstKey secondKey localKey secondLocalKey) (v : Json)
    (conditions : List Json) :
    ∀ d ∈ between s.documents m.collection firstKey v conditions, d.KeysAt secondLocalKey :=
  fun d hd => h.keys m.collection secondLocalKey (by rw [onward?, hkeys, hm]) d
    (mem_of_mem_between hd)

theorem scalarAt_policy {m : Model} {mode : TrashedMode} {d : Document}
    (h : ∀ marks, m.softDelete = some marks → d.ScalarAt marks.marker) :
    ∀ f, (m.policy mode).field = some f → d.ScalarAt f := by
  intro f hf
  obtain ⟨marks, hmarks, rfl⟩ := Option.map_eq_some_iff.mp hf
  exact h marks hmarks

/-! ## Conditions -/

/-- The condition on the type of a related document can be evaluated. -/
theorem NoOperators.exists_eval_type (h : r.NoOperators) (d : Document) :
    ∀ e ∈ r.typeCondition?.toList, ∃ found, Expression.eval d e = .ok found := by
  intro e he
  rw [typeCondition?] at he
  cases hkeys : r.keys with
  | morph typeField idField localKey =>
    rw [hkeys] at he
    have hfield := h.fields typeField (by simp [fieldNames, hkeys])
    have htype := h.types r.owner.typeName (by simp [typeNames, hkeys])
    obtain rfl := List.mem_singleton.mp he
    exact ⟨_, Expression.eval_fieldEquals hfield (Expression.eval_string htype d)⟩
  | _ =>
    rw [hkeys] at he
    cases he

/-- The conditions on rows of a pivot collection can be evaluated. -/
theorem exists_eval_pivotConditions {keys : PivotKeys}
    (htype : ∀ field name, keys.morphType = some (field, name) →
      startsDollar field = false ∧ startsDollar name = false)
    (hmarker : ∀ marks, keys.softDelete = some marks → startsDollar marks.marker = false)
    (d : Document) : ∀ e ∈ pivotConditions keys, ∃ found, Expression.eval d e = .ok found := by
  intro e he
  rcases List.mem_append.mp he with he | he
  · obtain ⟨⟨field, name⟩, hmorph, rfl⟩ := Option.map_eq_some_iff.mp (Option.mem_toList.mp he)
    obtain ⟨hfield, hname⟩ := htype field name hmorph
    exact ⟨_, Expression.eval_fieldEquals hfield (Expression.eval_string hname d)⟩
  · obtain ⟨marks, hmarks, rfl⟩ := Option.map_eq_some_iff.mp (Option.mem_toList.mp he)
    exact ⟨_, Expression.eval_fieldEquals (hmarker marks hmarks) rfl⟩

theorem NoOperators.exists_eval_pivot (h : r.NoOperators) {keys : PivotKeys}
    (hkeys : r.keys = .pivot keys) (d : Document) :
    ∀ e ∈ pivotConditions keys, ∃ found, Expression.eval d e = .ok found := by
  refine exists_eval_pivotConditions (fun field name hmorph => ⟨?_, ?_⟩) (fun marks hmarks => ?_) d
  · exact h.fields field (by simp [fieldNames, hkeys, hmorph])
  · exact h.types name (by simp [typeNames, hkeys, hmorph])
  · exact h.fields marks.marker (by simp [fieldNames, hkeys, hmarks])

/-- The conditions of the related side can be evaluated. -/
theorem NoOperators.exists_eval_related (h : r.NoOperators) (d : Document) :
    ∀ e ∈ r.typeCondition?.toList ++ (r.related.policy r.trashed).condition?.toList,
      ∃ found, Expression.eval d e = .ok found := by
  intro e he
  rcases List.mem_append.mp he with he | he
  · exact h.exists_eval_type d e he
  · exact TrashedPolicy.exists_eval_condition
      (fun f hf => h.fields f (marker_mem_fieldNames hf)) d e he

theorem canEval_pivotConditions (h : r.PlainNames) {keys : PivotKeys} (hkeys : r.keys = .pivot keys)
    (d : Document) : ∀ e ∈ pivotConditions keys, ∃ found, Expression.eval d e = .ok found :=
  h.noOperators.exists_eval_pivot hkeys d

/-- The conditions of the related side keep what is of the right type and is seen. -/
theorem keeps_eq_of_keyed (hnames : r.PlainNames) (hkeyed : r.Keyed s) {d : Document}
    (hd : d ∈ s.documents r.related.collection) :
    r.keeps d = (r.ofType d && (r.related.policy r.trashed).sees d) := by
  have htype : r.typeCondition?.toList.all (Expression.holdsOn d) = r.ofType d := by
    rw [typeCondition?, ofType, typeField?]
    cases hkeys : r.keys with
    | morph typeField idField localKey =>
      obtain ⟨hfield, hname⟩ := hnames.of_morph hkeys
      have hscalar : d.ScalarAt typeField :=
        hkeyed.types typeField (by rw [typeField?, hkeys]) d hd
      have hequals : Filter.equals d typeField (.string r.owner.typeName) =
          Expression.holdsOn d (fieldEquals typeField (.string r.owner.typeName)) :=
        Filter.equals_eq_holdsOn hfield hscalar Json.noConfusion (Expression.eval_string hname d)
      show (Expression.holdsOn d (fieldEquals typeField (.string r.owner.typeName)) && true) =
        Filter.equals d typeField (.string r.owner.typeName)
      rw [hequals, Bool.and_true]
    | _ => rfl
  rw [keeps, List.all_append, htype, TrashedPolicy.all_condition (isPlain_marker hnames r.trashed)]
  exact scalarAt_policy fun marks hmarks => hkeyed.markers marks hmarks d hd

/-- Conditions that say the type of a document and how it is tied let the same documents through,
of what is seen, as the conditions of the related side, of what is tied. -/
theorem filter_keeps_eq (hnames : r.PlainNames) (hkeyed : r.Keyed s) {test : Document → Bool}
    {terms : List Term} (hmeets : ∀ d, terms.all (Term.meets d) = (r.ofType d && test d)) :
    ((s.documents r.related.collection).filter test).filter r.keeps =
      ((s.documents r.related.collection).filter (r.related.policy r.trashed).sees).filter
        fun d => terms.all (Term.meets d) := by
  rw [List.filter_filter, List.filter_filter]
  apply List.filter_congr
  intro d hd
  rw [keeps_eq_of_keyed hnames hkeyed hd, hmeets d, Bool.and_right_comm]

/-! ## Loading along with the owner -/

/-- The lookups of a relation put what is tied to the owner's key, after the pipeline of the related
side, under the alias. -/
theorem run_joinStages_of_keyed {pipeline : List Stage} {found : List Document}
    (hfit : r.keysFit = true) (halias : IsField r.aliasName) (hnames : r.PlainNames)
    (hkeyed : r.Keyed s) (howner : owner.Unique) (hkey : owner.get? r.ownerKey = some v)
    (hv : v.IsKey)
    (h : Stage.runAll s.documents pipeline
      ((s.documents r.related.collection).filter (r.tied s.documents v)) = .ok found) :
    ∃ d, Stage.runAll s.documents (r.joinStages pipeline) [owner] = .ok [d] ∧ r.Holds d found := by
  have hplain : ∀ name ∈ r.fieldNames, IsField name := fun name hname =>
    (hnames.fields name hname).field
  cases hkeys : r.keys with
  | owning foreignKey localKey =>
    simp only [ownerKey, hkeys] at hkey
    simp only [tied, hkeys] at h
    rw [joinStages, hkeys]
    exact run_directLookup halias (hplain localKey (by simp [fieldNames, hkeys])) howner hkey hv h
  | inverse foreignKey relatedKey =>
    simp only [ownerKey, hkeys] at hkey
    simp only [tied, hkeys] at h
    rw [joinStages, hkeys]
    exact run_directLookup halias (hplain foreignKey (by simp [fieldNames, hkeys])) howner hkey hv h
  | morph typeField idField localKey =>
    simp only [ownerKey, hkeys] at hkey
    simp only [tied, hkeys] at h
    rw [joinStages, hkeys]
    exact run_directLookup halias (hplain localKey (by simp [fieldNames, hkeys])) howner hkey hv h
  | pivot keys =>
    simp only [ownerKey, hkeys] at hkey
    simp only [tied, hkeys] at h
    rw [joinStages, hkeys]
    exact run_lookupsThrough halias (by decide)
      (hplain keys.parentKey (by simp [fieldNames, hkeys]))
      (hplain keys.relatedPivotKey (by simp [fieldNames, hkeys])) howner hkey hv
      (fun e he d _ => canEval_pivotConditions hnames hkeys d e he)
      (hkeyed.keys_pivot hkeys v _) h
  | through firstKey secondKey localKey secondLocalKey =>
    obtain ⟨m, hm⟩ := exists_through hfit hkeys
    simp only [ownerKey, hkeys] at hkey
    simp only [tied, hkeys, hm] at h
    simp only [joinStages, hkeys, hm]
    exact run_lookupsThrough halias (by decide) (hplain localKey (by simp [fieldNames, hkeys]))
      (hplain secondLocalKey (by simp [fieldNames, hkeys])) howner hkey hv
      (fun e he d _ => TrashedPolicy.canEval_condition
        (isPlain_throughMarker hnames hm .hidden) d e he)
      (hkeyed.keys_through hm hkeys v _) h

end Relation

namespace RelationHandle

open DocMapper.Relation

variable {r : Relation} {s : Store} {owner : Document} {v : Json}

theorem ownerValue?_of_get? {h : RelationHandle} {key : String} (hkey : h.owner.get? key = some v)
    (hv : v.IsKey) : h.ownerValue? key = some v.canonicalize := by
  rw [ownerValue?, hkey]
  cases v with
  | null => exact absurd rfl hv.notNull
  | _ => rfl

/-- The links that are read from a collection in between are those that a join follows. -/
theorem readLinks_of_run {source there : String} {conditions : List Json}
    {stages : List Stage}
    (h : Stage.runAll s.documents stages (s.documents source) =
      .ok (between s.documents source there v conditions)) (onward : String) :
    readLinks s source stages onward =
      .ok (linkValues onward (between s.documents source there v conditions)) := by
  rw [readLinks, Store.aggregate, h]
  rfl

/-- The stages that read a pivot collection find the rows that a join follows. -/
theorem run_pivotStages {keys : PivotKeys} (hforeign : startsDollar keys.foreignPivotKey = false)
    (hv : v.IsLink)
    (hconditions : ∀ e ∈ pivotConditions keys, ∀ d ∈ s.documents keys.collection,
      ∃ found, Expression.eval d e = .ok found) :
    Stage.runAll s.documents (pivotStages keys v) (s.documents keys.collection) =
      .ok (between s.documents keys.collection keys.foreignPivotKey v (pivotConditions keys)) := by
  have hfilter : Stage.run s.documents (.filter (.single keys.foreignPivotKey v))
      (s.documents keys.collection) = .ok ((s.documents keys.collection).filter
        fun d => Filter.equals d keys.foreignPivotKey v) :=
    Stage.run_filter (fun d _ => Filter.accepts_single hforeign
      (Filter.conditionHolds_of_scalar hv.scalar d keys.foreignPivotKey)) s.documents
  rw [pivotStages, Stage.runAll, hfilter, ok_bind, ← List.append_nil (conditionStages _),
    run_conditionStages]
  · rfl
  · exact fun e he d hd => hconditions e he d (List.mem_filter.mp hd).1

/-- The stages that read an intermediate collection find the documents that a join follows. -/
theorem run_throughStages {m : Model} {firstKey : String} (hplain : IsPlain firstKey)
    (hmarker : ∀ f, (m.policy .hidden).field = some f → IsPlain f) (hv : v.IsLink)
    (hscalar : ∀ d ∈ s.documents m.collection,
      ∀ f, (m.policy .hidden).field = some f → d.ScalarAt f) :
    Stage.runAll s.documents (throughStages m firstKey v) (s.documents m.collection) =
      .ok (between s.documents m.collection firstKey v
        (m.policy .hidden).condition?.toList) := by
  have hfilter : Stage.run s.documents (.filter (.single firstKey v))
      ((s.documents m.collection).filter (m.policy .hidden).sees) =
        .ok (((s.documents m.collection).filter (m.policy .hidden).sees).filter
          fun d => Filter.equals d firstKey v) :=
    Stage.run_filter (fun d _ => Filter.accepts_single hplain.noDollar
      (Filter.conditionHolds_of_scalar hv.scalar d firstKey)) s.documents
  rw [throughStages, TrashedPolicy.runAll_stage fun f hf => (hmarker f hf).noDollar,
    Stage.runAll_singleton, hfilter, between, List.filter_filter, List.filter_filter]
  congr 1
  apply List.filter_congr
  intro d hd
  rw [TrashedPolicy.all_condition hmarker (hscalar d hd), Bool.and_comm]

/-- The scope of a handle ties documents by conditions that those of the right type meet which are
tied to the owner's key in canonical form. -/
theorem exists_scope_of_keyed (hfit : r.keysFit = true) (hnames : r.PlainNames)
    (hkeyed : r.Keyed s) (hkey : owner.get? r.ownerKey = some v) (hv : v.IsKey) :
    ∃ terms, scope ⟨r, owner, r.related.query⟩ s = .ok terms ∧ (∀ t ∈ terms, t.Ties) ∧
      ∀ e, terms.all (Term.meets e) = (r.ofType e && r.asked s.documents v e) := by
  have hplain : ∀ name ∈ r.fieldNames, startsDollar name = false := fun name hname =>
    (hnames.fields name hname).noDollar
  have hvalue : ∀ key, owner.get? key = some v →
      ownerValue? ⟨r, owner, r.related.query⟩ key = some v.canonicalize :=
    fun key hkey => ownerValue?_of_get? (h := ⟨r, owner, r.related.query⟩) hkey hv
  have hlink := hv.isLink_canonicalize
  -- Keys that link directly are compared with the owner's. The others are compared with the links
  -- in the documents in between, which are read first.
  cases hkeys : r.keys with
  | owning foreignKey localKey =>
    simp only [ownerKey, hkeys] at hkey
    refine ⟨[⟨.and, foreignKey, .compare .equal v.canonicalize⟩], ?_, ?_, fun e => ?_⟩
    · simp only [scope, hkeys, hvalue _ hkey]
      rfl
    · exact List.forall_mem_singleton.mpr
        (.equal (hplain foreignKey (by simp [fieldNames, hkeys])) _)
    · simp [Term.meets, Term.wanted, ofType, typeField?, asked, hkeys]
  | inverse foreignKey relatedKey =>
    simp only [ownerKey, hkeys] at hkey
    refine ⟨[⟨.and, relatedKey, .compare .equal v.canonicalize⟩], ?_, ?_, fun e => ?_⟩
    · simp only [scope, hkeys, hvalue _ hkey]
      rfl
    · exact List.forall_mem_singleton.mpr
        (.equal (hplain relatedKey (by simp [fieldNames, hkeys])) _)
    · simp [Term.meets, Term.wanted, ofType, typeField?, asked, hkeys]
  | morph typeField idField localKey =>
    simp only [ownerKey, hkeys] at hkey
    refine ⟨[⟨.and, typeField, .compare .equal (.string r.owner.typeName)⟩,
      ⟨.and, idField, .compare .equal v.canonicalize⟩], ?_, ?_, fun e => ?_⟩
    · simp only [scope, hkeys, hvalue _ hkey]
      rfl
    · refine List.forall_mem_cons.mpr ⟨?_, List.forall_mem_singleton.mpr ?_⟩
      · exact .equal (hplain typeField (by simp [fieldNames, hkeys])) _
      · exact .equal (hplain idField (by simp [fieldNames, hkeys])) _
    · simp [Term.meets, Term.wanted, ofType, typeField?, asked, hkeys]
  | pivot keys =>
    simp only [ownerKey, hkeys] at hkey
    have hrows := run_pivotStages (hplain keys.foreignPivotKey (by simp [fieldNames, hkeys])) hlink
      fun e he d (_ : d ∈ s.documents keys.collection) =>
        canEval_pivotConditions hnames hkeys d e he
    have hrowKeys := hkeyed.keys_pivot hkeys v.canonicalize (pivotConditions keys)
    refine ⟨[⟨.and, keys.relatedKey, .isIn (linkValues keys.relatedPivotKey
      (between s.documents keys.collection keys.foreignPivotKey v.canonicalize
        (pivotConditions keys)))⟩], ?_, ?_, fun e => ?_⟩
    · simp only [scope, hkeys, hvalue _ hkey, linksOf, readLinks_of_run hrows]
      rfl
    · exact List.forall_mem_singleton.mpr
        (.isIn (hplain keys.relatedKey (by simp [fieldNames, hkeys])) _)
    · simp [Term.meets, Term.wanted, ofType, typeField?, asked, hkeys,
        any_linkValues_of_keys hrowKeys]
  | through firstKey secondKey localKey secondLocalKey =>
    obtain ⟨m, hm⟩ := exists_through hfit hkeys
    simp only [ownerKey, hkeys] at hkey
    have hrows := run_throughStages (hnames.fields firstKey (by simp [fieldNames, hkeys]))
      (isPlain_throughMarker hnames hm .hidden) hlink fun d (hd : d ∈ s.documents m.collection) =>
        scalarAt_policy fun marks hmarks => hkeyed.throughMarkers m marks hm hmarks d hd
    have hrowKeys := hkeyed.keys_through hm hkeys v.canonicalize
      (m.policy .hidden).condition?.toList
    refine ⟨[⟨.and, secondKey, .isIn (linkValues secondLocalKey
      (between s.documents m.collection firstKey v.canonicalize
        (m.policy .hidden).condition?.toList))⟩], ?_, ?_, fun e => ?_⟩
    · simp only [scope, hkeys, hm, linksOf, readLinks_of_run hrows, hvalue _ hkey]
      rfl
    · exact List.forall_mem_singleton.mpr
        (.isIn (hplain secondKey (by simp [fieldNames, hkeys])) _)
    · simp [Term.meets, Term.wanted, ofType, typeField?, asked, hkeys, hm,
        any_linkValues_of_keys hrowKeys]

end RelationHandle

namespace Relation

end Relation

/-! ## The posts of a country -/

namespace CountrySample

/-- The latest posts by the users of a country who are not deleted. -/
def latestPosts : Relation where
  kind := .hasManyThrough
  name := "posts"
  owner := ⟨"Country", "countries", "_id", none, none, []⟩
  related := ⟨"Post", "posts", "_id", none, none, ["draft"]⟩
  through := some ⟨"User", "users", "_id", some ⟨"isDeleted", "deletedAt"⟩, none, []⟩
  keys := .through "countryId" "userId" "_id" "_id"
  options := { sort := some ("year", .descending), limit := some 2 }

def country : Document := [("_id", .string "fr")]

def users : List Document := [
  [("_id", .string "ann"), ("countryId", .string "fr"), ("isDeleted", .bool false)],
  [("_id", .string "bob"), ("countryId", .string "fr"), ("isDeleted", .bool true)]]

def posts : List Document := [
  [("_id", .string "a"), ("userId", .string "ann"), ("year", .int 2020), ("draft", .string "?")],
  [("_id", .string "b"), ("userId", .string "bob"), ("year", .int 2022)],
  [("_id", .string "c"), ("userId", .string "ann"), ("year", .int 2021)]]

def store : Store where
  collections := [("countries", [country]), ("users", users), ("posts", posts)]
  ids := ⟨fun n => ⟨BitVec.ofNat 128 n⟩, 0⟩

/-- The schema that declares this relation alone. -/
def schema : Schema := ⟨fun model => if model = "Country" then [("posts", latestPosts)] else []⟩

end CountrySample

end DocMapper
