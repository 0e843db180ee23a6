import DocMapper.Proofs.Pivot.ExtraAttributes
import DocMapper.Proofs.Relation.Agreement

/-! # What counts as an association

Two places decide what an owner is associated with. A snapshot lists a target as active if one of
its rows is *not* marked as deleted; a query through the relation follows a row only if it is marked
as *not deleted*, and holds the very type (`PivotKeys.Counts`). A row whose marker is missing, or
holds something else, is active to the one and nothing to the other.

`RelationHandle.sync_reaches` says what this comes to, for rows that refer to owners and targets by
their identifiers and hold anything else. The links that are read are those of active targets that
have a row that counts. Syncing leaves a row alone if its target is active, so afterwards the
relation reaches the requested targets but for those that were active and not read before. -/

namespace DocMapper

namespace PivotPlan

variable {p : PivotSnapshot} {ids : List DocumentId} {id : DocumentId}

/-- Syncing attaches the targets that are asked for and not active. -/
theorem mem_sync_attached : id ∈ (sync true p ids).insert ++ (sync true p ids).restore ↔
    id ∈ ids ∧ id ∉ p.active := by
  have hactive : p.isActive id = false ↔ id ∉ p.active := by
    rw [PivotSnapshot.isActive, ← Bool.not_eq_true, List.contains_iff_mem]
  show id ∈ ids.filter _ ++ ids.filter _ ↔ _
  rw [← hactive, List.mem_append, List.mem_filter, List.mem_filter, ← and_or_left]
  refine and_congr_right fun _ => ?_
  rw [PivotSnapshot.isTrashed]
  cases p.isActive id <;> cases p.trashed.contains id <;> simp

/-- Syncing detaches the targets that have a row and are not asked for. -/
theorem mem_sync_delete : id ∈ (sync true p ids).delete ↔ id ∈ p.all ∧ id ∉ ids := by
  show id ∈ p.all.filter _ ↔ _
  rw [List.mem_filter, Bool.not_eq_true', ← Bool.not_eq_true, List.contains_iff_mem]

end PivotPlan

namespace PivotKeys

variable {keys : PivotKeys} {owner id : DocumentId} {row : Document} {docs : List Document}

/-- A row that refers to an owner and a target by their identifiers in canonical form. -/
structure Refers (keys : PivotKeys) (row : Document) : Prop where
  unique : row.Unique
  owner : ∃ id : DocumentId, row.get? keys.foreignPivotKey = some id.toJson
  target : ∃ id : DocumentId, row.get? keys.relatedPivotKey = some id.toJson

/-- A row that a query follows: it holds the type, and says that it is not deleted. -/
structure Counts (keys : PivotKeys) (row : Document) : Prop where
  type : ∀ field name, keys.morphType = some (field, name) → row.get? field = some (.string name)
  marker : ∀ d, keys.softDelete = some d → row.get? d.marker = some (.bool false)

/-- One of a target's rows counts. -/
def Reaches (keys : PivotKeys) (owner : DocumentId) (docs : List Document) (id : DocumentId) :
    Prop :=
  ∃ row ∈ docs, keys.found owner id row = true ∧ keys.Counts row

theorem Counts.isTrashed (h : keys.Counts row) : keys.isTrashed row = false :=
  isTrashed_of_marker h.marker

/-! ## The rows of a target -/

/-- The rows that are found for a target are those of the owner that refer to it. -/
theorem Refers.found_iff (hk : keys.Tidy) (h : keys.Refers row) :
    keys.found owner id row = true ↔
      (keys.rowsOf owner).finds row = true ∧ row.get? keys.relatedPivotKey = some id.toJson := by
  obtain ⟨target, htarget⟩ := h.target
  rw [found, targetFilter_eq hk, List.all_append, Bool.and_eq_true,
    (testable_rowsOf hk owner).finds_eq]
  refine and_congr_right fun _ => ?_
  have hequals := Filter.equals_string_iff (hk.plain_of_mem related_mem_keyFields).field htarget
    (Json.ne_array_of_isScalar rfl) id.canonical
  rw [List.all_cons, List.all_nil, Bool.and_true, htarget, Option.some.injEq]
  exact hequals

theorem Refers.targetOf_iff (h : keys.Refers row) :
    (keys.rowsOf owner).targetOf row = some id ↔
      row.get? keys.relatedPivotKey = some id.toJson := by
  obtain ⟨target, htarget⟩ := h.target
  rw [PivotRows.targetOf, rowsOf_keys, htarget, Option.bind_some, DocumentId.ofJson?_toJson,
    Option.some.injEq, Option.some.injEq]
  constructor
  · rintro rfl
    rfl
  · exact DocumentId.toJson_injective

/-- Of a row that counts, only the reference to the owner says whose it is. -/
theorem Counts.finds_iff (hk : keys.Tidy) (h : keys.Counts row) :
    (keys.rowsOf owner).finds row = true ↔
      Filter.equals row keys.foreignPivotKey owner.toJson = true := by
  rw [(testable_rowsOf hk owner).finds_iff]
  refine and_iff_left_of_imp fun _ field name hm => ?_
  exact Filter.equals_of_get?_equals (hk.plain_of_mem (morph_mem_keyFields hm)).field
    (h.type field name hm) (Json.equals_string_iff.mpr rfl)

/-! ## What a query reads -/

theorem holdsOn_fieldEquals_iff {name : String} (h : IsPlain name) {v : Json}
    (hv : Expression.eval row v = .ok (some v)) (hnull : v ≠ .null)
    (hequals : ∀ w : Json, w.equals v = true ↔ w = v) :
    Expression.holdsOn row (fieldEquals name v) = true ↔ row.get? name = some v := by
  rw [Expression.holdsOn_fieldEquals h.noDollar hv, Document.at?_field h.field, hequals]
  cases row.get? name with
  | none => simp [Ne.symm hnull]
  | some w => simp

/-- The conditions on rows keep those that count. -/
theorem all_pivotConditions (hk : keys.Tidy)
    (hname : ∀ field name, keys.morphType = some (field, name) → startsDollar name = false) :
    (Relation.pivotConditions keys).all (Expression.holdsOn row) = true ↔ keys.Counts row := by
  have htype : ∀ field name, keys.morphType = some (field, name) →
      (Expression.holdsOn row (fieldEquals field (.string name)) = true ↔
        row.get? field = some (.string name)) := fun field name hm =>
    holdsOn_fieldEquals_iff (hk.plain_of_mem (morph_mem_keyFields hm))
      (Expression.eval_string (hname field name hm) row) Json.noConfusion
      fun _ => Json.equals_string_iff
  have hmarker : ∀ d, keys.softDelete = some d →
      (Expression.holdsOn row (fieldEquals d.marker (.bool false)) = true ↔
        row.get? d.marker = some (.bool false)) := fun d hd =>
    holdsOn_fieldEquals_iff (hk.plain_marker hd) rfl Json.noConfusion
      fun _ => Json.equals_bool_iff
  rw [Relation.pivotConditions, List.all_append, Bool.and_eq_true]
  constructor
  · rintro ⟨htypes, hmarkers⟩
    refine ⟨fun field name hm => ?_, fun d hd => ?_⟩
    · rw [hm] at htypes
      exact (htype field name hm).mp (by simpa using htypes)
    · rw [hd] at hmarkers
      exact (hmarker d hd).mp (by simpa using hmarkers)
  · intro hcounts
    constructor
    · cases hm : keys.morphType with
      | none => rfl
      | some m =>
        have hholds := (htype m.1 m.2 hm).mpr (hcounts.type m.1 m.2 hm)
        simpa using hholds
    · cases hd : keys.softDelete with
      | none => rfl
      | some d =>
        have hholds := (hmarker d hd).mpr (hcounts.marker d hd)
        simpa using hholds

end PivotKeys

namespace RelationHandle

variable {h : RelationHandle} {keys : PivotKeys} {owner id : DocumentId} {s : Store}
  {docs : List Document}

/-- What a query through the relation reads for an owner: the targets of which a row counts. -/
theorem exists_scope_of_refers (hh : h.HasPivot keys owner) (hk : keys.Tidy)
    (hname : ∀ field name, keys.morphType = some (field, name) → startsDollar name = false)
    (hrefers : ∀ row ∈ s.documents keys.collection, keys.Refers row) :
    ∃ links, h.scope s = .ok [⟨.and, keys.relatedKey, .isIn links⟩] ∧
      ∀ id : DocumentId, id.toJson ∈ links ↔
        keys.Reaches owner (s.documents keys.collection) id := by
  have hconditions : ∀ e ∈ Relation.pivotConditions keys, ∀ row ∈ s.documents keys.collection,
      ∃ found, Expression.eval row e = .ok found := fun e he row _ =>
    Relation.exists_eval_pivotConditions
      (fun field name hm => ⟨(hk.plain_of_mem (PivotKeys.morph_mem_keyFields hm)).noDollar,
        hname field name hm⟩)
      (fun d hd => (hk.plain_marker hd).noDollar) row e he
  have hread := readLinks_of_run (run_pivotStages
    (hk.plain_of_mem PivotKeys.foreign_mem_keyFields).noDollar (Json.isLink_toJson owner)
    hconditions) keys.relatedPivotKey
  refine ⟨linkValues keys.relatedPivotKey (Relation.between s.documents keys.collection
    keys.foreignPivotKey owner.toJson (Relation.pivotConditions keys)), ?_, fun id => ?_⟩
  · simp only [scope, hh.keys_eq, hh.ownerValue?_eq, linksOf, hread]
    rfl
  · have hlinks : ∀ row ∈ Relation.between s.documents keys.collection keys.foreignPivotKey
        owner.toJson (Relation.pivotConditions keys), row.LinksAt keys.relatedPivotKey := by
      intro row hrow v hv
      obtain ⟨target, htarget⟩ := (hrefers row (Relation.mem_of_mem_between hrow)).target
      rw [htarget, Option.some.injEq] at hv
      exact hv ▸ Json.isLink_toJson target
    rw [toJson_mem_linkValues hlinks]
    simp only [Relation.between, List.mem_filter, PivotKeys.all_pivotConditions hk hname]
    constructor
    · rintro ⟨row, ⟨⟨hrow, howner⟩, hcounts⟩, htarget⟩
      refine ⟨row, hrow, ((hrefers row hrow).found_iff hk).mpr ⟨?_, htarget⟩, hcounts⟩
      exact (hcounts.finds_iff hk).mpr howner
    · rintro ⟨row, hrow, hfound, hcounts⟩
      obtain ⟨hfinds, htarget⟩ := ((hrefers row hrow).found_iff hk).mp hfound
      exact ⟨row, ⟨⟨hrow, (hcounts.finds_iff hk).mp hfinds⟩, hcounts⟩, htarget⟩

end RelationHandle

namespace PivotKeys

variable {keys : PivotKeys} {owner target id : DocumentId} {row : Document}
  {docs before after : List Document} {extra : Document} {now : String} {s t : Store}

/-! ## What a snapshot lists -/

/-- A snapshot lists a target as active if one of its rows is not marked as deleted. -/
theorem snapshot_of_refers (hk : keys.Tidy) (owner : DocumentId)
    (hrefers : ∀ row ∈ s.documents keys.collection, keys.Refers row) :
    ∃ p, (keys.rowsOf owner).snapshot s = (.ok p, s) ∧
      ∀ id, id ∈ p.active ↔ ∃ row ∈ s.documents keys.collection,
        keys.found owner id row = true ∧ keys.isTrashed row = false := by
  obtain ⟨p, hp, hlists⟩ := (testable_rowsOf hk owner).exists_snapshot s
  have hfound : ∀ row ∈ s.documents keys.collection, ∀ id,
      keys.found owner id row = true ↔ (keys.rowsOf owner).finds row = true ∧
        (keys.rowsOf owner).targetOf row = some id := by
    intro row hrow id
    rw [(hrefers row hrow).found_iff hk, (hrefers row hrow).targetOf_iff]
  refine ⟨p, hp, fun id => ?_⟩
  rw [hlists.active]
  constructor
  · rintro ⟨row, hrow, htarget, hactive⟩
    obtain ⟨hrow, hfinds⟩ := List.mem_filter.mp hrow
    exact ⟨row, hrow, (hfound row hrow id).mpr ⟨hfinds, htarget⟩, hactive⟩
  · rintro ⟨row, hrow, h, hactive⟩
    obtain ⟨hfinds, htarget⟩ := (hfound row hrow id).mp h
    exact ⟨row, List.mem_filter.mpr ⟨hrow, hfinds⟩, htarget, hactive⟩

/-! ## Attaching -/

/-- A row that refers to an owner and a target, and holds no array as its type. -/
structure Orderly (keys : PivotKeys) (row : Document) : Prop extends keys.Refers row where
  single : keys.SingleValued row

/-- A row whose key is as the filter for a target says. -/
theorem orderly_of_key (hk : keys.Tidy) (hunique : row.Unique)
    (hkey : ∀ f ∈ keys.keyFields, row.get? f =
      Document.get? ((keys.rowsOf owner).targetFilter target.toJson) f) : keys.Orderly row := by
  obtain ⟨howner, htarget, htype⟩ := get?_targetFilter hk owner target
  refine ⟨⟨hunique, ⟨owner, ?_⟩, ⟨target, ?_⟩⟩, fun f hf items hitems => ?_⟩
  · rw [hkey _ foreign_mem_keyFields, howner]
  · rw [hkey _ related_mem_keyFields, htarget]
  · rw [hkey f hf] at hitems
    have hscalar := isScalar_of_mem_targetFilter hk _ (Document.mem_of_get? hitems)
    cases hscalar

theorem Orderly.restored (hk : keys.Tidy) (h : keys.Orderly row) :
    keys.Orderly (keys.restored row) := by
  refine ⟨⟨unique_restored h.unique, ?_, ?_⟩, fun f hf => ?_⟩
  · rw [get?_restored_key hk h.unique foreign_mem_keyFields]
    exact h.owner
  · rw [get?_restored_key hk h.unique related_mem_keyFields]
    exact h.target
  · rw [get?_restored_key hk h.unique hf]
    exact h.single f hf

/-- Once it is restored, a row of the owner counts. -/
theorem Orderly.counts_restored (hk : keys.Tidy) (h : keys.Orderly row)
    (howns : keys.owns owner row = true) : keys.Counts (keys.restored row) := by
  refine ⟨fun field name hm => ?_, fun d hd => get?_restored_marker hk h.unique hd⟩
  rw [owns, hm, Option.all_some, Bool.and_eq_true, beq_iff_eq, beq_iff_eq] at howns
  rw [get?_restored_key hk h.unique (morph_mem_keyFields hm), Document.get?_of_textAt howns.2]

/-- A row more or less reaches the targets that it is found for, if it counts. -/
theorem reaches_split : keys.Reaches owner (before ++ row :: after) id ↔
    keys.Reaches owner (before ++ after) id ∨
      keys.found owner id row = true ∧ keys.Counts row := by
  simp only [Reaches, List.mem_append, List.mem_cons, or_and_right, exists_or, exists_eq_left]
  rw [or_assoc]
  exact or_congr_right or_comm

/-- Attaching a target makes it reached, and no other one. -/
theorem reaches_attachOne (hk : keys.Tidy)
    (hkey : ∀ f ∈ keys.keyFields, (keys.described owner target extra now).get? f =
      Document.get? ((keys.rowsOf owner).targetFilter target.toJson) f)
    (horderly : ∀ row ∈ s.documents keys.collection, keys.Orderly row) {outcome : UpdateOutcome}
    (hrun : (keys.rowsOf owner).attachOne extra now target s = (.ok outcome, t)) :
    (∀ row ∈ t.documents keys.collection, keys.Orderly row) ∧
      ∀ id, keys.Reaches owner (t.documents keys.collection) id ↔
        keys.Reaches owner (s.documents keys.collection) id ∨ id = target := by
  rcases attachOne_eq_ok hk hrun with ⟨-, before, row, after, hsplit, hfound, ht⟩ |
    ⟨-, -, row, hnew, hunique, ht⟩
  · rw [hsplit] at horderly
    have hrow := horderly row (List.mem_append_right _ List.mem_cons_self)
    have hsame : ∀ id, keys.found owner id (keys.restored row) = keys.found owner id row := by
      intro id
      rw [found_eq_ties hk hrow.single, found_eq_ties hk (hrow.restored hk).single,
        ties_restored hk hrow.unique]
    rw [hsplit, ht]
    refine ⟨fun r hr => ?_, fun id => ?_⟩
    · rcases List.mem_append.mp hr with hr | hr
      · exact horderly r (List.mem_append_left _ hr)
      · rcases List.mem_cons.mp hr with rfl | hr
        · exact hrow.restored hk
        · exact horderly r (List.mem_append_right _ (List.mem_cons_of_mem _ hr))
    · rw [found_eq_ties hk hrow.single] at hfound
      have hid : keys.found owner id row = true ↔ id = target := by
        rw [found_eq_ties hk hrow.single]
        exact ties_iff_eq hfound
      have hcounts := hrow.counts_restored hk (ties_iff.mp hfound).1
      rw [reaches_split, reaches_split, hsame, hid, or_assoc, and_iff_left hcounts]
      exact or_congr_right (or_iff_right_of_imp And.left).symm
  · have hrowKey : ∀ f ∈ keys.keyFields, row.get? f =
        Document.get? ((keys.rowsOf owner).targetFilter target.toJson) f :=
      fun f hf => (hnew.key f hf).trans (hkey f hf)
    have hrow : keys.Orderly row := orderly_of_key hk hunique hrowKey
    have hcounts : keys.Counts row := by
      refine ⟨fun field name hm => ?_, hnew.marker⟩
      rw [hrowKey field (morph_mem_keyFields hm)]
      exact (get?_targetFilter hk owner target).2.2 field name hm
    rw [ht]
    refine ⟨fun r hr => ?_, fun id => ?_⟩
    · rcases List.mem_append.mp hr with hr | hr
      · exact horderly r hr
      · exact List.mem_singleton.mp hr ▸ hrow
    · rw [reaches_split, List.append_nil, hrow.found_iff hk,
        hrowKey _ related_mem_keyFields, (get?_targetFilter hk owner target).2.1,
        and_iff_left hcounts, Option.some.injEq]
      refine or_congr_right ⟨fun h => (DocumentId.toJson_injective h.2).symm, ?_⟩
      rintro rfl
      exact ⟨(states_of_get? hk hrowKey).finds hk, rfl⟩

/-- Removing the rows of targets makes these unreached, and no other one. -/
theorem reaches_removed (hk : keys.Tidy) (hrefers : ∀ row ∈ docs, keys.Refers row)
    (ids : List DocumentId) :
    keys.Reaches owner (docs.filter fun row => !((keys.rowsOf owner).finds row &&
        (keys.rowsOf owner).refersToAny ids row)) id ↔
      keys.Reaches owner docs id ∧ id ∉ ids := by
  have hfield := (hk.plain_of_mem related_mem_keyFields).field
  have hkept : ∀ row ∈ docs, keys.found owner id row = true →
      ((!((keys.rowsOf owner).finds row && (keys.rowsOf owner).refersToAny ids row)) = true ↔
        id ∉ ids) := by
    intro row hrow hfound
    obtain ⟨hfinds, htarget⟩ := ((hrefers row hrow).found_iff hk).mp hfound
    rw [hfinds, Bool.true_and, Bool.not_eq_true', ← Bool.not_eq_true,
      PivotRows.refersToAny_iff hfield ((hrefers row hrow).targetOf_iff.mpr htarget)]
    exact not_congr (and_iff_left htarget)
  constructor
  · rintro ⟨row, hrow, hfound, hcounts⟩
    obtain ⟨hrow, hnot⟩ := List.mem_filter.mp hrow
    exact ⟨⟨row, hrow, hfound, hcounts⟩, (hkept row hrow hfound).mp hnot⟩
  · rintro ⟨⟨row, hrow, hfound, hcounts⟩, hid⟩
    exact ⟨row, List.mem_filter.mpr ⟨hrow, (hkept row hrow hfound).mpr hid⟩, hfound, hcounts⟩

/-- Attaching targets and then removing the rows of others makes the former reached and the latter
not, and leaves all the rest. -/
theorem attaching_reaches (hk : keys.Tidy)
    (hkey : ∀ target, ∀ f ∈ keys.keyFields, (keys.described owner target extra now).get? f =
      Document.get? ((keys.rowsOf owner).targetFilter target.toJson) f)
    {delete ids : List DocumentId} {changes out : PivotChanges} (hchanges : changes.detached = [])
    (horderly : ∀ row ∈ s.documents keys.collection, keys.Orderly row)
    (hrun : ((keys.rowsOf owner).attaching extra now delete ids changes).run s = (.ok out, t)) :
    (∀ row ∈ t.documents keys.collection, keys.Orderly row) ∧
      ∀ id, keys.Reaches owner (t.documents keys.collection) id ↔
        (keys.Reaches owner (s.documents keys.collection) id ∨ id ∈ ids) ∧ id ∉ delete := by
  induction ids generalizing s changes with
  | nil =>
    obtain ⟨u, hremove, hdocs, -⟩ := @PivotRows.removing_spec (keys.rowsOf owner) s
      (hk.plain_of_mem related_mem_keyFields) hk.related_apart
      _ (fun row _ => (testable_rowsOf hk owner).accepts row) delete _ hchanges
    obtain rfl : u = t := congrArg Prod.snd (hremove.symm.trans hrun)
    rw [rowsOf_keys] at hdocs
    rw [hdocs]
    refine ⟨fun row hrow => horderly row (List.mem_filter.mp hrow).1, fun id => ?_⟩
    rw [reaches_removed hk fun row hrow => (horderly row hrow).toRefers]
    simp
  | cons target ids ih =>
    obtain ⟨outcome, u, hone, hrest⟩ := Program.call_eq_ok hrun
    obtain ⟨horderly', hreaches⟩ := reaches_attachOne hk (hkey target) horderly hone
    obtain ⟨hlast, hall⟩ := ih ((PivotRows.detached_report _ _ _).trans hchanges) horderly' hrest
    refine ⟨hlast, fun id => ?_⟩
    rw [hall, hreaches, List.mem_cons, or_assoc]

end PivotKeys

namespace RelationHandle

variable {h : RelationHandle} {keys : PivotKeys} {owner : DocumentId} {s : Store}

/-- **What is read of an association.** A target is active if one of its rows is not marked as
deleted, and is read if one of its rows counts. Where no row holds an array as its type, the targets
that are read after syncing are those that were asked for, but for those that were active and not
read before. -/
theorem sync_reaches (hh : h.HasPivot keys owner) (hk : keys.Tidy)
    (hname : ∀ field name, keys.morphType = some (field, name) → startsDollar name = false)
    (hrefers : ∀ row ∈ s.documents keys.collection, keys.Refers row) :
    ∃ p links, h.pivotSnapshot s = (.ok p, s) ∧
      h.scope s = .ok [⟨.and, keys.relatedKey, .isIn links⟩] ∧
      (∀ id, id ∈ p.active ↔ ∃ row ∈ s.documents keys.collection,
        keys.found owner id row = true ∧ keys.isTrashed row = false) ∧
      (∀ id : DocumentId, id.toJson ∈ links ↔
        keys.Reaches owner (s.documents keys.collection) id) ∧
      (∀ id : DocumentId, id.toJson ∈ links → id ∈ p.active) ∧
      ((∀ row ∈ s.documents keys.collection, keys.SingleValued row) →
        ∀ now values changes t,
          h.reconcile now (.sync values .null) s = (.ok changes, t) →
            ∃ ids reached, DocumentId.ofJsons values = .ok ids ∧
              h.scope t = .ok [⟨.and, keys.relatedKey, .isIn reached⟩] ∧
              ∀ id : DocumentId, id.toJson ∈ reached ↔
                id ∈ ids ∧ (id ∈ p.active → id.toJson ∈ links)) := by
  obtain ⟨p, hp, hactive⟩ := PivotKeys.snapshot_of_refers hk owner hrefers
  obtain ⟨links, hlinks, hread⟩ := exists_scope_of_refers hh hk hname hrefers
  have hsound : ∀ id : DocumentId, id.toJson ∈ links → id ∈ p.active := by
    intro id hid
    obtain ⟨row, hrow, hfound, hcounts⟩ := (hread id).mp hid
    exact (hactive id).mpr ⟨row, hrow, hfound, hcounts.isTrashed⟩
  refine ⟨p, links, (pivotSnapshot_eq (pivotRows_eq hh) s).trans hp, hlinks, hactive, hread,
    hsound, fun hsingle now values changes t hrun => ?_⟩
  obtain ⟨targets, fields, rows, q, htargets, hfields, hrows, hq, happly⟩ := planned_eq_ok hrun
  obtain ⟨ids, hids, -, htarget⟩ := targetIds_eq_ok htargets
  obtain rfl : rows = keys.rowsOf owner := Except.ok.inj (hrows.symm.trans (pivotRows_eq hh))
  obtain rfl : [] = fields := Except.ok.inj hfields
  obtain rfl : p = q := Except.ok.inj (congrArg Prod.fst (hp.symm.trans hq))
  obtain ⟨horderly, hreaches⟩ := PivotKeys.attaching_reaches hk
    (fun _ _ hf => PivotKeys.get?_described hk (fun _ h => absurd h List.not_mem_nil) hf) rfl
    (fun row hrow => ⟨hrefers row hrow, hsingle row hrow⟩) happly
  obtain ⟨reached, hreached, hreadAfter⟩ := exists_scope_of_refers hh hk hname
    fun row hrow => (horderly row hrow).toRefers
  refine ⟨ids, reached, hids, hreached, fun id => ?_⟩
  -- The plan attaches what is asked for and not active, and removes what is not asked for.
  rw [hreadAfter, hreaches, PivotPlan.mem_sync_attached, PivotPlan.mem_sync_delete, htarget,
    ← hread]
  have hlisted := hsound id
  have hmem : id ∈ p.active → id ∈ p.all := fun h => PivotSnapshot.mem_all.mpr (.inl h)
  tauto

end RelationHandle

/-! ## A row without a marker -/

namespace PivotSample

/-- The request to have the role of a row alone, or another one with it. -/
def syncRoles (ids : List DocumentId) : Reconciliation := .sync (ids.map (·.toJson)) .null

theorem syncRoles_reports :
    (handle.reconcile "now" (syncRoles roles) store).1.toOption.map (·.restored) =
      some [⟨2#128⟩] := by
  decide +kernel

/-- Both roles are read after they were asked for. -/
theorem sync_both_roles :
    ∃ changes t reached, handle.reconcile "now" (syncRoles roles) store = (.ok changes, t) ∧
      handle.scope t = .ok [⟨.and, "_id", .isIn reached⟩] ∧
      ∀ id : DocumentId, id.toJson ∈ reached ↔ id ∈ roles := by
  obtain ⟨changes, hrun, -⟩ := action_eq_ok syncRoles_reports
  have hhandle : handle.HasPivot keys user := ⟨rfl, user.toJson, rfl, user.ofJson?_toJson⟩
  have hrows := fun r (hr : r ∈ store.documents keys.collection) => store_wellFormed.rows r hr
  obtain ⟨p, links, hp, -, hactive, -, -, hsync⟩ :=
    RelationHandle.sync_reaches (s := store) hhandle keys_tidy (fun _ _ hm => by cases hm)
      fun r hr => ⟨(hrows r hr).unique, (hrows r hr).owner, (hrows r hr).target⟩
  obtain ⟨ids, reached, hids, hreached, hread⟩ :=
    hsync (fun r hr => (hrows r hr).singleValued) _ _ _ _ hrun
  obtain rfl : roles = ids := Except.ok.inj ((DocumentId.ofJsons_toJson roles).symm.trans hids)
  refine ⟨changes, _, reached, hrun, hreached, fun id => ?_⟩
  rw [hread, and_iff_left_of_imp]
  -- The one row is marked as deleted, so no role is active.
  intro _ hid
  obtain ⟨r, hr, -, hcounts⟩ := (hactive id).mp hid
  rw [List.mem_singleton.mp hr] at hcounts
  cases hcounts

/-- A row that does not say whether it is deleted. -/
def unmarkedRow : Document :=
  [("_id", DocumentId.toJson ⟨9#128⟩), ("userId", user.toJson),
    ("roleId", DocumentId.toJson ⟨2#128⟩)]

def unmarkedStore : Store := { store with collections := [("role_user", [unmarkedRow])] }

/-- Whether a scope lets no identifier through. -/
def readsNothing : List Term → Bool
  | [⟨.and, column, .isIn []⟩] => column == "_id"
  | _ => false

theorem eq_of_readsNothing {terms : List Term} (h : readsNothing terms = true) :
    terms = [⟨.and, "_id", .isIn []⟩] := by
  unfold readsNothing at h
  split at h
  · rw [beq_iff_eq.mp h]
  · cases h

/-- The role of such a row is active and not read, and still not after it was asked for. -/
theorem unmarked_role_not_read :
    (¬ ∀ p links, (handle.pivotSnapshot unmarkedStore).1 = .ok p →
      handle.scope unmarkedStore = .ok [⟨.and, "_id", .isIn links⟩] →
        ∀ id : DocumentId, id ∈ p.active ↔ id.toJson ∈ links) ∧
    ¬ ∀ changes t links,
      handle.reconcile "now" (syncRoles [⟨2#128⟩]) unmarkedStore = (.ok changes, t) →
        handle.scope t = .ok [⟨.and, "_id", .isIn links⟩] →
          ∀ id : DocumentId, id.toJson ∈ links ↔ id = ⟨2#128⟩ := by
  have hlists : (handle.pivotSnapshot unmarkedStore).1.toOption.map (·.active) =
      some [⟨2#128⟩] := by
    decide +kernel
  have hreads : (handle.scope unmarkedStore).toOption.map readsNothing = some true := by
    decide +kernel
  have hreports : (handle.reconcile "now" (syncRoles [⟨2#128⟩]) unmarkedStore).1.toOption.map
      (·.isEmpty) = some true := by
    decide +kernel
  have hreadsAfter : (handle.scope (handle.reconcile "now" (syncRoles [⟨2#128⟩])
      unmarkedStore).2).toOption.map readsNothing = some true := by
    decide +kernel
  obtain ⟨p, hp, hactive⟩ := toOption_map_eq_some.mp hlists
  obtain ⟨terms, hterms, hnone⟩ := toOption_map_eq_some.mp hreads
  obtain ⟨changes, hrun, -⟩ := action_eq_ok hreports
  obtain ⟨termsAfter, htermsAfter, hnoneAfter⟩ := toOption_map_eq_some.mp hreadsAfter
  rw [eq_of_readsNothing hnone] at hterms
  rw [eq_of_readsNothing hnoneAfter] at htermsAfter
  constructor
  · intro hagree
    have hmem : (⟨2#128⟩ : DocumentId) ∈ p.active := hactive ▸ List.mem_singleton.mpr rfl
    cases (hagree p [] hp hterms ⟨2#128⟩).mp hmem
  · intro hreached
    cases (hreached changes _ [] hrun htermsAfter ⟨2#128⟩).mpr rfl

end PivotSample

end DocMapper
