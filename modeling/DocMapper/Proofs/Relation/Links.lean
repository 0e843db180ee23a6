import DocMapper.Proofs.Identifier
import DocMapper.Proofs.Pipeline
import DocMapper.Relation.Handle

/-! # Values that link documents

Documents are linked by the values of their keys. A **link** is a value by which the two ways of
following a key agree: a scalar other than null that is in its canonical form already.

A join compares the values on both sides (`Stage.agree`), a query compares what stands at a path
with a constant (`Filter.equals`). For links the two are the same (`agree_eq`), whatever stands on
the other side, and dropping repeated links from a list of constants changes nothing
(`any_linkValues`).

A **key** may be in another form than the canonical one. A join follows it as it is (`agree_eq`
too), but among the constants of a query stands its canonical form (`any_linkValues_of_keys`). -/

namespace DocMapper

/-- A value by which documents can be linked. -/
structure Json.IsLink (v : Json) : Prop where
  scalar : v.isScalar = true
  notNull : v ≠ .null
  canonical : v.canonicalize = v

/-- A value by which documents can be linked once it is in canonical form. -/
structure Json.IsKey (v : Json) : Prop where
  scalar : v.isScalar = true
  notNull : v ≠ .null

/-- A field holds nothing, or a link. -/
def Document.LinksAt (d : Document) (field : String) : Prop :=
  ∀ v, d.get? field = some v → v.IsLink

/-- A field holds nothing, or a key. -/
def Document.KeysAt (d : Document) (field : String) : Prop :=
  ∀ v, d.get? field = some v → v.IsKey

/-- A field holds nothing, or a scalar. -/
def Document.ScalarAt (d : Document) (field : String) : Prop :=
  ∀ v, d.get? field = some v → v.isScalar = true

namespace Json

theorem isScalar_of_same {v w : Json} (hw : w.isScalar = true) (h : v.same w = true) :
    v.isScalar = true := by
  cases v with
  | array items => cases w <;> simp [isScalar, same] at hw h
  | object fields => cases w <;> simp [isScalar, same] at hw h
  | _ => rfl

theorem isNull_eq_false {v : Json} (h : v ≠ .null) : v.isNull = false := by
  cases v with
  | null => exact absurd rfl h
  | _ => rfl

theorem isNull_congr_of_same {v w : Json} (h : v.same w = true) : v.isNull = w.isNull := by
  cases v <;> cases w <;> first | rfl | cases h

theorem IsLink.isKey {v : Json} (h : v.IsLink) : v.IsKey := ⟨h.scalar, h.notNull⟩

theorem isLink_toJson (id : DocumentId) : id.toJson.IsLink :=
  ⟨rfl, Json.noConfusion, canonicalize_of_ofJson? id.ofJson?_toJson⟩

/-- The canonical form of a key is a link. -/
theorem IsKey.isLink_canonicalize {v : Json} (h : v.IsKey) : v.canonicalize.IsLink := by
  cases hid : DocumentId.ofJson? v with
  | some id =>
    rw [canonicalize_of_ofJson? hid]
    exact isLink_toJson id
  | none =>
    have hsame : v.canonicalize = v := by rw [canonicalize, hid]
    rw [hsame]
    exact ⟨h.scalar, h.notNull, hsame⟩

end Json

/-! ## Joining by links -/

/-- The values by which a document is joined at a path contain a key exactly if a filter says that
the path leads to it. -/
theorem Document.any_joinValues (d : Document) (path : String) {v : Json} (hv : v.IsKey) :
    (d.joinValues path).any (fun w => v.equals w) = Filter.equals d path v := by
  rw [joinValues, Filter.equals, candidates]
  cases hat : d.at? path with
  | none =>
    have hnot : v.equals .null = false :=
      Bool.eq_false_iff.mpr fun heq => hv.notNull (Json.equals_null_iff.mp heq)
    simp [hnot, Json.isNull_eq_false hv.notNull]
  | some w =>
    cases w with
    | array items =>
      have hnot : (Json.array items).equals v = false := by
        refine Bool.eq_false_iff.mpr fun heq => ?_
        have hscalar := Json.isScalar_of_equals hv.scalar heq
        cases hscalar
      simp [hnot, Json.equals_comm v]
    | _ => simp [Json.equals_comm v]

/-- Joining by keys is filtering by each of them. -/
theorem Stage.agree_eq {here there : String} {d : Document} {values : List Json}
    (hd : d.joinValues here = values) (hvalues : ∀ v ∈ values, v.IsKey) (e : Document) :
    agree here there d e = values.any (Filter.equals e there) := by
  rw [agree, hd, Bool.eq_iff_iff, List.any_eq_true, List.any_eq_true]
  constructor
  · rintro ⟨w, hw, hany⟩
    obtain ⟨v, hv, heq⟩ := List.any_eq_true.mp hany
    refine ⟨v, hv, ?_⟩
    rw [← Document.any_joinValues e there (hvalues v hv)]
    exact List.any_eq_true.mpr ⟨w, hw, heq⟩
  · rintro ⟨v, hv, heq⟩
    rw [← Document.any_joinValues e there (hvalues v hv)] at heq
    obtain ⟨w, hw, heq⟩ := List.any_eq_true.mp heq
    exact ⟨w, hw, List.any_eq_true.mpr ⟨v, hv, heq⟩⟩

/-- Joining by the key under a field is filtering by it. -/
theorem Stage.agree_of_get? {here : String} (hhere : IsField here) {d : Document} {v : Json}
    (hd : d.get? here = some v) (hv : v.IsKey) (there : String) (e : Document) :
    agree here there d e = Filter.equals e there v := by
  have hvalues : d.joinValues here = [v] := Document.joinValues_of_get? hhere hd hv.scalar
  rw [agree_eq hvalues (fun w hw => List.mem_singleton.mp hw ▸ hv)]
  exact Bool.or_false _

/-! ## The links of several documents -/

/-- What the objects of an array hold at a field. -/
theorem Json.collect_objects (field : String) (rows : List Document) :
    Json.collect (rows.map .object) field [] = rows.filterMap (·.get? field) := by
  induction rows with
  | nil => rfl
  | cons row rows ih =>
    rw [List.map_cons, collect, ih]
    simp only [Document.getEntry?_eq, Json.get?_nil]
    cases hget : row.get? field with
    | none => simp [hget]
    | some v =>
      rw [List.filterMap_cons, hget]
      cases v <;> rfl

/-- A path through a field that holds documents leads to what they hold at the rest. -/
theorem Document.joinValues_under {field onward : String} (hfield : IsField field)
    (honward : IsField onward) {d : Document} {rows : List Document}
    (hd : d.get? field = some (.array (rows.map .object))) :
    d.joinValues (field ++ "." ++ onward) = rows.filterMap (·.get? onward) := by
  rw [joinValues, at?, Path.ofString_under hfield, Path.ofString_field honward, Json.get?,
    getEntry?_eq, hd, Option.bind_some, Json.get?, Json.collect_objects]

/-! ## Dropping repeated links -/

theorem Filter.equals_congr {v w : Json} (hv : v.isScalar = true) (h : v.same w = true)
    (d : Document) (path : String) : equals d path v = equals d path w := by
  rw [equals, equals]
  cases d.candidates path with
  | none => exact Json.isNull_congr_of_same h
  | some values =>
    have hcongr : (fun x : Json => x.equals v) = fun x => x.equals w :=
      funext (Json.equals_congr_of_same hv h)
    show values.any (fun x => x.equals v) = values.any (fun x => x.equals w)
    rw [hcongr]

namespace RelationHandle

/-- The links of documents, each once, are met where the canonical form of one of their keys is. -/
theorem any_linkValues_of_keys {field : String} {docs : List Document}
    (h : ∀ d ∈ docs, d.KeysAt field) (e : Document) (path : String) :
    (linkValues field docs).any (Filter.equals e path) =
      (docs.filterMap (·.get? field)).any fun v => Filter.equals e path v.canonicalize := by
  have hkeys : ∀ v ∈ docs.filterMap (·.get? field), v.IsKey := by
    intro v hv
    obtain ⟨d, hd, hget⟩ := List.mem_filterMap.mp hv
    exact h d hd v hget
  have hkept : (docs.filterMap (·.get? field)).filter (fun v => !v.isNull) =
      docs.filterMap (·.get? field) := by
    rw [List.filter_eq_self]
    intro v hv
    rw [Json.isNull_eq_false (hkeys v hv).notNull]
    rfl
  -- Taking in keys one by one, the links found so far and those to come are met as before.
  have hfold : ∀ (values found : List Json), (∀ v ∈ values, v.IsKey) →
      (values.foldl (fun found v =>
        let v := v.canonicalize
        if found.any (· == v) then found else found ++ [v]) found).any (Filter.equals e path) =
      (found.any (Filter.equals e path) ||
        values.any fun v => Filter.equals e path v.canonicalize) := by
    intro values
    induction values with
    | nil => simp
    | cons v values ih =>
      intro found hvalues
      have hv : v.canonicalize.IsLink := (hvalues v List.mem_cons_self).isLink_canonicalize
      rw [List.foldl_cons, ih _ fun w hw => hvalues w (List.mem_cons_of_mem v hw), List.any_cons]
      simp only
      split
      · next hany =>
        obtain ⟨u, hu, hsame⟩ := List.any_eq_true.mp hany
        have hcongr : Filter.equals e path u = Filter.equals e path v.canonicalize :=
          Filter.equals_congr (Json.isScalar_of_same hv.scalar hsame) hsame e path
        cases hmet : Filter.equals e path v.canonicalize with
        | false => rw [Bool.false_or]
        | true =>
          have hfound : found.any (Filter.equals e path) = true :=
            List.any_eq_true.mpr ⟨u, hu, hcongr.trans hmet⟩
          rw [hfound, Bool.true_or, Bool.true_or]
      · rw [List.any_append, List.any_cons, List.any_nil, Bool.or_false, Bool.or_assoc]
  rw [linkValues, hkept]
  have hall := hfold (docs.filterMap (·.get? field)) [] hkeys
  rw [List.any_nil, Bool.false_or] at hall
  exact hall

/-- The links of documents, each once, are met where one of the links is. -/
theorem any_linkValues {field : String} {docs : List Document} (h : ∀ d ∈ docs, d.LinksAt field)
    (e : Document) (path : String) :
    (linkValues field docs).any (Filter.equals e path) =
      (docs.filterMap (·.get? field)).any (Filter.equals e path) := by
  rw [any_linkValues_of_keys (fun d hd v hv => (h d hd v hv).isKey)]
  rw [Bool.eq_iff_iff, List.any_eq_true, List.any_eq_true]
  refine exists_congr fun v => and_congr_right fun hv => ?_
  obtain ⟨d, hd, hget⟩ := List.mem_filterMap.mp hv
  rw [(h d hd v hget).canonical]

/-- The links to identifiers that are read from documents are those that they hold. -/
theorem toJson_mem_linkValues {field : String} {docs : List Document} {id : DocumentId}
    (hdocs : ∀ d ∈ docs, d.LinksAt field) :
    id.toJson ∈ linkValues field docs ↔ ∃ d ∈ docs, d.get? field = some id.toJson := by
  -- What a list of links meets decides whether an identifier is among them.
  have hmet : ∀ values : List Json,
      values.any (Filter.equals [("_id", id.toJson)] "_id") = true ↔ id.toJson ∈ values := by
    intro values
    have hone : ∀ v : Json, Filter.equals [("_id", id.toJson)] "_id" v = true ↔ v = id.toJson := by
      intro v
      rw [Filter.equals_of_get? (v := id.toJson) (by decide) rfl (Json.ne_array_of_isScalar rfl),
        Json.equals_comm]
      exact Json.equals_string_iff
    simp only [List.any_eq_true, hone, exists_eq_right]
  rw [← hmet, any_linkValues hdocs, hmet, List.mem_filterMap]

end RelationHandle

end DocMapper
