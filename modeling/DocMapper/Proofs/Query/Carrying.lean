import DocMapper.Proofs.Query.Reading

/-! # Stages that carry a relation along

Two runs over lists of documents that are related one by one can be followed stage by stage: if a
stage carries the relation (`Stage.Carries`), it succeeds on the first list where it does on the
second, and leaves lists that are related again. A condition does if related documents meet it
alike; a sort does if they agree on its columns, since it puts them in the same places
(`Stage.forall₂_sorted`); stretches that are cut out do in any case.

So the conditions and the sort of a query carry every relation between documents that agree on all
that the query refers to, as long as it is carried by the stages that add temporary fields for a
sort and drop them again (`Query.carries_stages`). -/

namespace DocMapper

/-! ## Stages that carry a relation along -/

namespace Stage

variable {db : Collections} {R : Document → Document → Prop} {stages rest : List Stage}

/-- Stages that, where they succeed on a list of documents, succeed on each list of documents that
are related to those one by one, and leave related documents. -/
def Carries (db : Collections) (R : Document → Document → Prop) (stages : List Stage) : Prop :=
  ∀ docs docs' out', List.Forall₂ R docs docs' → runAll db stages docs' = .ok out' →
    ∃ out, runAll db stages docs = .ok out ∧ List.Forall₂ R out out'

theorem carries_nil : Carries db R [] := by
  rintro docs docs' _ h ⟨⟩
  exact ⟨docs, rfl, h⟩

theorem Carries.append (h : Carries db R stages) (h' : Carries db R rest) :
    Carries db R (stages ++ rest) := by
  intro docs docs' out' hdocs hout'
  obtain ⟨mid', hmid', hrest'⟩ := runAll_append_eq_ok.mp hout'
  obtain ⟨mid, hmid, hrelated⟩ := h docs docs' mid' hdocs hmid'
  obtain ⟨out, hrest, hout⟩ := h' mid mid' out' hrelated hrest'
  exact ⟨out, runAll_append_eq_ok.mpr ⟨mid, hmid, hrest⟩, hout⟩

/-- A stage that takes documents one by one carries what it carries for each of them. -/
theorem carries_of_mapM {f : Document → Except QueryFault Document}
    (hrun : ∀ docs, runAll db stages docs = docs.mapM f)
    (h : ∀ d d' e', R d d' → f d' = .ok e' → ∃ e, f d = .ok e ∧ R e e') :
    Carries db R stages := by
  intro docs docs' out' hdocs hout'
  rw [hrun, mapM_eq_ok_iff] at hout'
  simp only [hrun, mapM_eq_ok_iff]
  induction hdocs generalizing out' with
  | nil =>
    cases hout'
    exact ⟨[], .nil, .nil⟩
  | cons hd _ ih =>
    cases hout' with
    | cons he' hrest' =>
      obtain ⟨e, he, hrelated⟩ := h _ _ _ hd he'
      obtain ⟨out, hout, hall⟩ := ih _ hrest'
      exact ⟨e :: out, .cons he hout, .cons hrelated hall⟩

/-- A condition that related documents meet alike. -/
theorem carries_filter {filter : Json}
    (h : ∀ d d', R d d' → Filter.accepts d filter = Filter.accepts d' filter) :
    Carries db R [.filter filter] := by
  intro docs docs' out' hdocs hout'
  rw [runAll_singleton, run, matching] at hout'
  simp only [runAll_singleton, run, matching]
  induction hdocs generalizing out' with
  | nil =>
    cases hout'
    exact ⟨[], rfl, .nil⟩
  | @cons d d' docs docs' hd _ ih =>
    rw [filterM_cons] at hout'
    obtain ⟨keep, hkeep, hout'⟩ := bind_eq_ok.mp hout'
    obtain ⟨rest', hrest', hout'⟩ := bind_eq_ok.mp hout'
    cases hout'
    obtain ⟨rest, hrest, hall⟩ := ih _ hrest'
    rw [filterM_cons, h d d' hd, hkeep, hrest]
    refine ⟨_, rfl, ?_⟩
    cases keep with
    | true => exact .cons hd hall
    | false => exact hall

/-- Sorting related documents by what they agree on keeps them related: they are put in the same
places. -/
theorem forall₂_sorted {keys : List (String × Bool)} {docs docs' : List Document}
    (hR : ∀ d d', R d d' → ∀ path ∈ keys.map (·.1), d.at? path = d'.at? path)
    (h : List.Forall₂ R docs docs') : List.Forall₂ R (sorted keys docs) (sorted keys docs') := by
  -- Both lists are the two sides of one list of pairs, which is sorted by either side.
  obtain ⟨pairs, hpairs, rfl, rfl⟩ : ∃ pairs : List (Document × Document),
      (∀ p ∈ pairs, R p.1 p.2) ∧ pairs.map (·.1) = docs ∧ pairs.map (·.2) = docs' := by
    refine ⟨docs.zip docs', fun p hp => (List.forall₂_iff_zip.mp h).2 hp, ?_, ?_⟩
    · exact List.map_fst_zip (Nat.le_of_eq h.length_eq)
    · exact List.map_snd_zip (Nat.le_of_eq h.length_eq.symm)
  have hfirst := List.map_mergeSort (f := Prod.fst) (l := pairs)
    (r := fun p q => compareBy keys p.1 q.1 != .gt) (s := fun d e => compareBy keys d e != .gt)
    fun p _ q _ => rfl
  have hsecond := List.map_mergeSort (f := Prod.snd) (l := pairs)
    (r := fun p q => compareBy keys p.1 q.1 != .gt) (s := fun d e => compareBy keys d e != .gt)
    fun p hp q hq => by
      rw [compareBy_congr (hR _ _ (hpairs p hp)) (hR _ _ (hpairs q hq))]
  rw [sorted, sorted, ← hfirst, ← hsecond, List.forall₂_map_left_iff, List.forall₂_map_right_iff,
    List.forall₂_same]
  exact fun p hp => hpairs p (List.mem_mergeSort.mp hp)

theorem carries_sort {spec : Document}
    (h : ∀ d d', R d d' → ∀ path ∈ spec.keys, d.at? path = d'.at? path) :
    Carries db R [.sort spec] := by
  intro docs docs' out' hdocs hout'
  rw [runAll_singleton, run] at hout'
  obtain ⟨keys, hkeys, hout'⟩ := bind_eq_ok.mp hout'
  cases hout'
  refine ⟨sorted keys docs, by rw [runAll_singleton, run, hkeys]; rfl, forall₂_sorted ?_ hdocs⟩
  rw [map_fst_sortKeys hkeys]
  exact h

theorem carries_skip (n : Nat) : Carries db R [.skip n] := by
  intro docs docs' out' hdocs hout'
  rw [runAll_singleton, run] at hout'
  cases hout'
  exact ⟨docs.drop n, by rw [runAll_singleton, run], List.forall₂_drop n hdocs⟩

theorem carries_limit (n : Nat) : Carries db R [.limit n] := by
  intro docs docs' out' hdocs hout'
  rw [runAll_singleton, run] at hout'
  cases hout'
  exact ⟨docs.take n, by rw [runAll_singleton, run], List.forall₂_take n hdocs⟩

theorem carries_option {α : Type} {stage : α → Stage} (h : ∀ a, Carries db R [stage a])
    (o : Option α) : Carries db R (o.map stage).toList := by
  cases o with
  | none => exact carries_nil
  | some a => exact h a

theorem mem_of_mem_foldl_insert {keys : List (String × Int)} {spec : Document} {path : String}
    (h : path ∈ (keys.foldl (fun d (key, direction) => d.insert key (.int direction)) spec).keys) :
    path ∈ spec.keys ∨ path ∈ keys.map (·.1) := by
  induction keys generalizing spec with
  | nil => exact .inl h
  | cons key keys ih =>
    rw [List.map_cons, List.mem_cons]
    rcases ih h with hspec | hkeys
    · rcases Document.mem_keys_insert.mp hspec with rfl | hspec
      · exact .inr (.inl rfl)
      · exact .inl hspec
    · exact .inr (.inr hkeys)

theorem carries_sortBy {keys : List (String × Int)}
    (h : ∀ d d', R d d' → ∀ path ∈ keys.map (·.1), d.at? path = d'.at? path) :
    Carries db R [.sortBy keys] := by
  refine carries_sort fun d d' hd path hpath => ?_
  rcases mem_of_mem_foldl_insert hpath with hnil | hpath
  · cases hnil
  · exact h d d' hd path hpath

end Stage

namespace Query

variable {db : Collections} {q : Query} {R : Document → Document → Prop}

/-! ## Temporary sort fields -/

theorem toList_foldedField (position : Nat) :
    (foldedField position).toList = "__order_".toList ++ Nat.toDigits 10 position := by
  show ("__order_" ++ position.repr).toList = _
  rw [String.toList_append, Nat.toList_repr]

theorem foldedField_inj {i j : Nat} (h : foldedField i = foldedField j) : i = j := by
  have hlists := congrArg String.toList h
  rw [toList_foldedField, toList_foldedField, List.append_cancel_left_eq] at hlists
  have hi := Nat.ofDigitChars_toDigits (b := 10) (n := i) (by decide) (by decide)
  rw [hlists, Nat.ofDigitChars_toDigits (by decide) (by decide)] at hi
  exact hi.symm

theorem isField_foldedField (position : Nat) : IsField (foldedField position) := by
  rw [IsField, toList_foldedField, List.mem_append, not_or]
  refine ⟨by decide, fun hdot => ?_⟩
  have hdigit := Nat.isDigit_of_mem_toDigits (by decide) (by decide) hdot
  cases hdigit

/-- The temporary fields of a sort belong to the positions of the columns that it folds. -/
theorem mem_keys_foldedFields {ordering : List SortKey} {field : String} :
    field ∈ (foldedFields ordering).keys ↔
      ∃ key position, (key, position) ∈ ordering.zipIdx ∧ key.foldsCase = true ∧
        field = foldedField position := by
  rw [foldedFields, Document.keys, List.map_map, List.mem_map]
  constructor
  · rintro ⟨⟨key, position⟩, hmem, rfl⟩
    obtain ⟨hmem, hfolds⟩ := List.mem_filter.mp hmem
    exact ⟨key, position, hmem, hfolds, rfl⟩
  · rintro ⟨key, position, hmem, hfolds, rfl⟩
    exact ⟨(key, position), List.mem_filter.mpr ⟨hmem, hfolds⟩, rfl⟩

theorem isField_of_mem_foldedFields {ordering : List SortKey} {field : String}
    (h : field ∈ (foldedFields ordering).keys) : IsField field := by
  obtain ⟨-, position, -, -, rfl⟩ := mem_keys_foldedFields.mp h
  exact isField_foldedField position

/-! ## The stages of a query -/

/-- The stages that sort carry what agrees on their columns, if they carry the temporary fields
where they use them. -/
theorem carries_orderingStages {ordering : List SortKey} {fields : List String}
    (hagree : ∀ d d', R d d' → Document.AgreeOutside fields d d')
    (hordering : ∀ key ∈ ordering, key.reference.Outside fields)
    (hdisjoint : ∀ field ∈ (foldedFields ordering).keys, field ∉ fields)
    (hfolded : foldedFields ordering ≠ [] →
      Stage.Carries db R [.addFields (foldedFields ordering)] ∧
      Stage.Carries db R [.exclude (foldedFields ordering).keys]) :
    Stage.Carries db R (orderingStages ordering) := by
  have hsort : Stage.Carries db R [.sortBy (ordering.zipIdx.map fun entry =>
      (sortField entry.1 entry.2, entry.1.direction.toInt))] := by
    refine Stage.carries_sortBy fun d d' hd path hpath => (hagree d d' hd).at? ?_
    rw [List.map_map, List.mem_map] at hpath
    obtain ⟨⟨key, position⟩, hmem, rfl⟩ := hpath
    show Path.head (sortField key position) ∉ fields
    rw [sortField]
    split
    · next hfolds =>
      rw [Path.head_field (isField_foldedField position)]
      exact hdisjoint _ (mem_keys_foldedFields.mpr ⟨key, position, hmem, hfolds, rfl⟩)
    · next hfolds =>
      have hkey := hordering key (List.fst_mem_of_mem_zipIdx hmem)
      rwa [SortKey.reference, if_neg hfolds] at hkey
  unfold orderingStages
  split
  · exact Stage.carries_nil
  · exact hsort
  · next hne =>
    obtain ⟨hadd, hdrop⟩ := hfolded hne
    exact hadd.append (hsort.append hdrop)

theorem carries_conditionStage? {terms : List Term} {stage? : Option Stage} {fields : List String}
    (h : conditionStage? terms = .ok stage?)
    (hagree : ∀ d d', R d d' → Document.AgreeOutside fields d d')
    (hterms : ∀ t ∈ terms, ∀ reference ∈ t.references, reference.Outside fields) :
    Stage.Carries db R stage?.toList := by
  obtain ⟨filter?, hfilter, rfl⟩ := map_eq_ok.mp h
  cases filter? with
  | none => exact Stage.carries_nil
  | some filter =>
    exact Stage.carries_filter fun d d' hd =>
      Term.accepts_filterAll_congr (hagree d d' hd) hterms hfilter

/-- The stages of a query that find its documents and put them in order carry what agrees on all
that the query refers to, if they carry the temporary fields of the sort where they use them. -/
theorem carries_stages {conditions : Option Stage} {fields : List String}
    (hconditions : conditionStage? q.conditions = .ok conditions)
    (hagree : ∀ d d', R d d' → Document.AgreeOutside fields d d')
    (hreferences : ∀ reference ∈ q.references, reference.Outside fields)
    (hdisjoint : ∀ field ∈ (foldedFields q.ordering).keys, field ∉ fields)
    (hfolded : foldedFields q.ordering ≠ [] →
      Stage.Carries db R [.addFields (foldedFields q.ordering)] ∧
      Stage.Carries db R [.exclude (foldedFields q.ordering).keys]) :
    Stage.Carries db R (conditions.toList ++ q.windowStages) := by
  rw [references, List.forall_mem_append] at hreferences
  have hfilter : Stage.Carries db R conditions.toList :=
    carries_conditionStage? hconditions hagree fun t ht reference hreference =>
      hreferences.1 reference (List.mem_flatMap.mpr ⟨t, ht, hreference⟩)
  have hordering := carries_orderingStages hagree
    (fun key hkey => hreferences.2 _ (List.mem_map_of_mem hkey)) hdisjoint hfolded
  exact hfilter.append ((hordering.append (Stage.carries_option Stage.carries_skip q.skip)).append
    (Stage.carries_option Stage.carries_limit q.limit))

end Query

end DocMapper
