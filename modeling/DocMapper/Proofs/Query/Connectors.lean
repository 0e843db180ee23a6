import DocMapper.Proofs.Query.Plan
import Mathlib.Data.List.SplitBy

/-! # Conditions tied by connectors

AND binds tighter than OR: a list of conditions, cut before every OR but the first, is a list of
**alternatives** (`Term.alternatives`), and a document must meet all conditions of one of them.

The conditions are put together into one filter. Where every condition can be tested on its own, the
filter can be tested too, and holds if all conditions of an alternative do (`Term.acceptsAll_eq`);
the stage of the conditions keeps the documents where it holds (`Query.exists_conditionStage`). What
a condition says on its own is its `Test.answer`. -/

namespace DocMapper

/-- How a list is split depends on how the rest of it is: the first item joins the first part, if it
is related to the head of that part, or makes a part of its own. -/
theorem splitBy_cons {α : Type} (r : α → α → Bool) (a : α) (l : List α) :
    (a :: l).splitBy r =
      match l.splitBy r with
      | (b :: part) :: parts =>
        if r a b then (a :: b :: part) :: parts else [a] :: (b :: part) :: parts
      | parts => [a] :: parts := by
  obtain ⟨hflat, hnil, hrelated, hcut⟩ := List.splitBy_eq_iff.mp (Eq.refl (l.splitBy r))
  match hparts : l.splitBy r with
  | [] =>
    rw [List.splitBy_eq_nil] at hparts
    rw [hparts]
    rfl
  | [] :: parts =>
    rw [hparts] at hnil
    exact absurd List.mem_cons_self hnil
  | (b :: part) :: parts =>
    rw [hparts] at hflat hnil hrelated hcut
    simp only
    split
    · next hr =>
      refine List.splitBy_eq_iff.mpr ⟨by rw [hflat]; rfl, ?_, ?_, ?_⟩
      · simpa using hnil
      · rw [List.forall_mem_cons] at hrelated ⊢
        exact ⟨List.isChain_cons_cons.mpr ⟨hr, hrelated.1⟩, hrelated.2⟩
      · -- The last item of the first part stays what it is.
        cases parts with
        | nil => exact List.isChain_singleton _
        | cons next parts =>
          rw [List.isChain_cons_cons] at hcut ⊢
          obtain ⟨⟨hlast, hhead, hr'⟩, hcut⟩ := hcut
          exact ⟨⟨List.cons_ne_nil _ _, hhead, by rwa [List.getLast_cons hlast]⟩, hcut⟩
    · next hr =>
      refine List.splitBy_eq_iff.mpr ⟨by rw [hflat]; rfl, ?_, ?_, ?_⟩
      · simpa using hnil
      · rw [List.forall_mem_cons]
        exact ⟨List.isChain_singleton a, hrelated⟩
      · refine List.isChain_cons_cons.mpr ⟨⟨List.cons_ne_nil _ _, List.cons_ne_nil _ _, ?_⟩, hcut⟩
        simpa using hr

/-! ## Filters that combine filters -/

namespace Filter

theorem acceptsEach_eq (d : Document) (filters : List Json) :
    acceptsEach d filters = filters.map (accepts d) := by
  induction filters with
  | nil => rfl
  | cons filter filters ih => rw [acceptsEach, ih, List.map_cons]

variable {d : Document} {filters : List Json} {results : List Bool}

/-- A list of filters that cannot fail holds where all of them do. -/
theorem accepts_and (h : filters.map (accepts d) = results.map Except.ok) :
    accepts d (.single "$and" (.array filters)) = .ok (results.all id) := by
  rw [Json.single, accepts, entriesHold, acceptsEach_eq, h, allOutcomes_ok, ok_bind]
  show (if results.all id then entriesHold d [] else .ok false) = _
  cases results.all id with
  | false => rfl
  | true => rfl

/-- Of a list of filters that cannot fail, some holds where one of them does. -/
theorem accepts_or (h : filters.map (accepts d) = results.map Except.ok) :
    accepts d (.single "$or" (.array filters)) = .ok (results.any id) := by
  rw [Json.single, accepts, entriesHold, acceptsEach_eq, h, anyOutcome_ok, ok_bind]
  show (if results.any id then entriesHold d [] else .ok false) = _
  cases results.any id with
  | false => rfl
  | true => rfl

end Filter

/-! ## A condition on its own -/

/-- What a test says of a column of a document. -/
def Test.answer (d : Document) (column : String) : Test → Except QueryFault Bool
  | compare .equal v => .ok (Filter.equals d column v)
  | compare .notEqual v => .ok (!Filter.equals d column v)
  | compare .greater v => .ok (Filter.inRange d column v (· == .gt))
  | compare .atLeast v => .ok (Filter.inRange d column v (· != .lt))
  | compare .less v => .ok (Filter.inRange d column v (· == .lt))
  | compare .atMost v => .ok (Filter.inRange d column v (· != .gt))
  | compare .like (.string pattern) =>
    Filter.matchesPattern d column "i" (.string (likePattern pattern))
  | compare .like _ => .error (.likeNotString column)
  | isIn values => .ok (values.any (Filter.equals d column))
  | notIn values => .ok (!values.any (Filter.equals d column))
  | isNull => .ok (Filter.equals d column .null)
  | notNull => .ok (!Filter.equals d column .null)
  | between low high =>
    .ok (Filter.inRange d column low (· != .lt) && Filter.inRange d column high (· != .gt))

namespace Term

variable {d : Document} {t : Term} {terms : List Term} {meets : Term → Bool}

/-- Whether a document meets a condition. -/
def accepts (d : Document) (t : Term) : Except QueryFault Bool := t.filter >>= Filter.accepts d

theorem accepts_of_filter {f : Json} (h : t.filter = .ok f) :
    t.accepts d = Filter.accepts d f := by
  rw [accepts, h, ok_bind]

/-- A condition that can be tested has a filter. -/
theorem exists_filter_of_accepts {b : Bool} (h : t.accepts d = .ok b) : ∃ f, t.filter = .ok f :=
  let ⟨f, hf, _⟩ := bind_eq_ok.mp h
  ⟨f, hf⟩

/-- The filter of a condition on a plain column says what the test does. -/
theorem accepts_eq_answer (d : Document) (t : Term) (hcolumn : startsDollar t.column = false) :
    t.accepts d = t.test.answer d t.column := by
  obtain ⟨connector, column, test⟩ := t
  have hfilter : ∀ operators, test.operators column = .ok operators →
      accepts d ⟨connector, column, test⟩ = Filter.conditionHolds d column (.object operators) := by
    intro operators hoperators
    rw [accepts_of_filter (map_eq_ok.mpr ⟨operators, hoperators, rfl⟩)]
    exact Filter.entriesHold_single hcolumn d _
  have hsingle : ∀ operator operand, test.operators column = .ok [(operator, operand)] →
      startsDollar operator = true → operator ≠ "$not" →
        accepts d ⟨connector, column, test⟩ = Filter.holds d column
          (Filter.patternOptions [(operator, operand)]) operator operand := by
    intro operator operand hoperators hdollar hnot
    exact (hfilter _ hoperators).trans (Filter.conditionHolds_single hdollar hnot d column operand)
  -- All tests are one operator, but for LIKE, which brings its options, and BETWEEN.
  cases test with
  | compare comparison v =>
    cases comparison with
    | like =>
      cases v with
      | string pattern =>
        have hnot : "$not" ∉ Document.keys [("$regex", .string (likePattern pattern)),
            ("$options", .string "i")] := by simp
        refine (hfilter _ rfl).trans ((Filter.conditionHolds_operators rfl hnot d column).trans ?_)
        show allOutcomes [Filter.matchesPattern d column "i" (.string (likePattern pattern)),
          .ok true] = Filter.matchesPattern d column "i" (.string (likePattern pattern))
        cases Filter.matchesPattern d column "i" (.string (likePattern pattern)) with
        | error fault => rfl
        | ok b => cases b <;> rfl
      | _ => rfl
    | _ => exact hsingle _ _ rfl (by decide) (by decide)
  | between low high =>
    have hnot : "$not" ∉ Document.keys [("$gte", low), ("$lte", high)] := by simp
    refine (hfilter _ rfl).trans ((Filter.conditionHolds_operators rfl hnot d column).trans ?_)
    show allOutcomes ([Filter.inRange d column low (· != .lt),
      Filter.inRange d column high (· != .gt)].map Except.ok) = _
    rw [allOutcomes_ok, List.all_cons, List.all_cons, List.all_nil, Bool.and_true]
    rfl
  | _ => exact hsingle _ _ rfl (by decide) (by decide)

/-! ## Alternatives -/

/-- The conditions of a list, cut before every one that is tied by OR, but for the first. -/
def alternatives (terms : List Term) : List (List Term) :=
  terms.splitBy fun _ t => t.connector == .and

theorem alternatives_eq_nil : alternatives terms = [] ↔ terms = [] := List.splitBy_eq_nil

theorem alternatives_cons (t : Term) (terms : List Term) :
    alternatives (t :: terms) =
      match alternatives terms with
      | (u :: part) :: parts =>
        if u.connector == .and then (t :: u :: part) :: parts else [t] :: (u :: part) :: parts
      | parts => [t] :: parts := by
  rw [alternatives, alternatives, splitBy_cons]
  generalize terms.splitBy _ = parts
  match parts with
  | [] => rfl
  | [] :: parts => rfl
  | (u :: part) :: parts => rfl

theorem mem_of_mem_alternatives {part : List Term} (h : part ∈ alternatives terms) (ht : t ∈ part) :
    t ∈ terms := by
  rw [← List.flatten_splitBy (fun _ t => t.connector == .and) terms]
  exact List.mem_flatten_of_mem h ht

/-- Conditions that are all tied by AND have one alternative. -/
theorem alternatives_of_and (hne : terms ≠ []) (h : ∀ t ∈ terms, t.connector = .and) :
    alternatives terms = [terms] := by
  refine List.splitBy_of_isChain hne (List.isChain_iff_forall_rel_of_append_cons_cons.mpr ?_)
  rintro t u before after rfl
  exact beq_iff_eq.mpr (h u (by simp))

/-- Cutting a list of conditions with what is made of them cuts the conditions into alternatives. -/
theorem cut_map {α : Type} (make : Term → α) (terms : List Term) :
    cut (terms.map fun t => (t.connector, make t)) =
      (alternatives terms).map fun part => part.map fun t => (t.connector, make t) := by
  induction terms with
  | nil => rfl
  | cons t terms ih =>
    -- No part is empty, so the first one has a head, whose connector decides.
    have hnil : [] ∉ alternatives terms := List.nil_notMem_splitBy _ terms
    rw [List.map_cons, cut, ih, alternatives_cons]
    revert hnil
    generalize alternatives terms = parts
    intro hnil
    match parts, hnil with
    | [], _ => rfl
    | [] :: parts, hnil => exact absurd List.mem_cons_self hnil
    | (u :: part) :: parts, _ =>
      simp only [List.map_cons, beq_iff_eq]
      split
      · rfl
      · rfl

/-- The filter of alternatives, each given by the filters of its conditions. -/
def combine (parts : List (List Json)) : Option Json :=
  match parts.map fun part => Json.single "$and" (.array part) with
  | [] => none
  | [filter] => some filter
  | filters => some (.single "$or" (.array filters))

theorem combine_eq_none {parts : List (List Json)} : combine parts = none ↔ parts = [] := by
  match parts with
  | [] => exact iff_of_true rfl rfl
  | [part] => exact iff_of_false nofun nofun
  | part :: next :: parts => exact iff_of_false nofun nofun

/-- The filter of a condition with the connector that ties it. -/
def tied (t : Term) : Except QueryFault (Connector × Json) := do
  return (t.connector, ← t.filter)

theorem filterAll_eq (terms : List Term) :
    filterAll terms =
      (terms.mapM tied).map fun items => combine ((cut items).map fun part => part.map (·.2)) := by
  rw [filterAll]
  show terms.mapM tied >>= _ = _
  cases terms.mapM tied with
  | error fault => rfl
  | ok items =>
    rw [ok_bind, map_ok, combine, List.map_map]
    match cut items with
    | [] => rfl
    | [part] => rfl
    | part :: next :: parts => rfl

/-- The filters of conditions are put together by alternatives. -/
theorem filterAll_of_filters {make : Term → Json} (h : ∀ t ∈ terms, t.filter = .ok (make t)) :
    filterAll terms = .ok (combine ((alternatives terms).map fun part => part.map make)) := by
  have htied : terms.mapM tied = .ok (terms.map fun t => (t.connector, make t)) := by
    refine mapM_ok fun t ht => ?_
    rw [tied, h t ht]
    rfl
  rw [filterAll_eq, htied, map_ok, cut_map, List.map_map]
  congr 2
  refine List.map_congr_left fun part _ => ?_
  rw [Function.comp_apply, List.map_map]
  rfl

/-- Conditions that have filters have one for all of them. -/
theorem exists_filterAll (h : ∀ t ∈ terms, ∃ f, t.filter = .ok f) :
    ∃ make : Term → Json, (∀ t ∈ terms, t.filter = .ok (make t)) ∧
      filterAll terms = .ok (combine ((alternatives terms).map fun part => part.map make)) := by
  have hmake : ∀ t ∈ terms, t.filter = .ok (t.filter.toOption.getD .null) := by
    intro t ht
    obtain ⟨f, hf⟩ := h t ht
    rw [hf]
    rfl
  exact ⟨_, hmake, filterAll_of_filters hmake⟩

/-- A list is cut in the same places whatever the connector of its first item is. -/
theorem cut_cons_snd {α : Type} (connector connector' : Connector) (a : α)
    (items : List (Connector × α)) :
    (cut ((connector, a) :: items)).map (fun part => part.map (·.2)) =
      (cut ((connector', a) :: items)).map fun part => part.map (·.2) := by
  rw [cut, cut]
  split
  · split
    · rfl
    · rfl
  · rfl

/-- The connector of the first condition has no influence. -/
theorem filterAll_modifyHead (terms : List Term) (connector : Connector) :
    filterAll (terms.modifyHead fun t => { t with connector }) = filterAll terms := by
  cases terms with
  | nil => rfl
  | cons t terms =>
    -- The filter of the first condition does not show its connector, and no cut asks for it.
    rw [filterAll_eq, filterAll_eq, List.modifyHead_cons, List.mapM_cons, List.mapM_cons]
    have htied : ∀ connector, tied { t with connector } = t.filter.map fun f => (connector, f) := by
      intro connector
      show t.filter >>= _ = _
      cases t.filter <;> rfl
    rw [htied, show tied t = _ from htied t.connector]
    cases t.filter with
    | error fault => rfl
    | ok f =>
      rw [map_ok, map_ok, ok_bind, ok_bind]
      cases terms.mapM tied with
      | error fault => rfl
      | ok items => exact congrArg (Except.ok ∘ combine) (cut_cons_snd connector t.connector f items)

/-! ## All conditions -/

/-- Whether a document meets the filter of all conditions. Without conditions there is none, and
every document does. -/
def acceptsAll (d : Document) (terms : List Term) : Except QueryFault Bool := do
  match ← filterAll terms with
  | none => return true
  | some filter => Filter.accepts d filter

/-- Filters that are combined hold where all of the filters of a part do. -/
theorem accepts_combine {parts : List (List Term)} {make : Term → Json} {f : Json}
    (h : ∀ part ∈ parts, ∀ t ∈ part, Filter.accepts d (make t) = .ok (meets t))
    (hf : combine (parts.map fun part => part.map make) = some f) :
    Filter.accepts d f = .ok (parts.any fun part => part.all meets) := by
  have hpart : ∀ part ∈ parts, Filter.accepts d (.single "$and" (.array (part.map make))) =
      .ok (part.all meets) := by
    intro part hpart
    have hresults : (part.map make).map (Filter.accepts d) = (part.map meets).map Except.ok := by
      rw [List.map_map, List.map_map]
      exact List.map_congr_left (h part hpart)
    rw [Filter.accepts_and hresults, List.all_map]
    rfl
  match parts with
  | [] => cases hf
  | [part] =>
    cases hf
    rw [hpart part List.mem_cons_self, List.any_cons, List.any_nil, Bool.or_false]
  | part :: next :: parts =>
    cases hf
    have hresults : ((part :: next :: parts).map fun part =>
        Json.single "$and" (.array (part.map make))).map (Filter.accepts d) =
          ((part :: next :: parts).map fun part => part.all meets).map Except.ok := by
      rw [List.map_map, List.map_map]
      exact List.map_congr_left hpart
    rw [List.map_map]
    refine (Filter.accepts_or hresults).trans ?_
    rw [List.any_map]
    rfl

/-- Conditions that can be tested can be tested together: a document meets them if there are none,
or if it meets all conditions of an alternative. -/
theorem acceptsAll_eq (h : ∀ t ∈ terms, t.accepts d = .ok (meets t)) :
    acceptsAll d terms =
      .ok (terms.isEmpty || (alternatives terms).any fun part => part.all meets) := by
  obtain ⟨make, hmake, hall⟩ := exists_filterAll fun t ht => exists_filter_of_accepts (h t ht)
  have hnone : combine ((alternatives terms).map fun part => part.map make) = none ↔ terms = [] :=
    combine_eq_none.trans (List.map_eq_nil_iff.trans alternatives_eq_nil)
  rw [acceptsAll, hall, ok_bind]
  -- There is no filter exactly if there are no conditions.
  split
  · next hcombine =>
    rw [hnone.mp hcombine]
    rfl
  · next f hcombine =>
    have hne : terms.isEmpty = false := by
      refine List.isEmpty_eq_false_iff.mpr fun hnil => ?_
      rw [hnone.mpr hnil] at hcombine
      cases hcombine
    rw [hne, Bool.false_or]
    refine accepts_combine (fun part hpart t ht => ?_) hcombine
    have hmem := mem_of_mem_alternatives hpart ht
    rw [← accepts_of_filter (hmake t hmem)]
    exact h t hmem

/-- Conditions that are all tied by AND must all be met. -/
theorem acceptsAll_of_and (hand : ∀ t ∈ terms, t.connector = .and)
    (h : ∀ t ∈ terms, t.accepts d = .ok (meets t)) :
    acceptsAll d terms = .ok (terms.all meets) := by
  rw [acceptsAll_eq h]
  cases terms with
  | nil => rfl
  | cons t terms =>
    rw [alternatives_of_and (List.cons_ne_nil t terms) hand, List.any_cons, List.any_nil,
      Bool.or_false]
    rfl

end Term

/-! ## The stage of conditions -/

/-- Conditions that have filters have a stage, which keeps the documents that meet them. -/
theorem Query.exists_conditionStage {terms : List Term} (h : ∀ t ∈ terms, ∃ f, t.filter = .ok f) :
    ∃ stage, conditionStage? terms = .ok stage ∧ ∀ db rest docs (meets : Document → Bool),
      (∀ d ∈ docs, Term.acceptsAll d terms = .ok (meets d)) →
        Stage.runAll db (stage.toList ++ rest) docs =
          Stage.runAll db rest (docs.filter meets) := by
  obtain ⟨make, -, hall⟩ := Term.exists_filterAll h
  generalize Term.combine _ = filter at hall
  refine ⟨filter.map .filter, by rw [conditionStage?, hall, map_ok], ?_⟩
  intro db rest docs meets hmeets
  simp only [Term.acceptsAll, hall, ok_bind] at hmeets
  cases filter with
  | none =>
    have hkept : docs.filter meets = docs :=
      List.filter_eq_self.mpr fun d hd => (Except.ok.inj (hmeets d hd)).symm
    rw [hkept]
    rfl
  | some f =>
    exact Stage.runAll_append_ok
      ((Stage.runAll_singleton db _ docs).trans (Stage.run_filter hmeets db)) rest

namespace Term

/-- **AND binds tighter than OR.** If each of a list of conditions on plain columns can be tested
with a document on its own, then what that gives is what the test of the condition says, and the
document meets the list if there are no conditions, or if all conditions of one of the parts are
met that the list has when it is cut before every OR but the first. The stage of the conditions
keeps or drops the document accordingly. The connector of the first condition has no influence. -/
theorem and_binds_tighter {d : Document} {terms : List Term} {meets : Term → Bool}
    (hplain : ∀ t ∈ terms, startsDollar t.column = false)
    (hmeets : ∀ t ∈ terms, t.accepts d = .ok (meets t)) :
    (∀ t ∈ terms, t.test.answer d t.column = .ok (meets t)) ∧
      (∃ met, met = (terms.isEmpty || (alternatives terms).any fun part => part.all meets) ∧
        acceptsAll d terms = .ok met ∧
        ∃ stage, Query.conditionStage? terms = .ok stage ∧
          ∀ db, Stage.runAll db stage.toList [d] = .ok (if met then [d] else [])) ∧
      ∀ connector, filterAll (terms.modifyHead fun t => { t with connector }) =
        filterAll terms := by
  have hall := acceptsAll_eq hmeets
  refine ⟨fun t ht => ?_, ⟨_, rfl, hall, ?_⟩, filterAll_modifyHead terms⟩
  · rw [← accepts_eq_answer d t (hplain t ht)]
    exact hmeets t ht
  · obtain ⟨stage, hstage, hrun⟩ :=
      Query.exists_conditionStage fun t ht => exists_filter_of_accepts (hmeets t ht)
    refine ⟨stage, hstage, fun db => ?_⟩
    have hkept := hrun db [] [d] (fun _ => _) (List.forall_mem_singleton.mpr hall)
    rw [List.append_nil, Stage.runAll, List.filter_singleton, Bool.cond_eq_ite] at hkept
    exact hkept

end Term

/-! ## Applicants by name and age -/

namespace ApplicantSample

/-- `name` is Bob and `age` at least 18, or `name` starts with an a and `age` is from 20 to 40. -/
def conditions : List Term := [
  ⟨.or, "name", .compare .equal (.string "Bob")⟩,
  ⟨.and, "age", .compare .atLeast (.int 18)⟩,
  ⟨.or, "name", .compare .like (.string "a%")⟩,
  ⟨.and, "age", .between (.int 20) (.int 40)⟩]

def bob : Document := [("name", .string "Bob"), ("age", .int 50)]

/-- Whether a condition says yes to Bob. -/
def holds (t : Term) : Bool := (t.test.answer bob t.column).toOption.getD false

/-- Bob is met by the first alternative. If OR did not bind weaker, his age would be asked for by the
last condition too. -/
theorem bob_met :
    (∀ t ∈ conditions, startsDollar t.column = false) ∧
      (∀ t ∈ conditions, t.accepts bob = .ok (holds t)) ∧ conditions.map holds =
        [true, true, false, false] ∧ Term.acceptsAll bob conditions = .ok true := by
  have hplain : ∀ t ∈ conditions, startsDollar t.column = false := by decide
  have hmeets : ∀ t ∈ conditions, t.accepts bob = .ok (holds t) := by
    simp only [conditions, List.forall_mem_cons]
    exact ⟨rfl, rfl, rfl, rfl, nofun⟩
  obtain ⟨-, ⟨met, hmet, hall, -⟩, -⟩ := Term.and_binds_tighter hplain hmeets
  refine ⟨hplain, hmeets, by decide +kernel, hall.trans ?_⟩
  rw [hmet]
  exact congrArg Except.ok (by decide +kernel)

end ApplicantSample

end DocMapper
