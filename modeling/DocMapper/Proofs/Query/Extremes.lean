import DocMapper.Proofs.Comparison
import DocMapper.Proofs.Query.Plan
import DocMapper.Proofs.Filter
import DocMapper.Proofs.Relation.Loads
import Mathlib.Data.List.Induction

/-! # The least and the greatest number of a column

A summary of a column takes the documents that a query finds, keeps those with a number at the
column, and feeds what they hold there to one accumulator (`Query.aggregate_eq`). A document with an
array at the column is kept as well if some item of it is a number, and then the array is fed.

The least and the greatest value that were fed are those in the order of all values
(`Accumulator.isBest_best`), in which arrays come after numbers. So an array never is the least value
next to a number, and an array that is the least one counts as no number at all: the least number
comes out right. But any array is greater than all numbers, and so the greatest number comes out as
zero as soon as some array was kept (`Query.extremes_of_column`). -/

namespace DocMapper

/-! ## The best of some values -/

namespace Accumulator

/-- A value that is not null is one of some values, and none of them stands to it as wanted; there is
none exactly if there are no values. -/
def IsBest (wanted : Ordering) (values : List Json) : Option Json → Prop
  | none => values = []
  | some b => b ∈ values ∧ ∀ v ∈ values, v.compare b ≠ wanted

variable {wanted : Ordering} {values : List Json} {sofar : Option Json} {v : Json}

/-- What does not stand as wanted to the best value so far does not stand so to a better one. -/
theorem compare_ne_of_better {u b : Json} (hwanted : wanted ≠ .eq) (hu : u.compare b ≠ wanted)
    (hv : v.compare b = wanted) : u.compare v ≠ wanted := by
  intro huv
  cases wanted with
  | eq => exact hwanted rfl
  | lt => exact hu (Std.TransCmp.lt_trans huv hv)
  | gt => exact hu (Std.TransCmp.gt_trans huv hv)

theorem compare_self_ne (hwanted : wanted ≠ .eq) (v : Json) : v.compare v ≠ wanted := by
  have hself : v.compare v = .eq := Std.ReflCmp.compare_self
  rw [hself]
  exact hwanted.symm

/-- The better of the best value so far and a new one is the best of all. -/
theorem IsBest.better (hwanted : wanted ≠ .eq) (h : IsBest wanted values sofar)
    (hv : v.isNull = false) : IsBest wanted (values ++ [v]) (better wanted sofar (some v)) := by
  have hself := compare_self_ne hwanted v
  cases sofar with
  | none =>
    obtain rfl : values = [] := h
    cases v with
    | null => cases hv
    | _ => exact ⟨List.mem_singleton_self _, List.forall_mem_singleton.mpr hself⟩
  | some b =>
    obtain ⟨hmem, hbest⟩ := h
    have hstep : Accumulator.better wanted (some b) (some v) =
        if v.compare b == wanted then some v else some b := by
      cases v with
      | null => cases hv
      | _ => rfl
    rw [hstep]
    split
    · next hbetter =>
      refine ⟨List.mem_append_right _ (List.mem_singleton_self v), List.forall_mem_append.mpr ⟨?_,
        List.forall_mem_singleton.mpr hself⟩⟩
      exact fun u hu => compare_ne_of_better hwanted (hbest u hu) (beq_iff_eq.mp hbetter)
    · next hnot =>
      refine ⟨List.mem_append_left _ hmem, List.forall_mem_append.mpr ⟨hbest,
        List.forall_mem_singleton.mpr ?_⟩⟩
      exact fun heq => hnot (beq_iff_eq.mpr heq)

/-- The best of some values that is left after they were fed one by one. -/
def best (wanted : Ordering) (values : List Json) : Option Json :=
  values.foldl (fun sofar v => better wanted sofar (some v)) none

theorem isBest_best (hwanted : wanted ≠ .eq) (hvalues : ∀ v ∈ values, v.isNull = false) :
    IsBest wanted values (best wanted values) := by
  induction values using List.reverseRecOn with
  | nil => rfl
  | append_singleton values v ih =>
    obtain ⟨hvalues, hv⟩ := List.forall_mem_append.mp hvalues
    rw [best, List.foldl_append]
    exact (ih hvalues).better hwanted (hv v (List.mem_singleton_self v))

/-- Feeding values to an accumulator. -/
def feedEach (acc : Accumulator) (values : List Json) : Accumulator :=
  values.foldl (fun acc v => acc.feed (some v)) acc

theorem feedEach_least (sofar : Option Json) (values : List Json) :
    (least sofar).feedEach values =
      least (values.foldl (fun sofar v => better .lt sofar (some v)) sofar) := by
  induction values generalizing sofar with
  | nil => rfl
  | cons v values ih => exact ih _

theorem feedEach_greatest (sofar : Option Json) (values : List Json) :
    (greatest sofar).feedEach values =
      greatest (values.foldl (fun sofar v => better .gt sofar (some v)) sofar) := by
  induction values generalizing sofar with
  | nil => rfl
  | cons v values ih => exact ih _

end Accumulator

/-! ## Summaries -/

/-- Whether a value is a number, or an array with one among its items. -/
def Json.holdsNumber : Json → Bool
  | .array items => items.any (·.number?.isSome)
  | v => v.number?.isSome

theorem Json.typeName_eq_number (v : Json) : (v.typeName == "number") = v.number?.isSome := by
  cases v <;> rfl

namespace Aggregate

/-- The accumulator of a summary before anything was fed to it. -/
def start : Aggregate → Accumulator
  | sum => .sum .zero
  | average => .average .zero 0
  | least => .least none
  | greatest => .greatest none

theorem start_operator (a : Aggregate) : Accumulator.start a.operator = .ok a.start := by
  cases a <;> rfl

theorem operator_ne_count (a : Aggregate) : a.operator ≠ "$count" := by
  cases a <;> decide

/-- What a summary makes of values: zero if that is no number. -/
def of (a : Aggregate) (values : List Json) : Binary64 :=
  match (a.start.feedEach values).result.number? with
  | some n => n.toBinary64
  | none => Binary64.ofInt 0

theorem of_nil (a : Aggregate) : a.of [] = Binary64.ofInt 0 := by
  cases a <;> decide +kernel

end Aggregate

namespace Grouping

/-- The grouping of all documents into one group, by an accumulator that takes in a column. -/
def ofColumn (column operator : String) : Grouping :=
  ⟨.null, [⟨"value", operator, .string ("$" ++ column)⟩]⟩

variable {column operator : String}

/-- Feeding a document to the one group of a column. -/
theorem feedAll_ofColumn (hcolumn : startsDollar column = false) (hcount : operator ≠ "$count")
    (d : Document) (acc : Accumulator) :
    feedAll d (ofColumn column operator).fields [acc] = .ok [acc.feed (d.at? column)] := by
  rw [ofColumn, feedAll, Expression.eval_reference hcolumn, if_neg (by simpa using hcount)]
  rfl

/-- All documents go to one group, whose accumulator is fed what they hold at the column. -/
theorem groupsFrom_ofColumn (hcolumn : startsDollar column = false) (hcount : operator ≠ "$count")
    (docs : List Document) (acc : Accumulator) :
    (ofColumn column operator).groupsFrom [(.null, [acc])] docs =
      .ok [(.null, [docs.foldl (fun acc d => acc.feed (d.at? column)) acc])] := by
  induction docs generalizing acc with
  | nil => rfl
  | cons d docs ih =>
    have hfeed := feedAll_ofColumn hcolumn hcount d acc
    have hadd : (ofColumn column operator).add d .null [(.null, [acc])] =
        .ok [(.null, [acc.feed (d.at? column)])] := by
      rw [add, hfeed]
      rfl
    have hkey : Expression.eval d (ofColumn column operator).key = .ok (some .null) := rfl
    rw [groupsFrom, hkey, ok_bind, Option.getD_some, hadd, ok_bind, ih, List.foldl_cons]

end Grouping

namespace Query

variable {schema : Schema} {s : Store} {q : Query} {column : String} {found : List Document}
  {a : Aggregate}

/-- What the documents hold at a column that are kept for a summary of it. -/
def fedValues (column : String) (found : List Document) : List Json :=
  (found.filterMap (·.at? column)).filter Json.holdsNumber

/-- The filter of a summary keeps the documents with a number at the column, or with an array that
has one. -/
theorem conditionHolds_type (d : Document) (column : String) :
    Filter.conditionHolds d column (.single "$type" (.string "number")) =
      .ok ((d.at? column).any Json.holdsNumber) := by
  have hany : ((d.candidates column).getD []).any (·.typeName == "number") =
      (d.at? column).any Json.holdsNumber := by
    simp only [Document.candidates, Json.typeName_eq_number]
    cases d.at? column with
    | none => rfl
    | some v =>
      cases v with
      | array items => simp [Json.holdsNumber, Json.number?]
      | _ => simp [Json.holdsNumber]
  exact (Filter.conditionHolds_single rfl (by decide) d column _).trans (congrArg Except.ok hany)

/-- Whether a document is kept for a summary of a column. -/
def feeds (column : String) (d : Document) : Bool := (d.at? column).any Json.holdsNumber

theorem fedValues_eq (column : String) (found : List Document) :
    fedValues column found =
      (found.filter (feeds column)).map fun d => (d.at? column).getD .null := by
  induction found with
  | nil => rfl
  | cons d found ih =>
    rw [fedValues] at ih ⊢
    cases hat : d.at? column with
    | none => simp [feeds, hat, ih]
    | some v => cases hv : v.holdsNumber <;> simp [feeds, hat, hv, ih]

/-- Feeding documents is feeding what they hold at the column. -/
theorem foldl_feed {docs : List Document} (h : ∀ d ∈ docs, (d.at? column).isSome)
    (acc : Accumulator) :
    docs.foldl (fun acc d => acc.feed (d.at? column)) acc =
      acc.feedEach (docs.map fun d => (d.at? column).getD .null) := by
  induction docs generalizing acc with
  | nil => rfl
  | cons d docs ih =>
    obtain ⟨hd, hdocs⟩ := List.forall_mem_cons.mp h
    obtain ⟨v, hv⟩ := Option.isSome_iff_exists.mp hd
    rw [List.foldl_cons, ih hdocs, List.map_cons, hv]
    rfl

/-- The stages of a summary feed what is kept to one accumulator. -/
theorem run_aggregateStages (h : startsDollar column = false ∨ found = []) (a : Aggregate)
    (db : Collections) :
    Stage.runAll db (aggregateStages column a) found =
      .ok (if (fedValues column found).isEmpty then []
        else [[("_id", .null), ("value", (a.start.feedEach (fedValues column found)).result)]]) := by
  rcases h with hcolumn | rfl
  case inr => rfl
  have hfilter : Stage.run db (.filter (.single column (.single "$type" (.string "number")))) found =
      .ok (found.filter (feeds column)) :=
    Stage.run_filter (fun d _ => Filter.accepts_single hcolumn (conditionHolds_type d column)) db
  have hgrouping : Grouping.ofSpec [("_id", .null),
      ("value", .single a.operator (.string ("$" ++ column)))] =
        .ok (Grouping.ofColumn column a.operator) := rfl
  have hsome : ∀ d ∈ found.filter (feeds column), (d.at? column).isSome := by
    intro d hd
    have hfeeds := (List.mem_filter.mp hd).2
    cases hat : d.at? column with
    | none => simp [feeds, hat] at hfeeds
    | some v => rfl
  rw [aggregateStages, Stage.runAll, hfilter, ok_bind, Stage.runAll_singleton, Stage.run, hgrouping,
    ok_bind, fedValues_eq, ← foldl_feed hsome, List.isEmpty_map]
  cases hkept : found.filter (feeds column) with
  | nil => rfl
  | cons d kept =>
    have hstart : (Grouping.ofColumn column a.operator).add d .null [] =
        .ok [(.null, [a.start.feed (d.at? column)])] := by
      have hmapM : (Grouping.ofColumn column a.operator).fields.mapM
          (fun field => Accumulator.start field.operator) = .ok [a.start] := by
        rw [Grouping.ofColumn, List.mapM_cons, a.start_operator]
        rfl
      rw [Grouping.add, hmapM, ok_bind,
        Grouping.feedAll_ofColumn hcolumn a.operator_ne_count]
      rfl
    have hkey : Expression.eval d (Grouping.ofColumn column a.operator).key = .ok (some .null) := rfl
    rw [Grouping.run, Grouping.groupsFrom, hkey, ok_bind, Option.getD_some, hstart, ok_bind,
      Grouping.groupsFrom_ofColumn hcolumn a.operator_ne_count]
    rfl

/-- A summary of a column is what it makes of the values that are fed to it. -/
theorem aggregate_eq (h : startsDollar column = false ∨ found = []) (hfound : q.Finds schema s found)
    (a : Aggregate) : q.aggregate schema s column a = .ok (a.of (fedValues column found)) := by
  obtain ⟨stages, hstages, hrun⟩ := hfound
  rw [aggregate, hstages, ok_bind, Store.aggregate, Stage.runAll_append_ok hrun,
    run_aggregateStages h, mapError_ok, ok_bind]
  cases hvalues : fedValues column found with
  | nil => rw [a.of_nil]; rfl
  | cons v values =>
    have hvalue : ∀ w : Json, Document.get? [("_id", .null), ("value", w)] "value" = some w :=
      fun _ => rfl
    rw [List.isEmpty_cons, if_neg Bool.false_ne_true, List.head?_cons, Option.bind_some, hvalue,
      Option.bind_some, Aggregate.of]
    cases (a.start.feedEach (v :: values)).result.number? <;> rfl

/-- Where the column looks like an operator, the filter of a summary fails on every document. -/
theorem found_eq_nil {x : Binary64} (hcolumn : startsDollar column = true)
    (hfound : q.Finds schema s found) (h : q.aggregate schema s column a = .ok x) : found = [] := by
  obtain ⟨stages, hstages, hrun⟩ := hfound
  rw [aggregate, hstages, ok_bind] at h
  obtain ⟨docs, hdocs, -⟩ := bind_eq_ok.mp h
  rw [Store.aggregate, mapError_eq_ok, Stage.runAll_append_ok hrun, aggregateStages,
    Stage.runAll_cons_eq_ok] at hdocs
  obtain ⟨kept, hkept, -⟩ := hdocs
  cases found with
  | nil => rfl
  | cons d found =>
    rw [Stage.run, Stage.matching, filterM_cons] at hkept
    obtain ⟨b, hb, -⟩ := bind_eq_ok.mp hkept
    have hkey := Filter.mem_combinators_of_entriesHold hcolumn hb
    simp only [Filter.combinators, List.mem_cons, List.not_mem_nil, or_false] at hkey
    rcases hkey with rfl | rfl | rfl | rfl
    · simp [Json.single, Filter.accepts, Filter.entriesHold] at hb
    · simp [Json.single, Filter.accepts, Filter.entriesHold] at hb
    · simp [Json.single, Filter.accepts, Filter.entriesHold] at hb
    · have hfails : Expression.eval d (.single "$type" (.string "number")) =
          .error (.unsupportedExpression "$type") := rfl
      rw [Json.single, Filter.accepts_object, Filter.entriesHold_expr, hfails] at hb
      cases hb

theorem eq_of_aggregate {x : Binary64} (hfound : q.Finds schema s found)
    (h : q.aggregate schema s column a = .ok x) : x = a.of (fedValues column found) := by
  have hcolumn : startsDollar column = false ∨ found = [] := by
    cases hdollar : startsDollar column with
    | false => exact .inl rfl
    | true => exact .inr (found_eq_nil hdollar hfound h)
  exact Except.ok.inj (h.symm.trans (aggregate_eq hcolumn hfound a))

/-! ## Numbers among the values -/

/-- The numbers that documents hold at a column. -/
def numbersAt (column : String) (found : List Document) : List Number :=
  (found.filterMap (·.at? column)).filterMap (·.number?)

theorem numbersAt_eq (column : String) (found : List Document) :
    numbersAt column found = (fedValues column found).filterMap (·.number?) := by
  rw [numbersAt, fedValues, List.filterMap_filter]
  refine List.filterMap_congr fun v _ => ?_
  cases v with
  | array items => exact (ite_self none).symm
  | _ => rfl

theorem mem_numbersAt {n : Number} :
    n ∈ numbersAt column found ↔ .number n ∈ fedValues column found := by
  rw [numbersAt_eq, List.mem_filterMap]
  constructor
  · rintro ⟨v, hv, hn⟩
    cases v <;> cases hn
    exact hv
  · exact fun h => ⟨_, h, rfl⟩

/-- No document holds an array at a column that has a number among its items. -/
def NoNumberInArrays (column : String) (found : List Document) : Prop :=
  ∀ d ∈ found, ∀ items, d.at? column = some (.array items) → ∀ v ∈ items, v.number? = none

/-- What is fed are numbers, and arrays with a number among their items. -/
theorem eq_number_or_array {v : Json} (h : v ∈ fedValues column found) :
    (∃ n, v = .number n) ∨ ∃ items, v = .array items := by
  have hholds := (List.mem_filter.mp h).2
  cases v with
  | number n => exact .inl ⟨n, rfl⟩
  | array items => exact .inr ⟨items, rfl⟩
  | _ => cases hholds

theorem noNumberInArrays_iff :
    NoNumberInArrays column found ↔ ∀ items, .array items ∉ fedValues column found := by
  constructor
  · intro h items hmem
    obtain ⟨hmem, hholds⟩ := List.mem_filter.mp hmem
    obtain ⟨d, hd, hat⟩ := List.mem_filterMap.mp hmem
    obtain ⟨v, hv, hsome⟩ := List.any_eq_true.mp hholds
    rw [h d hd items hat v hv] at hsome
    cases hsome
  · intro h d hd items hat v hv
    by_contra hsome
    refine h items (List.mem_filter.mpr ⟨List.mem_filterMap.mpr ⟨d, hd, hat⟩, ?_⟩)
    exact List.any_eq_true.mpr ⟨v, hv, Option.isSome_iff_ne_none.mpr hsome⟩

/-! ## The least and the greatest number -/

/-- A number is the least of some, as floating-point numbers go; it is zero if there are none. -/
def IsLeastOf (x : Binary64) (numbers : List Number) : Prop :=
  if numbers = [] then x = Binary64.ofInt 0
  else ∃ n ∈ numbers, x.order = n.order ∧ ∀ k ∈ numbers, n.order ≤ k.order

/-- A number is the greatest of some, as floating-point numbers go; it is zero if there are none. -/
def IsGreatestOf (x : Binary64) (numbers : List Number) : Prop :=
  if numbers = [] then x = Binary64.ofInt 0
  else ∃ n ∈ numbers, x.order = n.order ∧ ∀ k ∈ numbers, k.order ≤ n.order

theorem of_least (values : List Json) : Aggregate.least.of values =
    match ((Accumulator.best .lt values).getD .null).number? with
    | some n => n.toBinary64
    | none => Binary64.ofInt 0 := by
  rw [Aggregate.of, Aggregate.start, Accumulator.feedEach_least]
  rfl

theorem of_greatest (values : List Json) : Aggregate.greatest.of values =
    match ((Accumulator.best .gt values).getD .null).number? with
    | some n => n.toBinary64
    | none => Binary64.ofInt 0 := by
  rw [Aggregate.of, Aggregate.start, Accumulator.feedEach_greatest]
  rfl

theorem isNull_of_fed {v : Json} (h : v ∈ fedValues column found) : v.isNull = false := by
  rcases eq_number_or_array h with ⟨n, rfl⟩ | ⟨items, rfl⟩ <;> rfl

theorem numbersAt_eq_nil (h : ∀ n, .number n ∉ fedValues column found) :
    numbersAt column found = [] :=
  List.eq_nil_iff_forall_not_mem.mpr fun n hn => h n (mem_numbersAt.mp hn)

/-- The best of the values that are fed is a number or an array that none of them stands to as wanted;
there is none if nothing is fed. -/
theorem best_cases (column : String) (found : List Document) {wanted : Ordering}
    (hwanted : wanted ≠ .eq) :
    (Accumulator.best wanted (fedValues column found) = none ∧ fedValues column found = []) ∨
    (∃ m, Accumulator.best wanted (fedValues column found) = some (.number m) ∧
      m ∈ numbersAt column found ∧
      ∀ v ∈ fedValues column found, v.compare (.number m) ≠ wanted) ∨
    ∃ items, Accumulator.best wanted (fedValues column found) = some (.array items) ∧
      .array items ∈ fedValues column found ∧
      ∀ v ∈ fedValues column found, v.compare (.array items) ≠ wanted := by
  have hbest : Accumulator.IsBest wanted (fedValues column found)
      (Accumulator.best wanted (fedValues column found)) :=
    Accumulator.isBest_best hwanted fun _ hv => isNull_of_fed hv
  cases hb : Accumulator.best wanted (fedValues column found) with
  | none =>
    rw [hb] at hbest
    exact .inl ⟨rfl, hbest⟩
  | some b =>
    rw [hb] at hbest
    obtain ⟨hmem, hall⟩ := hbest
    rcases eq_number_or_array hmem with ⟨m, rfl⟩ | ⟨items, rfl⟩
    · exact .inr (.inl ⟨m, rfl, mem_numbersAt.mpr hmem, hall⟩)
    · exact .inr (.inr ⟨items, rfl, hmem, hall⟩)

/-- The least number comes out right: arrays come after it in the order of values. -/
theorem isLeastOf_least (column : String) (found : List Document) :
    IsLeastOf (Aggregate.least.of (fedValues column found)) (numbersAt column found) := by
  have hwanted : Ordering.lt ≠ .eq := nofun
  rw [of_least, IsLeastOf]
  rcases best_cases column found hwanted with ⟨hb, hnil⟩ | ⟨m, hb, hm, hleast⟩ |
    ⟨items, hb, -, hleast⟩
  · rw [hb, if_pos (by rw [numbersAt_eq, hnil]; rfl)]
    rfl
  · rw [hb, if_neg (List.ne_nil_of_mem hm)]
    refine ⟨m, hm, rfl, fun k hk => Int.not_lt.mp fun hlt => ?_⟩
    exact hleast _ (mem_numbersAt.mp hk) (Int.compare_eq_lt.mpr hlt)
  · have hnil : numbersAt column found = [] :=
      numbersAt_eq_nil fun n hn => hleast (.number n) hn rfl
    rw [hb, if_pos hnil]
    rfl

/-- Without arrays, the greatest number comes out right. -/
theorem isGreatestOf_greatest (h : ∀ items, .array items ∉ fedValues column found) :
    IsGreatestOf (Aggregate.greatest.of (fedValues column found)) (numbersAt column found) := by
  have hwanted : Ordering.gt ≠ .eq := nofun
  rw [of_greatest, IsGreatestOf]
  rcases best_cases column found hwanted with ⟨hb, hnil⟩ | ⟨m, hb, hm, hgreatest⟩ |
    ⟨items, -, hitems, -⟩
  · rw [hb, if_pos (by rw [numbersAt_eq, hnil]; rfl)]
    rfl
  · rw [hb, if_neg (List.ne_nil_of_mem hm)]
    refine ⟨m, hm, rfl, fun k hk => Int.not_lt.mp fun hlt => ?_⟩
    exact hgreatest _ (mem_numbersAt.mp hk) (Int.compare_eq_gt.mpr hlt)
  · exact absurd hitems (h items)

/-- An array is greater than all numbers, and is no number. -/
theorem greatest_of_array {items : List Json} (h : .array items ∈ fedValues column found) :
    Aggregate.greatest.of (fedValues column found) = Binary64.ofInt 0 := by
  have hwanted : Ordering.gt ≠ .eq := nofun
  rw [of_greatest]
  rcases best_cases column found hwanted with ⟨hb, -⟩ | ⟨m, -, -, hgreatest⟩ | ⟨items', hb, -⟩
  · rw [hb]
    rfl
  · exact absurd rfl (hgreatest _ h)
  · rw [hb]
    rfl

/-- **The least and the greatest number of a column.** Of the numbers that the documents of a query
hold at a column, the least one is given, whatever else they hold there. The greatest one is given
exactly if no document holds an array with a number there, or if zero is the greatest one: that is
what is given if some document does. -/
theorem extremes_of_column (hfound : q.Finds schema s found) (column : String) :
    (∀ x, q.aggregate schema s column .least = .ok x → IsLeastOf x (numbersAt column found)) ∧
    ∀ x, q.aggregate schema s column .greatest = .ok x →
      (IsGreatestOf x (numbersAt column found) ↔
        NoNumberInArrays column found ∨
          IsGreatestOf (Binary64.ofInt 0) (numbersAt column found)) := by
  refine ⟨fun x hx => ?_, fun x hx => ?_⟩
  · rw [eq_of_aggregate hfound hx]
    exact isLeastOf_least column found
  · rw [eq_of_aggregate hfound hx, noNumberInArrays_iff]
    by_cases harray : ∀ items, .array items ∉ fedValues column found
    · exact iff_of_true (isGreatestOf_greatest harray) (.inl harray)
    · rw [or_iff_right harray]
      obtain ⟨items, hitems⟩ := not_forall_not.mp harray
      rw [greatest_of_array hitems]

end Query

/-! ## Some measurements -/

namespace MeasureSample

open Query

def measureModel : Model := ⟨"Measure", "measures", "_id", none, none, []⟩

def everything : Query := { model := measureModel }

def schema : Schema := ⟨fun _ => []⟩

/-- Measurements of some values. -/
def measures (values : List Json) : List Document := values.map fun v => [("n", v)]

def store (values : List Json) : Store where
  collections := [("measures", measures values)]
  ids := ⟨fun _ => ⟨0⟩, 0⟩

theorem finds_measures (values : List Json) :
    everything.Finds schema (store values) (measures values) := by
  have hloaded : everything.loaded schema = .ok {} := Relation.loadAll_nil _ _ _
  refine ⟨[], ?_, rfl⟩
  rw [filterStages, hloaded]
  rfl

/-- Five, a text, nothing, an array of texts and three and a half. -/
def mixed : List Json :=
  [.int 5, .string "9", .null, .array [.string "9"], .number (.float (.ofRatio false 7 2))]

/-- Of these, three and a half is the least number and five the greatest one. -/
theorem mixed_extremes :
    everything.Finds schema (store mixed) (measures mixed) ∧
      ∃ x y, everything.aggregate schema (store mixed) "n" .least = .ok x ∧
        x = .ofRatio false 7 2 ∧ IsLeastOf x (numbersAt "n" (measures mixed)) ∧
        everything.aggregate schema (store mixed) "n" .greatest = .ok y ∧
        y = .ofInt 5 ∧ IsGreatestOf y (numbersAt "n" (measures mixed)) := by
  have hfinds := finds_measures mixed
  have hplain : startsDollar "n" = false ∨ measures mixed = [] := .inl (by decide)
  have hleast := aggregate_eq hplain hfinds .least
  have hgreatest := aggregate_eq hplain hfinds .greatest
  have hnone : NoNumberInArrays "n" (measures mixed) := by
    have hfed : fedValues "n" (measures mixed) =
        [.int 5, .number (.float (.ofRatio false 7 2))] := rfl
    rw [noNumberInArrays_iff, hfed]
    exact fun items => by simp [Json.int]
  obtain ⟨hfirst, hlast⟩ := extremes_of_column hfinds "n"
  exact ⟨hfinds, _, _, hleast, by decide +kernel, hfirst _ hleast, hgreatest, by decide +kernel,
    (hlast _ hgreatest).mpr (.inl hnone)⟩

/-- Next to an array that holds a one, five is not given as the greatest number, but zero. -/
theorem array_hides_greatest :
    ¬ ∀ (q : Query) (schema : Schema) (s : Store) (column : String) (found : List Document)
      (x : Binary64), q.Finds schema s found → q.aggregate schema s column .greatest = .ok x →
        IsGreatestOf x (numbersAt column found) := by
  intro hright
  have hfinds := finds_measures [.int 5, .array [.int 1]]
  have hplain : startsDollar "n" = false ∨ measures [.int 5, .array [.int 1]] = [] :=
    .inl (by decide)
  have hgreatest := hright _ _ _ "n" _ _ hfinds (aggregate_eq hplain hfinds .greatest)
  have hnumbers : numbersAt "n" (measures [.int 5, .array [.int 1]]) = [.int 5] := rfl
  rw [hnumbers, IsGreatestOf, if_neg (List.cons_ne_nil _ _)] at hgreatest
  obtain ⟨n, hn, horder, -⟩ := hgreatest
  rw [List.mem_singleton.mp hn] at horder
  revert horder
  decide +kernel

end MeasureSample

end DocMapper
