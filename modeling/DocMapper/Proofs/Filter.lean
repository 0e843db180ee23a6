import DocMapper.Filter
import DocMapper.Proofs.Order
import DocMapper.Proofs.Outcome
import DocMapper.Proofs.Path
import DocMapper.SoftDelete

/-! # Filters on plain fields

A **plain** field is one that a filter takes for a field: it has no dot and does not start with `$`.
A filter whose entries are all conditions on plain fields holds where each condition does
(`accepts_of_conditions`), and cannot fail if none of them can. Of a field that holds no array, a
condition says about the one value there what it says (`equals_of_get?`, `equals_of_missing`).

The same condition can be put as an expression; `accepts_filterAll` and `eval_fieldEquals` say what
it comes to in that form. -/

namespace DocMapper

/-- A field that does not look like an operator or a reference. -/
structure IsPlain (name : String) : Prop where
  field : IsField name
  noDollar : startsDollar name = false

/-! ## What stands at a field -/

namespace Document

theorem candidates_of_get? {name : String} (h : IsField name) {d : Document} {v : Json}
    (hd : d.get? name = some v) (hv : ∀ items, v ≠ .array items) :
    d.candidates name = some [v] := by
  rw [candidates, at?_field h, hd]
  cases v <;> first | rfl | exact absurd rfl (hv _)

theorem joinValues_of_get? {name : String} (h : IsField name) {d : Document} {v : Json}
    (hd : d.get? name = some v) (hv : v.isScalar = true) : d.joinValues name = [v] := by
  rw [joinValues, at?_field h, hd]
  cases v <;> first | rfl | cases hv

/-- The text that a document holds under a key. -/
def textAt (d : Document) (key : String) : Option String := (d.get? key).bind (·.string?)

theorem textAt_of_get? {d : Document} {key s : String} (h : d.get? key = some (.string s)) :
    d.textAt key = some s := by
  rw [textAt, h]
  rfl

theorem get?_of_textAt {d : Document} {key s : String} (h : d.textAt key = some s) :
    d.get? key = some (.string s) := by
  obtain ⟨v, hv, hs⟩ := Option.bind_eq_some_iff.mp h
  rw [hv]
  cases v <;> cases hs
  rfl

end Document

namespace Filter

/-! ## Equality with what stands at a field -/

theorem equals_of_get? {name : String} (h : IsField name) {d : Document} {v : Json}
    (hd : d.get? name = some v) (hv : ∀ items, v ≠ .array items) (w : Json) :
    equals d name w = v.equals w := by
  rw [equals, Document.candidates_of_get? h hd hv]
  exact Bool.or_false _

theorem equals_of_missing {name : String} (h : IsField name) {d : Document}
    (hd : d.get? name = none) (w : Json) : equals d name w = w.isNull := by
  rw [equals, Document.candidates_field_none h hd]

/-- A field that holds a value but no array equals a text exactly if the value is that text. -/
theorem equals_string_iff {name : String} (h : IsField name) {d : Document} {v : Json}
    (hd : d.get? name = some v) (hv : ∀ items, v ≠ .array items) (s : String) :
    equals d name (.string s) = true ↔ v = .string s := by
  rw [equals_of_get? h hd hv, Json.equals_string_iff]

/-- A field that holds no array equals a text exactly if that is the text it holds. -/
theorem equals_string {name : String} (h : IsField name) {d : Document}
    (hd : ∀ items, d.get? name ≠ some (.array items)) (s : String) :
    equals d name (.string s) = (d.textAt name == some s) := by
  rw [Document.textAt]
  cases hget : d.get? name with
  | none =>
    rw [equals_of_missing h hget]
    rfl
  | some v =>
    have hv : ∀ items, v ≠ .array items :=
      fun items hitems => hd items (hget.trans (by rw [hitems]))
    rw [Bool.eq_iff_iff, equals_string_iff h hget hv, Option.bind_some]
    cases v <;> simp [Json.string?]

/-- What a field equals depends on what stands there. -/
theorem equals_of_get?_eq {name : String} (h : IsField name) {d e : Document}
    (hget : e.get? name = d.get? name) (v : Json) : equals e name v = equals d name v := by
  unfold equals Document.candidates
  rw [Document.at?_field h, Document.at?_field h, hget]

/-- A field that holds a value equals what counts as equal to it. -/
theorem equals_of_get?_equals {name : String} (h : IsField name) {d : Document} {v w : Json}
    (hd : d.get? name = some v) (hvw : v.equals w = true) : equals d name w = true := by
  unfold equals Document.candidates
  rw [Document.at?_field h, hd]
  cases v with
  | array items => simp [hvw]
  | _ => simp [hvw]

/-! ## Conditions -/

/-- Whether a value asks for itself where it stands as a condition: it is no object with a key that
looks like an operator. -/
def isLiteral : Json → Bool
  | .object fields => fields.all fun (key, _) => !startsDollar key
  | _ => true

theorem conditionHolds_of_operators {fields : Document} (h : areOperators fields = true)
    (d : Document) (name : String) : conditionHolds d name (.object fields) =
      operatorsHold d name (patternOptions fields) fields :=
  if_pos h

theorem conditionHolds_of_literal {v : Json} (hv : isLiteral v = true) (d : Document)
    (name : String) : conditionHolds d name v = .ok (equals d name v) := by
  cases v with
  | object fields =>
    -- An object of operators has a key, and all its keys start with `$`.
    have hnot : areOperators fields = false := by
      cases fields with
      | nil => rfl
      | cons e fields =>
        have hall : (e :: fields).all (fun (key, _) => !startsDollar key) = true := hv
        rw [List.all_cons, Bool.and_eq_true, Bool.not_eq_true'] at hall
        simp [areOperators, hall.1]
    exact if_neg (by simp [hnot])
  | _ => rfl

theorem conditionHolds_of_scalar {v : Json} (hv : v.isScalar = true) (d : Document)
    (name : String) : conditionHolds d name v = .ok (equals d name v) := by
  cases v <;> first | rfl | cases hv

theorem operatorsHold_cons {operator : String} (h : operator ≠ "$not") (d : Document)
    (name options : String) (operand : Json) (rest : List (String × Json)) :
    operatorsHold d name options ((operator, operand) :: rest) = do
      if ← holds d name options operator operand then operatorsHold d name options rest
      else return false := by
  cases operand <;> simp [operatorsHold, h]

/-- A condition of operators, none of which is `$not`, holds where all of them do. -/
theorem conditionHolds_operators {operators : Document} (h : areOperators operators = true)
    (hnot : "$not" ∉ operators.keys) (d : Document) (name : String) :
    conditionHolds d name (.object operators) = allOutcomes (operators.map fun e =>
      holds d name (patternOptions operators) e.1 e.2) := by
  rw [conditionHolds_of_operators h]
  generalize patternOptions operators = options
  clear h
  induction operators with
  | nil => rfl
  | cons e operators ih =>
    rw [Document.keys_cons, List.mem_cons, not_or] at hnot
    rw [operatorsHold_cons (Ne.symm hnot.1), List.map_cons, allOutcomes, ih hnot.2]

/-- A condition that is one operator. -/
theorem conditionHolds_single {operator : String} (h : startsDollar operator = true)
    (hnot : operator ≠ "$not") (d : Document) (name : String) (operand : Json) :
    conditionHolds d name (.single operator operand) =
      holds d name (patternOptions [(operator, operand)]) operator operand := by
  have hops : areOperators [(operator, operand)] = true := by simp [areOperators, h]
  have hkeys : "$not" ∉ Document.keys [(operator, operand)] :=
    fun hmem => hnot (List.mem_singleton.mp hmem).symm
  rw [Json.single, conditionHolds_operators hops hkeys, List.map_cons, List.map_nil,
    allOutcomes_singleton]

theorem conditionHolds_in (d : Document) (name : String) (items : List Json) :
    conditionHolds d name (.single "$in" (.array items)) = .ok (items.any (equals d name)) :=
  conditionHolds_single rfl (by decide) d name (.array items)

/-! ## Filters -/

theorem accepts_object (d : Document) (entries : Document) :
    accepts d (.object entries) = entriesHold d entries := rfl

/-- What the first entry of a filter asks for if it does not combine other filters. -/
theorem entriesHold_cons_of_ne {key : String} (hand : key ≠ "$and") (hor : key ≠ "$or")
    (hnor : key ≠ "$nor") (d : Document) (condition : Json) (rest : List (String × Json)) :
    entriesHold d ((key, condition) :: rest) = do
      let ok ←
        if key == "$expr" then (Expression.eval d condition).map truthy?
        else if startsDollar key then .error (.unsupportedTopLevel key)
        else conditionHolds d key condition
      if ok then entriesHold d rest else return false := by
  rw [entriesHold]
  · simp [hand, hor, hnor]
  · exact fun _ hkey => absurd hkey hand
  · exact fun _ hkey => absurd hkey hor
  · exact fun _ hkey => absurd hkey hnor

theorem entriesHold_expr (d : Document) (condition : Json) (rest : List (String × Json)) :
    entriesHold d (("$expr", condition) :: rest) = do
      if ← (Expression.eval d condition).map truthy? then entriesHold d rest else return false :=
  entriesHold_cons_of_ne (by decide) (by decide) (by decide) d condition rest

theorem entriesHold_cons {key : String} (h : startsDollar key = false) (d : Document)
    (condition : Json) (rest : List (String × Json)) :
    entriesHold d ((key, condition) :: rest) = do
      if ← conditionHolds d key condition then entriesHold d rest else return false := by
  -- The key is none of the operators that a filter may have, since they all start with `$`.
  have hne : ∀ op : String, startsDollar op = true → key ≠ op := by
    rintro op hop rfl
    rw [h] at hop
    cases hop
  have hand : key ≠ "$and" := hne _ (by decide)
  have hor : key ≠ "$or" := hne _ (by decide)
  have hnor : key ≠ "$nor" := hne _ (by decide)
  have hexpr : key ≠ "$expr" := hne _ (by decide)
  simp [entriesHold_cons_of_ne hand hor hnor, hexpr, h]

theorem entriesHold_cons_eq (d : Document) (e : String × Json) (rest : List (String × Json)) :
    entriesHold d (e :: rest) = do
      if ← entriesHold d [e] then entriesHold d rest else return false := by
  have hgate : ∀ (test : Except QueryFault Bool) (next : Except QueryFault Bool),
      (do if ← test then next else return false) = do
        if ← (do if ← test then entriesHold d [] else return false) then next else return false := by
    intro test next
    cases test with
    | error fault => rfl
    | ok b => cases b <;> rfl
  obtain ⟨key, condition⟩ := e
  rw [entriesHold.eq_def d ((key, condition) :: rest), entriesHold.eq_def d [(key, condition)]]
  simp only
  split
  · exact hgate _ _
  · exact hgate _ _
  · exact hgate _ _
  · split
    · rfl
    · split
      · exact hgate _ _
      · split
        · rfl
        · exact hgate _ _

/-- The entries of a filter are tested one after the other. -/
theorem entriesHold_append {d : Document} {entries : List (String × Json)} {b : Bool}
    (h : entriesHold d entries = .ok b) (rest : List (String × Json)) :
    entriesHold d (entries ++ rest) = if b then entriesHold d rest else .ok false := by
  induction entries with
  | nil =>
    cases h
    rfl
  | cons e entries ih =>
    rw [entriesHold_cons_eq] at h
    obtain ⟨first, hfirst, h⟩ := bind_eq_ok.mp h
    rw [List.cons_append, entriesHold_cons_eq, hfirst, ok_bind]
    cases first with
    | false =>
      cases h
      rfl
    | true => exact ih h

/-- A filter of conditions on plain fields holds where all of them do. -/
theorem accepts_of_conditions {d : Document} {entries : List (String × Json)}
    {g : String × Json → Bool} (hplain : ∀ e ∈ entries, startsDollar e.1 = false)
    (h : ∀ e ∈ entries, conditionHolds d e.1 e.2 = .ok (g e)) :
    accepts d (.object entries) = .ok (entries.all g) := by
  rw [accepts_object]
  induction entries with
  | nil => rfl
  | cons e entries ih =>
    have hrest := ih (fun e' he' => hplain e' (List.mem_cons_of_mem e he'))
      (fun e' he' => h e' (List.mem_cons_of_mem e he'))
    obtain ⟨key, condition⟩ := e
    rw [entriesHold_cons (hplain _ List.mem_cons_self), h _ List.mem_cons_self, ok_bind, hrest,
      List.all_cons]
    cases g (key, condition) with
    | false => rfl
    | true => rfl

/-! ## Filters that do not hold -/

/-- The keys under which a filter has other filters or an expression. -/
def combinators : List String := ["$and", "$or", "$nor", "$expr"]

/-- If a filter does not hold, one of its entries does not. -/
theorem exists_of_entriesHold_eq_false {d : Document} {entries : List (String × Json)}
    (h : entriesHold d entries = .ok false) : ∃ e ∈ entries, entriesHold d [e] = .ok false := by
  induction entries with
  | nil =>
    cases h
  | cons e entries ih =>
    rw [entriesHold_cons_eq] at h
    obtain ⟨b, hb, h⟩ := bind_eq_ok.mp h
    cases b with
    | false => exact ⟨e, List.mem_cons_self, hb⟩
    | true =>
      obtain ⟨e', he', hfalse⟩ := ih h
      exact ⟨e', List.mem_cons_of_mem e he', hfalse⟩

theorem entriesHold_single {key : String} (h : startsDollar key = false) (d : Document)
    (condition : Json) : entriesHold d [(key, condition)] = conditionHolds d key condition := by
  rw [entriesHold_cons h]
  cases conditionHolds d key condition with
  | error fault => rfl
  | ok b => cases b <;> rfl

/-- An entry that can be tested, and whose key is no field, combines filters or asks for an
expression. -/
theorem mem_combinators_of_entriesHold {key : String} (h : startsDollar key = true) {d : Document}
    {condition : Json} {b : Bool} (hb : entriesHold d [(key, condition)] = .ok b) :
    key ∈ combinators := by
  refine Classical.byContradiction fun hnot => ?_
  simp only [combinators, List.mem_cons, List.not_mem_nil, or_false, not_or] at hnot
  obtain ⟨hand, hor, hnor, hexpr⟩ := hnot
  simp [entriesHold_cons_of_ne hand hor hnor, hexpr, h] at hb

/-- A condition on one plain field. -/
theorem accepts_single {key : String} (h : startsDollar key = false) {d : Document}
    {condition : Json} {b : Bool} (hc : conditionHolds d key condition = .ok b) :
    accepts d (.single key condition) = .ok b :=
  (entriesHold_single h d condition).trans hc

end Filter

/-! ## Conditions as expressions -/

namespace Expression

/-- Whether an expression can be evaluated and is true. -/
def holdsOn (d : Document) (e : Json) : Bool :=
  match eval d e with
  | .ok found => truthy? found
  | .error _ => false

theorem evalEach_eq (d : Document) (es : List Json) : evalEach d es = es.map (eval d) := by
  induction es with
  | nil => rfl
  | cons e es ih => exact congrArg (eval d e :: ·) ih

theorem eval_text (d : Document) (s : String) : eval d (.string s) = reference d s := rfl

/-- A text that is no reference stands for itself. -/
theorem eval_string {s : String} (h : startsDollar s = false) (d : Document) :
    eval d (.string s) = .ok (some (.string s)) := by
  rw [eval_text, reference]
  rw [startsDollar] at h
  split
  · next cs heq =>
    rw [heq] at h
    cases h
  · next cs _ heq =>
    rw [heq] at h
    cases h
  · rfl

/-- A text made of `$` and a plain name refers to what stands at that name. -/
theorem eval_reference {name : String} (h : startsDollar name = false) (d : Document) :
    eval d (.string ("$" ++ name)) = .ok (d.at? name) := by
  have hlist : ("$" ++ name).toList = '$' :: name.toList := by simp
  rw [startsDollar] at h
  rw [eval_text, reference, hlist]
  split
  · next cs heq =>
    rw [(List.cons.inj heq).2] at h
    cases h
  · next cs _ heq =>
    rw [← (List.cons.inj heq).2, String.ofList_toList]
  · next hnot => exact absurd rfl (hnot name.toList)

/-- Comparing what stands at a plain name with a value that stands for itself. -/
theorem eval_fieldEquals {name : String} (h : startsDollar name = false) {d : Document} {v : Json}
    (hv : eval d v = .ok (some v)) :
    eval d (fieldEquals name v) = .ok (some (.bool (((d.at? name).getD .null).equals v))) := by
  have hargs : evalEach d [.string ("$" ++ name), v] = [.ok (d.at? name), .ok (some v)] := by
    rw [evalEach_eq, List.map_cons, List.map_cons, List.map_nil, eval_reference h, hv]
  rw [fieldEquals, Json.single, eval, hargs]
  rfl

theorem holdsOn_fieldEquals {name : String} (h : startsDollar name = false) {d : Document}
    {v : Json} (hv : eval d v = .ok (some v)) :
    holdsOn d (fieldEquals name v) = ((d.at? name).getD .null).equals v := by
  rw [holdsOn, eval_fieldEquals h hv]
  rfl

end Expression

namespace Filter

/-- A filter that asks for expressions holds where all of them are true. -/
theorem accepts_filterAll {d : Document} {es : List Json}
    (h : ∀ e ∈ es, ∃ found, Expression.eval d e = .ok found) :
    accepts d (.single "$expr" (.single "$and" (.array es))) =
      .ok (es.all (Expression.holdsOn d)) := by
  have htruth : (es.map (Expression.eval d)).map (fun r => r.map truthy?) =
      (es.map (Expression.holdsOn d)).map Except.ok := by
    rw [List.map_map, List.map_map]
    apply List.map_congr_left
    intro e he
    obtain ⟨found, hfound⟩ := h e he
    simp only [Function.comp_apply, Expression.holdsOn, hfound, map_ok]
  have heval : Expression.eval d (.single "$and" (.array es)) =
      .ok (some (.bool (es.all (Expression.holdsOn d)))) := by
    rw [Json.single, Expression.eval, Expression.evalEach_eq]
    show (allOutcomes ((es.map (Expression.eval d)).map fun r => r.map truthy?)).map _ = _
    rw [htruth, allOutcomes_ok, map_ok, List.all_map]
    rfl
  rw [Json.single, accepts_object, entriesHold_expr, heval]
  cases es.all (Expression.holdsOn d) with
  | false => rfl
  | true => rfl

/-- A text under a key that is no field cannot make a filter fail to hold, unless it is taken for a
reference. -/
theorem entriesHold_string_ne_false {key s : String} (h : startsDollar key = true)
    (hs : key = "$expr" → startsDollar s = false) (d : Document) :
    entriesHold d [(key, .string s)] ≠ .ok false := by
  intro hfalse
  have hmem := mem_combinators_of_entriesHold h hfalse
  simp only [combinators, List.mem_cons, List.not_mem_nil, or_false] at hmem
  rcases hmem with rfl | rfl | rfl | rfl
  · cases hfalse
  · cases hfalse
  · cases hfalse
  · rw [entriesHold_expr, Expression.eval_string (hs rfl)] at hfalse
    cases hfalse

/-- Of a field that holds nothing or a scalar, a filter and an expression say the same. -/
theorem equals_eq_holdsOn {name : String} (h : IsPlain name) {d : Document} {v : Json}
    (hd : ∀ w, d.get? name = some w → w.isScalar = true) (hnull : v ≠ .null)
    (hv : Expression.eval d v = .ok (some v)) :
    equals d name v = Expression.holdsOn d (fieldEquals name v) := by
  rw [Expression.holdsOn_fieldEquals h.noDollar hv, Document.at?_field h.field]
  cases hget : d.get? name with
  | none =>
    rw [equals_of_missing h.field hget]
    cases v with
    | null => exact absurd rfl hnull
    | _ => rfl
  | some w =>
    have hw : ∀ items, w ≠ .array items := Json.ne_array_of_isScalar (hd w hget)
    rw [equals_of_get? h.field hget hw, Option.getD_some]

end Filter

end DocMapper
