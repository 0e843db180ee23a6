import DocMapper.Proofs.Relation.Locality

/-! # What the conditions and the sort of a query read

An expression reads what its texts refer to (`Reference.ofText`): the field that a reference `$path`
starts with, the field after `$$ROOT` or `$$CURRENT`, or, if nothing comes after, the whole
document. A condition of a query reads the field that its column starts with, unless it is a
condition on `$expr`, which reads what its expression does; a sort reads the field that its column
starts with, or, without regard to case, what the reference `$column` refers to
(`Query.references`).

So documents that agree outside of some fields (`Document.AgreeOutside`) are the same to a query
that reads none of them: they meet the same conditions (`Term.accepts_filterAll_congr`), are sorted
alike (`Stage.compareBy_congr`) and get the same temporary sort fields
(`Query.eval_foldedFields_congr`). -/

namespace DocMapper

/-! ## References -/

/-- What a text in an expression refers to. -/
inductive Reference where
  | nothing
  /-- What a path leads to that starts with a field. -/
  | field (name : String)
  | document

namespace Reference

/-- What a variable, given the parts of its name and the path after it, refers to. -/
def ofVariable (parts : List (List Char)) : Reference :=
  let var := String.ofList (parts.headD [])
  if var == "ROOT" || var == "CURRENT" then
    match parts.drop 1 with
    | [] => document
    | key :: _ => field (String.ofList key)
  else nothing

def ofText (s : String) : Reference :=
  match s.toList with
  | '$' :: '$' :: name => ofVariable (Text.splitChars '.' name)
  | '$' :: path => field (Path.head (String.ofList path))
  | _ => nothing

/-- Whether what is referred to does not depend on the given fields. -/
def Outside (fields : List String) : Reference → Prop
  | nothing => True
  | field name => name ∉ fields
  | document => False

instance (fields : List String) : (reference : Reference) → Decidable (reference.Outside fields)
  | nothing => inferInstanceAs (Decidable True)
  | field name => inferInstanceAs (Decidable (name ∉ fields))
  | document => inferInstanceAs (Decidable False)

end Reference

mutual

/-- The texts in a value, but for its keys. -/
def Json.texts : Json → List String
  | .string s => [s]
  | .array items => Json.textsEach items
  | .object fields => Document.texts fields
  | _ => []

def Json.textsEach : List Json → List String
  | [] => []
  | item :: items => item.texts ++ Json.textsEach items

def Document.texts : List (String × Json) → List String
  | [] => []
  | (_, v) :: fields => v.texts ++ Document.texts fields

end

namespace Expression

variable {fields : List String} {d e : Document}

theorem lookUpVariable_congr (hagree : Document.AgreeOutside fields d e) {name : String}
    (h : (Reference.ofVariable (Text.splitChars '.' (name.toList.drop 2))).Outside fields) :
    lookUpVariable d name = lookUpVariable e name := by
  unfold lookUpVariable
  unfold Reference.ofVariable at h
  simp only at h ⊢
  split
  · next hknown =>
    rw [if_pos hknown] at h
    match hpath : (Text.splitChars '.' (name.toList.drop 2)).drop 1 with
    | [] =>
      rw [hpath] at h
      exact h.elim
    | key :: rest =>
      rw [hpath] at h
      simp only [List.map_cons]
      rw [Json.get?, Json.get?, Document.getEntry?_eq, Document.getEntry?_eq, hagree _ h]
  · rfl

/-- What a text stands for depends on what it refers to. -/
theorem reference_congr (hagree : Document.AgreeOutside fields d e) {s : String}
    (h : (Reference.ofText s).Outside fields) : reference d s = reference e s := by
  unfold Reference.ofText at h
  unfold reference
  split
  · next name hs =>
    rw [hs] at h
    exact lookUpVariable_congr hagree (by rw [hs]; exact h)
  · next path hnot hs =>
    rw [hs] at h
    refine congrArg Except.ok (hagree.at? ?_)
    split at h
    · next heq => exact absurd (List.cons.inj heq).2 (hnot _)
    · next heq => exact (List.cons.inj heq).2 ▸ h
    · next hnot' => exact absurd rfl (hnot' path)
  · rfl

/-- An object of one entry applies an operator to its argument, or holds what the argument finds. -/
theorem eval_entry {arg : Json} (harg : ∀ args, arg ≠ .array args) (d : Document) (key : String) :
    eval d (.object [(key, arg)]) =
      if startsDollar key then apply key arg [eval d arg]
      else (evalFields d [(key, arg)]).map fun fields => some (.object fields) := by
  rw [eval]
  exact harg

mutual

/-- What an expression finds depends on what its texts refer to. -/
theorem eval_congr (hagree : Document.AgreeOutside fields d e) : ∀ expression : Json,
    (∀ s ∈ expression.texts, (Reference.ofText s).Outside fields) →
      eval d expression = eval e expression
  | .string s, h => by
    rw [eval, eval]
    exact reference_congr hagree (h s (by simp [Json.texts]))
  | .array items, h => by
    rw [eval, eval, evalEach_congr hagree items h]
  | .object [], _ => by rw [eval, eval, evalFields, evalFields] <;> exact nofun
  | .object [(key, arg)], h => by
    have hfields := evalFields_congr hagree [(key, arg)] h
    have harg := eval_congr hagree arg fun s hs => h s (by simp [Json.texts, Document.texts, hs])
    cases arg with
    | array args =>
      have hargs := evalEach_congr hagree args fun s hs =>
        h s (by simp [Json.texts, Document.texts, hs])
      rw [eval, eval, hargs, hfields]
    | _ =>
      rw [eval_entry (fun _ => Json.noConfusion), eval_entry (fun _ => Json.noConfusion), harg,
        hfields]
  | .object (first :: second :: rest), h => by
    have hfields := evalFields_congr hagree (first :: second :: rest) h
    rw [eval, eval, hfields] <;> exact nofun
  | .null, _ | .bool _, _ | .number _, _ => rfl

theorem evalEach_congr (hagree : Document.AgreeOutside fields d e) : ∀ items : List Json,
    (∀ s ∈ Json.textsEach items, (Reference.ofText s).Outside fields) →
      evalEach d items = evalEach e items
  | [], _ => rfl
  | item :: items, h => by
    rw [Json.textsEach, List.forall_mem_append] at h
    rw [evalEach, evalEach, eval_congr hagree item h.1, evalEach_congr hagree items h.2]

theorem evalFields_congr (hagree : Document.AgreeOutside fields d e) :
    ∀ entries : List (String × Json),
      (∀ s ∈ Document.texts entries, (Reference.ofText s).Outside fields) →
        evalFields d entries = evalFields e entries
  | [], _ => by rw [evalFields, evalFields]
  | (key, v) :: entries, h => by
    rw [Document.texts, List.forall_mem_append] at h
    rw [evalFields, evalFields, eval_congr hagree v h.1, evalFields_congr hagree entries h.2]

end

end Expression

/-! ## Conditions -/

namespace Filter

variable {d e : Document} {path : String}

section Path

variable (h : d.at? path = e.at? path)

include h

theorem equals_of_at?_eq : equals d path = equals e path := by
  funext v
  rw [equals, equals, Document.candidates, Document.candidates, h]

theorem holds_of_at?_eq (options operator : String) (operand : Json) :
    holds d path options operator operand = holds e path options operator operand := by
  have hcandidates : d.candidates path = e.candidates path := by
    rw [Document.candidates, Document.candidates, h]
  have hmember : isMember d path = isMember e path := by
    funext v
    cases v <;> simp only [isMember, equals_of_at?_eq h]
  have hpattern : matchesPattern d path options = matchesPattern e path options := by
    funext v
    cases v <;> simp only [matchesPattern, hcandidates]
  unfold holds inRange
  simp only [equals_of_at?_eq h, hmember, hpattern, hcandidates, h]

mutual

/-- Whether a condition holds depends on what its path leads to. -/
theorem conditionHolds_of_at?_eq : ∀ condition : Json,
    conditionHolds d path condition = conditionHolds e path condition
  | .object fields => by
    rw [conditionHolds, conditionHolds, operatorsHold_of_at?_eq _ fields, equals_of_at?_eq h]
  | .null | .bool _ | .number _ | .string _ | .array _ => by
    simp only [conditionHolds, equals_of_at?_eq h]

theorem operatorsHold_of_at?_eq (options : String) : ∀ operators : List (String × Json),
    operatorsHold d path options operators = operatorsHold e path options operators
  | [] => by rw [operatorsHold, operatorsHold]
  | (operator, operand) :: rest => by
    have hrest := operatorsHold_of_at?_eq options rest
    cases operand with
    | object fields =>
      rw [operatorsHold, operatorsHold, conditionHolds_of_at?_eq (.object fields),
        holds_of_at?_eq h, hrest]
    | _ => simp only [operatorsHold, holds_of_at?_eq h, hrest]

end

end Path

/-! ## Filters -/

/-- A filter of one entry depends on what its column leads to, or on what its expression finds. -/
theorem accepts_single_congr {column : String} {operators : Document}
    (hexpr : column = "$expr" →
      Expression.eval d (.object operators) = Expression.eval e (.object operators))
    (hcolumn : column ≠ "$expr" → d.at? column = e.at? column) :
    accepts d (.single column (.object operators)) =
      accepts e (.single column (.object operators)) := by
  have hnil : ∀ f : Document, entriesHold f [] = .ok true := fun f => by rw [entriesHold]
  rw [Json.single, accepts, accepts, entriesHold, hnil d, entriesHold, hnil e]
  · by_cases h : column = "$expr"
    · simp only [hexpr h, beq_iff_eq, h, if_true]
    · simp only [conditionHolds_of_at?_eq (hcolumn h), beq_iff_eq, h, if_false]
  all_goals exact fun _ _ => Json.noConfusion

theorem acceptsEach_congr {filters : List Json}
    (h : ∀ filter ∈ filters, accepts d filter = accepts e filter) :
    acceptsEach d filters = acceptsEach e filters := by
  induction filters with
  | nil => rw [acceptsEach, acceptsEach]
  | cons filter filters ih =>
    rw [acceptsEach, acceptsEach, h filter List.mem_cons_self,
      ih fun other hother => h other (List.mem_cons_of_mem filter hother)]

/-- What combines filters depends on what they depend on. -/
theorem accepts_combined_congr {operator : String} (hop : operator = "$and" ∨ operator = "$or")
    {filters : List Json} (h : ∀ filter ∈ filters, accepts d filter = accepts e filter) :
    accepts d (.single operator (.array filters)) =
      accepts e (.single operator (.array filters)) := by
  rcases hop with rfl | rfl
  · rw [Json.single, accepts, accepts, entriesHold, entriesHold, acceptsEach_congr h, entriesHold,
      entriesHold]
  · rw [Json.single, accepts, accepts, entriesHold, entriesHold, acceptsEach_congr h, entriesHold,
      entriesHold]

end Filter

namespace Term

variable {terms : List Term} {d e : Document}

/-- Cutting a list neither loses nor adds anything. -/
theorem flatten_cut (tied : List (Connector × Json)) : (cut tied).flatten = tied := by
  induction tied with
  | nil => rfl
  | cons t rest ih =>
    rw [cut]
    split
    · next u part parts heq =>
      rw [heq] at ih
      split
      · rw [List.flatten_cons, List.cons_append, ← List.flatten_cons, ih]
      · rw [List.flatten_cons, List.singleton_append, ih]
    · rw [List.flatten_cons, List.singleton_append, ih]

/-- What a condition refers to: the field its column starts with, or what its expression does. -/
def references (t : Term) : List Reference :=
  if t.column = "$expr" then
    match t.test.operators t.column with
    | .ok operators => (Document.texts operators).map Reference.ofText
    | .error _ => []
  else [.field (Path.head t.column)]

/-- The filter of a condition depends on what the condition refers to. -/
theorem accepts_filter_congr {fields : List String} (hagree : Document.AgreeOutside fields d e)
    {t : Term} (ht : ∀ reference ∈ t.references, reference.Outside fields) {filter : Json}
    (h : t.filter = .ok filter) : Filter.accepts d filter = Filter.accepts e filter := by
  obtain ⟨operators, hoperators, rfl⟩ := map_eq_ok.mp h
  rw [references, hoperators] at ht
  refine Filter.accepts_single_congr (fun hexpr => ?_) fun hcolumn => ?_
  · rw [if_pos hexpr] at ht
    exact Expression.eval_congr hagree _ fun s hs => ht _ (List.mem_map_of_mem hs)
  · rw [if_neg hcolumn] at ht
    exact hagree.at? (ht _ List.mem_cons_self)

/-- The filter of all conditions depends on what the conditions refer to. -/
theorem accepts_filterAll_congr {fields : List String} (hagree : Document.AgreeOutside fields d e)
    (hterms : ∀ t ∈ terms, ∀ reference ∈ t.references, reference.Outside fields) {filter : Json}
    (h : filterAll terms = .ok (some filter)) :
    Filter.accepts d filter = Filter.accepts e filter := by
  obtain ⟨tied, htied, h⟩ := bind_eq_ok.mp h
  have hpart : ∀ part ∈ cut tied,
      Filter.accepts d (.single "$and" (.array (part.map (·.2)))) =
        Filter.accepts e (.single "$and" (.array (part.map (·.2)))) := by
    intro part hpart
    refine Filter.accepts_combined_congr (.inl rfl) fun _ hpiece => ?_
    obtain ⟨entry, hentry, rfl⟩ := List.mem_map.mp hpiece
    have hmem : entry ∈ tied := flatten_cut tied ▸ List.mem_flatten.mpr ⟨part, hpart, hentry⟩
    obtain ⟨t, ht, hentry⟩ := exists_of_mem_mapM htied hmem
    obtain ⟨filter, hfilter, hentry⟩ := bind_eq_ok.mp hentry
    cases hentry
    exact accepts_filter_congr hagree (hterms t ht) hfilter
  revert hpart h
  generalize cut tied = parts
  intro h hpart
  match parts, h with
  | [part], h =>
    cases h
    exact hpart part List.mem_cons_self
  | first :: second :: rest, h =>
    cases h
    refine Filter.accepts_combined_congr (.inr rfl) fun _ hpiece => ?_
    obtain ⟨part, hmem, rfl⟩ := List.mem_map.mp hpiece
    exact hpart part hmem

end Term

/-! ## Sorting -/

namespace Stage

variable {d d' e e' : Document}

/-- The columns of a sort are those of its description. -/
theorem map_fst_sortKeys {spec : Document} {keys : List (String × Bool)}
    (h : sortKeys spec = .ok keys) : keys.map (·.1) = spec.keys := by
  induction spec generalizing keys with
  | nil =>
    cases h
    rfl
  | cons entry spec ih =>
    obtain ⟨path, direction⟩ := entry
    rw [sortKeys] at h
    split at h
    case h_3 => cases h
    all_goals
      obtain ⟨rest, hrest, h⟩ := bind_eq_ok.mp h
      cases h
      rw [List.map_cons, ih hrest, Document.keys_cons]

/-- The order of two documents depends on the columns of the sort. -/
theorem compareBy_congr {keys : List (String × Bool)}
    (hd : ∀ path ∈ keys.map (·.1), d.at? path = d'.at? path)
    (he : ∀ path ∈ keys.map (·.1), e.at? path = e'.at? path) :
    compareBy keys d e = compareBy keys d' e' := by
  induction keys with
  | nil => rfl
  | cons key keys ih =>
    obtain ⟨path, descending⟩ := key
    rw [List.map_cons, List.forall_mem_cons] at hd he
    rw [compareBy, compareBy, hd.1, he.1, ih hd.2 he.2]

end Stage

/-! ## Temporary sort fields -/

namespace Stage

variable {spec d d' e' : Document} {fields : List String}

/-- A document with added fields, given what their expressions find. -/
def extendedBy (found : List (String × Option Json)) (d : Document) : Document :=
  found.foldl (fun d (path, value) =>
    match value with
    | some v => d.set path v
    | none => d) d

theorem extendedBy_some {added : Document} (h : ∀ key ∈ added.keys, IsField key) (d : Document) :
    extendedBy (added.map fun entry => (entry.1, some entry.2)) d = d.merge added := by
  induction added generalizing d with
  | nil => rfl
  | cons entry added ih =>
    obtain ⟨key, v⟩ := entry
    obtain ⟨hkey, hrest⟩ := List.forall_mem_cons.mp h
    rw [Document.merge_cons, ← ih hrest, ← Document.set_field hkey]
    rfl

theorem agreeOutside_extendedBy {found : List (String × Option Json)}
    (hfields : ∀ entry ∈ found, IsField entry.1) (h : Document.AgreeOutside fields d d') :
    Document.AgreeOutside fields (extendedBy found d) (extendedBy found d') := by
  induction found generalizing d d' with
  | nil => exact h
  | cons entry found ih =>
    obtain ⟨path, value⟩ := entry
    obtain ⟨hfield, hrest⟩ := List.forall_mem_cons.mp hfields
    cases value with
    | none => exact ih hrest h
    | some v =>
      refine ih hrest ?_
      show Document.AgreeOutside fields (d.set path v) (d'.set path v)
      rw [Document.set_field hfield, Document.set_field hfield]
      exact h.insert path v

theorem agreeOutside_extendedBy_right {found : List (String × Option Json)}
    (hfields : ∀ entry ∈ found, IsField entry.1 ∧ entry.1 ∈ fields)
    (h : Document.AgreeOutside fields d d') :
    Document.AgreeOutside fields d (extendedBy found d') := by
  induction found generalizing d' with
  | nil => exact h
  | cons entry found ih =>
    obtain ⟨path, value⟩ := entry
    obtain ⟨⟨hfield, hmem⟩, hrest⟩ := List.forall_mem_cons.mp hfields
    cases value with
    | none => exact ih hrest h
    | some v =>
      refine ih hrest ?_
      show Document.AgreeOutside fields d (d'.set path v)
      rw [Document.set_field hfield]
      exact h.insert_right hmem v

/-- Where the expressions for added fields find the same in two documents, both are extended by the
same. -/
theorem exists_extendedBy (heval : ∀ entry ∈ spec, Expression.eval d entry.2 =
      Expression.eval d' entry.2) (h : extended spec d' = .ok e') :
    ∃ found : List (String × Option Json), found.map (·.1) = spec.keys ∧
      e' = extendedBy found d' ∧ extended spec d = .ok (extendedBy found d) := by
  obtain ⟨found, hfound, h⟩ := bind_eq_ok.mp h
  cases h
  have hall := mapM_eq_ok_iff.mp hfound
  have hkeys : List.Forall₂ (fun entry value => entry.1 = value.1) spec found := by
    refine hall.imp fun entry value hvalue => ?_
    obtain ⟨_, -, hvalue⟩ := bind_eq_ok.mp hvalue
    cases hvalue
    rfl
  refine ⟨found, ?_, rfl, bind_eq_ok.mpr ⟨found, mapM_eq_ok_iff.mpr ?_, rfl⟩⟩
  · rw [← List.forall₂_map_right_iff, ← List.forall₂_map_left_iff, List.forall₂_eq_eq_eq] at hkeys
    exact hkeys.symm
  · refine ((List.forall₂_and_left _ _).mpr ⟨heval, hall⟩).imp ?_
    rintro ⟨path, e⟩ value ⟨hentry, hvalue⟩
    show (do return (path, ← Expression.eval d e)) = _
    rw [hentry]
    exact hvalue

end Stage

/-- What a column to sort by refers to: the field that it starts with, or, without regard to case,
what the reference to it does. -/
def SortKey.reference (key : SortKey) : Reference :=
  if key.foldsCase then .ofText ("$" ++ key.column) else .field (Path.head key.column)

namespace Query

/-- What the conditions of the caller and the sort of a query refer to. -/
def references (q : Query) : List Reference :=
  q.conditions.flatMap Term.references ++ q.ordering.map SortKey.reference

/-- The temporary fields of a sort are computed from what its columns refer to. -/
theorem eval_foldedFields_congr {fields : List String} {d d' : Document}
    (hagree : Document.AgreeOutside fields d d') {ordering : List SortKey}
    (hordering : ∀ key ∈ ordering, key.reference.Outside fields) :
    ∀ entry ∈ foldedFields ordering, Expression.eval d entry.2 = Expression.eval d' entry.2 := by
  intro entry hentry
  obtain ⟨⟨key, position⟩, hmem, rfl⟩ := List.mem_map.mp hentry
  obtain ⟨hmem, hfolds⟩ := List.mem_filter.mp hmem
  have hkey := hordering key (List.fst_mem_of_mem_zipIdx hmem)
  rw [SortKey.reference, if_pos hfolds] at hkey
  refine Expression.eval_congr hagree _ fun s hs => ?_
  simp only [Json.single, Json.texts, Document.texts, List.append_nil, List.mem_singleton] at hs
  exact hs ▸ hkey

end Query

namespace Update

variable {d d' : Document} {fields dropped : List String}

theorem agreeOutside_removeAll (hdropped : ∀ field ∈ dropped, IsField field) (hd : d.Unique)
    (hd' : d'.Unique) (h : Document.AgreeOutside fields d d') :
    Document.AgreeOutside fields (removeAll d dropped) (removeAll d' dropped) := by
  induction dropped generalizing d d' with
  | nil => exact h
  | cons field dropped ih =>
    obtain ⟨hfield, hrest⟩ := List.forall_mem_cons.mp hdropped
    refine ih hrest (hd.remove field) (hd'.remove field) ?_
    show Document.AgreeOutside fields (d.remove field) (d'.remove field)
    rw [Document.remove_field hfield, Document.remove_field hfield]
    exact h.erase hd hd' field

theorem agreeOutside_removeAll_right
    (hdropped : ∀ field ∈ dropped, IsField field ∧ field ∈ fields) (hd' : d'.Unique)
    (h : Document.AgreeOutside fields d d') :
    Document.AgreeOutside fields d (removeAll d' dropped) := by
  induction dropped generalizing d' with
  | nil => exact h
  | cons field dropped ih =>
    obtain ⟨⟨hfield, hmem⟩, hrest⟩ := List.forall_mem_cons.mp hdropped
    refine ih hrest (hd'.remove field) ?_
    show Document.AgreeOutside fields d (d'.remove field)
    rw [Document.remove_field hfield]
    exact h.erase_right hd' hmem

end Update

end DocMapper
