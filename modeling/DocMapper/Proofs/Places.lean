import DocMapper.Proofs.Setting

/-! # Places in a value

A **place** is reached from a value step by step: to what stands under a key of an object, or to an
item of an array. Of what stands there the **node** is what can be seen without a further step.
Values without repeated keys are the same if the same nodes stand at all places
(`Json.same_of_nodeAt?`).

Setting and removing are simple when they are described place by place:

  * removing a path takes away what stands at the places that the path leads to, whatever items lie
    between its keys, and leaves all other places as they are (`Json.nodeAt?_removeAt`);
  * setting a path decides what stands at some places, and leaves the others as they are
    (`Document.nodeAt?_setAt`). -/

namespace DocMapper

/-! ## Places and nodes -/

namespace Json

/-- A step into a value. -/
inductive Step where
  | key (name : String)
  | item (index : Nat)

/-- The steps that lead to a place. -/
abbrev Place := List Step

/-- The keys on the way to a place. -/
def Place.keys : Place → Path
  | [] => []
  | .key name :: s => name :: keys s
  | .item _ :: s => keys s

/-- What can be seen of a value without a step into it. -/
inductive Node where
  | null
  | bool (b : Bool)
  | number (n : Number)
  | string (s : String)
  | array (length : Nat)
  | object

def node : Json → Node
  | .null => .null
  | .bool b => .bool b
  | .number n => .number n
  | .string s => .string s
  | .array items => .array items.length
  | .object _ => .object

/-- The value that one step leads to. -/
def child? : Json → Step → Option Json
  | .object fields, .key name => Document.get? fields name
  | .array items, .item index => items[index]?
  | _, _ => none

/-- What stands at a place. -/
def nodeAt? : Json → Place → Option Node
  | v, [] => some v.node
  | v, step :: s => (v.child? step).bind (nodeAt? · s)

theorem nodeAt?_cons (v : Json) (step : Step) (s : Place) :
    v.nodeAt? (step :: s) = (v.child? step).bind (nodeAt? · s) := rfl

theorem nodeAt?_key (d : Document) (name : String) (s : Place) :
    (object d).nodeAt? (.key name :: s) = (d.get? name).bind (nodeAt? · s) := rfl

/-! ## Values with the same nodes -/

theorem child?_isSome_eq {v w : Json} (h : ∀ s, v.nodeAt? s = w.nodeAt? s) (step : Step) :
    (v.child? step).isSome = (w.child? step).isSome := by
  have hstep := h [step]
  rw [nodeAt?_cons, nodeAt?_cons] at hstep
  cases hv : v.child? step <;> cases hw : w.child? step <;> simp [hv, hw, nodeAt?] at hstep ⊢

theorem nodeAt?_eq_of_child? {v w v' w' : Json} (h : ∀ s, v.nodeAt? s = w.nodeAt? s) (step : Step)
    (hv : v.child? step = some v') (hw : w.child? step = some w') (s : Place) :
    v'.nodeAt? s = w'.nodeAt? s := by
  have hstep := h (step :: s)
  rwa [nodeAt?_cons, nodeAt?_cons, hv, hw] at hstep

theorem node_eq {v w : Json} (h : ∀ s, v.nodeAt? s = w.nodeAt? s) : v.node = w.node :=
  Option.some.inj (h [])

mutual

/-- Values without repeated keys are the same if the same nodes stand at all places. -/
theorem same_of_nodeAt? : ∀ (v : Json) {w : Json}, v.distinctKeys = true → w.distinctKeys = true →
    (∀ s, v.nodeAt? s = w.nodeAt? s) → v.same w = true
  | .null, w, _, _, h => by
    cases w with
    | null => rfl
    | _ => cases node_eq h
  | .bool b, w, _, _, h => by
    cases w with
    | bool c =>
      obtain rfl : b = c := Node.bool.inj (node_eq h)
      exact same_self (.bool b) rfl
    | _ => cases node_eq h
  | .number n, w, _, _, h => by
    cases w with
    | number m =>
      obtain rfl : n = m := Node.number.inj (node_eq h)
      exact same_self (.number n) rfl
    | _ => cases node_eq h
  | .string t, w, _, _, h => by
    cases w with
    | string u =>
      obtain rfl : t = u := Node.string.inj (node_eq h)
      exact same_self (.string t) rfl
    | _ => cases node_eq h
  | .array items, w, hv, hw, h => by
    cases w with
    | array others =>
      rw [distinctKeys] at hv hw
      rw [same]
      exact sameItems_of_nodeAt? items hv hw (Node.array.inj (node_eq h))
        fun i _ _ hi hi' => nodeAt?_eq_of_child? h (.item i) hi hi'
    | _ => cases node_eq h
  | .object fields, w, hv, hw, h => by
    cases w with
    | object others =>
      obtain ⟨hfields, -⟩ := distinctKeys_object.mp hv
      obtain ⟨hothers, hvalues⟩ := distinctKeys_object.mp hw
      rw [distinctKeys, Bool.and_eq_true] at hv
      refine (Document.same_iff hfields hothers).mpr fun key => ?_
      have hsome := child?_isSome_eq h (.key key)
      simp only [child?] at hsome
      cases hv' : Document.get? fields key with
      | none =>
        rw [hv', Option.isSome_none] at hsome
        rw [Option.isNone_iff_eq_none.mp (Option.isSome_eq_false_iff.mp hsome.symm)]
        rfl
      | some v' =>
        rw [hv', Option.isSome_some] at hsome
        obtain ⟨w', hw'⟩ := Option.isSome_iff_exists.mp hsome.symm
        rw [hw']
        exact same_values_of_nodeAt? fields hv.2 _ (Document.mem_of_get? hv')
          (hvalues _ (Document.mem_of_get? hw'))
          (nodeAt?_eq_of_child? h (.key key) hv' hw')
    | _ => cases node_eq h

theorem sameItems_of_nodeAt? : ∀ (items : List Json) {others : List Json},
    distinctKeysItems items = true → distinctKeysItems others = true →
    items.length = others.length →
    (∀ (i : Nat) (v w : Json), items[i]? = some v → others[i]? = some w →
      ∀ s, v.nodeAt? s = w.nodeAt? s) →
    sameItems items others = true
  | [], [], _, _, _, _ => rfl
  | [], _ :: _, _, _, hlength, _ => by cases hlength
  | _ :: _, [], _, _, hlength, _ => by cases hlength
  | item :: items, other :: others, hv, hw, hlength, h => by
    rw [distinctKeysItems, Bool.and_eq_true] at hv hw
    rw [sameItems, Bool.and_eq_true]
    exact ⟨same_of_nodeAt? item hv.1 hw.1 (h 0 item other rfl rfl),
      sameItems_of_nodeAt? items hv.2 hw.2 (Nat.succ.inj hlength) fun i => h (i + 1)⟩

theorem same_values_of_nodeAt? : ∀ (fields : List (String × Json)),
    distinctKeysEntries fields = true → ∀ e ∈ fields, ∀ {w : Json}, w.distinctKeys = true →
    (∀ s, e.2.nodeAt? s = w.nodeAt? s) → e.2.same w = true
  | [], _, _, he, _, _, _ => absurd he List.not_mem_nil
  | (_, v) :: fields, hv, e, he, w, hw, h => by
    rw [distinctKeysEntries, Bool.and_eq_true] at hv
    rcases List.mem_cons.mp he with rfl | he
    · exact same_of_nodeAt? v hv.1 hw h
    · exact same_values_of_nodeAt? fields hv.2 e he hw h

end

/-! ## Removing -/

theorem node_removeAt (v : Json) (p : Path) : (v.removeAt p).node = v.node := by
  cases v with
  | array items => rw [removeAt, removeEach_eq_map, node, node, List.length_map]
  | _ => rfl

/-- What a step leads to after a path was removed. -/
theorem child?_removeAt {v : Json} (hv : v.distinctKeys = true) (key : String) (rest : Path)
    (step : Step) : (v.removeAt (key :: rest)).child? step =
      match step with
      | .key name =>
        if key = name then
          if rest = [] then none else (v.child? step).map (·.removeAt rest)
        else v.child? step
      | .item _ => (v.child? step).map (·.removeAt (key :: rest)) := by
  cases v with
  | object fields =>
    obtain ⟨hunique, -⟩ := distinctKeys_object.mp hv
    cases step with
    | item => rfl
    | key name =>
      show Document.get? (Document.removeEntry fields (key :: rest)) name = _
      by_cases hrest : rest = []
      · subst hrest
        rw [Document.removeEntry]
        by_cases hname : key = name
        · subst hname
          simp [Document.get?_erase_self hunique]
        · simp only [if_neg hname]
          exact Document.get?_erase_of_ne hunique (Ne.symm hname)
      · rw [Document.get?_removeEntry_under fields key hrest]
        by_cases hname : key = name
        · subst hname
          simp [hrest, child?]
        · simp [hname, child?]
  | array items =>
    rw [removeAt, removeEach_eq_map]
    cases step with
    | item index => exact List.getElem?_map
    | key name => simp [child?]
  | _ => cases step <;> simp [removeAt, child?]

theorem distinctKeys_child? {v w : Json} (hv : v.distinctKeys = true) {step : Step}
    (h : v.child? step = some w) : w.distinctKeys = true := by
  cases v with
  | object fields =>
    cases step with
    | key name => exact (distinctKeys_object.mp hv).2 _ (Document.mem_of_get? h)
    | item => cases h
  | array items =>
    cases step with
    | key => cases h
    | item index =>
      rw [distinctKeys] at hv
      have hitems : ∀ items : List Json, distinctKeysItems items = true → ∀ w ∈ items,
          w.distinctKeys = true := by
        intro items hitems
        induction items with
        | nil => exact fun _ hw => absurd hw List.not_mem_nil
        | cons item items ih =>
          rw [distinctKeysItems, Bool.and_eq_true] at hitems
          exact List.forall_mem_cons.mpr ⟨hitems.1, ih hitems.2⟩
      exact hitems items hv w (List.mem_of_getElem? h)
  | _ => cases h

/-- **Removing a path takes away what stands at the places it leads to, and nothing else.** -/
theorem nodeAt?_removeAt {v : Json} (hv : v.distinctKeys = true) {p : Path} (hp : p ≠ [])
    (s : Place) :
    (v.removeAt p).nodeAt? s = if Path.leadsTo p s.keys then none else v.nodeAt? s := by
  obtain ⟨key, rest, rfl⟩ := List.exists_cons_of_ne_nil hp
  induction s generalizing v key rest with
  | nil => exact congrArg some (node_removeAt v _)
  | cons step s ih =>
    rw [nodeAt?_cons, nodeAt?_cons, child?_removeAt hv]
    cases hchild : v.child? step with
    | none => cases step <;> simp
    | some w =>
      have hw := distinctKeys_child? hv hchild
      cases step with
      | item => exact ih hw key rest (List.cons_ne_nil key rest)
      | key name =>
        by_cases hname : key = name
        · subst hname
          cases rest with
          | nil => simp [Place.keys, Path.leadsTo]
          | cons next rest =>
            rw [Place.keys, Path.leadsTo_cons_self]
            simpa using ih hw next rest (List.cons_ne_nil next rest)
        · simp [Place.keys, Path.leadsTo_cons, hname]

mutual

theorem distinctKeys_removeAt : ∀ (v : Json) (p : Path), v.distinctKeys = true →
    (v.removeAt p).distinctKeys = true
  | .object fields, p, h => by
    obtain ⟨hunique, -⟩ := distinctKeys_object.mp h
    rw [distinctKeys, Bool.and_eq_true] at h
    rw [removeAt, distinctKeys_object]
    exact ⟨hunique.removeEntry p, distinctKeys_removeEntry fields p h.2⟩
  | .array items, p, h => by
    rw [distinctKeys] at h
    rw [removeAt, distinctKeys]
    exact distinctKeys_removeEach items p h
  | .null, _, h | .bool _, _, h | .number _, _, h | .string _, _, h => h

theorem distinctKeys_removeEntry : ∀ (fields : List (String × Json)) (p : Path),
    distinctKeysEntries fields = true →
    ∀ e ∈ Document.removeEntry fields p, e.2.distinctKeys = true
  | fields, [], h, e, he => by
    rw [Document.removeEntry] at he
    exact distinctKeysEntries_iff.mp h e he
  | fields, [_], h, e, he => by
    rw [Document.removeEntry] at he
    exact distinctKeysEntries_iff.mp h e (Document.mem_of_mem_erase he)
  | [], _ :: _ :: _, _, e, he => by
    rw [Document.removeEntry] at he
    cases he
  | (k, v) :: fields, key :: next :: rest, h, e, he => by
    have hall := distinctKeysEntries_iff.mp h
    rw [distinctKeysEntries, Bool.and_eq_true] at h
    rw [Document.removeEntry] at he
    split at he
    · rcases List.mem_cons.mp he with rfl | he
      · exact distinctKeys_removeAt v (next :: rest) h.1
      · exact hall e (List.mem_cons_of_mem _ he)
    · rcases List.mem_cons.mp he with rfl | he
      · exact h.1
      · exact distinctKeys_removeEntry fields (key :: next :: rest) h.2 e he

theorem distinctKeys_removeEach : ∀ (items : List Json) (p : Path),
    distinctKeysItems items = true → distinctKeysItems (removeEach items p) = true
  | [], _, _ => by rw [removeEach, distinctKeysItems]
  | item :: items, p, h => by
    rw [distinctKeysItems, Bool.and_eq_true] at h
    rw [removeEach, distinctKeysItems, distinctKeys_removeAt item p h.1,
      distinctKeys_removeEach items p h.2, Bool.and_self]

end

end Json

/-! ## Setting -/

/-- What stands at a place once a path is set to a value, if setting it decides that. -/
def Path.decides : Path → Json → Json.Place → Option (Option Json.Node)
  | [], v, s => some (v.nodeAt? s)
  | _ :: _, _, [] => some (some .object)
  | _ :: _, _, .item _ :: _ => some none
  | key :: rest, v, .key name :: s => if key = name then decides rest v s else none

namespace Document

/-- What is no object on the way of a path makes no difference to what can be seen after the path
was set. -/
theorem getD_decides_child (d : Document) (key : String) {rest : Path} (hrest : rest ≠ [])
    (v : Json) (s : Json.Place) :
    (rest.decides v s).getD ((Json.object (d.child key)).nodeAt? s) =
      (rest.decides v s).getD ((d.get? key).bind (·.nodeAt? s)) := by
  obtain ⟨next, rest, rfl⟩ := List.exists_cons_of_ne_nil hrest
  match s with
  | [] => rfl
  | .item _ :: _ => rfl
  | .key name :: s =>
    rw [child]
    cases d.get? key with
    | none => rfl
    | some found => cases found <;> rfl

/-- **Setting a path decides what stands at some places and leaves the others alone.** -/
theorem nodeAt?_setAt (d : Document) {p : Path} (hp : p ≠ []) (v : Json) (s : Json.Place) :
    (Json.object (d.setAt p v)).nodeAt? s =
      (p.decides v s).getD ((Json.object d).nodeAt? s) := by
  induction p generalizing d s with
  | nil => exact absurd rfl hp
  | cons key rest ih =>
    match s with
    | [] => rfl
    | .item _ :: _ => rfl
    | .key name :: s =>
      rw [Json.nodeAt?_key, Json.nodeAt?_key, Path.decides]
      by_cases hname : key = name
      · subst hname
        rw [get?_setAt_cons, if_pos rfl, Option.bind_some]
        by_cases hrest : rest = []
        · rw [if_pos hrest, hrest, Path.decides, Option.getD_some]
        · rw [if_neg hrest, ih _ hrest, getD_decides_child d key hrest]
      · rw [get?_setAt_of_ne hname, if_neg hname, Option.getD_none]

theorem distinctKeys_setAt {d : Document} (hd : (Json.object d).distinctKeys = true) (p : Path)
    {v : Json} (hv : v.distinctKeys = true) : (Json.object (d.setAt p v)).distinctKeys = true := by
  match p with
  | [] => exact hd
  | [key] => exact Json.distinctKeys_insert hd key hv
  | key :: next :: rest =>
    refine Json.distinctKeys_insert hd key (distinctKeys_setAt ?_ (next :: rest) hv)
    rw [child]
    split
    · next fields hget => exact (Json.distinctKeys_object.mp hd).2 _ (mem_of_get? hget)
    · rfl

end Document

end DocMapper
