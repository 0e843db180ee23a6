import DocMapper.Proofs.Contents
import DocMapper.Proofs.Pipeline
import DocMapper.Proofs.Sameness

/-! # Updating the one document that matches

An upsert looks for the first document that matches its filter. If there is one, it is updated in
its place (`upsertOne_found`); if not, the document that the filter and the update describe is
appended under a fresh identifier (`upsertOne_missing`). On plain fields an update sets and removes
entries, and a filter describes its own entries. -/

namespace DocMapper

/-! ## Updates of plain fields -/

namespace Update

/-- Setting plain fields is merging them in. -/
theorem setAll_eq_merge {values : Document} (h : ∀ k ∈ values.keys, IsField k) (d : Document) :
    setAll d values = d.merge values := by
  induction values generalizing d with
  | nil => rfl
  | cons e values ih =>
    obtain ⟨k, v⟩ := e
    have hk : IsField k := h k List.mem_cons_self
    have hrest := ih (fun k' hk' => h k' (List.mem_cons_of_mem k hk')) (d.set k v)
    rw [Document.merge_cons, ← Document.set_field hk]
    exact hrest

theorem fixedValue?_of_isScalar {v : Json} (h : v.isScalar = true) : fixedValue? v = some v := by
  cases v <;> first | rfl | cases h

/-- A value that asks for itself fixes itself. -/
theorem fixedValue?_of_isLiteral {v : Json} (h : Filter.isLiteral v = true) :
    fixedValue? v = some v := by
  cases v with
  | object fields =>
    have hnone : ∀ e ∈ fields, startsDollar e.1 = false := by
      intro e he
      simpa using List.all_eq_true.mp h e he
    rw [fixedValue?, if_neg]
    rw [List.any_eq_true]
    rintro ⟨e, he, hdollar⟩
    exact Bool.noConfusion ((hnone e he).symm.trans hdollar)
  | _ => rfl

/-- Takes in what one entry of a filter fixes. -/
def seedEntry (d : Document) (e : String × Json) : Document :=
  if startsDollar e.1 then d
  else match fixedValue? e.2 with
    | some v => d.set e.1 v
    | none => d

theorem seed_object (entries : Document) : seed (.object entries) = entries.foldl seedEntry [] := rfl

theorem seedEntry_of_fixed {k : String} (hk : startsDollar k = false) {v w : Json}
    (hv : fixedValue? v = some w) (d : Document) : seedEntry d (k, v) = d.set k w := by
  simp [seedEntry, hk, hv]

theorem foldl_seed {entries : Document} (hplain : ∀ k ∈ entries.keys, IsPlain k)
    (hscalar : ∀ e ∈ entries, e.2.isScalar = true) (d : Document) :
    entries.foldl seedEntry d = d.merge entries := by
  induction entries generalizing d with
  | nil => rfl
  | cons e entries ih =>
    obtain ⟨k, v⟩ := e
    have hk : IsPlain k := hplain k List.mem_cons_self
    have hv : fixedValue? v = some v := fixedValue?_of_isScalar (hscalar (k, v) List.mem_cons_self)
    rw [List.foldl_cons, Document.merge_cons, ← Document.set_field hk.field,
      seedEntry_of_fixed hk.noDollar hv]
    apply ih
    · exact fun k' hk' => hplain k' (List.mem_cons_of_mem k hk')
    · exact fun e' he' => hscalar e' (List.mem_cons_of_mem _ he')

/-- A filter of plain fields and scalar values describes its own entries. -/
theorem seed_eq {entries : Document} (hplain : ∀ k ∈ entries.keys, IsPlain k)
    (hscalar : ∀ e ∈ entries, e.2.isScalar = true) (hunique : entries.Unique) :
    seed (.object entries) = entries :=
  (foldl_seed hplain hscalar []).trans (Document.merge_nil_left hunique)

end Update

namespace Update

/-! ## Fields that an update leaves alone -/

variable {u : Update} {d values : Document} {paths : List String} {f : String}

theorem unique_setAll (hd : d.Unique) (values : Document) : (setAll d values).Unique := by
  induction values generalizing d with
  | nil => exact hd
  | cons e values ih => exact ih (hd.set e.1 e.2)

theorem get?_setAll_of_head_ne (h : ∀ path ∈ values.keys, Path.head path ≠ f) (d : Document) :
    (setAll d values).get? f = d.get? f := by
  induction values generalizing d with
  | nil => rfl
  | cons e values ih =>
    have hrest := ih (fun path hpath => h path (List.mem_cons_of_mem _ hpath)) (d.set e.1 e.2)
    exact hrest.trans (Document.get?_set_of_head_ne (h e.1 List.mem_cons_self) d e.2)

/-- Paths other than a field either leave the field alone, or leave an object there, which depends
on the object that was there at most. -/
theorem get?_setAll_cases (h : f ∉ values.keys) :
    (∀ d, (setAll d values).get? f = d.get? f) ∨
      ∃ inside : Document → Document, ∀ d : Document,
        (setAll d values).get? f = some (.object (inside (d.child f))) := by
  induction values with
  | nil => exact .inl fun d => rfl
  | cons e values ih =>
    obtain ⟨path, v⟩ := e
    rw [Document.keys_cons, List.mem_cons, not_or] at h
    have hrest := ih h.2
    by_cases hhead : Path.head path = f
    · have hset := Document.get?_set_under hhead (Ne.symm h.1)
      have hchild : ∀ d : Document, (d.set path v).child f =
          (d.child f).setAt (Path.ofString path).tail v := by
        intro d
        rw [Document.child, hset]
      rcases hrest with hkept | ⟨inside, hinside⟩
      · exact .inr ⟨fun o => o.setAt (Path.ofString path).tail v,
          fun d => (hkept (d.set path v)).trans (hset d v)⟩
      · refine .inr ⟨fun o => inside (o.setAt (Path.ofString path).tail v), fun d => ?_⟩
        have hfound := hinside (d.set path v)
        rw [hchild] at hfound
        exact hfound
    · have hset : ∀ d : Document, (d.set path v).get? f = d.get? f :=
        fun d => Document.get?_set_of_head_ne hhead d v
      have hchild : ∀ d : Document, (d.set path v).child f = d.child f := by
        intro d
        rw [Document.child, Document.child, hset]
      rcases hrest with hkept | ⟨inside, hinside⟩
      · exact .inl fun d => (hkept (d.set path v)).trans (hset d)
      · refine .inr ⟨inside, fun d => ?_⟩
        have hfound := hinside (d.set path v)
        rw [hchild] at hfound
        exact hfound

theorem get?_removeAll_of_head_ne (hd : d.Unique) (h : ∀ path ∈ paths, Path.head path ≠ f) :
    (removeAll d paths).get? f = d.get? f := by
  induction paths generalizing d with
  | nil => rfl
  | cons path paths ih =>
    have hrest := ih (hd.remove path) fun p hp => h p (List.mem_cons_of_mem _ hp)
    exact hrest.trans (Document.get?_remove_of_head_ne (h path List.mem_cons_self) hd)

theorem unique_apply (hd : d.Unique) (u : Update) : (u.apply d).Unique :=
  unique_removeAll (unique_setAll hd u.set) u.unset

/-- An update leaves a field alone that no path of it starts with. -/
theorem get?_apply_of_head_ne (hd : d.Unique) (hset : ∀ path ∈ u.set.keys, Path.head path ≠ f)
    (hunset : ∀ path ∈ u.unset, Path.head path ≠ f) : (u.apply d).get? f = d.get? f := by
  rw [apply, get?_removeAll_of_head_ne (unique_setAll hd u.set) hunset,
    get?_setAll_of_head_ne hset]

/-! ## What a filter fixes -/

theorem unique_seedEntry (hd : d.Unique) (e : String × Json) : (seedEntry d e).Unique := by
  unfold seedEntry
  split
  · exact hd
  · split
    · exact hd.set _ _
    · exact hd

theorem unique_seed (filter : Json) : (seed filter).Unique := by
  cases filter with
  | object entries =>
    have hfold : ∀ (entries d : Document), d.Unique → (entries.foldl seedEntry d).Unique := by
      intro entries
      induction entries with
      | nil => exact fun d hd => hd
      | cons e entries ih => exact fun d hd => ih _ (unique_seedEntry hd e)
    exact hfold entries [] Document.unique_nil
  | _ => exact Document.unique_nil

theorem get?_seedEntry_of_head_ne {e : String × Json} (h : Path.head e.1 ≠ f) (d : Document) :
    (seedEntry d e).get? f = d.get? f := by
  unfold seedEntry
  split
  · rfl
  · split
    · exact Document.get?_set_of_head_ne h d _
    · rfl

/-- The document that a filter describes holds what the filter fixes. -/
theorem get?_seed {entries : Document} (hfields : ∀ k ∈ entries.keys, IsField k)
    (hunique : entries.Unique) {v w : Json} (hmem : (f, v) ∈ entries)
    (hdollar : startsDollar f = false) (hfixed : fixedValue? v = some w) :
    (seed (.object entries)).get? f = some w := by
  have hrest : ∀ (rest d : Document), (∀ k ∈ rest.keys, Path.head k ≠ f) →
      (rest.foldl seedEntry d).get? f = d.get? f := by
    intro rest
    induction rest with
    | nil => exact fun d _ => rfl
    | cons e rest ih =>
      intro d h
      rw [List.foldl_cons, ih _ fun k hk => h k (List.mem_cons_of_mem _ hk)]
      exact get?_seedEntry_of_head_ne (h e.1 List.mem_cons_self) d
  -- The entry sets the field, and no later one is about the same field.
  obtain ⟨before, after, rfl⟩ := List.append_of_mem hmem
  have hafter : ∀ k ∈ Document.keys after, Path.head k ≠ f := by
    intro k hk
    have hkey : k ∈ Document.keys (before ++ (f, v) :: after) := by
      simp only [Document.keys, List.map_append, List.map_cons] at hk ⊢
      exact List.mem_append_right _ (List.mem_cons_of_mem _ hk)
    rw [Path.head_field (hfields k hkey)]
    rintro rfl
    simp only [Document.Unique, Document.keys, List.map_append, List.map_cons] at hunique hk
    exact (List.nodup_cons.mp (List.nodup_append.mp hunique).2.1).1 hk
  have hfield : IsField f := hfields f (Document.mem_keys_of_mem hmem)
  rw [seed_object, List.foldl_append, List.foldl_cons, hrest _ _ hafter,
    seedEntry_of_fixed hdollar hfixed, Document.set_field hfield, Document.get?_insert_self]

theorem unique_inserted (u : Update) (filter : Json) : (u.inserted filter).Unique :=
  unique_apply (unique_setAll (unique_seed filter) u.setOnInsert) u

end Update

/-! ## Finding the document -/

namespace Store

theorem findMatch_eq {filter : Json} {docs : List Document} {p : Document → Bool}
    (h : ∀ d ∈ docs, Filter.accepts d filter = .ok (p d)) :
    findMatch filter docs = .ok (docs.findIdx? p) := by
  induction docs with
  | nil => rfl
  | cons d docs ih =>
    rw [findMatch, h d List.mem_cons_self, ok_bind, ih fun e he => h e (List.mem_cons_of_mem d he),
      List.findIdx?_cons]
    cases p d with
    | false => rfl
    | true => rfl

theorem findMatch_none {filter : Json} {docs : List Document}
    (h : ∀ d ∈ docs, Filter.accepts d filter = .ok false) : findMatch filter docs = .ok none := by
  have hnone : docs.findIdx? (fun _ => false) = none :=
    List.findIdx?_eq_none_iff.mpr fun _ _ => rfl
  rw [findMatch_eq h, hnone]

/-- The document that is found is the first that matches. -/
theorem exists_split_of_findMatch {filter : Json} {docs : List Document} {i : Nat}
    (h : findMatch filter docs = .ok (some i)) :
    ∃ before d after, docs = before ++ d :: after ∧ i = before.length ∧
      (∀ b ∈ before, Filter.accepts b filter = .ok false) ∧ Filter.accepts d filter = .ok true := by
  induction docs generalizing i with
  | nil => cases h
  | cons d docs ih =>
    rw [findMatch] at h
    obtain ⟨b, hb, h⟩ := bind_eq_ok.mp h
    cases b with
    | true =>
      cases h
      exact ⟨[], d, docs, rfl, rfl, fun _ hb => absurd hb List.not_mem_nil, hb⟩
    | false =>
      obtain ⟨found, hfound, h⟩ := bind_eq_ok.mp h
      cases found with
      | none => cases h
      | some j =>
        cases h
        obtain ⟨before, e, after, rfl, rfl, hbefore, he⟩ := ih hfound
        exact ⟨d :: before, e, after, rfl, rfl, List.forall_mem_cons.mpr ⟨hb, hbefore⟩, he⟩

theorem findMatch_append {filter : Json} {before : List Document} {d : Document}
    (hbefore : ∀ b ∈ before, Filter.accepts b filter = .ok false)
    (hd : Filter.accepts d filter = .ok true) (after : List Document) :
    findMatch filter (before ++ d :: after) = .ok (some before.length) := by
  induction before with
  | nil =>
    rw [List.nil_append, findMatch, hd]
    rfl
  | cons b before ih =>
    obtain ⟨hb, hrest⟩ := List.forall_mem_cons.mp hbefore
    rw [List.cons_append, findMatch, hb, ok_bind, ih hrest]
    rfl

/-- If no document is found, none matches. -/
theorem accepts_of_findMatch {filter : Json} {docs : List Document}
    (h : findMatch filter docs = .ok none) : ∀ d ∈ docs, Filter.accepts d filter = .ok false := by
  induction docs with
  | nil => exact fun _ hd => absurd hd List.not_mem_nil
  | cons d docs ih =>
    rw [findMatch] at h
    obtain ⟨b, hb, h⟩ := bind_eq_ok.mp h
    cases b with
    | true => cases h
    | false =>
      obtain ⟨found, hfound, h⟩ := bind_eq_ok.mp h
      cases found with
      | some i => cases h
      | none =>
        intro e he
        rcases List.mem_cons.mp he with rfl | he
        · exact hb
        · exact ih hfound e he

/-! ## Preparing a document -/

/-- Preparing a document changes no collection. A document that is prepared has an identifier that
none beside it has. -/
theorem prepare_spec (d : Document) (beside : List Document) (s : Store) :
    (prepare d beside s).2.documents = s.documents ∧
      ∀ id e, (prepare d beside s).1 = .ok (id, e) →
        e = d.insert "_id" id.toJson ∧ ∀ b ∈ beside, hasId id b = false := by
  -- Once there is an identifier, only the documents beside count.
  have hprepared : ∀ (id : DocumentId) (t : Store), t.documents = s.documents →
      let after : Except Error (DocumentId × Document) × Store :=
        if beside.any (hasId id) then (.error (.database (.duplicateId id.canonical)), t)
        else (.ok (id, d.insert "_id" id.toJson), t)
      after.2.documents = s.documents ∧ ∀ id e, after.1 = .ok (id, e) →
        e = d.insert "_id" id.toJson ∧ ∀ b ∈ beside, hasId id b = false := by
    intro id t ht
    cases hany : beside.any (hasId id) with
    | true => simp [ht]
    | false =>
      simp only [Bool.false_eq_true, if_false]
      refine ⟨ht, ?_⟩
      rintro _ _ ⟨⟩
      exact ⟨rfl, fun b hb => Bool.eq_false_iff.mpr (List.any_eq_false.mp hany b hb)⟩
  unfold prepare
  cases d.get? "_id" with
  | none => exact hprepared s.freshId.1 s.freshId.2 rfl
  | some v =>
    dsimp only
    cases DocumentId.ofJson v with
    | error e => exact ⟨rfl, nofun⟩
    | ok id => exact hprepared id s rfl

/-! ## Updating or inserting -/

variable {name : String} {filter update : Json} {s : Store} {u : Update} {p : Document → Bool}

/-- The first document that matches is updated in its place. -/
theorem upsertOne_first (hu : Update.ofJson update = .ok u) {before after : List Document}
    {d : Document} (hdocs : s.documents name = before ++ d :: after)
    (hbefore : ∀ b ∈ before, Filter.accepts b filter = .ok false)
    (hd : Filter.accepts d filter = .ok true) :
    upsertOne name filter update s =
      (.ok { matched := 1, modified := if u.changes d then 1 else 0 },
        (s.put name (before ++ u.apply d :: after)).countedIf (u.changes d)) := by
  have hmodify : (before ++ d :: after).modify before.length u.apply =
      before ++ u.apply d :: after := by
    rw [List.modify_eq_take_cons_drop (by simp)]
    simp
  simp [upsertOne, hu, hdocs, findMatch_append hbefore hd, hmodify]

/-- If a document matches, the first that does is updated in its place. -/
theorem upsertOne_found (hu : Update.ofJson update = .ok u)
    (h : ∀ d ∈ s.documents name, Filter.accepts d filter = .ok (p d)) {d : Document}
    (hd : d ∈ s.documents name) (hp : p d = true) :
    ∃ before e after, s.documents name = before ++ e :: after ∧ p e = true ∧
      upsertOne name filter update s =
        (.ok { matched := 1, modified := if u.changes e then 1 else 0 },
          (s.put name (before ++ u.apply e :: after)).countedIf (u.changes e)) := by
  cases hfind : (s.documents name).findIdx? p with
  | none =>
    rw [List.findIdx?_eq_none_iff] at hfind
    have hnot := hfind d hd
    rw [hp] at hnot
    cases hnot
  | some i =>
    have hmatch : findMatch filter (s.documents name) = .ok (some i) := by
      rw [findMatch_eq h, hfind]
    obtain ⟨before, e, after, hsplit, -, hbefore, he⟩ := exists_split_of_findMatch hmatch
    have hmem : e ∈ s.documents name :=
      hsplit ▸ List.mem_append_right before List.mem_cons_self
    exact ⟨before, e, after, hsplit, Except.ok.inj ((h e hmem).symm.trans he),
      upsertOne_first hu hsplit hbefore he⟩

/-- A document without an identifier gets the next one, if no document beside it has it. -/
theorem prepare_drawn {d : Document} {beside : List Document} (hd : d.get? "_id" = none)
    (hbeside : ∀ e ∈ beside, hasId s.ids.draw.1 e = false) :
    prepare d beside s = (.ok (s.ids.draw.1, d.insert "_id" s.ids.draw.1.toJson),
      { s with ids := s.ids.draw.2 }) := by
  have hany : beside.any (hasId s.ids.draw.1) = false := by
    rw [List.any_eq_false]
    exact fun e he => Bool.eq_false_iff.mp (hbeside e he)
  simp only [prepare, hd, freshId, hany, Bool.false_eq_true, if_false]

/-- What an upsert does to a store: it leaves the documents as they are, or updates one of its
collection in its place, or, if no document matches, appends the one that the filter and the update
describe. -/
theorem documents_upsertOne (name : String) (filter update : Json) (s : Store) :
    let after := (upsertOne name filter update s).2.documents
    after = s.documents ∨ ∃ u, Update.ofJson update = .ok u ∧
      ((∃ i, after = (s.put name ((s.documents name).modify i u.apply)).documents) ∨
        (∀ d ∈ s.documents name, Filter.accepts d filter = .ok false) ∧
          ∃ id : DocumentId, (∀ d ∈ s.documents name, hasId id d = false) ∧
            after = (s.put name
              (s.documents name ++ [(u.inserted filter).insert "_id" id.toJson])).documents) := by
  intro after
  cases hu : Update.ofJson update with
  | error fault => exact .inl (by simp only [after, upsertOne, hu])
  | ok u =>
    cases hfind : findMatch filter (s.documents name) with
    | error fault => exact .inl (by simp only [after, upsertOne, hu, hfind])
    | ok found =>
      cases found with
      | some i =>
        refine .inr ⟨u, rfl, .inl ⟨i, ?_⟩⟩
        simp only [after, upsertOne, hu, hfind, documents_countedIf]
      | none =>
        obtain ⟨hdocs, hprepared⟩ := prepare_spec (u.inserted filter) (s.documents name) s
        cases hrun : prepare (u.inserted filter) (s.documents name) s with
        | mk outcome t =>
          rw [hrun] at hdocs hprepared
          cases outcome with
          | error e =>
            refine .inl ?_
            simp only [after, upsertOne, hu, hfind, hrun, hdocs]
          | ok prepared =>
            obtain ⟨id, e⟩ := prepared
            obtain ⟨rfl, hunused⟩ := hprepared id e rfl
            refine .inr ⟨u, rfl, .inr ⟨accepts_of_findMatch hfind, id, hunused, ?_⟩⟩
            simp only [after, upsertOne, hu, hfind, hrun, documents_counted]
            exact documents_put_congr hdocs name _

/-- If no document matches, the one that the filter and the update describe is appended. -/
theorem upsertOne_missing (hu : Update.ofJson update = .ok u)
    (h : ∀ d ∈ s.documents name, Filter.accepts d filter = .ok false)
    (hid : (u.inserted filter).get? "_id" = none) {last : Nat} (hfresh : s.FreshIds name last)
    (hlast : s.ids.drawn < last) :
    upsertOne name filter update s = (.ok { upserted := some s.ids.draw.1 },
      ((({ s with ids := s.ids.draw.2 } : Store).put name (s.documents name ++
        [(u.inserted filter).insert "_id" s.ids.draw.1.toJson])).counted)) := by
  have hfind := findMatch_none h
  -- The identifier that is drawn is the first of those that are fresh.
  have hbeside : ∀ e ∈ s.documents name, hasId s.ids.draw.1 e = false :=
    hfresh.unused s.ids.drawn (Nat.le_refl _) hlast
  rw [upsertOne]
  simp only [hu, hfind, prepare_drawn hid hbeside]

/-- If no document matches, an upsert that succeeds appends the one that the filter and the update
describe, under the identifier that it gives. -/
theorem upsertOne_appends (hu : Update.ofJson update = .ok u)
    (h : ∀ d ∈ s.documents name, Filter.accepts d filter = .ok false) {outcome : UpdateOutcome}
    {t : Store} (hrun : upsertOne name filter update s = (.ok outcome, t)) :
    ∃ id : DocumentId, outcome.upserted = some id ∧ t.documents =
      (s.put name
        (s.documents name ++ [(u.inserted filter).insert "_id" id.toJson])).documents := by
  have hfind := findMatch_none h
  obtain ⟨hsame, hprepared⟩ := prepare_spec (u.inserted filter) (s.documents name) s
  rw [upsertOne] at hrun
  simp only [hu, hfind] at hrun
  cases hprepare : prepare (u.inserted filter) (s.documents name) s with
  | mk prepared v =>
    rw [hprepare] at hrun hsame hprepared
    cases prepared with
    | error e => cases hrun
    | ok prepared =>
      obtain ⟨id, d⟩ := prepared
      obtain ⟨rfl, -⟩ := hprepared id d rfl
      cases hrun
      refine ⟨id, rfl, ?_⟩
      rw [documents_counted]
      exact documents_put_congr hsame name _

/-- If no document matches, and a document is inserted all the same, then under an identifier that
no other one has. -/
theorem unused_of_upsertOne (hu : Update.ofJson update = .ok u)
    (h : ∀ d ∈ s.documents name, Filter.accepts d filter = .ok false)
    (hid : (u.inserted filter).get? "_id" = none) {outcome : UpdateOutcome} {t : Store}
    (hrun : upsertOne name filter update s = (.ok outcome, t)) :
    ∀ d ∈ s.documents name, hasId s.ids.draw.1 d = false := by
  have hfind := findMatch_none h
  cases hany : (s.documents name).any (hasId s.ids.draw.1) with
  | false => exact fun d hd => Bool.eq_false_iff.mpr (List.any_eq_false.mp hany d hd)
  | true =>
    rw [upsertOne] at hrun
    simp only [hu, hfind, prepare, hid, freshId, hany, if_true] at hrun
    cases hrun

end Store

end DocMapper
