import DocMapper.Proofs.Entity.Addressing

/-! # Two entities of one document

Two programs may read the same document, edit it each by itself, and save it one after the other.
The second save comes from a state that the first one has outdated. No edit is lost all the same,
because a save sends changes and not the whole document: a field that one of them changed is left
alone by the other, if they changed different fields.

A save is sent to the documents that match the key of the entity in its canonical form. So all this
depends on the document being found under that form of its key (`Entity.save_lands`); where it is
not, as with a key that is stored in another spelling, saves succeed and change nothing
(`Entity.documents_save_of_none`). -/

namespace DocMapper

/-! ## Documents that hold the same key -/

/-- Values that are the same spell the same identifier, if any. -/
theorem DocumentId.ofJson?_eq_of_same {v w : Json} (hv : v.distinctKeys = true)
    (hw : w.distinctKeys = true) (h : v.same w = true) : ofJson? v = ofJson? w := by
  cases v with
  | null => rw [Json.eq_of_same_null h]
  | bool b => rw [Json.eq_of_same_bool h]
  | string s => rw [Json.eq_of_same_string h]
  | number n =>
    obtain ⟨k, rfl, -⟩ := Json.exists_number_of_same h
    rfl
  | array items =>
    obtain ⟨others, rfl, -⟩ := Json.exists_array_of_same h
    rfl
  | object fields =>
    obtain ⟨others, rfl, -⟩ := Json.exists_object_of_same h
    have hget := (Document.same_iff (Json.distinctKeys_object.mp hv).1
      (Json.distinctKeys_object.mp hw).1).mp h
    have hheld : ((Document.get? fields "$oid" <|> Document.get? fields "$uuid") ==
        (Document.get? others "$oid" <|> Document.get? others "$uuid")) = true := by
      have hoid := hget "$oid"
      revert hoid
      cases Document.get? fields "$oid" <;> cases Document.get? others "$oid" <;> simp [hget "$uuid"]
    rw [ofJson?, ofJson?, ofJson, ofJson]
    revert hheld
    generalize (Document.get? fields "$oid" <|> Document.get? fields "$uuid") = v
    generalize (Document.get? others "$oid" <|> Document.get? others "$uuid") = w
    intro hheld
    rcases v with _ | v <;> rcases w with _ | w
    · rfl
    · cases hheld
    · cases hheld
    · have hvw : v.same w = true := hheld
      cases v with
      | string s => rw [Json.eq_of_same_string hvw]
      | _ => cases w <;> first | rfl | simp [Json.same] at hvw

/-- A text is asked for under a field alone: documents that hold the same there both match or
both do not. -/
theorem Filter.accepts_text_congr {key text : String} (hkey : IsField key)
    (htext : startsDollar text = false) {d e : Document} (hget : e.get? key = d.get? key) {b : Bool}
    (h : accepts d (.single key (.string text)) = .ok b) :
    accepts e (.single key (.string text)) = .ok b := by
  by_cases hdollar : startsDollar key = false
  · rw [accepts_single hdollar (conditionHolds_of_scalar rfl d key)] at h
    rw [accepts_single hdollar (conditionHolds_of_scalar rfl e key), equals_of_get?_eq hkey hget, h]
  · have hnever := entriesHold_string_ne_false ((Bool.not_eq_false _).mp hdollar) fun _ => htext
    obtain ⟨b', hb'⟩ := canTest_text htext h e
    cases b with
    | false => exact absurd h (hnever d)
    | true =>
      cases b' with
      | false => exact absurd hb' (hnever e)
      | true => exact hb'

namespace Model

/-- The identifier that a document holds under the primary key, if there is one. -/
def idOf? (m : Model) (d : Document) : Option DocumentId :=
  (d.get? m.primaryKey).bind DocumentId.ofJson?

theorem idOf?_eq_of_same {d e : Document} (hd : (Json.object d).distinctKeys = true)
    (he : (Json.object e).distinctKeys = true) (h : d.same e = true) (m : Model) :
    m.idOf? d = m.idOf? e := by
  obtain ⟨hunique, hvalues⟩ := Json.distinctKeys_object.mp hd
  obtain ⟨hunique', hvalues'⟩ := Json.distinctKeys_object.mp he
  have hkey := (Document.same_iff hunique hunique').mp h m.primaryKey
  rw [idOf?, idOf?]
  cases hv : d.get? m.primaryKey with
  | none =>
    cases hw : e.get? m.primaryKey with
    | none => rfl
    | some w => simp [hv, hw] at hkey
  | some v =>
    cases hw : e.get? m.primaryKey with
    | none => simp [hv, hw] at hkey
    | some w =>
      rw [hv, hw] at hkey
      exact DocumentId.ofJson?_eq_of_same (hvalues _ (Document.mem_of_get? hv))
        (hvalues' _ (Document.mem_of_get? hw)) hkey

/-- The field holds when a document of the model was last updated. -/
def Stamps (m : Model) (key : String) : Prop := ∃ t, m.timestamps = some t ∧ t.updated = key

/-- The primary key and the time of an update stand in plain fields, and not in the same one. -/
structure PlainFields (m : Model) : Prop where
  key : IsField m.primaryKey
  stamp : ∀ key, m.Stamps key → IsField key ∧ key ≠ m.primaryKey

/-- A plain field other than the primary key and the time of an update. -/
structure Editable (m : Model) (key : String) : Prop where
  field : IsField key
  notKey : key ≠ m.primaryKey
  notStamp : ¬ m.Stamps key

end Model

namespace Entity

variable {e f g : Entity} {schema : Schema} {s : Store} {m : Model} {id : DocumentId}
  {before after : List Document} {c c' d : Document} {key now later : String}

theorem requireId_eq_ok_iff : e.requireId = .ok id ↔ e.id? = some id := by
  rw [requireId]
  cases e.id? <;> simp

/-! ## Stamped entities -/

theorem get?_stamped (h : ¬ e.model.Stamps key) (now : String) :
    (e.stamped now).get? key = e.get? key := by
  unfold stamped
  split
  · next t ht => exact Document.get?_insert_of_ne (fun heq => h ⟨t, ht, heq⟩) _ _
  · rfl

theorem mem_changes_stamped (h : ¬ e.model.Stamps key) (now : String) :
    key ∈ (e.stamped now).changes ↔ key ∈ e.changes := by
  unfold stamped
  split
  · next t ht =>
    have hne : key ≠ t.updated := fun heq => h ⟨t, ht, heq.symm⟩
    simp only [Entity.set]
    split <;> simp [mem_insertName, hne]
  · rfl

/-! ## Working copies -/

/-- An entity that was read in full from a document and then edited, in fields that programs may
edit. -/
inductive WorkingCopy (schema : Schema) (m : Model) (d : Document) : Entity → Prop where
  | edited {s₀ : Store} {e : Entity} {edits : List Edit} : Obtained schema s₀ m e →
      (Json.object e.stored).distinctKeys = true → e.stored.same d = true →
      (∀ edit ∈ edits, edit.Within m.Editable) → WorkingCopy schema m d (e.edited edits)

/-- What is used of a working copy: it counts as stored, tracks its changes against the document that
it was read from, has changed only what may be edited, and has the key of its document. -/
structure WorksOn (m : Model) (d : Document) (f : Entity) : Prop where
  tracked : f.Tracked
  model : f.model = m
  isStored : f.isStored = true
  stored : ∀ key, (f.stored.get? key == d.get? key) = true
  editable : ∀ key ∈ f.changes, m.Editable key
  id : f.id? = m.idOf? d

theorem WorkingCopy.worksOn (h : WorkingCopy schema m d f)
    (hd : (Json.object d).distinctKeys = true) : WorksOn m d f := by
  obtain ⟨hobtained, hstored, hsame, hedits⟩ := h
  next s₀ e edits =>
  obtain ⟨hfresh, -⟩ := hobtained.fresh
  obtain ⟨hrevises, hmodel, hflag⟩ := hobtained.edited hstored hedits
  obtain ⟨hstoredUnique, -⟩ := Json.distinctKeys_object.mp hstored
  obtain ⟨hunique, -⟩ := Json.distinctKeys_object.mp hd
  refine ⟨hrevises.tracked, hmodel, hflag, fun key => ?_, fun key hkey => ?_, ?_⟩
  · rw [hrevises.stored]
    exact (Document.same_iff hstoredUnique hunique).mp hsame key
  · exact hrevises.touched_of_mem_changes (hfresh.tracked hstored) hfresh.changes hkey
  · have hkept : (e.edited edits).get? m.primaryKey = e.stored.get? m.primaryKey := by
      rw [hrevises.untouched _ fun heditable => heditable.notKey rfl, get?, hfresh.stored]
    rw [id?, hmodel, hkept]
    exact Model.idOf?_eq_of_same hstored hd hsame m

namespace WorksOn

theorem requireId_stamped (hf : WorksOn m d f) (hm : m.PlainFields) (now : String) :
    (f.stamped now).requireId = .ok id ↔ m.idOf? d = some id := by
  have hkey : ¬ f.model.Stamps f.model.primaryKey := by
    rw [hf.model]
    exact fun hstamps => (hm.stamp _ hstamps).2 rfl
  rw [requireId_eq_ok_iff, ← hf.id, id?, id?, model_stamped, get?_stamped hkey]

theorem fields_stamped (hf : WorksOn m d f) (hm : m.PlainFields) (now : String) :
    ∀ key ∈ (f.stamped now).changes, IsField key := by
  intro key hkey
  by_cases hstamps : m.Stamps key
  · exact (hm.stamp key hstamps).1
  · rw [mem_changes_stamped (hf.model ▸ hstamps)] at hkey
    exact (hf.editable key hkey).field

end WorksOn

/-! ## One save -/

/-- A save puts the changes of an entity into a document that stands between others. -/
structure Lands (m : Model) (s : Store) (before : List Document) (c : Document)
    (after : List Document) (f : Entity) (now : String) (c' : Document) : Prop where
  succeeds : (f.save now s).result = .ok ()
  documents : (f.save now s).store.documents =
    (s.put m.collection (before ++ c' :: after)).documents
  unique : c'.Unique
  fields : ∀ key, ¬ m.Stamps key →
    c'.get? key = if key ∈ f.changes then f.get? key else c.get? key

/-- An entity without changes puts none of them into a document. -/
theorem lands_of_clean (hf : WorksOn m d f) (hclean : f.isDirty = false)
    (hdocs : s.documents m.collection = before ++ c :: after) (hc : c.Unique) (now : String) :
    Lands m s before c after f now c := by
  have hsave := save_of_clean hf.isStored hclean now s
  refine ⟨?_, ?_, hc, fun key _ => by simp [isDirty_eq_false.mp hclean]⟩
  · rw [hsave]
  · rw [hsave, ← hdocs, Store.documents_put_documents]

/-- A save puts the changes into the one document that matches the key of the entity, whatever else
has become of it since the entity was read. -/
theorem save_lands (hm : m.PlainFields) (hf : WorksOn m d f) (hid : m.idOf? d = some id)
    (hdocs : s.documents m.collection = before ++ c :: after) (hc : c.Unique)
    (hmatch : Filter.accepts c (m.keyFilter id) = .ok true)
    (honly : ∀ other ∈ before ++ after, Filter.accepts other (m.keyFilter id) ≠ .ok true)
    (now : String) : ∃ c', Lands m s before c after f now c' := by
  cases hdirty : f.isDirty with
  | false => exact ⟨c, lands_of_clean hf hdirty hdocs hc now⟩
  | true =>
    have hmodel := hf.model
    subst hmodel
    have hsave := save_one hf.isStored hdirty ((hf.requireId_stamped hm now).mpr hid) hdocs hmatch
      (keyFilter_misses hmatch honly)
    refine ⟨(f.stamped now).pending.apply c, ?_, ?_, Update.unique_apply hc _, fun key hkey => ?_⟩
    · rw [hsave]
    · rw [hsave, Store.documents_countedIf]
    · rw [get?_apply_pending hc (hf.fields_stamped hm now), get?_stamped hkey]
      simp only [mem_changes_stamped hkey]

/-- A save that finds no document under the key of the entity changes none. -/
theorem documents_save_of_none (hm : m.PlainFields) (hf : WorksOn m d f)
    (hsaved : (f.save now s).result = .ok ())
    (hnone : ∀ id, m.idOf? d = some id → ∀ c ∈ s.documents m.collection,
      Filter.accepts c (m.keyFilter id) ≠ .ok true) :
    (f.save now s).store.documents = s.documents := by
  have hmodel := hf.model
  subst hmodel
  rcases save_succeeds hf.isStored hsaved with ⟨-, hsame⟩ | ⟨-, id, hid, -, hdocs⟩
  · rw [hsame]
  · have hmisses := hnone id ((hf.requireId_stamped hm now).mp hid)
    have hkept : (s.documents f.model.collection).map
        (Store.revised (f.model.keyFilter id) (f.stamped now).pending) =
          s.documents f.model.collection := by
      refine (List.map_congr_left fun c hc => ?_).trans (List.map_id' _)
      unfold Store.revised
      split
      · next hmatch => exact absurd hmatch (hmisses c hc)
      · rfl
    rw [hdocs, hkept, Store.documents_put_documents]

/-! ## Two saves -/

/-- Saving one entity and then another one succeeds, and leaves a document that holds the changes of
both. Apart from when it was updated, it holds otherwise what it did, and nothing else changes. -/
structure SavesBoth (m : Model) (s : Store) (before : List Document) (d : Document)
    (after : List Document) (f g : Entity) (now later : String) (d' : Document) : Prop where
  first : (f.save now s).result = .ok ()
  second : (g.save later (f.save now s).store).result = .ok ()
  documents : (g.save later (f.save now s).store).store.documents m.collection =
    before ++ d' :: after
  elsewhere : ∀ other ≠ m.collection,
    (g.save later (f.save now s).store).store.documents other = s.documents other
  ofFirst : ∀ key ∈ f.changes, d'.get? key = f.get? key
  ofSecond : ∀ key ∈ g.changes, d'.get? key = g.get? key
  untouched : ∀ key, key ∉ f.changes → key ∉ g.changes → ¬ m.Stamps key →
    d'.get? key = d.get? key

/-- What changed in different fields stands side by side after two saves. -/
theorem Lands.savesBoth (h₁ : Lands m s before d after f now c)
    (h₂ : Lands m (f.save now s).store before c after g later c') (hf : WorksOn m d f)
    (hg : WorksOn m d g) (hapart : f.changes.Disjoint g.changes) :
    SavesBoth m s before d after f g now later c' := by
  refine ⟨h₁.succeeds, h₂.succeeds, ?_, fun other hne => ?_, fun key hkey => ?_, fun key hkey => ?_,
    fun key hf' hg' hstamps => ?_⟩
  · rw [h₂.documents, Store.documents_put_self]
  · rw [h₂.documents, Store.documents_put_of_ne hne, h₁.documents, Store.documents_put_of_ne hne]
  · have hstamps := (hf.editable key hkey).notStamp
    rw [h₂.fields key hstamps, if_neg (hapart hkey), h₁.fields key hstamps, if_pos hkey]
  · rw [h₂.fields key (hg.editable key hkey).notStamp, if_pos hkey]
  · rw [h₂.fields key hstamps, if_neg hg', h₁.fields key hstamps, if_neg hf']

theorem savesBoth_of_clean (hf : WorksOn m d f) (hg : WorksOn m d g) (hfclean : f.isDirty = false)
    (hgclean : g.isDirty = false) (hapart : f.changes.Disjoint g.changes)
    (hdocs : s.documents m.collection = before ++ d :: after) (hd : d.Unique) (now later : String) :
    SavesBoth m s before d after f g now later d := by
  have hfirst := lands_of_clean hf hfclean hdocs hd now
  have hdocs' : (f.save now s).store.documents m.collection = before ++ d :: after := by
    rw [hfirst.documents, Store.documents_put_self]
  exact hfirst.savesBoth (lands_of_clean hg hgclean hdocs' hd later) hf hg hapart

theorem savesBoth_of_match (hm : m.PlainFields) (hf : WorksOn m d f) (hg : WorksOn m d g)
    (hid : m.idOf? d = some id) (hapart : f.changes.Disjoint g.changes)
    (hdocs : s.documents m.collection = before ++ d :: after) (hd : d.Unique)
    (hmatch : Filter.accepts d (m.keyFilter id) = .ok true)
    (honly : ∀ other ∈ before ++ after, Filter.accepts other (m.keyFilter id) ≠ .ok true)
    (now later : String) : ∃ d', SavesBoth m s before d after f g now later d' := by
  obtain ⟨c, hfirst⟩ := save_lands hm hf hid hdocs hd hmatch honly now
  have hdocs' : (f.save now s).store.documents m.collection = before ++ c :: after := by
    rw [hfirst.documents, Store.documents_put_self]
  -- The first save leaves the key as it is, so the second one finds the document again.
  have hkey : c.get? m.primaryKey = d.get? m.primaryKey := by
    rw [hfirst.fields _ fun hstamps => (hm.stamp _ hstamps).2 rfl,
      if_neg fun hchanged => (hf.editable _ hchanged).notKey rfl]
  have hmatch' := Filter.accepts_text_congr hm.key id.startsDollar_canonical hkey hmatch
  obtain ⟨d', hsecond⟩ := save_lands hm hg hid hdocs' hfirst.unique hmatch' honly later
  exact ⟨d', hfirst.savesBoth hsecond hf hg hapart⟩

/-- Whichever is saved first, the document holds the same in the end, apart from when it was
updated. -/
theorem SavesBoth.same {d₁ d₂ : Document} {now' later' : String}
    (h₁ : SavesBoth m s before d after f g now later d₁)
    (h₂ : SavesBoth m s before d after g f now' later' d₂) (hstamps : ¬ m.Stamps key) :
    d₁.get? key = d₂.get? key := by
  by_cases hf : key ∈ f.changes
  · rw [h₁.ofFirst key hf, h₂.ofSecond key hf]
  · by_cases hg : key ∈ g.changes
    · rw [h₁.ofSecond key hg, h₂.ofFirst key hg]
    · rw [h₁.untouched key hf hg hstamps, h₂.untouched key hg hf hstamps]

/-- If two saves put a change into a document, it is found under the key that it has. -/
theorem SavesBoth.matches_of_isDirty (h : SavesBoth m s before d after f g now later c)
    (hm : m.PlainFields) (hf : WorksOn m d f) (hg : WorksOn m d g) (hdirty : f.isDirty = true)
    (hdocs : s.documents m.collection = before ++ d :: after)
    (honly : ∀ id, m.idOf? d = some id → ∀ other ∈ before ++ after,
      Filter.accepts other (m.keyFilter id) ≠ .ok true) :
    ∃ id, m.idOf? d = some id ∧ Filter.accepts d (m.keyFilter id) = .ok true := by
  refine Classical.byContradiction fun hnot => ?_
  have hnone : ∀ id, m.idOf? d = some id → ∀ c ∈ s.documents m.collection,
      Filter.accepts c (m.keyFilter id) ≠ .ok true := by
    intro id hid c hc hmatch
    rw [hdocs, List.mem_append, List.mem_cons] at hc
    rcases hc with hc | rfl | hc
    · exact honly id hid c (List.mem_append_left _ hc) hmatch
    · exact hnot ⟨id, hid, hmatch⟩
    · exact honly id hid c (List.mem_append_right _ hc) hmatch
  have hfirst := documents_save_of_none hm hf h.first hnone
  have hsecond := documents_save_of_none hm hg h.second (hfirst ▸ hnone)
  -- Nothing was written at all, so the document does not hold what was changed.
  have hsplit := h.documents
  rw [hsecond, hfirst, hdocs] at hsplit
  cases (List.cons.inj (List.append_cancel_left hsplit)).1
  obtain ⟨key, hkey⟩ := List.exists_mem_of_ne_nil f.changes fun hnil => by
    simp [isDirty_eq_false.mpr hnil] at hdirty
  have hchanged := (hf.tracked.changes key).mp hkey
  rw [← get?, ← h.ofFirst key hkey, hf.stored key] at hchanged
  cases hchanged

/-- Two entities were read in full from one document, and edited in different fields. Saving both in
either order succeeds and leaves the same document, with the edits of both, exactly if there is
nothing to save or the document is found under the canonical form of its key. -/
theorem edits_of_both_survive_iff (hm : m.PlainFields) (hf : WorkingCopy schema m d f)
    (hg : WorkingCopy schema m d g) (hapart : f.changes.Disjoint g.changes)
    (hdocs : s.documents m.collection = before ++ d :: after)
    (hd : (Json.object d).distinctKeys = true)
    (honly : ∀ id, m.idOf? d = some id → ∀ other ∈ before ++ after,
      Filter.accepts other (m.keyFilter id) ≠ .ok true)
    (now later now' later' : String) :
    (∃ d₁ d₂, SavesBoth m s before d after f g now later d₁ ∧
      SavesBoth m s before d after g f now' later' d₂ ∧
      ∀ key, ¬ m.Stamps key → d₁.get? key = d₂.get? key) ↔
    (f.isDirty = false ∧ g.isDirty = false) ∨
      ∃ id, m.idOf? d = some id ∧ Filter.accepts d (m.keyFilter id) = .ok true := by
  have hf := hf.worksOn hd
  have hg := hg.worksOn hd
  have hapart' : g.changes.Disjoint f.changes := fun key hkey hkey' => hapart hkey' hkey
  obtain ⟨hunique, -⟩ := Json.distinctKeys_object.mp hd
  constructor
  · rintro ⟨d₁, d₂, h₁, h₂, -⟩
    cases hfdirty : f.isDirty with
    | true => exact .inr (h₁.matches_of_isDirty hm hf hg hfdirty hdocs honly)
    | false =>
      cases hgdirty : g.isDirty with
      | true => exact .inr (h₂.matches_of_isDirty hm hg hf hgdirty hdocs honly)
      | false => exact .inl ⟨rfl, rfl⟩
  · rintro (⟨hfclean, hgclean⟩ | ⟨id, hid, hmatch⟩)
    · have h₁ := savesBoth_of_clean hf hg hfclean hgclean hapart hdocs hunique now later
      have h₂ := savesBoth_of_clean hg hf hgclean hfclean hapart' hdocs hunique now' later'
      exact ⟨d, d, h₁, h₂, fun key hstamps => h₁.same h₂ hstamps⟩
    · have hothers := honly id hid
      obtain ⟨d₁, h₁⟩ := savesBoth_of_match hm hf hg hid hapart hdocs hunique hmatch hothers now later
      obtain ⟨d₂, h₂⟩ :=
        savesBoth_of_match hm hg hf hid hapart' hdocs hunique hmatch hothers now' later'
      exact ⟨d₁, d₂, h₁, h₂, fun key hstamps => h₁.same h₂ hstamps⟩

end Entity

/-! ## An account that two programs edit -/

namespace EditingSample

open Entity

def accountModel : Model :=
  ⟨"Account", "accounts", "uid", some ⟨"archived", "archivedAt"⟩, some ⟨"made", "touched"⟩,
    ["pin", "ssn"]⟩

def uid : DocumentId := ⟨0xAB⟩

/-- An account whose key is stored as a text. -/
def account (key : String) : Document :=
  [("_id", (⟨1⟩ : DocumentId).toJson), ("uid", .string key), ("note", .string "old"),
    ("limit", .int 5), ("archived", .bool false)]

theorem account_distinct (key : String) : (Json.object (account key)).distinctKeys = true := rfl

def storeOf (d : Document) : Store where
  collections := [("accounts", [d])]
  ids := ⟨fun _ => ⟨0⟩, 0⟩

def schema : Schema := ⟨fun _ => []⟩

def found (d : Document) : Entity := ofDocument accountModel d []

/-- One program writes another note. -/
def noted (d : Document) : Entity := (found d).edited [.set "note" (.string "new")]

/-- Another one gives the account a color and takes its limit away. -/
def colored (d : Document) : Entity :=
  (found d).edited [.set "color" (.string "red"), .unset "limit"]

theorem accountModel_plain : accountModel.PlainFields := by
  refine ⟨by decide, ?_⟩
  rintro _ ⟨t, ⟨⟩, rfl⟩
  decide

theorem editable {key : String} (hfield : IsField key) (hkey : key ≠ "uid")
    (hstamp : key ≠ "touched") : accountModel.Editable key := by
  refine ⟨hfield, hkey, ?_⟩
  rintro ⟨t, ⟨⟩, rfl⟩
  exact hstamp rfl

theorem obtained_found (key : String) :
    Obtained schema (storeOf (account key)) accountModel (found (account key)) := by
  have hget : accountModel.query.get schema (storeOf (account key)) = .ok [found (account key)] :=
    Query.get_eq_ok.mpr ⟨{}, _, _, Relation.loadAll_nil _ _ _, rfl, rfl, rfl⟩
  exact .got rfl hget List.mem_cons_self

theorem workingCopies (key : String) :
    WorkingCopy schema accountModel (account key) (noted (account key)) ∧
      WorkingCopy schema accountModel (account key) (colored (account key)) := by
  have hfound := obtained_found key
  have hsame : (account key).same (account key) = true := Json.same_self _ (account_distinct key)
  have hcolor : accountModel.Editable "color" := editable (by decide) (by decide) (by decide)
  have hlimit : accountModel.Editable "limit" := editable (by decide) (by decide) (by decide)
  have hnote : accountModel.Editable "note" := editable (by decide) (by decide) (by decide)
  refine ⟨.edited hfound (account_distinct key) hsame (List.forall_mem_singleton.mpr (.set hnote rfl)),
    .edited hfound (account_distinct key) hsame ?_⟩
  exact List.forall_mem_cons.mpr ⟨.set hcolor rfl, List.forall_mem_singleton.mpr (.unset hlimit)⟩

theorem changes_apart (key : String) :
    (noted (account key)).changes.Disjoint (colored (account key)).changes := by
  have hnoted : (noted (account key)).changes = ["note"] := rfl
  have hcolored : (colored (account key)).changes = ["color", "limit"] := rfl
  intro field hfirst hsecond
  rw [hnoted, List.mem_singleton] at hfirst
  rw [hcolored, hfirst] at hsecond
  exact absurd hsecond (by decide)

/-- If the key is stored in its canonical form, the account gets the note and the color and loses its
limit, whoever saves first. -/
theorem canonical_account_merged :
    ∃ d₁ d₂, SavesBoth accountModel (storeOf (account uid.canonical)) [] (account uid.canonical) []
        (noted (account uid.canonical)) (colored (account uid.canonical)) "now" "later" d₁ ∧
      SavesBoth accountModel (storeOf (account uid.canonical)) [] (account uid.canonical) []
        (colored (account uid.canonical)) (noted (account uid.canonical)) "now" "later" d₂ ∧
      ∀ key, ¬ accountModel.Stamps key → d₁.get? key = d₂.get? key := by
  obtain ⟨hnoted, hcolored⟩ := workingCopies uid.canonical
  refine (edits_of_both_survive_iff accountModel_plain hnoted hcolored (changes_apart _) rfl
    (account_distinct _) (fun _ _ _ hother => absurd hother List.not_mem_nil) "now" "later" "now"
    "later").mpr (.inr ⟨uid, DocumentId.ofJson?_toJson uid, ?_⟩)
  rfl

/-- The key of the account in upper case. -/
def upperKey : String := "00000000-0000-0000-0000-0000000000AB"

/-- If the key is stored in another form, the edits do not survive. -/
theorem upper_account_not_merged :
    accountModel.idOf? (account upperKey) = some uid ∧
      ¬ ∃ d₁ d₂, SavesBoth accountModel (storeOf (account upperKey)) [] (account upperKey) []
          (noted (account upperKey)) (colored (account upperKey)) "now" "later" d₁ ∧
        SavesBoth accountModel (storeOf (account upperKey)) [] (account upperKey) []
          (colored (account upperKey)) (noted (account upperKey)) "now" "later" d₂ ∧
        ∀ key, ¬ accountModel.Stamps key → d₁.get? key = d₂.get? key := by
  have hid : accountModel.idOf? (account upperKey) = some uid := by decide +kernel
  refine ⟨hid, fun ⟨d₁, _, h₁, _⟩ => ?_⟩
  obtain ⟨hnoted, hcolored⟩ := workingCopies upperKey
  obtain ⟨id, hid', hmatch⟩ := h₁.matches_of_isDirty accountModel_plain
    (hnoted.worksOn (account_distinct _)) (hcolored.worksOn (account_distinct _)) rfl rfl
    fun _ _ _ hother => absurd hother List.not_mem_nil
  cases hid.symm.trans hid'
  cases hmatch

end EditingSample

end DocMapper
