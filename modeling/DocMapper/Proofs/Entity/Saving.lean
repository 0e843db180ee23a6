import DocMapper.Entity.Lifecycle
import DocMapper.Proofs.Entity.Tracking
import DocMapper.Proofs.Query.Plan
import DocMapper.Proofs.Relation.Loads
import DocMapper.Proofs.Revision

/-! # Saving an entity that was read

Saving a stored entity sends the fields that changed and nothing else. Because the entity keeps
track of its changes, that is enough: under a changed field the update puts what the entity holds,
or takes the field away if the entity holds nothing there (`Update.get?_apply_pending`), and under
any other field the stored document holds the same already (`Entity.same_apply_pending`).

The update is addressed by the key of the entity. A text under a key can be tested on all documents
or on none (`Filter.canTest_text`), so if one document alone matches, the update changes that one
and cannot fail (`Store.updateMany_one`). -/

namespace DocMapper

/-! ## What an update makes of a field -/

namespace Document

/-- The entries that a function gives for some keys. -/
def pick (f : String → Option Json) (keys : List String) : Document :=
  keys.filterMap fun key => (f key).map fun v => (key, v)

theorem mem_keys_pick {f : String → Option Json} {keys : List String} {key : String} :
    key ∈ (pick f keys).keys ↔ key ∈ keys ∧ (f key).isSome := by
  simp only [Document.keys, pick, List.mem_map, List.mem_filterMap, Option.map_eq_some_iff]
  constructor
  · rintro ⟨_, ⟨k, hk, v, hv, rfl⟩, rfl⟩
    exact ⟨hk, by simp [hv]⟩
  · rintro ⟨hkey, hsome⟩
    obtain ⟨v, hv⟩ := Option.isSome_iff_exists.mp hsome
    exact ⟨(key, v), ⟨key, hkey, v, hv, rfl⟩, rfl⟩

/-- Merging in what a function gives for some keys sets these keys where it gives something. -/
theorem get?_merge_pick (f : String → Option Json) (keys : List String) (d : Document)
    (key : String) :
    (d.merge (pick f keys)).get? key = if key ∈ keys then (f key <|> d.get? key) else d.get? key := by
  induction keys generalizing d with
  | nil => rfl
  | cons k keys ih =>
    cases hk : f k with
    | none =>
      have hpick : pick f (k :: keys) = pick f keys := by simp [pick, hk]
      rw [hpick, ih]
      by_cases hkey : key = k
      · simp [hkey, hk]
      · simp [hkey]
    | some v =>
      have hpick : pick f (k :: keys) = (k, v) :: pick f keys := by simp [pick, hk]
      rw [hpick, merge_cons, ih, get?_insert]
      by_cases hkey : key = k
      · simp [hkey, hk]
      · simp [hkey, Ne.symm hkey]

end Document

namespace Entity

variable {e : Entity}

theorem changed_eq (e : Entity) : e.changed = Document.pick e.get? e.changes := rfl

theorem mem_removed {key : String} : key ∈ e.removed ↔ key ∈ e.changes ∧ e.get? key = none := by
  simp [removed, get?, Document.contains]

/-- The operators that are written out are read back; one without fields is left out. -/
theorem ofJson_updateParts (set unset : Document) :
    Update.ofJson (.object (updatePart "$set" set ++ updatePart "$unset" unset)) =
      .ok { set, unset := unset.keys } := by
  cases set <;> cases unset <;> rfl

/-- What saving does to the stored document: it sets the changed fields that the entity holds and
removes the others. -/
def pending (e : Entity) : Update where
  set := e.changed
  unset := e.removed

theorem ofJson_pendingUpdate (e : Entity) : Update.ofJson e.pendingUpdate = .ok e.pending := by
  have hkeys : Document.keys (e.removed.map fun key => (key, Json.string "")) = e.removed := by
    simp [Document.keys, Function.comp_def]
  rw [pendingUpdate, ofJson_updateParts, hkeys, pending]

/-- Under a changed field the update puts what the entity holds; it leaves the others alone. -/
theorem get?_apply_pending {d : Document} (hd : d.Unique)
    (hfields : ∀ key ∈ e.changes, IsField key) (key : String) :
    (e.pending.apply d).get? key = if key ∈ e.changes then e.get? key else d.get? key := by
  have hset : ∀ k ∈ e.changed.keys, IsField k :=
    fun k hk => hfields k (Document.mem_keys_pick.mp hk).1
  have hunset : ∀ k ∈ e.removed, IsField k := fun k hk => hfields k (mem_removed.mp hk).1
  have hunique : (Update.setAll d e.changed).Unique := Update.unique_setAll hd e.changed
  rw [Update.apply, pending, Update.removeAll_eq_erase hunset, Document.get?_foldl_erase hunique,
    Update.setAll_eq_merge hset, changed_eq, Document.get?_merge_pick]
  by_cases hkey : key ∈ e.changes
  · cases hget : e.get? key <;> simp [hkey, mem_removed, hget]
  · simp [hkey, mem_removed]

/-- The update that is sent makes a stored document hold what the entity holds. -/
theorem same_apply_pending (h : e.Tracked) {d : Document} (hd : d.Unique)
    (hstored : e.stored.Unique) (hsame : d.same e.stored = true)
    (hfields : ∀ key ∈ e.changes, IsField key) :
    (e.pending.apply d).same e.attributes = true := by
  rw [Document.same_iff (Update.unique_apply hd _) h.unique]
  intro key
  rw [get?_apply_pending hd hfields]
  by_cases hkey : key ∈ e.changes
  · rw [if_pos hkey]
    exact get?_same_self h.attributes key
  · have hkept : (e.stored.get? key == e.attributes.get? key) = true :=
      (Bool.not_eq_false _).mp fun hfalse => hkey ((h.changes key).mpr hfalse)
    rw [if_neg hkey]
    exact Document.get?_same_trans ((Document.same_iff hd hstored).mp hsame key) hkept

end Entity

/-! ## The filter for a key -/

namespace Filter

/-- A text under a key that can be tested on one document can be tested on every document, unless
it is taken for a reference. -/
theorem canTest_text {key text : String} (htext : startsDollar text = false) {d : Document} {b : Bool}
    (h : accepts d (.single key (.string text)) = .ok b) (other : Document) :
    Store.CanTest (.single key (.string text)) other := by
  by_cases hdollar : startsDollar key = false
  · exact ⟨_, accepts_single hdollar (conditionHolds_of_scalar rfl other key)⟩
  · have hkey := mem_combinators_of_entriesHold (Bool.not_eq_false _ ▸ hdollar) h
    simp only [combinators, List.mem_cons, List.not_mem_nil, or_false] at hkey
    rcases hkey with rfl | rfl | rfl | rfl
    · simp [Json.single, accepts, entriesHold] at h
    · simp [Json.single, accepts, entriesHold] at h
    · simp [Json.single, accepts, entriesHold] at h
    · refine ⟨true, ?_⟩
      simp [Json.single, accepts, entriesHold, Expression.eval_string htext, truthy?, Json.truthy]

end Filter

namespace Entity

/-! ## Saving -/

/-- An entity that a query of a model gets, or that is found by its key. -/
inductive Obtained (schema : Schema) (s : Store) (m : Model) : Entity → Prop where
  | got {q : Query} {es : List Entity} {e : Entity} : q.model = m → q.get schema s = .ok es →
      e ∈ es → Obtained schema s m e
  | found {id : Json} {e : Entity} : m.find schema s id = .ok (some e) → Obtained schema s m e

theorem Obtained.exists_ofDocument {schema : Schema} {s : Store} {m : Model}
    (h : Obtained schema s m e) : ∃ d aliases, e = ofDocument m d aliases := by
  have hget : ∀ {q : Query} {es : List Entity}, q.model = m → q.get schema s = .ok es → e ∈ es →
      ∃ d aliases, e = ofDocument m d aliases := by
    intro q es hmodel hes he
    obtain ⟨loads, _, docs, _, _, _, rfl⟩ := Query.get_eq_ok.mp hes
    obtain ⟨d, _, rfl⟩ := List.mem_map.mp he
    exact ⟨d, loads.aliases, by rw [hmodel]⟩
  cases h with
  | got hmodel hes he => exact hget hmodel hes he
  | @found id _ h =>
    obtain ⟨key, _, h⟩ := bind_eq_ok.mp h
    obtain ⟨es, hes, h⟩ := bind_eq_ok.mp h
    have hhead : es.head? = some e := Except.ok.inj h
    exact hget rfl hes (List.mem_of_head? hhead)

/-- The entity with the time at which it was updated, if its model keeps that. -/
def stamped (now : String) (e : Entity) : Entity :=
  match e.model.timestamps with
  | some t => e.set t.updated (.string now)
  | none => e

@[simp] theorem model_stamped (now : String) (e : Entity) : (e.stamped now).model = e.model := by
  unfold stamped
  split <;> rfl

/-- Where an update goes depends on the changes alone; what it writes is what the stamped entity
holds. -/
theorem update_eq (now : String) (e : Entity) (s : Store) :
    e.update now s =
      if !e.isDirty then ⟨.ok (), e, s⟩
      else match (e.stamped now).requireId with
        | .error err => ⟨.error err, e.stamped now, s⟩
        | .ok id =>
          match Store.updateMany (e.stamped now).model.collection ((e.stamped now).model.keyFilter id)
              (e.stamped now).pendingUpdate s with
          | (.error err, s) => ⟨.error err, e.stamped now, s⟩
          | (.ok _, s) => ⟨.ok (), (e.stamped now).settled, s⟩ := rfl

/-- Stamping an entity is an edit like any other. -/
theorem Revises.stamped {e' : Entity} {touched : String → Prop} (h : Revises touched e e')
    (hstamp : ∀ t, e.model.timestamps = some t → touched t.updated) (now : String) :
    Revises touched e (e'.stamped now) := by
  unfold Entity.stamped
  split
  · next t ht => exact h.set (hstamp t (h.model ▸ ht)) rfl
  · exact h

variable {schema : Schema} {s₀ s : Store} {m : Model} {edits : List Edit} {id : DocumentId}
  {before after : List Document} {d : Document} {now : String}

theorem save_of_clean {e : Entity} (hflag : e.isStored = true) (hclean : e.isDirty = false)
    (now : String) (s : Store) : e.save now s = ⟨.ok (), e, s⟩ := by
  rw [save, if_pos hflag, update_eq, hclean]
  rfl

/-- If one document matches a key, all documents can be tested for it: the others do not match. -/
theorem keyFilter_misses (hmatch : Filter.accepts d (m.keyFilter id) = .ok true)
    {others : List Document}
    (honly : ∀ other ∈ others, Filter.accepts other (m.keyFilter id) ≠ .ok true) :
    ∀ other ∈ others, Filter.accepts other (m.keyFilter id) = .ok false := by
  intro other hother
  obtain ⟨b, hb⟩ := Filter.canTest_text id.startsDollar_canonical hmatch other
  cases b with
  | false => exact hb
  | true => exact absurd hb (honly other hother)

/-- If one document alone matches the key that an entity holds, and the others can be tested, saving
the entity writes its changes into that one. -/
theorem save_one {e : Entity} (hflag : e.isStored = true) (hdirty : e.isDirty = true)
    (hid : (e.stamped now).requireId = .ok id)
    (hdocs : s.documents e.model.collection = before ++ d :: after)
    (hmatch : Filter.accepts d (e.model.keyFilter id) = .ok true)
    (hothers : ∀ other ∈ before ++ after, Filter.accepts other (e.model.keyFilter id) = .ok false) :
    e.save now s = ⟨.ok (), (e.stamped now).settled,
      (s.put e.model.collection (before ++ (e.stamped now).pending.apply d :: after)).countedIf
        ((e.stamped now).pending.changes d)⟩ := by
  have hupdate := Store.updateMany_one (ofJson_pendingUpdate (e.stamped now)) hdocs hmatch hothers
  rw [save, if_pos hflag, update_eq, hdirty, hid, model_stamped]
  simp only [hupdate]
  rfl

theorem Revises.requireId_eq {e' : Entity} {touched : String → Prop} (h : Revises touched e e')
    (hkey : ¬ touched e.model.primaryKey) : e'.requireId = e.requireId := by
  simp only [requireId, id?, h.model, h.untouched _ hkey]

end Entity

/-! ## A note -/

namespace NoteSample

open Entity

def noteModel : Model := ⟨"Note", "notes", "_id", none, some ⟨"createdAt", "updatedAt"⟩, []⟩

def key : DocumentId := ⟨1⟩

def note : Document := [("_id", key.toJson), ("title", .string "Hello"), ("draft", .bool true)]

def otherNote : Document := [("_id", (⟨2⟩ : DocumentId).toJson), ("title", .string "Hello")]

def store : Store where
  collections := [("notes", [note, otherNote])]
  ids := ⟨fun _ => ⟨0⟩, 0⟩

def schema : Schema := ⟨fun _ => []⟩

/-- The note as it is found. -/
def found : Entity := ofDocument noteModel note []

/-- The note gets another title and a year, and is no draft any more. -/
def edits : List Edit :=
  [.set "title" (.string "Bye"), .unset "draft", .fill [("year", .int 2024)]]

end NoteSample

end DocMapper
