import DocMapper.Proofs.Entity.Saving

/-! # The history of an entity

An entity begins as a new one, with or without attributes, or as a stored document, and then it is
edited, reverted and saved, in any order. Whatever a save does, whether it fails or succeeds, it
leaves the entity as it was, stamped, or settled (`update_entity`, `insert_entity`).

Through all of this the entity stays **coherent**: besides keeping track of its changes, it names
each changed field once, in the order of names (`Coherent.after`). From that follows what the
changes of an entity are good for (`Coherent.exact`): those that are still there and those that are
gone share them out, and carried over to what was stored they give what the entity holds. -/

namespace DocMapper

/-! ## Names in order -/

/-- The names increase strictly; in particular none occurs twice. -/
def Ascending (names : List String) : Prop := names.Pairwise fun a b => compare a b = .lt

variable {names : List String}

theorem Ascending.nodup (h : Ascending names) : names.Nodup :=
  h.imp fun hlt heq => by simp [heq] at hlt

theorem Ascending.filter (h : Ascending names) (p : String → Bool) :
    Ascending (names.filter p) := List.Pairwise.filter p h

theorem Ascending.insertName (h : Ascending names) (name : String) :
    Ascending (insertName name names) := by
  induction names with
  | nil => exact List.pairwise_singleton _ name
  | cons n names ih =>
    obtain ⟨hn, hnames⟩ := List.pairwise_cons.mp h
    rw [DocMapper.insertName]
    cases hcompare : compare name n with
    | lt =>
      refine List.pairwise_cons.mpr ⟨?_, h⟩
      exact List.forall_mem_cons.mpr
        ⟨hcompare, fun m hm => Std.TransCmp.lt_trans hcompare (hn m hm)⟩
    | eq => exact h
    | gt =>
      refine List.pairwise_cons.mpr ⟨fun m hm => ?_, ih hnames⟩
      rcases mem_insertName.mp hm with rfl | hm
      · exact Std.OrientedCmp.gt_iff_lt.mp hcompare
      · exact hn m hm

theorem ascending_foldl_insertName (more : List String) (h : Ascending names) :
    Ascending (more.foldl (fun names name => insertName name names) names) := by
  induction more generalizing names with
  | nil => exact h
  | cons name more ih => exact ih (h.insertName name)

theorem mem_foldl_insertName {more : List String} {name : String} :
    name ∈ more.foldl (fun names name => insertName name names) names ↔
      name ∈ more ∨ name ∈ names := by
  induction more generalizing names with
  | nil => simp
  | cons first more ih =>
    rw [List.foldl_cons, ih, mem_insertName, List.mem_cons]
    tauto

namespace Entity

variable {e : Entity} {m : Model} {key : String} {value : Json} {now : String} {s : Store}

/-! ## Histories -/

/-- An entity as it begins: a new one, with or without attributes, or a stored document. -/
inductive Begins (m : Model) : Entity → Prop where
  | empty : Begins m { model := m }
  | ofAttributes {d : Document} : (Json.object d).distinctKeys = true → Begins m (ofAttributes m d)
  | ofDocument {d : Document} {aliases : List EagerAlias} : (Json.object d).distinctKeys = true →
      Begins m (ofDocument m d aliases)

/-- What a program does with an entity: it edits it, gives up the edits, or saves it at some time in
a store, which may be another one each time. -/
inductive Step where
  | edit (change : Edit)
  | revert
  | save (now : String) (s : Store)

/-- The entity after a step; a save may fail. -/
def Step.apply (e : Entity) : Step → Entity
  | edit change => change.apply e
  | revert => e.revert
  | save now s => (e.save now s).entity

/-- The values that a step sets have no repeated keys. -/
inductive Step.Proper : Step → Prop where
  | edit {change : Edit} : change.Within (fun _ => True) → Proper (.edit change)
  | revert : Proper .revert
  | save {now : String} {s : Store} : Proper (.save now s)

/-- The entity after a sequence of steps. -/
def after (e : Entity) (steps : List Step) : Entity := steps.foldl Step.apply e

/-! ## What a save leaves of an entity -/

theorem update_entity (now : String) (e : Entity) (s : Store) :
    let left := (e.update now s).entity
    left = e ∨ left = e.stamped now ∨ left = (e.stamped now).settled := by
  rw [update_eq]
  split
  · exact .inl rfl
  · split
    · exact .inr (.inl rfl)
    · split
      · exact .inr (.inl rfl)
      · exact .inr (.inr rfl)

theorem insert_entity (now : String) (e : Entity) (s : Store) :
    let left := (e.insert now s).entity
    left = e.stampNew now ∨ ∃ id : DocumentId,
      let keyed := (e.stampNew now).set (e.stampNew now).model.primaryKey id.toJson
      left = keyed ∨ left = keyed.settled := by
  rw [insert]
  split
  · exact .inl rfl
  · next id _ _ =>
    refine .inr ⟨id, ?_⟩
    dsimp only
    split
    · exact .inl rfl
    · exact .inr rfl

/-! ## Coherent entities -/

/-- The entity keeps track of its changes and names each of them once. -/
structure Coherent (e : Entity) : Prop where
  tracked : e.Tracked
  stored : (Json.object e.stored).distinctKeys = true
  ascending : Ascending e.changes

namespace Coherent

theorem empty (m : Model) : Coherent { model := m } :=
  ⟨⟨rfl, fun _ => by simp⟩, rfl, List.Pairwise.nil⟩

theorem ofAttributes {d : Document} (hd : (Json.object d).distinctKeys = true) :
    (ofAttributes m d).Coherent := by
  refine ⟨⟨hd, fun key => ?_⟩, rfl, ascending_foldl_insertName _ List.Pairwise.nil⟩
  simp only [Entity.ofAttributes, mem_foldl_insertName, List.not_mem_nil, or_false,
    Document.get?_nil]
  rw [← Document.get?_isSome_iff]
  cases d.get? key <;> simp

/-- An entity that holds what was stored. -/
theorem of_fresh (h : e.Fresh) (hstored : (Json.object e.stored).distinctKeys = true) :
    e.Coherent := by
  refine ⟨h.tracked hstored, hstored, ?_⟩
  rw [h.changes]
  exact List.Pairwise.nil

theorem ofDocument {d : Document} (hd : (Json.object d).distinctKeys = true)
    (aliases : List EagerAlias) : (ofDocument m d aliases).Coherent := by
  refine of_fresh (fresh_ofDocument m d aliases) ?_
  have hsplit : ∀ (aliases : List EagerAlias) (d : Document) relations,
      (Json.object d).distinctKeys = true →
      (Json.object (splitRelations d relations aliases).1).distinctKeys = true := by
    intro aliases
    induction aliases with
    | nil => exact fun _ _ hd => hd
    | cons a aliases ih => exact fun d _ hd => ih _ _ (Json.distinctKeys_erase hd a.name)
  exact hsplit aliases d [] hd

theorem begins (h : Begins m e) : e.Coherent := by
  cases h with
  | empty => exact empty m
  | ofAttributes hd => exact ofAttributes hd
  | ofDocument hd => exact ofDocument hd _

/-! ### Steps -/

protected theorem set (h : e.Coherent) (key : String) (hvalue : value.distinctKeys = true) :
    (e.set key value).Coherent := by
  refine ⟨h.tracked.set key hvalue, h.stored, ?_⟩
  simp only [Entity.set]
  split
  · exact h.ascending.filter _
  · exact h.ascending.insertName key

protected theorem unset (h : e.Coherent) (key : String) : (e.unset key).Coherent := by
  refine ⟨h.tracked.unset key, h.stored, ?_⟩
  simp only [Entity.unset]
  split
  · exact h.ascending.insertName key
  · exact h.ascending.filter _

protected theorem edit (h : e.Coherent) {edit : Edit} (hedit : edit.Within fun _ => True) :
    (edit.apply e).Coherent := by
  cases hedit with
  | set _ hvalue => exact h.set _ hvalue
  | unset _ => exact h.unset _
  | @fill values hvalues =>
    induction values generalizing e with
    | nil => exact h
    | cons entry values ih =>
      obtain ⟨hentry, hrest⟩ := List.forall_mem_cons.mp hvalues
      exact ih (h.set entry.1 hentry.2) hrest

protected theorem revert (h : e.Coherent) : e.revert.Coherent := by
  have hself := get?_same_self h.stored
  exact ⟨⟨h.stored, fun key => by simp [Entity.revert, hself key]⟩, h.stored, List.Pairwise.nil⟩

protected theorem settled (h : e.Coherent) : e.settled.Coherent :=
  of_fresh ⟨rfl, rfl, rfl⟩ h.tracked.attributes

theorem setMissing (h : e.Coherent) (key : String) (hvalue : value.distinctKeys = true) :
    (e.setMissing key value).Coherent := by
  unfold Entity.setMissing
  split
  · exact h
  · exact h.set key hvalue

theorem stamped (h : e.Coherent) (now : String) : (e.stamped now).Coherent := by
  unfold Entity.stamped
  split
  · exact h.set _ rfl
  · exact h

theorem stampNew (h : e.Coherent) (now : String) : (e.stampNew now).Coherent := by
  unfold Entity.stampNew
  cases e.model.timestamps with
  | none =>
    dsimp only
    split
    · exact h.setMissing _ rfl
    · exact h
  | some t =>
    dsimp only
    split
    · exact ((h.setMissing _ rfl).set _ rfl).setMissing _ rfl
    · exact (h.setMissing _ rfl).set _ rfl

/-- A save leaves a coherent entity, whether it succeeds or fails. -/
theorem save (h : e.Coherent) (now : String) (s : Store) : (e.save now s).entity.Coherent := by
  rw [Entity.save]
  split
  · rcases update_entity now e s with hleft | hleft | hleft <;> rw [hleft]
    · exact h
    · exact h.stamped now
    · exact (h.stamped now).settled
  · rcases insert_entity now e s with hleft | ⟨id, hleft | hleft⟩ <;> rw [hleft]
    · exact h.stampNew now
    · exact (h.stampNew now).set _ rfl
    · exact ((h.stampNew now).set _ rfl).settled

theorem apply (h : e.Coherent) {step : Step} (hstep : step.Proper) : (step.apply e).Coherent := by
  cases hstep with
  | edit hedit => exact h.edit hedit
  | revert => exact h.revert
  | save => exact h.save _ _

theorem after (h : e.Coherent) {steps : List Step} (hsteps : ∀ step ∈ steps, step.Proper) :
    (e.after steps).Coherent := by
  induction steps generalizing e with
  | nil => exact h
  | cons step steps ih =>
    obtain ⟨hstep, hrest⟩ := List.forall_mem_cons.mp hsteps
    exact ih (h.apply hstep) hrest

end Coherent

/-! ## Exact changes -/

/-- What was stored, with the changes of an entity carried over. -/
def carriedOver (e : Entity) : Document := e.removed.foldl Document.erase (e.stored.merge e.changed)

/-- The changes of an entity say exactly how what it holds differs from what was stored. -/
structure Exact (e : Entity) : Prop where
  changes : ∀ key, key ∈ e.changes ↔ (e.stored.get? key == e.attributes.get? key) = false
  /-- Each change is either a value or a removal. -/
  split : (e.changed.keys ++ e.removed).Perm e.changes
  apart : e.changed.keys.Disjoint e.removed
  distinct : e.changes.Nodup
  values : ∀ entry ∈ e.changed, e.get? entry.1 = some entry.2
  carriedOver : e.carriedOver.same e.attributes = true

theorem keys_changed (e : Entity) : e.changed.keys = e.changes.filter e.attributes.contains := by
  rw [changed]
  induction e.changes with
  | nil => rfl
  | cons key names ih =>
    rw [List.filterMap_cons, List.filter_cons, Document.contains, ← ih, get?]
    cases e.attributes.get? key <;> rfl

theorem get?_carriedOver (h : e.stored.Unique) (key : String) :
    e.carriedOver.get? key = if key ∈ e.changes then e.get? key else e.stored.get? key := by
  rw [carriedOver, Document.get?_foldl_erase (h.merge _), changed_eq, Document.get?_merge_pick]
  by_cases hkey : key ∈ e.changes
  · cases hget : e.get? key <;> simp [hkey, mem_removed, hget]
  · simp [hkey, mem_removed]

theorem Coherent.exact (h : e.Coherent) : e.Exact := by
  obtain ⟨hstored, -⟩ := Json.distinctKeys_object.mp h.stored
  have hmerged : e.carriedOver.Unique := (hstored.merge _).foldl_erase _
  refine ⟨h.tracked.changes, ?_, ?_, h.ascending.nodup, ?_, ?_⟩
  · rw [keys_changed, removed]
    exact List.filter_append_perm _ _
  · intro key hchanged hremoved
    rw [keys_changed, List.mem_filter] at hchanged
    rw [removed, List.mem_filter, hchanged.2] at hremoved
    exact absurd hremoved.2 (by simp)
  · rintro ⟨key, value⟩ hentry
    obtain ⟨k, -, hk⟩ := List.mem_filterMap.mp hentry
    obtain ⟨v, hv, heq⟩ := Option.map_eq_some_iff.mp hk
    cases heq
    exact hv
  · refine (Document.same_iff hmerged h.tracked.unique).mpr fun key => ?_
    rw [get?_carriedOver hstored]
    split
    · exact get?_same_self h.tracked.attributes key
    · next hkey => exact (Bool.not_eq_false _).mp fun hne => hkey ((h.tracked.changes key).mpr hne)

/-- However an entity began and whatever was done with it since, its changes are exact. -/
theorem changes_exact (hbegins : Begins m e) {steps : List Step}
    (hsteps : ∀ step ∈ steps, step.Proper) : (e.after steps).Exact :=
  ((Coherent.begins hbegins).after hsteps).exact

end Entity

/-! ## A note that is written -/

namespace NoteSample

open Entity

/-- A new note. -/
def draft : Entity := ofAttributes noteModel [("title", .string "Hello"), ("draft", .bool true)]

/-- The note is stored and edited. Without its key it cannot be saved, so the edits are given up; at
last it gets a year, and the title that it has. -/
def history : List Step :=
  [.save "now" store, .edit (.set "title" (.string "Bye")), .edit (.unset "draft"),
    .edit (.unset "_id"), .save "later" store, .revert,
    .edit (.fill [("title", .string "Hello"), ("year", .int 2024)])]

theorem history_proper : ∀ step ∈ history, step.Proper := by
  simp only [history, List.forall_mem_cons]
  refine ⟨.save, .edit (.set trivial rfl), .edit (.unset trivial), .edit (.unset trivial), .save,
    .revert, .edit (.fill ?_), List.forall_mem_nil _⟩
  exact List.forall_mem_cons.mpr ⟨⟨trivial, rfl⟩, List.forall_mem_singleton.mpr ⟨trivial, rfl⟩⟩

/-- The one change that is left after all this is the year. -/
theorem note_changes_exact :
    (draft.after history).changes = ["year"] ∧ (draft.after history).Exact := by
  have hdistinct : (Json.object draft.attributes).distinctKeys = true := rfl
  exact ⟨by decide +kernel, changes_exact (m := noteModel) (.ofAttributes hdistinct) history_proper⟩

end NoteSample

end DocMapper
