import DocMapper.Proofs.Entity.Inserting
import DocMapper.Proofs.Entity.Saving

/-! # Deleting and the number of documents

Deleting an entity that counts as stored adds no document, whether it succeeds or fails. A removal
leaves some of the documents of a collection (`Store.documents_deleteMany`), and a soft deletion is
an update, which keeps their number however far it gets (`Store.noLarger_updateMany`).

An entity does not count as stored while it is new, and again once it was removed. If its model
deletes softly, deleting it then marks it as deleted and saves it, and the save inserts it: a
document that is marked as deleted is appended to the collection. No other deletion adds a document
(`Entity.delete_adds_nothing_iff`). Among all that a program can do with a stored entity, only a
removal makes it count as not stored (`Entity.Lasts.after`). -/

namespace DocMapper

namespace Store

/-- No collection has more documents than before. -/
def NoLarger (s t : Store) : Prop :=
  ∀ name, (t.documents name).length ≤ (s.documents name).length

/-- A document was put at the end of a collection, and nothing else was changed. -/
def Appended (s : Store) (name : String) (d : Document) (t : Store) : Prop :=
  t.documents name = s.documents name ++ [d] ∧ ∀ other ≠ name, t.documents other = s.documents other

variable {s t : Store} {name : String} {docs : List Document}

theorem noLarger_of_documents (h : ∀ name, t.documents name = s.documents name) : s.NoLarger t :=
  fun name => Nat.le_of_eq (congrArg List.length (h name))

theorem noLarger_of_put (hdocs : docs.length ≤ (s.documents name).length)
    (h : t.documents = (s.put name docs).documents) : s.NoLarger t := by
  intro other
  rw [h, documents_put]
  split
  · next heq => exact heq ▸ hdocs
  · exact Nat.le_refl _

theorem Appended.not_noLarger {d : Document} (h : s.Appended name d t) : ¬ s.NoLarger t := by
  intro hle
  have hlength := hle name
  rw [h.1, List.length_append, List.length_singleton] at hlength
  omega

/-- However far an update of many documents gets, it keeps their number. -/
theorem length_updateEach (filter : Json) (u : Update) (docs : List Document) :
    (updateEach filter u docs).2.length = docs.length := by
  induction docs with
  | nil => rfl
  | cons d docs ih =>
    rw [updateEach]
    cases Filter.accepts d filter with
    | error fault => rfl
    | ok b => cases b <;> exact congrArg Nat.succ ih

theorem noLarger_updateMany (name : String) (filter update : Json) (s : Store) :
    s.NoLarger (updateMany name filter update s).2 := by
  rcases documents_updateMany name filter update s with hsame | ⟨u, -, hput⟩
  · exact noLarger_of_documents (congrFun hsame)
  · exact noLarger_of_put (Nat.le_of_eq (length_updateEach filter u _)) hput

theorem noLarger_deleteMany (name : String) (filter : Json) (s : Store) :
    s.NoLarger (deleteMany name filter s).2 := by
  obtain ⟨kept, hsub, hkept⟩ := documents_deleteMany name filter s
  exact noLarger_of_put hsub.length_le hkept

end Store

namespace Entity

variable {e : Entity} {s : Store} {now : String}

/-! ## Updating and removing -/

theorem noLarger_update (now : String) (e : Entity) (s : Store) :
    s.NoLarger (e.update now s).store := by
  have hupdate := Store.noLarger_updateMany (e.stamped now).model.collection
  rw [update_eq]
  split
  · exact fun _ => Nat.le_refl _
  · split
    · exact fun _ => Nat.le_refl _
    · next id _ =>
      have hle := hupdate ((e.stamped now).model.keyFilter id) (e.stamped now).pendingUpdate s
      split <;> next hrun => rwa [hrun] at hle

theorem noLarger_forceDelete (e : Entity) (s : Store) : s.NoLarger (e.forceDelete s).store := by
  rw [forceDelete]
  split
  · exact fun _ => Nat.le_refl _
  · next id _ =>
    have hle := Store.noLarger_deleteMany e.model.collection (e.model.keyFilter id) s
    split <;> next hrun => rwa [hrun] at hle

/-! ## Deleting -/

/-- The entity that a soft deletion saves. -/
def marked (x : SoftDelete) (now : String) (e : Entity) : Entity :=
  (e.set x.marker (.bool true)).set x.stamp (.string now)

theorem delete_of_soft {x : SoftDelete} (hx : e.model.softDelete = some x) (now : String) (s : Store) :
    e.delete now s = (e.marked x now).save now s := by
  rw [delete, hx]
  rfl

theorem noLarger_delete_of_hard (hx : e.model.softDelete = none) (now : String) (s : Store) :
    s.NoLarger (e.delete now s).store := by
  rw [delete, hx]
  exact noLarger_forceDelete e s

theorem noLarger_delete_of_stored (h : e.isStored = true) (now : String) (s : Store) :
    s.NoLarger (e.delete now s).store := by
  cases hx : e.model.softDelete with
  | none => exact noLarger_delete_of_hard hx now s
  | some x =>
    have hstored : (e.marked x now).isStored = true := h
    rw [delete_of_soft hx, save, if_pos hstored]
    exact noLarger_update now (e.marked x now) s

/-- Deleting an entity softly that does not count as stored is inserting it. -/
theorem delete_of_new (h : e.isStored = false) {x : SoftDelete} (hx : e.model.softDelete = some x)
    (now : String) (s : Store) : e.delete now s = (e.marked x now).insert now s := by
  have hnew : ¬ (e.marked x now).isStored = true := Bool.eq_false_iff.mp h
  rw [delete_of_soft hx, save, if_neg hnew]

theorem noLarger_delete (h : e.isStored = true ∨ e.model.softDelete = none ∨
    (e.delete now s).result ≠ .ok ()) : s.NoLarger (e.delete now s).store := by
  cases hstored : e.isStored with
  | true => exact noLarger_delete_of_stored hstored now s
  | false =>
    cases hx : e.model.softDelete with
    | none => exact noLarger_delete_of_hard hx now s
    | some x =>
      have herror : (e.delete now s).result ≠ .ok () := by simpa [hstored, hx] using h
      rw [delete_of_new hstored hx] at herror ⊢
      exact Store.noLarger_of_documents (documents_of_insert_error herror)

theorem appended_of_delete (h : ¬ (e.isStored = true ∨ e.model.softDelete = none ∨
    (e.delete now s).result ≠ .ok ())) :
    ∃ d, s.Appended e.model.collection d (e.delete now s).store := by
  simp only [not_or, Bool.not_eq_true, not_not] at h
  obtain ⟨hstored, hsoft, hok⟩ := h
  obtain ⟨x, hx⟩ := Option.ne_none_iff_exists'.mp hsoft
  rw [delete_of_new hstored hx] at hok ⊢
  have hrun : (e.marked x now).insert now s =
      ⟨.ok (), ((e.marked x now).insert now s).entity, ((e.marked x now).insert now s).store⟩ := by
    rw [← hok]
  obtain ⟨id, hinserts⟩ := exists_of_insert hrun
  exact ⟨_, hinserts.documents, hinserts.others⟩

/-! ## What a program does with an entity -/

/-- What a program can do with an entity that it keeps. -/
inductive Act where
  | edit (edits : List Edit)
  | save (now : String)
  | delete (now : String)
  | restore (now : String)
  | forceDelete

def Act.run (e : Entity) (s : Store) : Act → Outcome
  | edit edits => ⟨.ok (), e.edited edits, s⟩
  | save now => e.save now s
  | delete now => e.delete now s
  | restore now => e.restore now s
  | forceDelete => e.forceDelete s

/-- The entity and the store after one act after the other, whether they succeed or fail. -/
def afterActs : List Act → Entity → Store → Entity × Store
  | [], e, s => (e, s)
  | a :: acts, e, s => afterActs acts (a.run e s).entity (a.run e s).store

/-- An entity of a model counts as stored, unless the model has no soft deletion. -/
structure Lasts (m : Model) (e : Entity) : Prop where
  model : e.model = m
  stored : m.softDelete ≠ none → e.isStored = true

namespace Lasts

variable {m : Model} {acts : List Act}

theorem set (h : Lasts m e) (key : String) (v : Json) : Lasts m (e.set key v) := ⟨h.model, h.stored⟩

theorem unset (h : Lasts m e) (key : String) : Lasts m (e.unset key) := ⟨h.model, h.stored⟩

theorem fill (h : Lasts m e) (values : Document) : Lasts m (e.fill values) := by
  induction values generalizing e with
  | nil => exact h
  | cons entry values ih => exact ih (h.set entry.1 entry.2)

theorem edited (h : Lasts m e) (edits : List Edit) : Lasts m (e.edited edits) := by
  induction edits generalizing e with
  | nil => exact h
  | cons edit edits ih =>
    cases edit with
    | set key value => exact ih (h.set key value)
    | unset key => exact ih (h.unset key)
    | fill values => exact ih (h.fill values)

theorem stamped (h : Lasts m e) (now : String) : Lasts m (e.stamped now) := by
  unfold Entity.stamped
  split
  · exact h.set _ _
  · exact h

theorem settled (h : Lasts m e) : Lasts m e.settled := ⟨h.model, fun _ => rfl⟩

theorem update (h : Lasts m e) (now : String) (s : Store) : Lasts m (e.update now s).entity := by
  rw [update_eq]
  split
  · exact h
  · split
    · exact h.stamped now
    · split
      · exact h.stamped now
      · exact (h.stamped now).settled

theorem model_insert (now : String) (e : Entity) (s : Store) :
    (e.insert now s).entity.model = e.model := by
  have hmodel := model_stampNew now e
  rw [insert]
  split
  · exact hmodel
  · dsimp only
    split <;> exact hmodel

theorem save (h : Lasts m e) (now : String) (s : Store) : Lasts m (e.save now s).entity := by
  rw [Entity.save]
  split
  · exact h.update now s
  · next hnew => exact ⟨(model_insert now e s).trans h.model, fun hsoft => absurd (h.stored hsoft) hnew⟩

theorem delete (h : Lasts m e) (now : String) (s : Store) : Lasts m (e.delete now s).entity := by
  cases hx : e.model.softDelete with
  | none =>
    refine ⟨?_, fun hsoft => absurd (h.model ▸ hx) hsoft⟩
    rw [Entity.delete, hx]
    dsimp only
    rw [forceDelete]
    split
    · exact h.model
    · split <;> exact h.model
  | some x =>
    rw [delete_of_soft hx]
    exact ((h.set _ _).set _ _).save now s

theorem restore (h : Lasts m e) (now : String) (s : Store) : Lasts m (e.restore now s).entity := by
  rw [Entity.restore]
  split
  · exact h
  · exact ((h.set _ _).unset _).save now s

/-- Whatever a program does with an entity, but for removing it, it goes on to count as stored. -/
theorem run {a : Act} (ha : a ≠ .forceDelete) (h : Lasts m e) (s : Store) :
    Lasts m (a.run e s).entity := by
  cases a with
  | edit edits => exact h.edited edits
  | save now => exact h.save now s
  | delete now => exact h.delete now s
  | restore now => exact h.restore now s
  | forceDelete => exact absurd rfl ha

theorem after (hacts : Act.forceDelete ∉ acts) (h : Lasts m e) (s : Store) :
    Lasts m (afterActs acts e s).1 := by
  induction acts generalizing e s with
  | nil => exact h
  | cons a acts ih =>
    rw [List.mem_cons, not_or] at hacts
    exact ih hacts.2 (h.run (Ne.symm hacts.1) s) _

end Lasts

/-- **When deleting adds a document.** Deleting an entity adds no document to any collection exactly
if the entity counts as stored, its model has no soft deletion, or the deletion fails. Otherwise it
appends one to the collection of the model. So deleting an entity that was stored adds nothing,
whatever a program did with it before, as long as it did not remove it. -/
theorem delete_adds_nothing_iff (now : String) (e : Entity) (s : Store) :
    (s.NoLarger (e.delete now s).store ↔
      e.isStored = true ∨ e.model.softDelete = none ∨ (e.delete now s).result ≠ .ok ()) ∧
    (¬ s.NoLarger (e.delete now s).store →
      ∃ d, s.Appended e.model.collection d (e.delete now s).store) ∧
    ∀ acts, e.isStored = true → Act.forceDelete ∉ acts →
      (afterActs acts e s).2.NoLarger
        ((afterActs acts e s).1.delete now (afterActs acts e s).2).store := by
  refine ⟨⟨fun hle => ?_, noLarger_delete⟩, fun hnot => ?_, fun acts hstored hacts => ?_⟩
  · by_contra hnot
    obtain ⟨d, happended⟩ := appended_of_delete hnot
    exact happended.not_noLarger hle
  · exact appended_of_delete fun h => hnot (noLarger_delete h)
  · have hlasts : Lasts e.model (afterActs acts e s).1 := Lasts.after hacts ⟨rfl, fun _ => hstored⟩ s
    refine noLarger_delete ?_
    by_cases hsoft : e.model.softDelete = none
    · exact .inr (.inl (hlasts.model ▸ hsoft))
    · exact .inl (hlasts.stored hsoft)

end Entity

/-! ## A draft -/

namespace DraftSample

open Entity

def draftModel : Model :=
  ⟨"Draft", "drafts", "_id", some ⟨"isDeleted", "deletedAt"⟩, none, []⟩

def key : DocumentId := ⟨1⟩

def draft : Document := [("_id", key.toJson), ("isDeleted", .bool false)]

def store : Store where
  collections := [("drafts", [draft])]
  ids := ⟨fun _ => ⟨2⟩, 0⟩

/-- The stored draft is removed. -/
def removed : Outcome := (ofDocument draftModel draft []).forceDelete store

/-- The draft is renamed, deleted and restored. -/
def acts : List Act :=
  [.edit [.set "title" (.string "Draft")], .delete "now", .restore "then"]

/-- Deleting the draft again after that adds nothing. -/
theorem deleting_stored_draft_adds_nothing :
    (ofDocument draftModel draft []).isStored = true ∧ Act.forceDelete ∉ acts ∧
      (afterActs acts (ofDocument draftModel draft []) store).2.NoLarger
        ((afterActs acts (ofDocument draftModel draft []) store).1.delete "later"
          (afterActs acts (ofDocument draftModel draft []) store).2).store := by
  have hacts : Act.forceDelete ∉ acts := by simp [acts]
  exact ⟨rfl, hacts, (delete_adds_nothing_iff "later" _ store).2.2 acts rfl hacts⟩

/-- Removing a draft empties the collection, and deleting the draft after that puts it back. -/
theorem deleting_removed_draft_adds :
    ¬ ∀ (now : String) (e : Entity) (s : Store), s.NoLarger (e.delete now s).store := by
  intro hnever
  have hempty : removed.store.documents "drafts" = [] := by decide +kernel
  have hback : ((removed.entity.delete "later" removed.store).store.documents "drafts").length = 1 :=
    by decide +kernel
  have hle := hnever "later" removed.entity removed.store "drafts"
  rw [hempty, hback] at hle
  exact absurd hle (by decide)

end DraftSample

end DocMapper
