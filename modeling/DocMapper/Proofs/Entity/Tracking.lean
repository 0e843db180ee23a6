import DocMapper.Entity.Basic
import DocMapper.Proofs.Sameness

/-! # What an entity knows of its changes

An entity writes down which of its fields differ from what was stored. It **tracks** its changes if
the fields that it names are just those under which the attributes and the stored document do not
hold the same (`Entity.Tracked`). An entity that was read has no changes; setting and removing a
field keep track, and so does every sequence of edits (`Entity.revises_edited`).

What is not touched by an edit is left as it was, so an entity that was read names only fields that
were touched (`Entity.Revises.touched_of_mem_changes`); and it names none exactly if it holds what
was stored (`Entity.Tracked.isDirty_eq_false_iff`). -/

namespace DocMapper

theorem mem_insertName {name key : String} {names : List String} :
    key ∈ insertName name names ↔ key = name ∨ key ∈ names := by
  induction names with
  | nil => simp [insertName]
  | cons n names ih =>
    rw [insertName]
    cases hcompare : compare name n with
    | lt => simp
    | eq =>
      cases Std.LawfulEqOrd.compare_eq_iff_eq.mp hcompare
      simp
    | gt =>
      simp only [List.mem_cons, ih]
      tauto

namespace Entity

variable {e e' : Entity} {touched : String → Prop} {key : String} {value : Json}

/-! ## Edits -/

/-- A change that a program makes to the attributes of an entity. -/
inductive Edit where
  | set (key : String) (value : Json)
  | unset (key : String)
  | fill (values : Document)

namespace Edit

def apply (e : Entity) : Edit → Entity
  | set key value => e.set key value
  | unset key => e.unset key
  | fill values => e.fill values

/-- The edit touches certain keys only, and sets them to values without repeated keys. -/
inductive Within (touched : String → Prop) : Edit → Prop where
  | set {key : String} {value : Json} : touched key → value.distinctKeys = true →
      Within touched (.set key value)
  | unset {key : String} : touched key → Within touched (.unset key)
  | fill {values : Document} : (∀ entry ∈ values, touched entry.1 ∧ entry.2.distinctKeys = true) →
      Within touched (.fill values)

theorem Within.mono {touched' : String → Prop} {edit : Edit} (h : edit.Within touched)
    (hsub : ∀ key, touched key → touched' key) : edit.Within touched' := by
  cases h with
  | set hkey hvalue => exact .set (hsub _ hkey) hvalue
  | unset hkey => exact .unset (hsub _ hkey)
  | fill hvalues =>
    exact .fill fun entry hentry => ⟨hsub _ (hvalues entry hentry).1, (hvalues entry hentry).2⟩

end Edit

/-- The entity after a sequence of edits. -/
def edited (e : Entity) (edits : List Edit) : Entity := edits.foldl Edit.apply e

/-! ## Keeping track -/

/-- The changed fields are those that do not hold what was stored. -/
structure Tracked (e : Entity) : Prop where
  attributes : (Json.object e.attributes).distinctKeys = true
  changes : ∀ key, key ∈ e.changes ↔ (e.stored.get? key == e.attributes.get? key) = false

theorem Tracked.unique (h : e.Tracked) : e.attributes.Unique :=
  (Json.distinctKeys_object.mp h.attributes).1

theorem get?_same_self {d : Document} (h : (Json.object d).distinctKeys = true) (key : String) :
    (d.get? key == d.get? key) = true := by
  obtain ⟨hunique, -⟩ := Json.distinctKeys_object.mp h
  exact (Document.same_iff hunique hunique).mp (Json.same_self (.object d) h) key

theorem isDirty_eq_false : e.isDirty = false ↔ e.changes = [] := by simp [isDirty]

/-- Whether there are changes says whether the entity holds what was stored. -/
theorem Tracked.isDirty_eq_false_iff (h : e.Tracked) (hstored : e.stored.Unique) :
    e.isDirty = false ↔ e.stored.same e.attributes = true := by
  rw [Document.same_iff hstored h.unique, isDirty_eq_false, List.eq_nil_iff_forall_not_mem]
  simp [h.changes]

theorem Tracked.set (h : e.Tracked) (key : String) (hvalue : value.distinctKeys = true) :
    (e.set key value).Tracked := by
  refine ⟨Json.distinctKeys_insert h.attributes key hvalue, fun other => ?_⟩
  simp only [Entity.set, Document.get?_insert]
  by_cases hkey : key = other
  · subst hkey
    cases hsame : e.stored.get? key == some value <;> simp [hsame, mem_insertName]
  · have hne : other ≠ key := Ne.symm hkey
    rw [if_neg hkey, ← h.changes other]
    cases e.stored.get? key == some value <;> simp [hne, mem_insertName]

theorem Tracked.unset (h : e.Tracked) (key : String) : (e.unset key).Tracked := by
  refine ⟨Json.distinctKeys_erase h.attributes key, fun other => ?_⟩
  simp only [Entity.unset]
  by_cases hkey : other = key
  · subst hkey
    rw [Document.get?_erase_self h.unique, Document.contains]
    cases e.stored.get? other <;> simp [mem_insertName]
  · rw [Document.get?_erase_of_ne h.unique hkey, ← h.changes other]
    cases e.stored.contains key <;> simp [hkey, mem_insertName]

/-! ## Revisions of an entity -/

/-- An entity comes from another one by edits of certain fields, and keeps track of its changes. -/
structure Revises (touched : String → Prop) (e e' : Entity) : Prop where
  tracked : e'.Tracked
  model : e'.model = e.model
  stored : e'.stored = e.stored
  isStored : e'.isStored = e.isStored
  untouched : ∀ key, ¬ touched key → e'.get? key = e.get? key

namespace Revises

protected theorem refl (h : e.Tracked) : Revises touched e e := ⟨h, rfl, rfl, rfl, fun _ _ => rfl⟩

protected theorem set (h : Revises touched e e') (hkey : touched key)
    (hvalue : value.distinctKeys = true) : Revises touched e (e'.set key value) := by
  refine ⟨h.tracked.set key hvalue, h.model, h.stored, h.isStored, fun other hother => ?_⟩
  have hne : key ≠ other := fun heq => hother (heq ▸ hkey)
  rw [← h.untouched other hother]
  exact Document.get?_insert_of_ne hne _ _

protected theorem unset (h : Revises touched e e') (hkey : touched key) :
    Revises touched e (e'.unset key) := by
  refine ⟨h.tracked.unset key, h.model, h.stored, h.isStored, fun other hother => ?_⟩
  have hne : other ≠ key := fun heq => hother (heq ▸ hkey)
  rw [← h.untouched other hother]
  exact Document.get?_erase_of_ne h.tracked.unique hne

protected theorem fill (h : Revises touched e e') {values : Document}
    (hvalues : ∀ entry ∈ values, touched entry.1 ∧ entry.2.distinctKeys = true) :
    Revises touched e (e'.fill values) := by
  induction values generalizing e' with
  | nil => exact h
  | cons entry values ih =>
    obtain ⟨hentry, hrest⟩ := List.forall_mem_cons.mp hvalues
    exact ih (h.set hentry.1 hentry.2) hrest

protected theorem apply (h : Revises touched e e') {edit : Edit} (hedit : edit.Within touched) :
    Revises touched e (edit.apply e') := by
  cases hedit with
  | set hkey hvalue => exact h.set hkey hvalue
  | unset hkey => exact h.unset hkey
  | fill hvalues => exact h.fill hvalues

end Revises

/-- Every sequence of edits keeps track of the changes. -/
theorem revises_edited (h : Revises touched e e') {edits : List Edit}
    (hedits : ∀ edit ∈ edits, edit.Within touched) : Revises touched e (e'.edited edits) := by
  induction edits generalizing e' with
  | nil => exact h
  | cons edit edits ih =>
    obtain ⟨hedit, hrest⟩ := List.forall_mem_cons.mp hedits
    exact ih (h.apply hedit) hrest

/-! ## Entities that were read -/

/-- An entity as a read gives it: stored, and not changed since. -/
structure Fresh (e : Entity) : Prop where
  isStored : e.isStored = true
  stored : e.stored = e.attributes
  changes : e.changes = []

theorem fresh_ofDocument (m : Model) (d : Document) (aliases : List EagerAlias) :
    (ofDocument m d aliases).Fresh := ⟨rfl, rfl, rfl⟩

theorem Fresh.tracked (h : e.Fresh) (hstored : (Json.object e.stored).distinctKeys = true) :
    e.Tracked := by
  refine ⟨h.stored ▸ hstored, fun key => ?_⟩
  have hself := get?_same_self hstored key
  simp [h.changes, ← h.stored, hself]

/-- The changes of an edited entity that had none before are among the fields that were touched. -/
theorem Revises.touched_of_mem_changes (h : Revises touched e e') (he : e.Tracked)
    (hclean : e.changes = []) (hkey : key ∈ e'.changes) : touched key := by
  refine Classical.byContradiction fun hnot => ?_
  have hchanged := (h.tracked.changes key).mp hkey
  rw [h.stored, ← get?, h.untouched key hnot, get?, ← he.changes key, hclean] at hchanged
  cases hchanged

end Entity

end DocMapper
