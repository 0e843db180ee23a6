import DocMapper.Proofs.Identifier
import DocMapper.Proofs.Order
import DocMapper.Store.Basic
import Mathlib.Data.List.Forall2

/-! # What a store holds

A store is read by the name of a collection. Replacing the documents of one collection is seen under
its name (`documents_put_self`) and under no other one (`documents_put_of_ne`); counting a write is
seen in the count alone. Two stores **agree** if nothing that is read from them tells them apart.

The identifiers that a store hands out are **fresh** for a collection if they are distinct and not
in use there; they stay so as they are used up (`FreshIds.of_drawn`). -/

namespace DocMapper.Store

/-! ## Reading a collection -/

/-- What holds of all documents in the collections holds of what is read under a name. -/
theorem forall_documents {s : Store} {P : Document → Prop}
    (h : ∀ c ∈ s.collections, ∀ d ∈ c.2, P d) (name : String) : ∀ d ∈ s.documents name, P d := by
  intro d hd
  rw [documents] at hd
  cases hfound : s.collections.lookup name with
  | none =>
    rw [hfound] at hd
    cases hd
  | some docs =>
    rw [hfound] at hd
    obtain ⟨before, after, hsplit, -⟩ := List.lookup_eq_some_iff.mp hfound
    exact h (name, docs) (hsplit ▸ List.mem_append_right _ List.mem_cons_self) d hd

/-! ## Replacing the documents of a collection -/

theorem lookup_cons (n : String) (docs : List Document) (cs : List (String × List Document))
    (other : String) :
    List.lookup other ((n, docs) :: cs) = if n = other then some docs else cs.lookup other := by
  rw [List.lookup_cons]
  by_cases h : n = other
  · rw [if_pos h, h, beq_self_eq_true]
  · rw [if_neg h, beq_false_of_ne (Ne.symm h)]

theorem lookup_putIn (cs : List (String × List Document)) (name : String) (docs : List Document)
    (other : String) :
    (putIn cs name docs).lookup other = if name = other then some docs else cs.lookup other := by
  induction cs with
  | nil => exact lookup_cons name docs [] other
  | cons c cs ih =>
    obtain ⟨n, old⟩ := c
    rw [putIn]
    by_cases hn : n = name
    · rw [if_pos hn, lookup_cons, lookup_cons, hn]
      split <;> rfl
    · rw [if_neg hn, lookup_cons, lookup_cons, ih]
      by_cases ho : n = other
      · have hne : name ≠ other := fun h => hn (ho.trans h.symm)
        rw [if_pos ho, if_neg hne, if_pos ho]
      · rw [if_neg ho, if_neg ho]

theorem documents_put (s : Store) (name : String) (docs : List Document) (other : String) :
    (s.put name docs).documents other = if name = other then docs else s.documents other := by
  rw [documents, put, lookup_putIn]
  split <;> rfl

@[simp] theorem documents_put_self (s : Store) (name : String) (docs : List Document) :
    (s.put name docs).documents name = docs := by rw [documents_put, if_pos rfl]

theorem documents_put_of_ne {name other : String} (h : other ≠ name) (s : Store)
    (docs : List Document) : (s.put name docs).documents other = s.documents other := by
  rw [documents_put, if_neg (Ne.symm h)]

/-- What is read after documents are put does not depend on what else a store holds. -/
theorem documents_put_congr {s t : Store} (h : t.documents = s.documents) (name : String)
    (docs : List Document) : (t.put name docs).documents = (s.put name docs).documents := by
  funext other
  rw [documents_put, documents_put, h]

/-- Putting down what a collection holds already changes nothing that is read. -/
theorem documents_put_documents (s : Store) (name : String) :
    (s.put name (s.documents name)).documents = s.documents := by
  funext other
  rw [documents_put]
  split
  · next heq => rw [heq]
  · rfl

@[simp] theorem writes_put (s : Store) (name : String) (docs : List Document) :
    (s.put name docs).writes = s.writes := rfl

@[simp] theorem ids_put (s : Store) (name : String) (docs : List Document) :
    (s.put name docs).ids = s.ids := rfl

/-! ## Counting writes -/

@[simp] theorem documents_counted (s : Store) : s.counted.documents = s.documents := rfl

@[simp] theorem ids_counted (s : Store) : s.counted.ids = s.ids := rfl

@[simp] theorem documents_countedIf (changed : Bool) (s : Store) :
    (s.countedIf changed).documents = s.documents := by
  cases changed <;> rfl

@[simp] theorem ids_countedIf (changed : Bool) (s : Store) : (s.countedIf changed).ids = s.ids := by
  cases changed <;> rfl

theorem writes_countedIf (changed : Bool) (s : Store) :
    (s.countedIf changed).writes = s.writes + if changed then 1 else 0 := by
  cases changed <;> rfl

/-! ## Agreement -/

/-- Two stores hold the same documents in every collection and have counted the same writes. -/
structure Agrees (s t : Store) : Prop where
  documents : ∀ name, s.documents name = t.documents name
  writes : s.writes = t.writes

/-! ## The same documents -/

section SameDocuments

/-- Two stores hold the same documents, up to the order of their entries. -/
def SameDocuments (s t : Store) : Prop :=
  ∀ name, List.Forall₂ (fun d e => d.same e = true) (s.documents name) (t.documents name)

/-- How many documents of a collection do not come out the same. -/
def differing (s t : Store) (name : String) : Nat :=
  ((s.documents name).zip (t.documents name)).countP fun (d, e) => !d.same e

variable {s t t' : Store} {name : String}

theorem sameDocuments_of_eq (hs : ∀ name, ∀ d ∈ t.documents name, d.same d = true)
    (h : t'.documents = t.documents) : t.SameDocuments t' := by
  intro name
  rw [h]
  exact List.forall₂_same.mpr (hs name)

/-- Two changes of a collection leave the same documents in the store if they leave the same ones
there. -/
theorem sameDocuments_put_iff {docs docs' : List Document}
    (hs : ∀ name, ∀ d ∈ s.documents name, d.same d = true)
    (ht : t.documents = (s.put name docs).documents)
    (ht' : t'.documents = (s.put name docs').documents) :
    t.SameDocuments t' ↔ List.Forall₂ (fun d e => d.same e = true) docs docs' := by
  have hname : List.Forall₂ (fun d e => d.same e = true) (t.documents name) (t'.documents name) ↔
      List.Forall₂ (fun d e => d.same e = true) docs docs' := by
    rw [ht, ht', documents_put_self, documents_put_self]
  rw [← hname]
  refine ⟨fun h => h name, fun h other => ?_⟩
  by_cases hother : other = name
  · rwa [hother]
  · rw [ht, ht', documents_put_of_ne hother, documents_put_of_ne hother]
    exact List.forall₂_same.mpr (hs other)

/-- Of two changes of a collection, each document for itself, both leave the same documents if they
make the same of each document. -/
theorem sameDocuments_map_iff {f g : Document → Document}
    (hs : ∀ name, ∀ d ∈ s.documents name, d.same d = true)
    (ht : t.documents = (s.put name ((s.documents name).map f)).documents)
    (ht' : t'.documents = (s.put name ((s.documents name).map g)).documents) :
    t.SameDocuments t' ↔ ∀ c ∈ s.documents name, (f c).same (g c) = true := by
  rw [sameDocuments_put_iff hs ht ht', List.forall₂_map_left_iff, List.forall₂_map_right_iff,
    List.forall₂_same]

theorem differing_map {f : Document → Document}
    (ht : t.documents = (s.put name ((s.documents name).map f)).documents) :
    s.differing t name = (s.documents name).countP fun c => !c.same (f c) := by
  have hzip : (s.documents name).zip ((s.documents name).map f) =
      (s.documents name).map fun c => (c, f c) := by
    simpa using List.zip_map' (f := fun c => c) (g := f) (l := s.documents name)
  rw [differing, ht, documents_put_self, hzip, List.countP_map]
  rfl

end SameDocuments

/-! ## Fresh identifiers -/

/-- The identifiers that the store will draw, up to a place in its supply, are distinct, and no
document of a collection has one of them. -/
structure FreshIds (s : Store) (name : String) (last : Nat) : Prop where
  distinct : ∀ m n, s.ids.drawn ≤ m → m < n → n < last → s.ids.nth m ≠ s.ids.nth n
  unused : ∀ n, s.ids.drawn ≤ n → n < last → ∀ d ∈ s.documents name, hasId (s.ids.nth n) d = false

theorem FreshIds.mono {s : Store} {name : String} {last last' : Nat} (h : s.FreshIds name last)
    (hle : last' ≤ last) : s.FreshIds name last' :=
  ⟨fun m n hm hlt hn => h.distinct m n hm hlt (Nat.lt_of_lt_of_le hn hle),
    fun n hn hlast => h.unused n hn (Nat.lt_of_lt_of_le hlast hle)⟩

/-- Identifiers stay fresh if none is drawn and no document gets another one. -/
theorem FreshIds.of_sameIds {s t : Store} {name : String} {last : Nat} (h : s.FreshIds name last)
    (hids : t.ids = s.ids)
    (hdocs : ∀ d ∈ t.documents name, ∃ e ∈ s.documents name, d.get? "_id" = e.get? "_id") :
    t.FreshIds name last := by
  refine ⟨?_, ?_⟩
  · rw [hids]
    exact h.distinct
  · rw [hids]
    intro n hn hlast d hd
    obtain ⟨e, he, heq⟩ := hdocs d hd
    have hunused := h.unused n hn hlast e he
    rw [hasId] at hunused ⊢
    rw [heq]
    exact hunused

/-- Identifiers stay fresh if one is drawn for a new document. -/
theorem FreshIds.of_drawn {s t : Store} {name : String} {last : Nat} {d : Document}
    (h : s.FreshIds name last) (hids : t.ids = s.ids.draw.2)
    (hdocs : t.documents name = s.documents name ++ [d])
    (hd : d.get? "_id" = some s.ids.draw.1.toJson) : t.FreshIds name last := by
  refine ⟨?_, ?_⟩
  · rw [hids]
    intro m n hm hlt hlast
    exact h.distinct m n (Nat.le_of_succ_le hm) hlt hlast
  · rw [hids, hdocs]
    intro n hn hlast e he
    rcases List.mem_append.mp he with he | he
    · exact h.unused n (Nat.le_of_succ_le hn) hlast e he
    · rw [List.mem_singleton] at he
      subst he
      rw [hasId, hd, Option.any_some]
      refine Bool.eq_false_iff.mpr fun heq => ?_
      have hsame : s.ids.draw.1.toJson = (s.ids.nth n).toJson := Json.equals_string_iff.mp heq
      exact h.distinct s.ids.drawn n (Nat.le_refl _) hn hlast (DocumentId.toJson_injective hsame)

end DocMapper.Store
