import DocMapper.Proofs.Contents
import DocMapper.Proofs.Outcome

/-! # Removing documents

A removal tests every document of a collection and keeps those that do not match. What it keeps is
put back only after the last test, so a filter that cannot be tested on some document costs the
collection all of its documents (`deleteMany_eq_error_iff`); the other collections and the count of
writes are left alone either way. A filter that can be tested on every document removes exactly the
documents that match it (`deleteMany_ok`). -/

namespace DocMapper.Store

/-- Whether a filter can be tested on a document. -/
def CanTest (filter : Json) (d : Document) : Prop := ∃ b, Filter.accepts d filter = .ok b

theorem deleteMany_of_kept {name : String} {filter : Json} {s : Store} {kept : List Document}
    (h : (s.documents name).filterM (fun d => (Filter.accepts d filter).map not) = .ok kept) :
    deleteMany name filter s =
      (.ok ((s.documents name).length - kept.length),
        (s.put name kept).countedIf (0 < (s.documents name).length - kept.length)) := by
  rw [deleteMany]
  simp only [h]

/-- A removal whose tests all succeed keeps the documents that do not match. -/
theorem deleteMany_ok {name : String} {filter : Json} {s : Store} {matches? : Document → Bool}
    (h : ∀ d ∈ s.documents name, Filter.accepts d filter = .ok (matches? d)) :
    ∃ n t, deleteMany name filter s = (.ok n, t) ∧ t.ids = s.ids ∧
      t.documents name = (s.documents name).filter (fun d => !matches? d) ∧
      ∀ other ≠ name, t.documents other = s.documents other := by
  have hkept : (s.documents name).filterM (fun d => (Filter.accepts d filter).map not)
      = .ok ((s.documents name).filter fun d => !matches? d) := by
    apply filterM_ok
    intro d hd
    rw [h d hd, map_ok]
  have hrun := deleteMany_of_kept hkept
  refine ⟨_, _, hrun, ?_, ?_, ?_⟩
  · rw [ids_countedIf, ids_put]
  · rw [documents_countedIf, documents_put_self]
  · intro other hne
    rw [documents_countedIf, documents_put_of_ne hne]

/-- A removal that finds no document leaves the store as it was. -/
theorem deleteMany_none {name : String} {filter : Json} {s : Store}
    (h : ∀ d ∈ s.documents name, Filter.accepts d filter = .ok false) :
    ∃ t, deleteMany name filter s = (.ok 0, t) ∧ t.Agrees s := by
  have hkept : (s.documents name).filterM (fun d => (Filter.accepts d filter).map not)
      = .ok (s.documents name) := by
    refine (filterM_ok (q := fun _ => true) fun d hd => ?_).trans ?_
    · rw [h d hd, map_ok]
      rfl
    · rw [List.filter_true]
  have hrun := deleteMany_of_kept hkept
  rw [Nat.sub_self] at hrun
  refine ⟨_, hrun, fun other => ?_, rfl⟩
  show (s.put name (s.documents name)).documents other = s.documents other
  rw [documents_put]
  split
  · next h => rw [h]
  · rfl

/-- Whether a removal succeeds or not, it leaves some of the documents of its collection, and the
other collections as they are. -/
theorem documents_deleteMany (name : String) (filter : Json) (s : Store) :
    ∃ kept, kept.Sublist (s.documents name) ∧
      (deleteMany name filter s).2.documents = (s.put name kept).documents := by
  cases h : (s.documents name).filterM (fun d => (Filter.accepts d filter).map not) with
  | error fault => exact ⟨[], List.nil_sublist _, by simp only [deleteMany, h]⟩
  | ok kept =>
    exact ⟨kept, sublist_of_filterM h, by rw [deleteMany_of_kept h, documents_countedIf]⟩

theorem documents_deleteMany_sublist (name : String) (filter : Json) (s : Store) :
    ((deleteMany name filter s).2.documents name).Sublist (s.documents name) := by
  obtain ⟨kept, hsub, hkept⟩ := documents_deleteMany name filter s
  rw [hkept, documents_put_self]
  exact hsub

/-- A removal fails exactly if some document cannot be tested, and then it has emptied its
collection. -/
theorem deleteMany_eq_error_iff {name : String} {filter : Json} {s t : Store} {e : Error} :
    deleteMany name filter s = (.error e, t) ↔
      ∃ fault, (s.documents name).filterM (fun d => (Filter.accepts d filter).map not)
        = .error fault ∧ e = .query fault ∧ t = s.put name [] := by
  rw [deleteMany]
  cases (s.documents name).filterM (fun d => (Filter.accepts d filter).map not) with
  | error fault =>
    simp only [Prod.mk.injEq, Except.error.injEq, exists_eq_left']
    constructor
    · rintro ⟨rfl, rfl⟩
      exact ⟨rfl, rfl⟩
    · rintro ⟨rfl, rfl⟩
      exact ⟨rfl, rfl⟩
  | ok kept => simp

theorem not_canTest_of_deleteMany {name : String} {filter : Json} {s t : Store} {e : Error}
    (h : deleteMany name filter s = (.error e, t)) :
    ∃ d ∈ s.documents name, ∃ fault, Filter.accepts d filter = .error fault ∧ e = .query fault := by
  obtain ⟨fault, hfault, he, -⟩ := deleteMany_eq_error_iff.mp h
  obtain ⟨d, hd, htest⟩ := filterM_eq_error hfault
  refine ⟨d, hd, fault, ?_, he⟩
  cases hacc : Filter.accepts d filter with
  | error f =>
    rw [hacc] at htest
    exact htest
  | ok b =>
    rw [hacc] at htest
    cases htest

theorem deleteMany_fails_of_not_canTest {name : String} {filter : Json} {s : Store} {d : Document}
    (hd : d ∈ s.documents name) (h : ¬ CanTest filter d) :
    ∃ e, deleteMany name filter s = (.error e, s.put name []) := by
  cases hm : (s.documents name).filterM (fun d => (Filter.accepts d filter).map not) with
  | error fault => exact ⟨.query fault, deleteMany_eq_error_iff.mpr ⟨fault, hm, rfl, rfl⟩⟩
  | ok kept =>
    obtain ⟨b, hb⟩ := filterM_succeeds_iff.mp ⟨kept, hm⟩ d hd
    obtain ⟨a, ha, -⟩ := map_eq_ok.mp hb
    exact absurd ⟨a, ha⟩ h

/-! ## What a failed removal leaves -/

/-- A failing removal leaves the store as it was exactly if there is nothing that makes it fail:
the filter can be tested on every document of the collection. Where it fails, the fault is that of
one of the documents, and the collection, which was not empty, is; everything else stays. -/
theorem deleteMany_keeps_iff_canTest (s : Store) (name : String) (filter : Json) :
    ((∀ e t, deleteMany name filter s = (.error e, t) → t.Agrees s) ↔
        ∀ d ∈ s.documents name, CanTest filter d) ∧
      ∀ e t, deleteMany name filter s = (.error e, t) →
        (∃ d ∈ s.documents name, ∃ fault, Filter.accepts d filter = .error fault ∧
          e = .query fault) ∧
        t.documents name = [] ∧ (∀ other ≠ name, t.documents other = s.documents other) ∧
        t.writes = s.writes := by
  refine ⟨⟨?_, ?_⟩, ?_⟩
  · intro hkeeps d hd
    refine Classical.byContradiction fun hnot => ?_
    obtain ⟨e, he⟩ := deleteMany_fails_of_not_canTest hd hnot
    have hagrees := (hkeeps e _ he).documents name
    rw [documents_put_self] at hagrees
    rw [← hagrees] at hd
    cases hd
  · intro htest e t h
    obtain ⟨d, hd, fault, hfault, -⟩ := not_canTest_of_deleteMany h
    obtain ⟨b, hb⟩ := htest d hd
    rw [hfault] at hb
    cases hb
  · intro e t h
    obtain ⟨fault, -, -, rfl⟩ := deleteMany_eq_error_iff.mp h
    refine ⟨not_canTest_of_deleteMany h, documents_put_self s name [], ?_, writes_put s name []⟩
    intro other hne
    exact documents_put_of_ne hne s []

/-- A filter with an operator that does not exist empties a collection of one document, although the
removal fails. -/
theorem deleteMany_loses_documents :
    let s : Store := {
      collections := [("users", [[("name", .string "Ann")]])]
      ids := ⟨fun _ => ⟨0⟩, 0⟩ }
    ¬ ∀ e t, deleteMany "users" (.single "$bogus" (.int 1)) s = (.error e, t) → t.Agrees s := by
  intro s hkeeps
  have hfails : deleteMany "users" (.single "$bogus" (.int 1)) s
      = (.error (.query (.unsupportedTopLevel "$bogus")), s.put "users" []) := rfl
  have hagrees := (hkeeps _ _ hfails).documents "users"
  cases hagrees

end DocMapper.Store
