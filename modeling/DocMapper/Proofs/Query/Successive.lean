import DocMapper.Proofs.Query.Ordering

/-! # Sorting by one key after another

The stage that sorts puts documents in the order of its keys, of which the first one that makes a
difference decides (`Stage.run_sort`). The same comes of sorting by each key alone, by the last one
first: a later sort keeps the order of the earlier ones where its own key makes no difference
(`Stage.exists_runAll_sorts`). -/

namespace DocMapper.Stage

/-- A key to sort by with regard to case. -/
def exactKey (key : String × SortDirection) : SortKey := ⟨key.1, key.2, false⟩

/-- The description of a sort by a key. -/
def sortEntry (key : String × SortDirection) : String × Json := (key.1, .int key.2.toInt)

/-- The sort stage compares documents by each of its keys. -/
theorem compareBy_directions (keys : List (String × SortDirection)) (d e : Document) :
    compareBy (keys.map fun key => (key.1, key.2 == .descending)) d e =
      SortKey.orderAll (keys.map exactKey) d e := by
  induction keys with
  | nil => rfl
  | cons key keys ih =>
    rw [List.map_cons, compareBy, ih]
    show _ = ((exactKey key).order d e).then _
    rw [SortKey.order_eq]
    rfl

/-- The sort stage sorts stably by its keys. -/
theorem run_sort (db : Collections) (keys : List (String × SortDirection)) (docs : List Document) :
    ∃ out, run db (.sort (keys.map sortEntry)) docs = .ok out ∧
      StableSort (SortKey.orderAll (keys.map exactKey)) docs out := by
  have hsorted : sorted (keys.map fun key => (key.1, key.2 == .descending)) docs =
      docs.mergeSort fun d e => SortKey.orderAll (keys.map exactKey) d e != .gt := by
    rw [sorted]
    simp only [compareBy_directions]
  refine ⟨_, ?_, StableSort.of_mergeSort docs⟩
  rw [← hsorted, run]
  show sortKeys (keys.map fun key => (key.1, .int key.2.toInt)) >>= _ = _
  rw [sortKeys_directions]
  rfl

/-- Sorting by each key alone, by the last one first, sorts stably by all of them. -/
theorem exists_runAll_sorts (db : Collections) (keys : List (String × SortDirection))
    (docs : List Document) :
    ∃ out, runAll db ((keys.map sortEntry).reverse.map fun entry => .sort [entry]) docs = .ok out ∧
      StableSort (SortKey.orderAll (keys.map exactKey)) docs out := by
  induction keys with
  | nil => exact ⟨docs, rfl, .refl _, List.pairwise_of_forall fun _ _ => nofun, fun _ _ => rfl⟩
  | cons key keys ih =>
    obtain ⟨mid, hmid, hrest⟩ := ih
    obtain ⟨out, hout, hlast⟩ := run_sort db [key] mid
    refine ⟨out, ?_, ?_⟩
    · rw [List.map_cons, List.reverse_cons, List.map_append, runAll_append_ok hmid]
      exact (runAll_singleton db _ mid).trans hout
    · -- A sort by one key compares by nothing after it.
      have hkey : SortKey.orderAll ([key].map exactKey) = (exactKey key).order := by
        funext d e
        exact Ordering.then_eq
      rw [hkey] at hlast
      exact hrest.lex hlast

/-- **Sorting.** The lexicographic order of keys with directions, where nothing at a key counts as
null, is a total preorder of documents. The sort stage with these keys answers with the documents
that it is given, put in this order; documents that are equal on all keys keep their order. Sorting
by each key alone, from the last one to the first, gives the same. -/
theorem sort_stable_lexicographic (keys : List (String × SortDirection)) (db : Collections)
    (docs : List Document) :
    Std.TransCmp (SortKey.orderAll (keys.map exactKey)) ∧
      ∃ out, run db (.sort (keys.map sortEntry)) docs = .ok out ∧
        out.Perm docs ∧
        out.Pairwise (fun d e => SortKey.orderAll (keys.map exactKey) d e ≠ .gt) ∧
        (∀ d ∈ docs, out.filter (fun e => SortKey.orderAll (keys.map exactKey) d e == .eq) =
          docs.filter fun e => SortKey.orderAll (keys.map exactKey) d e == .eq) ∧
        runAll db ((keys.map sortEntry).reverse.map fun entry => .sort [entry]) docs = .ok out := by
  obtain ⟨out, hrun, hsort⟩ := run_sort db keys docs
  obtain ⟨out', hrun', hsort'⟩ := exists_runAll_sorts db keys docs
  obtain rfl := hsort.unique hsort'
  exact ⟨inferInstance, out, hrun, hsort.perm, hsort.inOrder, hsort.stable, hrun'⟩

end DocMapper.Stage
