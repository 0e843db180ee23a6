import DocMapper.Pipeline.Run
import DocMapper.Proofs.Document
import DocMapper.Proofs.Outcome
import DocMapper.Query.Comparison
import Mathlib.Data.List.Induction
import Mathlib.Data.List.Pairwise

/-! # Stable sorts, and sorts by names

A stable sort puts a list in order and leaves in their order what compares as equal (`StableSort`).
There is one such sort of a list (`StableSort.unique`), and to sort by one order after another is to
sort by both, the later one first (`StableSort.lex`). If two orders make no difference between the
same values, a list can be put in both only if they agree on all that is in it
(`StableSort.iff_agree`).

A sort of documents is described by another document, of names and directions. That has each name
once, however often it was given: it keeps the place where the name came first, and the direction
that came last. A name that comes again could not decide anything, so the place does no harm; the
direction is another one than was asked for (`Stage.run_sortSpec`). -/

namespace DocMapper

/-! ## Stable sorts -/

/-- A list is another one put in order, where what compares as equal stays in its order. -/
structure StableSort {α : Type} (cmp : α → α → Ordering) (l sorted : List α) : Prop where
  perm : sorted.Perm l
  inOrder : sorted.Pairwise fun a b => cmp a b ≠ .gt
  stable : ∀ a ∈ l, sorted.filter (fun b => cmp a b == .eq) = l.filter fun b => cmp a b == .eq

namespace StableSort

variable {α : Type} {cmp cmp' : α → α → Ordering} {l sorted : List α}

/-- Merge sort is stable. -/
theorem of_mergeSort [Std.TransCmp cmp] (l : List α) :
    StableSort cmp l (l.mergeSort fun a b => cmp a b != .gt) := by
  have hle : (fun a b => cmp a b != .gt) = fun a b => (cmp a b).isLE := by
    funext a b
    cases cmp a b <;> rfl
  have htrans : ∀ a b c, (cmp a b).isLE → (cmp b c).isLE → (cmp a c).isLE :=
    fun _ _ _ => Std.TransCmp.isLE_trans
  have htotal : ∀ a b, ((cmp a b).isLE || (cmp b a).isLE) = true := by
    intro a b
    have hswap : cmp a b = (cmp b a).swap := Std.OrientedCmp.eq_swap
    rw [hswap]
    cases cmp b a <;> rfl
  rw [hle]
  have hperm := l.mergeSort_perm fun a b => (cmp a b).isLE
  refine ⟨hperm, (List.pairwise_mergeSort htrans htotal l).imp ?_, fun a _ => ?_⟩
  · intro a b h hgt
    rw [hgt] at h
    cases h
  · -- What compares as equal to one is in order already, and so it is left as it stands.
    have hclass : (l.filter fun b => cmp a b == .eq).Pairwise fun b c => (cmp b c).isLE := by
      refine List.pairwise_of_forall_mem_list fun b hb c hc => ?_
      have hab := beq_iff_eq.mp (List.mem_filter.mp hb).2
      have hac := beq_iff_eq.mp (List.mem_filter.mp hc).2
      have hbc : cmp a c = cmp b c := Std.TransCmp.congr_left hab
      rw [← hbc, hac]
      rfl
    have hsub := (List.sublist_mergeSort htrans htotal hclass List.filter_sublist).filter
      fun b => cmp a b == .eq
    rw [List.filter_filter] at hsub
    simp only [Bool.and_self] at hsub
    exact (hsub.eq_of_length (hperm.filter _).length_eq.symm).symm

/-- Lists of the same items in order are equal if they have what compares as equal to an item in the
same order. -/
theorem eq_of_classes [Std.OrientedCmp cmp] {sorted' : List α} (hperm : sorted.Perm sorted')
    (h : sorted.Pairwise fun a b => cmp a b ≠ .gt) (h' : sorted'.Pairwise fun a b => cmp a b ≠ .gt)
    (hclass : ∀ a ∈ sorted, sorted.filter (fun b => cmp a b == .eq) =
      sorted'.filter fun b => cmp a b == .eq) : sorted = sorted' := by
  have hself : ∀ a, cmp a a = .eq := fun a => Std.ReflCmp.compare_self
  induction sorted generalizing sorted' with
  | nil => exact hperm.nil_eq
  | cons a sorted ih =>
    cases sorted' with
    | nil => exact hperm.eq_nil
    | cons b sorted' =>
      rw [List.pairwise_cons] at h h'
      -- Each of the first items stands in the other list too, so neither is greater.
      have hle : cmp a b ≠ .gt := by
        rcases List.mem_cons.mp (hperm.mem_iff.mpr List.mem_cons_self) with rfl | hmem
        · rw [hself]
          exact nofun
        · exact h.1 b hmem
      have hge : cmp b a ≠ .gt := by
        rcases List.mem_cons.mp (hperm.mem_iff.mp List.mem_cons_self) with rfl | hmem
        · rw [hself]
          exact nofun
        · exact h'.1 a hmem
      have hab : cmp a b = .eq := by
        have hswap : cmp b a = (cmp a b).swap := Std.OrientedCmp.eq_swap
        rw [hswap] at hge
        cases hcmp : cmp a b with
        | eq => rfl
        | gt => exact absurd hcmp hle
        | lt => exact absurd (congrArg Ordering.swap hcmp) hge
      have hfirst := hclass a List.mem_cons_self
      rw [List.filter_cons_of_pos (by rw [hself]; rfl), List.filter_cons_of_pos (by rw [hab]; rfl)]
        at hfirst
      obtain ⟨rfl, -⟩ := List.cons.inj hfirst
      refine congrArg (a :: ·) (ih hperm.cons_inv h.2 h'.2 fun c hc => ?_)
      have hrest := hclass c (List.mem_cons_of_mem a hc)
      rw [List.filter_cons, List.filter_cons] at hrest
      split at hrest
      · exact (List.cons.inj hrest).2
      · exact hrest

/-- There is one stable sort of a list. -/
theorem unique [Std.OrientedCmp cmp] {sorted' : List α} (h : StableSort cmp l sorted)
    (h' : StableSort cmp l sorted') : sorted = sorted' := by
  refine eq_of_classes (h.perm.trans h'.perm.symm) h.inOrder h'.inOrder fun a ha => ?_
  have hmem := h.perm.mem_iff.mp ha
  rw [h.stable a hmem, h'.stable a hmem]

/-- A list that is put in one order after it was put in another is put in both: the later order
decides, and the earlier one where it makes no difference. -/
theorem lex [Std.ReflCmp cmp] {mid : List α} (h' : StableSort cmp' l mid)
    (h : StableSort cmp mid sorted) : StableSort (compareLex cmp cmp') l sorted := by
  have hlex : ∀ a b, compareLex cmp cmp' a b = .eq ↔ cmp a b = .eq ∧ cmp' a b = .eq :=
    fun a b => Ordering.then_eq_eq
  refine ⟨h.perm.trans h'.perm, List.pairwise_iff_forall_sublist.mpr fun {a b} hab hgt => ?_,
    fun a ha => ?_⟩
  · -- Two items that the later order leaves equal stand as the earlier one put them.
    have hmid : a ∈ mid := h.perm.mem_iff.mp (hab.subset List.mem_cons_self)
    have hle := List.pairwise_iff_forall_sublist.mp h.inOrder hab
    have hgt : (cmp a b).then (cmp' a b) = .gt := hgt
    cases hcmp : cmp a b with
    | lt =>
      rw [hcmp] at hgt
      cases hgt
    | gt => exact hle hcmp
    | eq =>
      rw [hcmp] at hgt
      have hself : cmp a a = .eq := Std.ReflCmp.compare_self
      have hclass := hab.filter fun c => cmp a c == .eq
      rw [h.stable a hmid, List.filter_cons_of_pos (by rw [hself]; rfl),
        List.filter_cons_of_pos (by rw [hcmp]; rfl), List.filter_nil] at hclass
      exact List.pairwise_iff_forall_sublist.mp h'.inOrder
        (hclass.trans List.filter_sublist) hgt
  · have hmid : a ∈ mid := h'.perm.mem_iff.mpr ha
    have hboth : ∀ l : List α, (l.filter fun b => compareLex cmp cmp' a b == .eq) =
        (l.filter fun b => cmp a b == .eq).filter fun b => cmp' a b == .eq := by
      intro l
      rw [List.filter_filter]
      refine List.filter_congr fun b _ => Bool.eq_iff_iff.mpr ?_
      simp [hlex, and_comm]
    rw [hboth, hboth, h.stable a hmid, List.filter_comm, h'.stable a ha, List.filter_comm]

/-- A list that is put in one order is in another one, with the same values as equal, exactly if both
orders agree. -/
theorem iff_agree [Std.OrientedCmp cmp] [Std.OrientedCmp cmp'] (h : StableSort cmp l sorted)
    (hequal : ∀ a b, cmp' a b = .eq ↔ cmp a b = .eq) :
    StableSort cmp' l sorted ↔ ∀ a ∈ l, ∀ b ∈ l, cmp' a b = cmp a b := by
  constructor
  · intro h'
    have hpairs : sorted.Pairwise fun a b => cmp' a b = cmp a b := by
      refine (h.inOrder.and h'.inOrder).imp fun {a b} hboth => ?_
      have heq := hequal a b
      cases hcmp : cmp a b with
      | gt => exact absurd hcmp hboth.1
      | eq => exact heq.mpr hcmp
      | lt =>
        cases hcmp' : cmp' a b with
        | gt => exact absurd hcmp' hboth.2
        | eq => rw [heq.mp hcmp'] at hcmp; cases hcmp
        | lt => rfl
    have hsymm : Std.Symm fun a b => cmp' a b = cmp a b := by
      refine ⟨fun a b hab => ?_⟩
      have hswap : cmp b a = (cmp a b).swap := Std.OrientedCmp.eq_swap
      have hswap' : cmp' b a = (cmp' a b).swap := Std.OrientedCmp.eq_swap
      rw [hswap, hswap', hab]
    have hself : ∀ a ∈ sorted, cmp' a a = cmp a a := by
      intro a _
      have hcmp : cmp a a = .eq := Std.ReflCmp.compare_self
      rw [(hequal a a).mpr hcmp, hcmp]
    exact fun a ha b hb => hpairs.forall_of_forall hself (h.perm.mem_iff.mpr ha)
      (h.perm.mem_iff.mpr hb)
  · intro hagree
    have hagree' : ∀ a ∈ sorted, ∀ b ∈ sorted, cmp' a b = cmp a b := fun a ha b hb =>
      hagree a (h.perm.mem_iff.mp ha) b (h.perm.mem_iff.mp hb)
    have hclass : ∀ a b, (cmp' a b == .eq) = (cmp a b == .eq) := fun a b =>
      Bool.eq_iff_iff.mpr (by simpa using hequal a b)
    refine ⟨h.perm, h.inOrder.imp_of_mem fun ha hb hne => ?_, fun a ha => ?_⟩
    · rwa [hagree' _ ha _ hb]
    · simpa only [hclass] using h.stable a ha

end StableSort

/-! ## Names that come again -/

/-- The direction that comes last for a name; ascending if none does. -/
def lastDirection (keys : List (String × SortDirection)) (name : String) : SortDirection :=
  keys.foldl (fun direction key => if key.1 = name then key.2 else direction) .ascending

theorem lastDirection_append (keys : List (String × SortDirection)) (key : String × SortDirection)
    (name : String) : lastDirection (keys ++ [key]) name =
      if key.1 = name then key.2 else lastDirection keys name := by
  rw [lastDirection, List.foldl_append]
  rfl

theorem lastDirection_of_forall {keys : List (String × SortDirection)} {name : String}
    {direction : SortDirection} (hmem : name ∈ keys.map (·.1))
    (h : ∀ key ∈ keys, key.1 = name → key.2 = direction) : lastDirection keys name = direction := by
  induction keys using List.reverseRecOn with
  | nil => cases hmem
  | append_singleton keys key ih =>
    rw [lastDirection_append]
    obtain ⟨hkeys, hkey⟩ := List.forall_mem_append.mp h
    split
    · next heq => exact hkey key (List.mem_singleton_self key) heq
    · next hne =>
      rw [List.map_append, List.mem_append] at hmem
      refine ih (hmem.resolve_right fun hlast => ?_) hkeys
      exact hne (List.mem_singleton.mp hlast).symm

/-! ## Sorting by names -/

namespace Stage

/-- The description of a sort by names. -/
def sortSpec (keys : List (String × SortDirection)) : Document :=
  (keys.map fun key => (key.1, key.2.toInt)).foldl
    (fun d (key, direction) => d.insert key (.int direction)) []

theorem sortSpec_append (keys : List (String × SortDirection)) (key : String × SortDirection) :
    sortSpec (keys ++ [key]) = (sortSpec keys).insert key.1 (.int key.2.toInt) := by
  rw [sortSpec, List.map_append, List.foldl_append]
  rfl

theorem unique_sortSpec (keys : List (String × SortDirection)) : (sortSpec keys).Unique := by
  induction keys using List.reverseRecOn with
  | nil => exact Document.unique_nil
  | append_singleton keys key ih =>
    rw [sortSpec_append]
    exact ih.insert _ _

/-- Each name has the direction that comes last for it. -/
theorem direction_of_mem_sortSpec {keys : List (String × SortDirection)} {entry : String × Json}
    (h : entry ∈ sortSpec keys) : entry.2 = .int (lastDirection keys entry.1).toInt := by
  obtain ⟨name, v⟩ := entry
  induction keys using List.reverseRecOn with
  | nil => cases h
  | append_singleton keys key ih =>
    rw [sortSpec_append] at h
    rw [lastDirection_append]
    rcases (Document.mem_insert (unique_sortSpec keys)).mp h with ⟨rfl, rfl⟩ | ⟨hne, hmem⟩
    · rw [if_pos rfl]
    · rw [if_neg (Ne.symm hne)]
      exact ih hmem

/-- The keys of a description by names and directions. -/
theorem sortKeys_directions (keys : List (String × SortDirection)) :
    sortKeys (keys.map fun key => (key.1, .int key.2.toInt)) =
      .ok (keys.map fun key => (key.1, key.2 == .descending)) := by
  induction keys with
  | nil => rfl
  | cons key keys ih =>
    obtain ⟨name, direction⟩ := key
    rw [List.map_cons, List.map_cons, sortKeys, ih]
    cases direction <;> rfl

theorem sortKeys_eq_ok {spec : Document} {direction : String → SortDirection}
    (h : ∀ entry ∈ spec, entry.2 = .int (direction entry.1).toInt) :
    sortKeys spec = .ok (spec.keys.map fun name => (name, direction name == .descending)) := by
  have hspec : (spec.keys.map fun name => (name, direction name)).map
      (fun key => (key.1, Json.int key.2.toInt)) = spec := by
    rw [Document.keys, List.map_map, List.map_map]
    refine Eq.trans (List.map_congr_left fun entry hentry => ?_) (List.map_id spec)
    exact Prod.ext rfl (h entry hentry).symm
  conv_lhs => rw [← hspec, sortKeys_directions, List.map_map]
  rfl

theorem compareBy_append (keys rest : List (String × Bool)) (d e : Document) :
    compareBy (keys ++ rest) d e = (compareBy keys d e).then (compareBy rest d e) := by
  induction keys with
  | nil => rfl
  | cons key keys ih =>
    rw [List.cons_append, compareBy, compareBy, ih, Ordering.then_assoc]

/-- Documents that are equal by some keys are equal by each of them. -/
theorem compareBy_singleton_of_eq {keys : List (String × Bool)} {key : String × Bool}
    (hkey : key ∈ keys) {d e : Document} (h : compareBy keys d e = .eq) :
    compareBy [key] d e = .eq := by
  obtain ⟨before, after, rfl⟩ := List.append_of_mem hkey
  rw [← List.singleton_append, compareBy_append, compareBy_append, Ordering.then_eq_eq,
    Ordering.then_eq_eq] at h
  exact h.2.1

/-- A name that comes again does not count, since it decides nothing that it did not before. -/
theorem compareBy_sortSpec (keys : List (String × SortDirection)) (descending : String → Bool)
    (d e : Document) :
    compareBy ((sortSpec keys).keys.map fun name => (name, descending name)) d e =
      compareBy (keys.map fun key => (key.1, descending key.1)) d e := by
  induction keys using List.reverseRecOn with
  | nil => rfl
  | append_singleton keys key ih =>
    rw [sortSpec_append, List.map_append, compareBy_append, ← ih]
    by_cases hmem : key.1 ∈ (sortSpec keys).keys
    · rw [Document.keys_insert_of_mem hmem]
      cases hcmp : compareBy ((sortSpec keys).keys.map fun name => (name, descending name)) d e with
      | lt | gt => rfl
      | eq => exact (compareBy_singleton_of_eq (List.mem_map_of_mem hmem) hcmp).symm
    · rw [Document.insert_of_not_mem hmem, ← compareBy_append]
      simp [Document.keys]

/-- A sort by names puts documents in the order of the names, each in the direction that comes last
for it. -/
theorem run_sortSpec (keys : List (String × SortDirection)) (db : Collections)
    (docs : List Document) : run db (.sort (sortSpec keys)) docs =
      .ok (sorted (keys.map fun key => (key.1, lastDirection keys key.1 == .descending)) docs) := by
  rw [run, sortKeys_eq_ok fun _ => direction_of_mem_sortSpec, ok_bind, sorted, sorted]
  simp only [compareBy_sortSpec keys fun name => lastDirection keys name == .descending]
  rfl

end Stage

end DocMapper
