import DocMapper.Proofs.Order

/-! # Values stand in one line

Values are compared part by part, and the first parts that differ decide. So in a chain of three
values, each at most the next, the ends stand to each other as the first pair does that differs
(`Json.compare_then`). Hence the order of values is transitive, and what the library knows of such
comparisons holds of it: values that count as equal stand alike to all others, and lists can be
sorted. -/

namespace DocMapper.Json

/-! ## Chains of three -/

/-- In a chain of three, the ends stand to each other as the first pair does that differs. -/
theorem then_of_ord {α : Type} [Ord α] [Std.TransOrd α] {a b c : α} (hab : (Ord.compare a b).isLE)
    (hbc : (Ord.compare b c).isLE) :
    Ord.compare a c = (Ord.compare a b).then (Ord.compare b c) := by
  cases h : Ord.compare a b with
  | eq => exact Std.TransCmp.congr_left h
  | lt => exact Std.TransCmp.lt_of_lt_of_isLE h hbc
  | gt =>
    rw [h] at hab
    cases hab

/-- Two comparisons with this property, of which the second decides where the first does not. -/
theorem then_then {ab bc ac ab' bc' ac' : Ordering} (hab : (ab.then ab').isLE)
    (hbc : (bc.then bc').isLE) (h : ab.isLE → bc.isLE → ac = ab.then bc)
    (h' : ab'.isLE → bc'.isLE → ac' = ab'.then bc') :
    ac.then ac' = (ab.then ab').then (bc.then bc') := by
  cases ab with
  | gt => cases hab
  | lt =>
    have hle : bc.isLE := by
      cases bc with
      | lt | eq => rfl
      | gt => cases hbc
    rw [h rfl hle]
    rfl
  | eq =>
    cases bc with
    | gt => cases hbc
    | lt =>
      rw [h rfl rfl]
      cases ab' with
      | lt | eq => rfl
      | gt => cases hab
    | eq =>
      rw [h rfl rfl]
      exact h' hab hbc

theorem compare_of_rank_lt {a b : Json} (h : a.rank < b.rank) : a.compare b = .lt := by
  rw [compare_of_rank_ne (Nat.ne_of_lt h), Nat.compare_eq_lt]
  exact h

theorem rank_le_of_isLE {a b : Json} (h : (a.compare b).isLE) : a.rank ≤ b.rank := by
  refine Nat.le_of_not_lt fun hlt => ?_
  rw [compare_swap, compare_of_rank_lt hlt] at h
  cases h

/-- Values that are not all of one type are in the order of their types. -/
theorem compare_then_of_rank {a b c : Json} (hrank : a.rank ≠ b.rank ∨ b.rank ≠ c.rank)
    (hab : (a.compare b).isLE) (hbc : (b.compare c).isLE) :
    a.compare c = (a.compare b).then (b.compare c) := by
  have hle := rank_le_of_isLE hab
  have hle' := rank_le_of_isLE hbc
  rw [compare_of_rank_lt (show a.rank < c.rank by omega)]
  by_cases hlt : a.rank < b.rank
  · rw [compare_of_rank_lt hlt]
    rfl
  · rw [compare_of_rank_lt (show b.rank < c.rank by omega)]
    cases h : a.compare b with
    | lt | eq => rfl
    | gt =>
      rw [h] at hab
      cases hab

mutual

theorem compare_then : ∀ {a b c : Json}, (a.compare b).isLE → (b.compare c).isLE →
    a.compare c = (a.compare b).then (b.compare c)
  | .null, b, c, hab, hbc => by
    cases b with
    | null => rfl
    | _ => exact compare_then_of_rank (.inl (by simp [rank])) hab hbc
  | .bool a, b, c, hab, hbc => by
    cases b with
    | bool b =>
      cases c with
      | bool c => exact then_of_ord hab hbc
      | _ => exact compare_then_of_rank (.inr (by simp [rank])) hab hbc
    | _ => exact compare_then_of_rank (.inl (by simp [rank])) hab hbc
  | .number a, b, c, hab, hbc => by
    cases b with
    | number b =>
      cases c with
      | number c => exact then_of_ord hab hbc
      | _ => exact compare_then_of_rank (.inr (by simp [rank])) hab hbc
    | _ => exact compare_then_of_rank (.inl (by simp [rank])) hab hbc
  | .string a, b, c, hab, hbc => by
    cases b with
    | string b =>
      cases c with
      | string c => exact then_of_ord hab hbc
      | _ => exact compare_then_of_rank (.inr (by simp [rank])) hab hbc
    | _ => exact compare_then_of_rank (.inl (by simp [rank])) hab hbc
  | .array as, b, c, hab, hbc => by
    cases b with
    | array bs =>
      cases c with
      | array cs => exact compareItems_then hab hbc
      | _ => exact compare_then_of_rank (.inr (by simp [rank])) hab hbc
    | _ => exact compare_then_of_rank (.inl (by simp [rank])) hab hbc
  | .object fs, b, c, hab, hbc => by
    cases b with
    | object gs =>
      cases c with
      | object hs => exact compareEntries_then hab hbc
      | _ => exact compare_then_of_rank (.inr (by simp [rank])) hab hbc
    | _ => exact compare_then_of_rank (.inl (by simp [rank])) hab hbc

theorem compareItems_then : ∀ {as bs cs : List Json}, (compareItems as bs).isLE →
    (compareItems bs cs).isLE →
    compareItems as cs = (compareItems as bs).then (compareItems bs cs)
  | [], [], _, _, _ => rfl
  | [], _ :: _, [], _, hbc => by cases hbc
  | [], _ :: _, _ :: _, _, _ => rfl
  | _ :: _, [], _, hab, _ => by cases hab
  | _ :: _, _ :: _, [], _, hbc => by cases hbc
  | a :: as, b :: bs, c :: cs, hab, hbc => by
    rw [compareItems] at hab hbc ⊢
    exact then_then hab hbc compare_then compareItems_then

theorem compareEntries_then : ∀ {fs gs hs : List (String × Json)}, (compareEntries fs gs).isLE →
    (compareEntries gs hs).isLE →
    compareEntries fs hs = (compareEntries fs gs).then (compareEntries gs hs)
  | [], [], _, _, _ => rfl
  | [], _ :: _, [], _, hbc => by cases hbc
  | [], _ :: _, _ :: _, _, _ => rfl
  | _ :: _, [], _, hab, _ => by cases hab
  | _ :: _, _ :: _, [], _, hbc => by cases hbc
  | (k, v) :: fs, (l, w) :: gs, (m, u) :: hs, hab, hbc => by
    rw [compareEntries] at hab hbc ⊢
    refine then_then hab hbc (fun hkv hlw => ?_) compareEntries_then
    exact then_then hkv hlw then_of_ord compare_then

end

/-- The order of values is one to which the lemmas of the library apply. -/
instance : Std.TransCmp compare where
  eq_swap := compare_swap _ _
  isLE_trans {a b c} hab hbc := by
    rw [compare_then hab hbc]
    cases h : a.compare b with
    | lt => rfl
    | eq => exact hbc
    | gt =>
      rw [h] at hab
      cases hab

/-! ## Values that count as equal -/

theorem equals_iff {a b : Json} : a.equals b = true ↔ a.compare b = .eq := beq_iff_eq

theorem equals_trans {a b c : Json} (hab : a.equals b = true) (hbc : b.equals c = true) :
    a.equals c = true := by
  rw [equals_iff] at *
  rw [compare_then (by rw [hab]; rfl) (by rw [hbc]; rfl), hab, hbc]
  rfl

/-- Values that count as equal stand alike to all others. -/
theorem compare_congr {a a' b b' : Json} (ha : a.equals a' = true) (hb : b.equals b' = true) :
    a.compare b = a'.compare b' :=
  (Std.TransCmp.congr_left (equals_iff.mp ha)).trans (Std.TransCmp.congr_right (equals_iff.mp hb))

end DocMapper.Json
