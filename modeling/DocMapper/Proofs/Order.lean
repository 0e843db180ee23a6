import DocMapper.Json.Order

/-! # The order of values, and when values are the same

Comparing two values the other way round gives the opposite answer (`compare_swap`), so counting as
equal is symmetric (`equals_comm`). A **scalar** is a value that is neither an array nor an object.
What equals a scalar is one itself, and of the same type; of a text, only the text itself is
(`equals_string_iff`). The same scalars count as equal to the same values
(`equals_congr_of_same`). -/

namespace DocMapper.Json

/-- Whether a value is neither an array nor an object. -/
def isScalar : Json → Bool
  | .array _ | .object _ => false
  | _ => true

theorem ne_array_of_isScalar {v : Json} (h : v.isScalar = true) : ∀ items, v ≠ .array items := by
  rintro items rfl
  cases h

/-! ## Values of different types -/

theorem compare_of_rank_ne {a b : Json} (h : a.rank ≠ b.rank) :
    a.compare b = Ord.compare a.rank b.rank := by
  cases a <;> cases b <;> first | exact absurd rfl h | rfl

theorem rank_eq_of_equals {a b : Json} (h : a.equals b = true) : a.rank = b.rank := by
  refine Decidable.byContradiction fun hne => ?_
  rw [equals, compare_of_rank_ne hne, beq_iff_eq, Std.LawfulEqOrd.compare_eq_iff_eq] at h
  exact hne h

/-! ## Comparing the other way round -/

mutual

theorem compare_swap : ∀ a b : Json, a.compare b = (b.compare a).swap
  | .null, .null => rfl
  | .bool _, .bool _ => Std.OrientedOrd.eq_swap
  | .number _, .number _ => Std.OrientedOrd.eq_swap
  | .string _, .string _ => Std.OrientedOrd.eq_swap
  | .array as, .array bs => compareItems_swap as bs
  | .object fs, .object gs => compareEntries_swap fs gs
  -- Values of different types are in the order of their types.
  | .null, .bool _ | .null, .number _ | .null, .string _ | .null, .array _ | .null, .object _
  | .bool _, .null | .bool _, .number _ | .bool _, .string _ | .bool _, .array _
  | .bool _, .object _ | .number _, .null | .number _, .bool _ | .number _, .string _
  | .number _, .array _ | .number _, .object _ | .string _, .null | .string _, .bool _
  | .string _, .number _ | .string _, .array _ | .string _, .object _ | .array _, .null
  | .array _, .bool _ | .array _, .number _ | .array _, .string _ | .array _, .object _
  | .object _, .null | .object _, .bool _ | .object _, .number _ | .object _, .string _
  | .object _, .array _ => rfl

theorem compareItems_swap : ∀ as bs : List Json, compareItems as bs = (compareItems bs as).swap
  | [], [] => rfl
  | [], _ :: _ => rfl
  | _ :: _, [] => rfl
  | a :: as, b :: bs => by
    rw [compareItems, compareItems, Ordering.swap_then, ← compare_swap a b,
      ← compareItems_swap as bs]

theorem compareEntries_swap :
    ∀ fs gs : List (String × Json), compareEntries fs gs = (compareEntries gs fs).swap
  | [], [] => rfl
  | [], _ :: _ => rfl
  | _ :: _, [] => rfl
  | (k, v) :: fs, (l, w) :: gs => by
    rw [compareEntries, compareEntries, Ordering.swap_then, Ordering.swap_then,
      ← compare_swap v w, ← compareEntries_swap fs gs, ← Std.OrientedOrd.eq_swap (a := k) (b := l)]

end

theorem equals_comm (a b : Json) : a.equals b = b.equals a := by
  rw [equals, equals, compare_swap a b]
  cases b.compare a <;> rfl

/-- Every value counts as equal to itself. -/
theorem equals_self (a : Json) : a.equals a = true := by
  have hswap := compare_swap a a
  rw [equals]
  cases hcompare : a.compare a with
  | eq => rfl
  | lt | gt => rw [hcompare] at hswap; cases hswap

/-! ## Scalars -/

theorem isScalar_of_equals {a b : Json} (hb : b.isScalar = true) (h : a.equals b = true) :
    a.isScalar = true := by
  have hrank := rank_eq_of_equals h
  cases a <;> cases b <;> simp_all [isScalar, rank]

theorem equals_string_iff {a : Json} {s : String} :
    a.equals (.string s) = true ↔ a = .string s := by
  constructor
  · intro h
    have hrank := rank_eq_of_equals h
    cases a with
    | string t =>
      rw [equals, compare, beq_iff_eq, Std.LawfulEqOrd.compare_eq_iff_eq] at h
      rw [h]
    | _ => cases hrank
  · rintro rfl
    rw [equals, compare, beq_iff_eq, Std.LawfulEqOrd.compare_eq_iff_eq]

theorem equals_null_iff {a : Json} : a.equals .null = true ↔ a = .null := by
  constructor
  · intro h
    have hrank := rank_eq_of_equals h
    cases a with
    | null => rfl
    | _ => cases hrank
  · rintro rfl
    rfl

theorem equals_bool_iff {a : Json} {b : Bool} : a.equals (.bool b) = true ↔ a = .bool b := by
  constructor
  · intro h
    have hrank := rank_eq_of_equals h
    cases a with
    | bool c =>
      rw [equals, compare, beq_iff_eq, Std.LawfulEqOrd.compare_eq_iff_eq] at h
      rw [h]
    | _ => cases hrank
  · rintro rfl
    rw [equals, compare, beq_iff_eq, Std.LawfulEqOrd.compare_eq_iff_eq]

/-! ## Sameness of scalars -/

theorem same_bool_iff {a : Json} {b : Bool} : a.same (.bool b) = true ↔ a = .bool b := by
  cases a <;> simp [same]

theorem same_string_iff {a : Json} {s : String} : a.same (.string s) = true ↔ a = .string s := by
  cases a <;> simp [same]

theorem order_eq_of_same {m n : Number} (h : m.same n = true) : m.order = n.order := by
  cases m with
  | int i =>
    cases n with
    | int j =>
      have hij : i = j := by simpa [Number.same] using h
      rw [hij]
    | float y => cases h
  | float x =>
    cases n with
    | int j => cases h
    | float y =>
      show x.order = y.order
      simpa [Number.same] using h

/-- The same scalars count as equal to the same values. -/
theorem equals_congr_of_same {v w : Json} (hv : v.isScalar = true) (h : v.same w = true)
    (x : Json) : x.equals v = x.equals w := by
  cases v with
  | null =>
    cases w <;> first | rfl | cases h
  | bool b =>
    cases w with
    | bool c =>
      have hbc : b = c := by simpa [same] using h
      rw [hbc]
    | _ => cases h
  | string s =>
    cases w with
    | string t =>
      have hst : s = t := by simpa [same] using h
      rw [hst]
    | _ => cases h
  | number m =>
    cases w with
    | number n =>
      have hmn : m.order = n.order := order_eq_of_same (by simpa [same] using h)
      cases x with
      | number k => rw [equals, equals, compare, compare, hmn]
      | _ => rfl
    | _ => cases h
  | array items => cases hv
  | object fields => cases hv

end DocMapper.Json
