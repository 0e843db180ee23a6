import DocMapper.Proofs.Comparison
import Mathlib.Algebra.Order.Field.Power
import Mathlib.Algebra.Order.Ring.Rat
import Mathlib.Data.Int.Cast.Lemmas
import Mathlib.Order.Monotone.Basic

/-! # The order of values is a total preorder

Numbers are compared by their places, which are integers. A place is counted in steps from one
floating-point number to the next, and the steps are of different lengths; but every step leads
upwards (`Binary64.units_lt_iff`), so numbers compare as the rational numbers that they stand
for (`Binary64.value_lt_iff`, `Binary64.value_eq_iff`).

All other values are compared part by part. Values that compare as equal form classes, all members
of a class stand alike to all other values, and the classes stand in one line
(`Json.compare_total_preorder`). -/

namespace DocMapper

/-! ## Numbers -/

namespace Binary64

/-- The rational number that a finite floating-point number stands for. -/
def value (x : Binary64) : ℚ := (if x.negative then -1 else 1) * x.mantissa * 2 ^ x.exponent

/-- The least positive number, of which all finite numbers are multiples. -/
def unit : ℚ := 2 ^ (-1074 : ℤ)

/-- How many units a magnitude stands for. -/
def unitsOf (magnitude : Nat) : Nat :=
  if magnitude / twoTo 52 = 0 then magnitude
  else (twoTo 52 + magnitude % twoTo 52) * 2 ^ (magnitude / twoTo 52 - 1)

/-- The units of a magnitude in terms of its two parts. -/
theorem unitsOf_parts {fraction : Nat} (h : fraction < twoTo 52) (exponent : Nat) :
    unitsOf (fraction + exponent * twoTo 52) =
      if exponent = 0 then fraction else (twoTo 52 + fraction) * 2 ^ (exponent - 1) := by
  have hpos : 0 < twoTo 52 := Nat.two_pow_pos 52
  rw [unitsOf, Nat.add_mul_div_right _ _ hpos, Nat.add_mul_mod_self_right, Nat.div_eq_of_lt h,
    Nat.mod_eq_of_lt h, Nat.zero_add]
  by_cases hzero : exponent = 0
  · rw [if_pos hzero, if_pos hzero, hzero, Nat.zero_mul, Nat.add_zero]
  · rw [if_neg hzero, if_neg hzero]

/-- The next magnitude stands for more, also where the exponent grows. -/
theorem unitsOf_lt_succ (m : Nat) : unitsOf m < unitsOf (m + 1) := by
  have hpos : 0 < twoTo 52 := Nat.two_pow_pos 52
  obtain ⟨fraction, exponent, hfraction, rfl⟩ :
      ∃ fraction exponent, fraction < twoTo 52 ∧ fraction + exponent * twoTo 52 = m :=
    ⟨m % twoTo 52, m / twoTo 52, Nat.mod_lt _ hpos, Nat.mod_add_div' _ _⟩
  rw [unitsOf_parts hfraction]
  by_cases hcarry : fraction + 1 < twoTo 52
  · rw [Nat.add_right_comm, unitsOf_parts hcarry]
    split
    · exact Nat.lt_succ_self _
    · exact Nat.mul_lt_mul_of_pos_right (by omega) (Nat.two_pow_pos _)
  · -- The fraction is full: the next magnitude has the next exponent and no fraction.
    have hnext : fraction + exponent * twoTo 52 + 1 = 0 + (exponent + 1) * twoTo 52 := by
      rw [Nat.succ_mul]
      omega
    rw [hnext, unitsOf_parts hpos, if_neg (Nat.succ_ne_zero _), Nat.add_zero, Nat.add_sub_cancel]
    split
    · next hzero => rw [hzero, Nat.pow_zero, Nat.mul_one]; exact hfraction
    · next hexponent =>
      obtain ⟨e, rfl⟩ := Nat.exists_eq_succ_of_ne_zero hexponent
      rw [Nat.succ_sub_one, Nat.pow_succ', ← Nat.mul_assoc]
      exact Nat.mul_lt_mul_of_pos_right (by omega) (Nat.two_pow_pos _)

/-- How many units a place on the number line stands for. -/
def units (place : Int) : Int := place.sign * unitsOf place.natAbs

theorem units_natCast (n : Nat) : units n = unitsOf n := by
  cases n with
  | zero => rfl
  | succ n => rw [units, Int.sign_natCast_of_ne_zero n.succ_ne_zero, Int.one_mul, Int.natAbs_natCast]

theorem units_neg (place : Int) : units (-place) = -units place := by
  rw [units, units, Int.sign_neg, Int.natAbs_neg, Int.neg_mul]

theorem units_lt_succ (place : Int) : units place < units (place + 1) := by
  cases place with
  | ofNat n =>
    have hlt := Int.ofNat_lt.mpr (unitsOf_lt_succ n)
    rwa [← units_natCast, ← units_natCast] at hlt
  | negSucc n =>
    have hlt := Int.neg_lt_neg (Int.ofNat_lt.mpr (unitsOf_lt_succ n))
    rw [← units_natCast, ← units_natCast, ← units_neg, ← units_neg] at hlt
    have hnext : Int.negSucc n + 1 = -n := by omega
    rwa [hnext]

theorem units_lt_iff {m n : Int} : units m < units n ↔ m < n :=
  (strictMono_int_of_lt_succ units_lt_succ).lt_iff_lt

theorem units_inj {m n : Int} : units m = units n ↔ m = n :=
  (strictMono_int_of_lt_succ units_lt_succ).injective.eq_iff

/-- The absolute value of a number in units. -/
theorem mantissa_mul_eq (x : Binary64) :
    (x.mantissa : ℚ) * 2 ^ x.exponent = unitsOf x.magnitude * unit := by
  rw [mantissa, exponent, unitsOf, unit]
  by_cases hzero : x.magnitude / twoTo 52 = 0
  · rw [if_pos hzero, if_pos hzero, if_pos hzero]
  · rw [if_neg hzero, if_neg hzero, if_neg hzero]
    obtain ⟨e, he⟩ := Nat.exists_eq_succ_of_ne_zero hzero
    have hexponent : ((e + 1 : Nat) : Int) - 1075 = e + -1074 := by omega
    rw [he, Nat.succ_sub_one, Nat.succ_eq_add_one, hexponent, zpow_add₀ two_ne_zero, zpow_natCast,
      Nat.cast_mul, Nat.cast_pow, Nat.cast_ofNat, mul_assoc]

theorem value_eq_units (x : Binary64) : x.value = units x.order * unit := by
  rw [value, mul_assoc, mantissa_mul_eq, order]
  cases x.negative with
  | false => rw [if_neg Bool.false_ne_true, if_neg Bool.false_ne_true, units_natCast, one_mul]; rfl
  | true =>
    rw [if_pos rfl, if_pos rfl, units_neg, units_natCast, Int.cast_neg, neg_mul, neg_mul, one_mul]
    rfl

/-- Numbers compare as the rational numbers that they stand for. -/
theorem value_lt_iff {x y : Binary64} : x.value < y.value ↔ x.order < y.order := by
  have hunit : 0 < unit := zpow_pos (by norm_num) _
  rw [value_eq_units, value_eq_units, mul_lt_mul_iff_left₀ hunit, Int.cast_lt,
    units_lt_iff]

theorem value_eq_iff {x y : Binary64} : x.value = y.value ↔ x.order = y.order := by
  have hunit : unit ≠ 0 := zpow_ne_zero _ (by norm_num)
  rw [value_eq_units, value_eq_units, mul_left_inj' hunit, Int.cast_inj, units_inj]

end Binary64

/-! ## Values -/

namespace Json

/-- Numbers stand in the order of the rational numbers that they stand for. -/
theorem compare_number_lt_iff {m n : Number} : (number m).compare (number n) = .lt ↔
    m.toBinary64.value < n.toBinary64.value := by
  rw [compare, Int.compare_eq_lt, Number.order, Number.order, Binary64.value_lt_iff]

theorem compare_number_eq_iff {m n : Number} : (number m).compare (number n) = .eq ↔
    m.toBinary64.value = n.toBinary64.value := by
  rw [compare, Int.compare_eq_eq, Number.order, Number.order, Binary64.value_eq_iff]

/-- In a chain of three the ends are in order, and they are equal only if all three are. -/
theorem compare_chain {a b c : Json} (hab : a.compare b ≠ .gt) (hbc : b.compare c ≠ .gt) :
    a.compare c ≠ .gt ∧ (a.compare c = .eq → a.compare b = .eq ∧ b.compare c = .eq) := by
  rw [compare_then (Ordering.isLE_iff_ne_gt.mpr hab) (Ordering.isLE_iff_ne_gt.mpr hbc)]
  cases hb : a.compare b with
  | lt => exact ⟨nofun, nofun⟩
  | eq => exact ⟨hbc, fun hc => ⟨rfl, hc⟩⟩
  | gt => exact absurd hb hab

/-- **The order of values is a total preorder.** Numbers compare as the rational numbers that they
stand for. Every value is equal to itself; the comparison of two values the other way round is the
reverse; and in a chain of three the ends are in order, where they are equal only if all three are.
So to count as equal is an equivalence, and values that do stand alike to all others. -/
theorem compare_total_preorder :
    (∀ m n : Number,
      ((number m).compare (number n) = .lt ↔ m.toBinary64.value < n.toBinary64.value) ∧
      ((number m).compare (number n) = .eq ↔ m.toBinary64.value = n.toBinary64.value)) ∧
    (∀ a : Json, a.compare a = .eq) ∧
    (∀ a b : Json, b.compare a = (a.compare b).swap) ∧
    (∀ a b c : Json, a.compare b ≠ .gt → b.compare c ≠ .gt →
      a.compare c ≠ .gt ∧ (a.compare c = .eq → a.compare b = .eq ∧ b.compare c = .eq)) ∧
    (Equivalence fun a b : Json => a.equals b = true) ∧
    ∀ a a' b b' : Json, a.equals a' = true → b.equals b' = true → a.compare b = a'.compare b' :=
  ⟨fun _ _ => ⟨compare_number_lt_iff, compare_number_eq_iff⟩,
    fun a => equals_iff.mp (equals_self a), fun a b => compare_swap b a,
    fun _ _ _ => compare_chain,
    ⟨equals_self, fun h => (equals_comm _ _).trans h, equals_trans⟩,
    fun _ _ _ _ => compare_congr⟩

end Json

/-! ## Some readings -/

namespace ReadingSample

open Json

/-- A reading with two integers, of which the greater is not a floating-point number. -/
def exact : Json := .array [.int 2, .object [("at", .int 9007199254740993)]]

/-- The reading with the numbers that are nearest. -/
def nearest : Json :=
  .array [.number (.float ⟨false, 1024 * twoTo 52⟩), .object [("at", .int 9007199254740992)]]

/-- The reading and one item more. -/
def longer : Json := .array [.int 2, .object [("at", .int 9007199254740992)], .null]

/-- The two readings count as equal though their numbers differ in form and size, so they stand alike
to the longer one, which comes after them. -/
theorem readings_in_line :
    exact.compare nearest = .eq ∧ nearest.compare longer = .lt ∧
      exact.compare longer ≠ .gt ∧ longer.compare exact = (exact.compare longer).swap ∧
      exact.equals exact = true ∧ exact.compare longer = nearest.compare longer := by
  have hequal : exact.compare nearest = .eq := by decide +kernel
  have hless : nearest.compare longer = .lt := by decide +kernel
  obtain ⟨-, hself, hswap, hchain, hequiv, hcongr⟩ := compare_total_preorder
  refine ⟨hequal, hless, (hchain exact nearest longer ?_ ?_).1, hswap exact longer,
    hequiv.refl exact, hcongr _ _ _ _ (equals_iff.mpr hequal) (hequiv.refl longer)⟩
  · rw [hequal]; exact nofun
  · rw [hless]; exact nofun

end ReadingSample

end DocMapper
