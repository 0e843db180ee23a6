import DocMapper.Pattern.Basic
import Mathlib.Logic.Function.Iterate

/-! # What patterns match

Matching a pattern works on sets of positions. Here it is described one stretch at a time: `Stretch`
says that a stretch of a pattern begins at one position of a text and ends at another one, by
recursion on the pattern, and `Row` that several stretches follow each other.

`ends` finds exactly the positions to which stretches lead (`mem_ends`). For repetitions without an
upper bound it takes one round more than the text has characters. That is enough since stretches
lead forwards: those that lead nowhere can be left out of a row, and each of the others takes up a
character (`Row.exists_short`). -/

namespace DocMapper.Pattern

variable {t : Array Char} {p q : Pattern} {R : Nat → Nat → Prop} {step : List Nat → List Nat}
  {s extra : List Nat} {i j n m : Nat}

/-! ## Stretches -/

/-- So many stretches in a row lead from one position to another one. -/
def Row (R : Nat → Nat → Prop) : (count : Nat) → Nat → Nat → Prop
  | 0, i, j => i = j
  | count + 1, i, j => ∃ k, R i k ∧ Row R count k j

/-- A stretch of a pattern begins at one position of a text and ends at another one. -/
def Stretch (t : Array Char) : Pattern → Nat → Nat → Prop
  | empty, i, j => i = j
  | set cs, i, j => j = i + 1 ∧ ∃ c, t[i]? = some c ∧ cs.contains c = true
  | anchor a, i, j => i = j ∧ a.holds t i = true
  | seq p q, i, j => ∃ k, Stretch t p i k ∧ Stretch t q k j
  | alt p q, i, j => Stretch t p i j ∨ Stretch t q i j
  | repeats p least most, i, j =>
    ∃ more, (∀ m, most = some m → more ≤ m - least) ∧ Row (Stretch t p) (least + more) i j

theorem row_add : Row R (n + m) i j ↔ ∃ k, Row R n i k ∧ Row R m k j := by
  induction n generalizing i with
  | zero =>
    rw [Nat.zero_add]
    exact ⟨fun h => ⟨i, rfl, h⟩, fun ⟨_, rfl, h⟩ => h⟩
  | succ n ih =>
    rw [Nat.succ_add]
    constructor
    · rintro ⟨k, hfirst, hrest⟩
      obtain ⟨l, hn, hm⟩ := ih.mp hrest
      exact ⟨l, ⟨k, hfirst, hn⟩, hm⟩
    · rintro ⟨l, ⟨k, hfirst, hn⟩, hm⟩
      exact ⟨k, hfirst, ih.mpr ⟨l, hn, hm⟩⟩

/-- A property of pairs of positions that holds of a position with itself and can be put together
holds of the ends of a row if it holds of the ends of each stretch. -/
theorem Row.rel {P : Nat → Nat → Prop} (hrefl : ∀ i, P i i)
    (htrans : ∀ i k j, P i k → P k j → P i j) (hR : ∀ i j, R i j → P i j) (h : Row R n i j) :
    P i j := by
  induction n generalizing i with
  | zero =>
    obtain rfl : i = j := h
    exact hrefl i
  | succ n ih =>
    obtain ⟨k, hfirst, hrest⟩ := h
    exact htrans i k j (hR i k hfirst) (ih hrest)

/-- If stretches lead forwards, and not behind an end, then so do rows. -/
theorem Row.bounds (hR : ∀ i j, R i j → i ≤ j ∧ j ≤ max i m) (h : Row R n i j) :
    i ≤ j ∧ j ≤ max i m :=
  h.rel (P := fun i j => i ≤ j ∧ j ≤ max i m) (fun i => by omega) (fun i k j hik hkj => by omega) hR

/-- Stretches lead forwards, and not behind the end of the text. -/
theorem Stretch.bounds (h : Stretch t p i j) : i ≤ j ∧ j ≤ max i t.size := by
  induction p generalizing i j with
  | empty =>
    obtain rfl : i = j := h
    omega
  | set cs =>
    obtain ⟨rfl, c, hc, -⟩ := h
    have hi : i < t.size := (Array.getElem?_eq_some_iff.mp hc).1
    omega
  | anchor a =>
    obtain rfl : i = j := h.1
    omega
  | seq p q ihp ihq =>
    obtain ⟨k, hp, hq⟩ := h
    have hfirst := ihp hp
    have hsecond := ihq hq
    omega
  | alt p q ihp ihq => exact h.elim ihp ihq
  | repeats p least most ih =>
    obtain ⟨more, -, hrow⟩ := h
    exact hrow.bounds fun i j => ih

/-- Stretches that lead nowhere can be left out of a row; each of the others leads forwards. -/
theorem Row.exists_short (hle : ∀ i j, R i j → i ≤ j) (h : Row R n i j) :
    ∃ m, m ≤ n ∧ m ≤ j - i ∧ Row R m i j := by
  induction n generalizing i with
  | zero => exact ⟨0, Nat.le_refl _, Nat.zero_le _, h⟩
  | succ n ih =>
    obtain ⟨k, hfirst, hrest⟩ := h
    obtain ⟨m, hmn, hmj, hrow⟩ := ih hrest
    have hik := hle i k hfirst
    have hkj : k ≤ j := hrow.rel (fun _ => Nat.le_refl _) (fun _ _ _ => Nat.le_trans) hle
    rcases Nat.eq_or_lt_of_le hik with rfl | hlt
    · exact ⟨m, by omega, hmj, hrow⟩
    · exact ⟨m + 1, by omega, by omega, k, hfirst, hrow⟩

/-! ## Sets of positions -/

theorem addPositions_cons : addPositions s (i :: extra) =
    addPositions (if s.contains i then s else s ++ [i]) extra := rfl

theorem mem_addPositions : j ∈ addPositions s extra ↔ j ∈ s ∨ j ∈ extra := by
  induction extra generalizing s with
  | nil => simp [addPositions]
  | cons i extra ih =>
    rw [addPositions_cons, ih, List.mem_cons]
    split
    · next hmem =>
      have hi : i ∈ s := List.contains_iff_mem.mp hmem
      exact ⟨Or.imp_right .inr, fun h => h.elim .inl fun h => h.elim (fun h => .inl (h ▸ hi)) .inr⟩
    · rw [List.mem_append, List.mem_singleton, or_assoc]

theorem length_le_addPositions (s extra : List Nat) :
    s.length ≤ (addPositions s extra).length := by
  induction extra generalizing s with
  | nil => exact Nat.le_refl _
  | cons i extra ih =>
    rw [addPositions_cons]
    refine Nat.le_trans ?_ (ih _)
    split
    · exact Nat.le_refl _
    · rw [List.length_append]
      exact Nat.le_add_right _ _

/-- Where no position becomes more, all that were added were there before. -/
theorem subset_of_length_addPositions (h : (addPositions s extra).length = s.length) :
    ∀ i ∈ extra, i ∈ s := by
  induction extra generalizing s with
  | nil => exact fun _ => nofun
  | cons i extra ih =>
    rw [addPositions_cons] at h
    split at h
    · next hmem =>
      exact List.forall_mem_cons.mpr ⟨List.contains_iff_mem.mp hmem, ih h⟩
    · have hle := length_le_addPositions (s ++ [i]) extra
      rw [h, List.length_append] at hle
      exact absurd hle (Nat.not_succ_le_self _)

/-! ## Rounds -/

/-- A step that changes nothing can be left out, and so can all after it. -/
theorem iterate_eq (step : List Nat → List Nat) (n : Nat) (s : List Nat) :
    iterate step n s = step^[n] s := by
  induction n generalizing s with
  | zero => rfl
  | succ n ih =>
    rw [iterate, Function.iterate_succ_apply]
    split
    · next hfixed => rw [hfixed, Function.iterate_fixed hfixed]
    · exact ih _

section

variable (hstep : ∀ s j, j ∈ step s ↔ ∃ i ∈ s, R i j)

include hstep

/-- So many steps lead to where rows of so many stretches lead. -/
theorem mem_iterate : j ∈ iterate step n s ↔ ∃ i ∈ s, Row R n i j := by
  rw [iterate_eq]
  induction n generalizing s with
  | zero => exact ⟨fun h => ⟨j, h, rfl⟩, fun ⟨_, h, hrow⟩ => hrow ▸ h⟩
  | succ n ih =>
    rw [Function.iterate_succ_apply, ih]
    constructor
    · rintro ⟨k, hk, hrow⟩
      obtain ⟨i, hi, hfirst⟩ := (hstep s k).mp hk
      exact ⟨i, hi, k, hfirst, hrow⟩
    · rintro ⟨i, hi, k, hfirst, hrow⟩
      exact ⟨k, (hstep s k).mpr ⟨i, hi, hfirst⟩, hrow⟩

/-- So many rounds lead to where rows of at most so many stretches lead. -/
theorem mem_closure : j ∈ closure step n s ↔ ∃ i ∈ s, ∃ m ≤ n, Row R m i j := by
  induction n generalizing s with
  | zero =>
    refine ⟨fun h => ⟨j, h, 0, Nat.le_refl _, rfl⟩, ?_⟩
    rintro ⟨i, hi, m, hm, hrow⟩
    obtain rfl := Nat.le_zero.mp hm
    exact hrow ▸ hi
  | succ n ih =>
    rw [closure]
    split
    · next hlength =>
      -- No round reaches anything new, so no row leaves the positions.
      have hclosed : ∀ i j, R i j → i ∈ s → j ∈ s := fun i j hij hi =>
        subset_of_length_addPositions hlength j ((hstep s j).mpr ⟨i, hi, hij⟩)
      refine ⟨fun h => ⟨j, h, 0, Nat.zero_le _, rfl⟩, ?_⟩
      rintro ⟨i, hi, m, -, hrow⟩
      exact hrow.rel (P := fun i j => i ∈ s → j ∈ s) (fun _ => id)
        (fun _ _ _ hik hkj hi => hkj (hik hi)) hclosed hi
    · rw [ih]
      constructor
      · rintro ⟨k, hk, m, hm, hrow⟩
        rcases mem_addPositions.mp hk with hk | hk
        · exact ⟨k, hk, m, Nat.le_succ_of_le hm, hrow⟩
        · obtain ⟨i, hi, hfirst⟩ := (hstep s k).mp hk
          exact ⟨i, hi, m + 1, Nat.succ_le_succ hm, k, hfirst, hrow⟩
      · rintro ⟨i, hi, m, hm, hrow⟩
        cases m with
        | zero => exact ⟨i, mem_addPositions.mpr (.inl hi), 0, Nat.zero_le _, hrow⟩
        | succ m =>
          obtain ⟨k, hfirst, hrow⟩ := hrow
          exact ⟨k, mem_addPositions.mpr (.inr ((hstep s k).mpr ⟨i, hi, hfirst⟩)), m,
            Nat.le_of_succ_le_succ hm, hrow⟩

end

/-! ## Matching -/

/-- A repetition takes its least number of steps, and then as many rounds as its bound allows, but no
more than the text has positions. -/
theorem ends_repeats (t : Array Char) (p : Pattern) (least : Nat) (most : Option Nat)
    (s : List Nat) : ∃ rounds,
      ends t (repeats p least most) s = closure (ends t p) rounds (iterate (ends t p) least s) ∧
      ∀ m, m ≤ rounds ↔ (∀ b, most = some b → m ≤ b - least) ∧ m ≤ t.size + 1 := by
  cases most with
  | none => exact ⟨_, rfl, fun m => ⟨fun h => ⟨nofun, h⟩, fun h => h.2⟩⟩
  | some most =>
    refine ⟨_, rfl, fun m => ?_⟩
    rw [Nat.le_min]
    exact and_congr_left' ⟨fun h b hb => Option.some.inj hb ▸ h, fun h => h most rfl⟩

/-- **Matching finds the ends of stretches.** The positions that matching finds from others are those
at which a stretch ends that begins at one of these. -/
theorem mem_ends (t : Array Char) (p : Pattern) (s : List Nat) (j : Nat) :
    j ∈ ends t p s ↔ ∃ i ∈ s, Stretch t p i j := by
  induction p generalizing s j with
  | empty => exact ⟨fun h => ⟨j, h, rfl⟩, fun ⟨_, h, hij⟩ => hij ▸ h⟩
  | set cs =>
    have hholds : ∀ i : Nat, (t[i]?.map cs.contains).getD false = true ↔
        ∃ c, t[i]? = some c ∧ cs.contains c = true := by
      intro i
      cases t[i]? <;> simp
    simp only [ends, Stretch, List.mem_map, List.mem_filter, hholds]
    exact ⟨fun ⟨i, ⟨hi, hc⟩, hj⟩ => ⟨i, hi, hj.symm, hc⟩, fun ⟨i, hi, hj, hc⟩ => ⟨i, ⟨hi, hc⟩, hj.symm⟩⟩
  | anchor a =>
    rw [ends, List.mem_filter]
    exact ⟨fun ⟨hj, hholds⟩ => ⟨j, hj, rfl, hholds⟩, fun ⟨_, hi, hij, hholds⟩ => hij ▸ ⟨hi, hholds⟩⟩
  | seq p q ihp ihq =>
    rw [ends, ihq]
    constructor
    · rintro ⟨k, hk, hq⟩
      obtain ⟨i, hi, hp⟩ := (ihp s k).mp hk
      exact ⟨i, hi, k, hp, hq⟩
    · rintro ⟨i, hi, k, hp, hq⟩
      exact ⟨k, (ihp s k).mpr ⟨i, hi, hp⟩, hq⟩
  | alt p q ihp ihq =>
    rw [ends, mem_addPositions, ihp, ihq, ← exists_or]
    exact exists_congr fun i => and_or_left.symm
  | repeats p least most ih =>
    obtain ⟨rounds, hends, hrounds⟩ := ends_repeats t p least most s
    rw [hends, mem_closure ih]
    constructor
    · rintro ⟨k, hk, more, hmore, hrow⟩
      obtain ⟨i, hi, hleast⟩ := (mem_iterate ih).mp hk
      exact ⟨i, hi, more, ((hrounds more).mp hmore).1, row_add.mpr ⟨k, hleast, hrow⟩⟩
    · rintro ⟨i, hi, more, hmost, hrow⟩
      obtain ⟨k, hleast, hrow⟩ := row_add.mp hrow
      obtain ⟨m, hm, hshort, hrow⟩ := hrow.exists_short fun i j h => h.bounds.1
      have hbounds : k ≤ j ∧ j ≤ max k t.size := hrow.bounds fun i j h => h.bounds
      refine ⟨k, (mem_iterate ih).mpr ⟨i, hi, hleast⟩, m, (hrounds m).mpr ⟨fun b hb => ?_, ?_⟩, hrow⟩
      · exact Nat.le_trans hm (hmost b hb)
      · omega

/-- A text matches a pattern if a stretch of the pattern lies in it. -/
theorem matchesText_iff {text : String} : p.matchesText text = true ↔
    ∃ i ≤ text.toList.length, ∃ j, Stretch text.toList.toArray p i j := by
  rw [matchesText, Bool.not_eq_true', List.isEmpty_eq_false_iff_exists_mem]
  simp only [mem_ends, List.mem_range, Nat.lt_succ_iff, List.size_toArray]
  exact ⟨fun ⟨j, i, hi, h⟩ => ⟨i, hi, j, h⟩, fun ⟨i, hi, j, h⟩ => ⟨j, i, hi, h⟩⟩

/-! ## Sequences -/

theorem stretch_sequence_cons {ps : List Pattern} :
    Stretch t (sequence (p :: ps)) i j ↔ ∃ k, Stretch t p i k ∧ Stretch t (sequence ps) k j := by
  cases ps with
  | nil => exact ⟨fun h => ⟨j, h, rfl⟩, fun ⟨_, h, hkj⟩ => hkj ▸ h⟩
  | cons q ps => exact Iff.rfl

end DocMapper.Pattern
