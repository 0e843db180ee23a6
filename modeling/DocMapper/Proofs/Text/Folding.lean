import DocMapper.Text.Folding

/-! # Sameness up to case is folding alike

The orbit of a character, which patterns search without regard to case, are the characters that fold
to the same one (`mem_orbit`). For that the table of foldings has to be a map between characters that
says only one thing about each of them, and nothing about those that it maps to (`IsFolding`). All of
it is checked by computing, on the bounds and the parity of the ranges (`Shift.avoids`). -/

namespace DocMapper.Text

namespace Shift

variable {s : Shift} {first last step n : Nat}

theorem moves_iff : s.moves n = true ↔ s.first ≤ n ∧ n ≤ s.last ∧ (n - s.first) % s.step = 0 := by
  simp [moves, and_assoc]

/-- Whether bounds or parity tell that a shift moves none of the code points `first`, `first + step`,
… up to `last`. The tests are those that the kernel computes fast. -/
def avoids (s : Shift) (first last step : Nat) : Bool :=
  last.blt s.first || s.last.blt first ||
    (s.step.beq 2 && (step.beq 2 || first.beq last) && ((first + s.first) % 2).beq 1)

theorem moves_eq_false_of_avoids (h : s.avoids first last step = true) (hfirst : first ≤ n)
    (hlast : n ≤ last) (hstep : (n - first) % step = 0) : s.moves n = false := by
  rw [Bool.eq_false_iff, ne_eq, moves_iff]
  rintro ⟨hle, hge, hmod⟩
  simp only [avoids, Bool.or_eq_true, Bool.and_eq_true, Nat.blt_eq, Nat.beq_eq] at h
  rcases h with (hbelow | habove) | ⟨⟨htwo, hrow⟩, hparity⟩
  · omega
  · omega
  · rw [htwo] at hmod
    rcases hrow with rfl | rfl
    · omega
    · omega

/-- Whether all code points in some bounds are characters. -/
def areCharacters (first last : Nat) : Bool :=
  last.blt 0xd800 || Nat.blt 0xdfff first && last.blt 0x110000

theorem isValidChar_of_bounds (h : areCharacters first last = true) (hfirst : first ≤ n)
    (hlast : n ≤ last) : n.isValidChar := by
  simp only [areCharacters, Bool.or_eq_true, Bool.and_eq_true, Nat.blt_eq] at h
  rcases h with hlow | ⟨hhigh, hend⟩
  · exact .inl (Nat.lt_of_le_of_lt hlast hlow)
  · exact .inr ⟨Nat.lt_of_lt_of_le hhigh hfirst, Nat.lt_of_le_of_lt hlast hend⟩

/-- Whether a shift maps characters to characters. -/
def mapsCharacters (s : Shift) : Bool :=
  decide (0 ≤ s.first + s.offset) && areCharacters s.first s.last &&
    areCharacters (s.target s.first) (s.target s.last)

/-- A shift that maps characters to characters moves its range as a whole. -/
theorem target_of_moves (hs : s.mapsCharacters = true) (hn : s.moves n = true) :
    (s.target n : Int) = n + s.offset ∧ s.target s.first ≤ s.target n ∧
      s.target n ≤ s.target s.last ∧ s.target n - s.target s.first = n - s.first := by
  simp only [mapsCharacters, Bool.and_eq_true, decide_eq_true_eq] at hs
  obtain ⟨⟨hpositive, -⟩, -⟩ := hs
  obtain ⟨hfirst, hlast, -⟩ := moves_iff.mp hn
  simp only [target]
  omega

end Shift

theorem toNat_ofNat {n : Nat} (h : n.isValidChar) : (Char.ofNat n).toNat = n := by
  rw [Char.ofNat, dif_pos h]
  rfl

/-! ## Foldings -/

/-- A list of shifts that maps characters to characters, each by one shift only, and none of those
that it maps to. -/
structure IsFolding (shifts : List Shift) : Prop where
  characters : ∀ s ∈ shifts, s.mapsCharacters = true
  once : shifts.Pairwise fun s t => ∀ n, s.moves n = true → t.moves n = false
  settled : ∀ s ∈ shifts, ∀ t ∈ shifts, ∀ n, s.moves n = true → t.moves (s.target n) = false

/-- What can be computed of a list of shifts to see that it is a folding. -/
theorem isFolding_of_check {shifts : List Shift} (hvalid : shifts.all (·.mapsCharacters) = true)
    (honce : shifts.Pairwise fun s t => t.avoids s.first s.last s.step = true)
    (hsettled : (shifts.all fun s => shifts.all fun t =>
      t.avoids (s.target s.first) (s.target s.last) s.step) = true) : IsFolding shifts := by
  rw [List.all_eq_true] at hvalid
  refine ⟨hvalid, honce.imp fun havoids n hmoves => ?_, fun s hs t ht n hmoves => ?_⟩
  · obtain ⟨hfirst, hlast, hstep⟩ := Shift.moves_iff.mp hmoves
    exact Shift.moves_eq_false_of_avoids havoids hfirst hlast hstep
  · obtain ⟨-, hfirst, hlast, hsame⟩ := Shift.target_of_moves (hvalid s hs) hmoves
    have hstep := (Shift.moves_iff.mp hmoves).2.2
    have havoids := List.all_eq_true.mp (List.all_eq_true.mp hsettled s hs) t ht
    exact Shift.moves_eq_false_of_avoids havoids hfirst hlast (hsame ▸ hstep)

theorem foldShifts_isFolding : IsFolding foldShifts :=
  isFolding_of_check (by decide +kernel) (by decide +kernel) (by decide +kernel)

namespace IsFolding

variable {shifts : List Shift} (h : IsFolding shifts) {s : Shift} {c d : Char} {n : Nat}

include h

/-- A code point that is moved and the one that it is moved to are characters, and the distance
between them is that of the shift. -/
theorem target_isValid (hs : s ∈ shifts) (hn : s.moves n = true) :
    n.isValidChar ∧ (s.target n).isValidChar ∧ (s.target n : Int) = n + s.offset := by
  have hvalid := h.characters s hs
  obtain ⟨hdistance, htarget_first, htarget_last, -⟩ := Shift.target_of_moves hvalid hn
  obtain ⟨hfirst, hlast, -⟩ := Shift.moves_iff.mp hn
  simp only [Shift.mapsCharacters, Bool.and_eq_true] at hvalid
  obtain ⟨⟨-, hsource⟩, htarget⟩ := hvalid
  exact ⟨Shift.isValidChar_of_bounds hsource hfirst hlast,
    Shift.isValidChar_of_bounds htarget htarget_first htarget_last, hdistance⟩

/-- A character is mapped by the one shift that moves it. -/
theorem image?_eq_some : Shift.image? shifts c = some d ↔
    ∃ s ∈ shifts, s.moves c.toNat = true ∧ s.target c.toNat = d.toNat := by
  rw [Shift.image?, Option.map_eq_some_iff]
  constructor
  · rintro ⟨s, hs, rfl⟩
    have hmem := List.mem_of_find?_eq_some hs
    have hmoves := List.find?_some hs
    exact ⟨s, hmem, hmoves, (toNat_ofNat (h.target_isValid hmem hmoves).2.1).symm⟩
  · rintro ⟨s, hs, hmoves, htarget⟩
    obtain ⟨before, after, rfl⟩ := List.append_of_mem hs
    have honce := (List.pairwise_append.mp h.once).2.2
    refine ⟨s, List.find?_eq_some_iff_append.mpr ⟨hmoves, before, after, rfl, fun t ht => ?_⟩, ?_⟩
    · cases ht' : t.moves c.toNat with
      | false => rfl
      | true =>
        have hnot := honce t ht s List.mem_cons_self _ ht'
        exact absurd hmoves (Bool.eq_false_iff.mp hnot)
    · rw [htarget, Char.ofNat_toNat]

/-- The sources of a character are those that are mapped to it. -/
theorem mem_sources : c ∈ Shift.sources shifts d ↔ Shift.image? shifts c = some d := by
  rw [h.image?_eq_some, Shift.sources, List.mem_filterMap]
  refine exists_congr fun s => and_congr_right fun hs => ?_
  simp only [Option.ite_none_right_eq_some, Option.some.injEq, Bool.and_eq_true, beq_iff_eq]
  constructor
  · rintro ⟨⟨hmoves, htarget⟩, rfl⟩
    rw [toNat_ofNat (h.target_isValid hs hmoves).1]
    exact ⟨hmoves, htarget⟩
  · rintro ⟨hmoves, htarget⟩
    have hsource : ((d.toNat : Int) - s.offset).toNat = c.toNat := by
      have hdistance := (h.target_isValid hs hmoves).2.2
      omega
    rw [hsource]
    exact ⟨⟨hmoves, htarget⟩, Char.ofNat_toNat c⟩

/-- A character that another one is mapped to is not mapped any further. -/
theorem image?_of_image? (hc : Shift.image? shifts c = some d) : Shift.image? shifts d = none := by
  obtain ⟨s, hs, hmoves, htarget⟩ := h.image?_eq_some.mp hc
  rw [Shift.image?, Option.map_eq_none_iff, List.find?_eq_none]
  intro t ht
  rw [← htarget, h.settled s hs t ht _ hmoves]
  exact Bool.false_ne_true

end IsFolding

/-! ## Orbits -/

/-- What a character folds to does not fold to anything else. -/
theorem fold_fold (c : Char) : fold (fold c) = fold c := by
  cases hc : Shift.image? foldShifts c with
  | none =>
    have hfixed : fold c = c := by rw [fold, hc, Option.getD_none]
    rw [hfixed, hfixed]
  | some d =>
    have hfold : fold c = d := by rw [fold, hc, Option.getD_some]
    rw [hfold, fold, foldShifts_isFolding.image?_of_image? hc, Option.getD_none]

/-- The orbit of a character are the characters that are equal to it up to case. -/
theorem mem_orbit (c d : Char) : d ∈ orbit c ↔ sameFold d c = true := by
  rw [orbit, List.mem_cons, foldShifts_isFolding.mem_sources, sameFold, beq_iff_eq]
  constructor
  · rintro (rfl | hd)
    · exact fold_fold c
    · rw [fold, hd, Option.getD_some]
  · intro hsame
    cases hd : Shift.image? foldShifts d with
    | none =>
      rw [fold, hd, Option.getD_none] at hsame
      exact .inl hsame
    | some e =>
      rw [fold, hd, Option.getD_some] at hsame
      exact .inr (hsame ▸ rfl)

end DocMapper.Text
