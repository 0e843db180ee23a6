import DocMapper.Proofs.Query.Pages

/-! # Pages of a list at every size

The number and the size of a page are signed integers of 64 bits. They are read as counts; the items
before the page are counted by a product that stops at the greatest count, and the end of the page
is a sum that may be no count at all. Where this differs from the arithmetic of unbounded integers,
the page lies outside of every list: a product that was cut short is followed by a sum that is no
count, since a page has at least one item (`Count.add?_mulAtMost`).

So a page is what it would be without any bounds (`pageOf?_of_valid`), no computation leaves its
range, and the pages of one size make up the longest beginning of the list that they can
(`Page.longest_beginning`). -/

namespace DocMapper

/-! ## Signed numbers as counts -/

/-- A signed number read as a count and back is the number itself. -/
theorem signed_toUInt64 (i : Int64) : signed i.toUInt64.toNat = i.toInt := by
  rw [signed, ← Int64.toInt_toBitVec, BitVec.toInt_eq_toNat_bmod]
  rfl

/-- A signed number that is not negative is the count that it is read as. -/
theorem toNat_toUInt64 {i : Int64} (h : 0 ≤ i.toInt) : i.toUInt64.toNat = i.toInt.toNat := by
  have hsigned := signed_toUInt64 i
  have hbits : twoTo 64 = 2 * twoTo 63 := rfl
  have hlt : i.toUInt64.toNat < twoTo 64 := i.toUInt64.toNat_lt
  by_cases hsmall : i.toUInt64.toNat < twoTo 63
  · rw [signed_eq hsmall] at hsigned
    omega
  · -- From the middle of the counts on, they are read as negative numbers.
    have hnegative : signed i.toUInt64.toNat = i.toUInt64.toNat - twoTo 64 := by
      rw [signed, ← Int.sub_bmod_right]
      exact Int.bmod_eq_of_le (by omega) (by omega)
    omega

theorem toInt_ofNat {n : Nat} (h : n < twoTo 63) : (Int64.ofNat n).toInt = n := by
  rw [← signed_eq h]
  exact Int64.toInt_ofNat'

/-! ## The end of a page -/

/-- The end of a page is a count exactly if it is one without bounds, and then it lies a page after
the items before it; a page that starts behind the last count has no end. -/
theorem Count.add?_mulAtMost (before : Nat) {size : Nat} (hsize : 1 ≤ size) :
    add? (mulAtMost before size) size =
      if (before + 1) * size < twoTo 64 then some ((before + 1) * size) else none := by
  rw [add?, mulAtMost, Nat.succ_mul]
  rcases Nat.le_total (before * size) (twoTo 64 - 1) with hle | hle
  · rw [Nat.min_eq_left hle]
  · rw [Nat.min_eq_right hle, if_neg (by omega), if_neg (by omega)]

/-! ## One page -/

variable {α : Type} {items : List α} {page size : Int64}

/-- The items on a page of a list, as the positions of unbounded integers say. -/
def Page.whole (items : List α) (size number : Nat) : List α :=
  if number * size ≤ items.length then items.extract ((number - 1) * size) (number * size) else []

theorem checkPage_of_invalid {page size : Int} (h : page < 1 ∨ size < 1) :
    checkPage page size = .error (.pageOutOfRange page size) := by
  rw [checkPage, if_pos]
  simpa using h

theorem checkPage_of_valid {page size : Int} (hpage : 1 ≤ page) (hsize : 1 ≤ size) :
    checkPage page size = .ok () := by
  rw [checkPage, if_neg]
  simp only [Bool.or_eq_true, decide_eq_true_eq, not_or]
  omega

/-- A page of a list is found like a page of a query, and without leaving the range of the counts. -/
theorem Window.ofSigned?_eq (page size : Int64) :
    ofSigned? page size = some (ofPage page.toUInt64.toNat size.toUInt64.toNat) := by
  rw [ofSigned?, ofPage, signed_toUInt64, signed_toUInt64]
  by_cases hvalid : 1 ≤ page.toInt ∧ 1 ≤ size.toInt
  · rw [checkPage_of_valid hvalid.1 hvalid.2, toNat_toUInt64 (by omega : 0 ≤ page.toInt)]
    obtain ⟨before, hbefore⟩ := Nat.exists_eq_add_of_le' (by omega : 1 ≤ page.toInt.toNat)
    rw [hbefore]
    rfl
  · rw [checkPage_of_invalid (by omega)]
    rfl

theorem pageOf?_of_invalid (items : List α) (h : page.toInt < 1 ∨ size.toInt < 1) :
    pageOf? items page size = some (.error (.pageOutOfRange page.toInt size.toInt)) := by
  rw [pageOf?, Window.ofSigned?_eq, Window.ofPage, signed_toUInt64, signed_toUInt64,
    checkPage_of_invalid h]
  rfl

/-- A valid page is found, and it is what it would be without any bounds. -/
theorem pageOf?_of_valid (hitems : items.length < twoTo 64) (hpage : 1 ≤ page.toInt)
    (hsize : 1 ≤ size.toInt) :
    pageOf? items page size = some (.ok (Page.whole items size.toInt.toNat page.toInt.toNat)) := by
  obtain ⟨before, hbefore⟩ := Nat.exists_eq_add_of_le' (by omega : 1 ≤ page.toInt.toNat)
  obtain ⟨limit, hlimit⟩ : ∃ limit, size.toInt.toNat = limit := ⟨_, rfl⟩
  have hlimit' : 1 ≤ limit := by omega
  have hwindow : Window.ofSigned? page size =
      some (.ok ⟨Count.mulAtMost before limit, limit⟩) := by
    have hpage' : page.toInt < twoTo 63 := page.toInt_lt
    have hsize' : size.toInt < twoTo 63 := size.toInt_lt
    rw [Window.ofSigned?_eq, toNat_toUInt64 (by omega), toNat_toUInt64 (by omega), hbefore, hlimit,
      Window.ofPage_eq (by omega) (by omega) hlimit' (by omega)]
    rfl
  simp only [pageOf?, hwindow, Option.bind_eq_bind, Option.bind_some,
    Count.add?_mulAtMost before hlimit', hbefore, hlimit, Page.whole, Nat.add_sub_cancel]
  by_cases hend : (before + 1) * limit < twoTo 64
  · -- The end is a count, so the start before it is one too.
    have hstart : Count.mulAtMost before limit = before * limit := by
      rw [Nat.succ_mul] at hend
      exact Nat.min_eq_left (by omega)
    have hordered : before * limit ≤ (before + 1) * limit :=
      Nat.mul_le_mul_right limit (Nat.le_succ before)
    rw [if_pos hend, hstart]
    by_cases hinside : (before + 1) * limit ≤ items.length
    · simp [hinside, slice?, hordered]
    · simp [hinside]
  · rw [if_neg hend, if_neg (by omega)]
    rfl

/-! ## The pages of one size -/

namespace Page

/-- All numbers that a page can have, in their order. -/
noncomputable def numbers : List Int64 := (List.range' 1 (twoTo 63 - 1)).map .ofNat

/-- The numbers of pages are the positive ones. -/
theorem mem_numbers : page ∈ numbers ↔ 1 ≤ page.toInt := by
  have hbits : 1 ≤ twoTo 63 := Nat.one_le_two_pow
  have hlt : page.toInt < twoTo 63 := page.toInt_lt
  rw [numbers, List.mem_map]
  constructor
  · rintro ⟨n, hn, rfl⟩
    rw [List.mem_range'_1] at hn
    rw [toInt_ofNat (by omega)]
    omega
  · intro hpage
    have hnat : page.toInt.toNat < twoTo 63 := by omega
    refine ⟨page.toInt.toNat, List.mem_range'_1.mpr (by omega), Int64.toInt_inj.mp ?_⟩
    rw [toInt_ofNat hnat]
    omega

/-- The whole pages of a list, one after the other, are its beginning up to the last of them. -/
theorem flatMap_whole (items : List α) {size : Nat} (hsize : 1 ≤ size) {last : Nat}
    (hlast : items.length / size ≤ last) :
    (List.range' 1 last).flatMap (whole items size) =
      items.take (items.length / size * size) := by
  obtain ⟨others, rfl⟩ := Nat.exists_eq_add_of_le hlast
  have hfull : ∀ number ∈ List.range' 1 (items.length / size),
      whole items size number = (ofList items size number).items := by
    intro number hnumber
    rw [List.mem_range'_1] at hnumber
    have hinside : number * size ≤ items.length :=
      (Nat.le_div_iff_mul_le hsize).mp (by omega)
    have hone : number * size - (number - 1) * size = size := by
      rw [← Nat.sub_mul, Nat.sub_sub_self hnumber.1, Nat.one_mul]
    rw [whole, if_pos hinside, List.extract_eq_take_drop, hone]
    rfl
  have hempty : ∀ number ∈ List.range' (1 + items.length / size) others,
      whole items size number = [] := by
    intro number hnumber
    rw [List.mem_range'_1] at hnumber
    refine if_neg fun hinside => ?_
    have hle := (Nat.le_div_iff_mul_le hsize).mpr hinside
    omega
  rw [← List.range'_append_1, List.flatMap_append, List.flatMap_congr hfull,
    flatMap_items, List.flatMap_eq_nil_iff.mpr hempty, List.append_nil]

/-- The beginning of a list that its whole pages make up is the longest one that pages of their size
can make up. -/
theorem longest_beginning (items : List α) {size : Nat} (hsize : 1 ≤ size) :
    let beginning := items.take (items.length / size * size)
    beginning <+: items ∧ size ∣ beginning.length ∧
      ∀ l, l <+: items → size ∣ l.length → l <+: beginning := by
  intro beginning
  have hlength : beginning.length = items.length / size * size := by
    rw [List.length_take]
    exact Nat.min_eq_left (Nat.div_mul_le_self _ _)
  refine ⟨List.take_prefix _ _, ⟨items.length / size, by rw [hlength, Nat.mul_comm]⟩, ?_⟩
  rintro l hl ⟨count, hcount⟩
  refine List.prefix_of_prefix_length_le hl (List.take_prefix _ _) ?_
  have hle : count * size ≤ items.length := by
    rw [Nat.mul_comm, ← hcount]
    exact hl.length_le
  rw [hlength, hcount, Nat.mul_comm]
  exact Nat.mul_le_mul_right size ((Nat.le_div_iff_mul_le hsize).mpr hle)

end Page

/-- **Pages of a list are exact at every size.** For every signed number and size of 64 bits, a page
of a list is found without leaving the range of the counts or the list. It is refused exactly if
one of the two is below one; else it holds the items from the end of the pages before it up to its
own end, as unbounded integers, if the list goes that far, and nothing if it does not. So the pages
of one size that are not empty make up the longest beginning of the list whose length is a multiple
of that size, as long as there are numbers for all of them. That a list has fewer than `twoTo 64`
members holds of every list that fits into a machine. -/
theorem pages_exact (hitems : items.length < twoTo 64) :
    (∀ page size : Int64, pageOf? items page size = some (
      if page.toInt < 1 ∨ size.toInt < 1 then .error (.pageOutOfRange page.toInt size.toInt)
      else .ok (if page.toInt * size.toInt ≤ items.length
        then items.extract ((page.toInt - 1) * size.toInt).toNat (page.toInt * size.toInt).toNat
        else []))) ∧
    ∀ size : Int64, 1 ≤ size.toInt → items.length / size.toInt.toNat < twoTo 63 →
      ∃ pages : Int64 → List α,
        (∀ page ∈ Page.numbers, pageOf? items page size = some (.ok (pages page))) ∧
        let beginning := ((Page.numbers.map pages).filter (!·.isEmpty)).flatten
        beginning <+: items ∧ size.toInt.toNat ∣ beginning.length ∧
          ∀ l, l <+: items → size.toInt.toNat ∣ l.length → l <+: beginning := by
  constructor
  · intro page size
    by_cases hvalid : 1 ≤ page.toInt ∧ 1 ≤ size.toInt
    · obtain ⟨hpage, hsize⟩ := hvalid
      obtain ⟨n, hn⟩ := Int.eq_ofNat_of_zero_le (by omega : 0 ≤ page.toInt)
      obtain ⟨m, hm⟩ := Int.eq_ofNat_of_zero_le (by omega : 0 ≤ size.toInt)
      have hbefore : ((n : Int) - 1) * m = ((n - 1) * m : Nat) := by
        rw [Int.natCast_mul, Int.natCast_sub (by omega), Int.natCast_one]
      rw [pageOf?_of_valid hitems hpage hsize, if_neg (by omega), hn, hm, hbefore,
        ← Int.natCast_mul]
      simp only [Int.ofNat_le, Int.toNat_natCast, Page.whole]
    · rw [pageOf?_of_invalid items (by omega), if_pos (by omega)]
  · intro size hsize hnumbers
    have hsize' : 1 ≤ size.toInt.toNat := by omega
    refine ⟨fun page => Page.whole items size.toInt.toNat page.toInt.toNat,
      fun page hpage => pageOf?_of_valid hitems (Page.mem_numbers.mp hpage) hsize, ?_⟩
    have hall : (Page.numbers.map fun page =>
        Page.whole items size.toInt.toNat page.toInt.toNat).flatten =
          items.take (items.length / size.toInt.toNat * size.toInt.toNat) := by
      rw [← Page.flatMap_whole items hsize' (Nat.le_sub_one_of_lt hnumbers), Page.numbers,
        List.map_map, ← List.flatMap_def]
      refine List.flatMap_congr fun n hn => ?_
      rw [List.mem_range'_1] at hn
      rw [Function.comp_apply, toInt_ofNat (by omega)]
      rfl
    rw [List.flatten_filter_not_isEmpty, hall]
    exact Page.longest_beginning items hsize'

/-! ## Some tracks -/

namespace TrackSample

def tracks : List String := ["a", "b", "c", "d", "e", "f", "g"]

/-- The second page of three tracks is full and the third one is not. The last page of the greatest
size starts behind every count. Two pages of three make up the longest beginning. -/
theorem seven_tracks_paged :
    tracks.length < twoTo 64 ∧ 1 ≤ (3 : Int64).toInt ∧
      tracks.length / (3 : Int64).toInt.toNat < twoTo 63 ∧
    pageOf? tracks 2 3 = some (.ok ["d", "e", "f"]) ∧
    pageOf? tracks 3 3 = some (.ok []) ∧
    pageOf? tracks Int64.maxValue Int64.maxValue = some (.ok []) ∧
    pageOf? tracks Int64.minValue 3 = some (.error (.pageOutOfRange (-9223372036854775808) 3)) ∧
    ∃ pages : Int64 → List String,
      (∀ page ∈ Page.numbers, pageOf? tracks page 3 = some (.ok (pages page))) ∧
      ((Page.numbers.map pages).filter (!·.isEmpty)).flatten = ["a", "b", "c", "d", "e", "f"] := by
  have hlength : tracks.length < twoTo 64 := by decide
  have hsize : 1 ≤ (3 : Int64).toInt := by decide
  have hnumbers : tracks.length / (3 : Int64).toInt.toNat < twoTo 63 := by decide
  obtain ⟨hpage, hpages⟩ := pages_exact hlength
  obtain ⟨pages, hfound, hprefix, hwhole, hlongest⟩ := hpages 3 hsize hnumbers
  refine ⟨hlength, hsize, hnumbers, hpage 2 3, hpage 3 3, hpage _ _, hpage _ _, pages, hfound, ?_⟩
  have hsix := hlongest (tracks.take 6) (List.take_prefix 6 tracks) (by decide)
  have hle : _ ≤ 7 := hprefix.length_le
  have hthree : 3 ∣ _ := hwhole
  have hlength' : (tracks.take 6).length = 6 := rfl
  exact (hsix.eq_of_length_le (by omega)).symm

end TrackSample

end DocMapper
