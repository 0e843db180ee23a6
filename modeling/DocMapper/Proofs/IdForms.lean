import DocMapper.Proofs.Identifier
import DocMapper.Proofs.Outcome
import DocMapper.Proofs.Sameness
import Mathlib.Data.List.Induction
import Mathlib.Data.List.TakeWhile

/-! # The forms of an identifier

An identifier can be written in four layouts, each with letters of either case and with blanks
around it (`DocumentId.Spells`). Reading accepts these texts and no others
(`DocumentId.read?_eq_some_iff`), so a value is read as an identifier exactly if it is such a text
or holds one where identifiers are looked for (`DocumentId.ofJson_eq_ok_iff`).

The proof follows the reader from the outside in: the blanks are cut off, the case of letters makes
no difference to what is read, and each layout is undone by the step that was made for it.

Hence canonical forms decide sameness: two values become the same value exactly if they were the
same or are forms of one identifier (`Json.canonicalize_eq_iff`). -/

namespace DocMapper

/-! ## Letters of either case -/

/-- What holds of the first 128 characters and of all others holds of every character. -/
theorem forall_of_ascii {P : Char → Prop} (hascii : ∀ n < 128, P (Char.ofNat n))
    (hother : ∀ c : Char, 128 ≤ c.toNat → P c) (c : Char) : P c := by
  by_cases h : c.toNat < 128
  · have hc := hascii c.toNat h
    rwa [Char.ofNat_toNat] at hc
  · exact hother c (by omega)

theorem toLower_of_le {c : Char} (h : 128 ≤ c.toNat) : c.toLower = c := by
  refine dif_neg ?_
  rintro ⟨-, hle⟩
  have hz : c.toNat ≤ 90 := hle
  omega

namespace Text

/-- Blanks have no case. -/
theorem toLower_of_isBlank {c : Char} : isBlank c = true → c.toLower = c :=
  forall_of_ascii (P := fun c => isBlank c = true → c.toLower = c) (by decide)
    (fun _ h _ => toLower_of_le h) c

namespace Hex

theorem value?_eq_none {c : Char} (h : 128 ≤ c.toNat) : value? c = none := by
  have hlast : ∀ last : Char, last.toNat < 128 → ¬ c ≤ last := by
    intro last hlt hle
    have hle : c.toNat ≤ last.toNat := hle
    omega
  rw [value?, if_neg, if_neg, if_neg] <;>
    · rw [Bool.and_eq_true, decide_eq_true_iff, decide_eq_true_iff]
      exact fun hc => hlast _ (by decide) hc.2

theorem value?_toLower (c : Char) : value? c.toLower = value? c :=
  forall_of_ascii (P := fun c => value? c.toLower = value? c) (by decide)
    (fun c h => by rw [toLower_of_le h]) c

/-- In lower case, a digit is what its value is written as. -/
theorem value?_eq_some {c : Char} {d : Nat} (h : value? c = some d) :
    d < 16 ∧ c.toLower = Nat.digitChar d := by
  have hall : (value? c).all (fun d => decide (d < 16 ∧ c.toLower = Nat.digitChar d)) = true :=
    forall_of_ascii
      (P := fun c => (value? c).all (fun d => decide (d < 16 ∧ c.toLower = Nat.digitChar d)) = true)
      (by decide) (fun c hc => by rw [value?_eq_none hc]; rfl) c
  rw [h] at hall
  exact of_decide_eq_true hall

/-- The case of letters makes no difference to the number that digits spell. -/
theorem read?_toLower (cs : List Char) : read? (cs.map Char.toLower) = read? cs := by
  have hfrom : ∀ sofar, readFrom? sofar (cs.map Char.toLower) = readFrom? sofar cs := by
    induction cs with
    | nil => exact fun _ => rfl
    | cons c cs ih =>
      intro sofar
      rw [List.map_cons, readFrom?, readFrom?, value?_toLower]
      simp only [ih]
  exact hfrom 0

/-- In lower case, the digits of a number are what it is written as. -/
theorem toLower_of_read? {cs : List Char} {n : Nat} (h : read? cs = some n) :
    cs.map Char.toLower = write cs.length n ∧ n < 16 ^ cs.length := by
  induction cs using List.reverseRecOn generalizing n with
  | nil =>
    cases h
    exact ⟨rfl, Nat.one_pos⟩
  | append_singleton cs c ih =>
    rw [read?, readFrom?_append, ← read?, Option.bind_eq_some_iff] at h
    obtain ⟨m, hm, h⟩ := h
    obtain ⟨d, hd, rfl⟩ := Option.map_eq_some_iff.mp h
    obtain ⟨hdigits, hlt⟩ := ih hm
    obtain ⟨hsmall, hlower⟩ := value?_eq_some hd
    have hquotient : (m * 16 + d) / 16 = m := by omega
    have hremainder : (m * 16 + d) % 16 = d := by omega
    rw [List.map_append, List.map_singleton, List.length_append, List.length_singleton, write,
      digit, hquotient, hremainder, hdigits, hlower, Nat.pow_succ]
    exact ⟨rfl, by omega⟩

end Hex

/-! ## Blanks at both ends -/

theorem exists_dropBlanks (cs : List Char) :
    ∃ before, cs = before ++ dropBlanks cs ∧ ∀ c ∈ before, isBlank c = true :=
  ⟨cs.takeWhile isBlank, List.takeWhile_append_dropWhile.symm,
    fun _ hc => List.mem_takeWhile_imp hc⟩

/-- What is cut off at both ends are blanks. -/
theorem exists_trimChars (cs : List Char) :
    ∃ before after, cs = before ++ trimChars cs ++ after ∧ (∀ c ∈ before, isBlank c = true) ∧
      ∀ c ∈ after, isBlank c = true := by
  obtain ⟨before, hcs, hbefore⟩ := exists_dropBlanks cs
  obtain ⟨after, hrest, hafter⟩ := exists_dropBlanks (dropBlanks cs).reverse
  refine ⟨before, after.reverse, ?_, hbefore, fun c hc => hafter c (List.mem_reverse.mp hc)⟩
  rw [trimChars, List.append_assoc, ← List.reverse_append, ← hrest, List.reverse_reverse]
  exact hcs

theorem dropBlanks_append {before : List Char} (h : ∀ c ∈ before, isBlank c = true)
    (cs : List Char) : dropBlanks (before ++ cs) = dropBlanks cs :=
  List.dropWhile_append_of_pos h

/-- Blanks at both ends are cut off, up to what does not begin or end with one. -/
theorem trimChars_surrounded {before cs after : List Char} (hne : cs ≠ [])
    (hbefore : ∀ c ∈ before, isBlank c = true) (hafter : ∀ c ∈ after, isBlank c = true)
    (hhead : ∀ c, cs.head? = some c → isBlank c = false)
    (hlast : ∀ c, cs.getLast? = some c → isBlank c = false) :
    trimChars (before ++ cs ++ after) = cs := by
  have hfront : dropBlanks (cs ++ after) = cs ++ after := by
    refine dropBlanks_of_head fun c hc => hhead c ?_
    rwa [List.head?_append_of_ne_nil cs hne] at hc
  have hback : dropBlanks (cs ++ after).reverse = dropBlanks cs.reverse := by
    rw [List.reverse_append, dropBlanks_append fun c hc => hafter c (List.mem_reverse.mp hc)]
  have hcore := trimChars_of_ends hhead hlast
  rw [trimChars, dropBlanks_of_head hhead] at hcore
  rw [trimChars, List.append_assoc, dropBlanks_append hbefore, hfront, hback, hcore]

end Text

namespace DocumentId

open Text

/-! ## Layouts -/

/-- The layouts of an identifier, in lower case: the digits alone, with hyphens, with hyphens and in
braces, and with hyphens after the prefix of a name. -/
def layouts (id : DocumentId) : List (List Char) :=
  let text := id.canonical.toList
  [text.filter (· != '-'), text, '\x7b' :: text ++ ['\x7d'], "urn:uuid:".toList ++ text]

/-- A text spells an identifier if it is in one of the layouts, with letters of either case and
blanks around it. -/
def Spells (text : String) (id : DocumentId) : Prop :=
  ∃ before form after : List Char, text.toList = before ++ form ++ after ∧
    (∀ c ∈ before, isBlank c = true) ∧ (∀ c ∈ after, isBlank c = true) ∧
    form.map Char.toLower ∈ id.layouts

theorem canonical_toList (id : DocumentId) :
    id.canonical.toList = hyphenate groups (Hex.write 32 id.bits.toNat) := by
  rw [canonical, String.toList_ofList]

/-- Hyphens are all that is put between the digits. -/
theorem filter_hyphenate {sizes : List Nat} (hne : sizes ≠ []) (cs : List Char) :
    (hyphenate sizes cs).filter (· != '-') = cs.filter (· != '-') := by
  induction sizes generalizing cs with
  | nil => exact absurd rfl hne
  | cons n sizes ih =>
    cases sizes with
    | nil => rfl
    | cons m sizes =>
      have hhyphen : ('-' != '-') = false := by decide
      rw [hyphenate, List.filter_append, List.filter_cons, hhyphen, ih (List.cons_ne_nil m sizes),
        if_neg Bool.false_ne_true, ← List.filter_append, List.take_append_drop]
      exact List.cons_ne_nil m sizes

theorem filter_write (count n : Nat) :
    (Hex.write count n).filter (· != '-') = Hex.write count n := by
  rw [List.filter_eq_self]
  intro c hc
  obtain ⟨k, rfl⟩ := Hex.exists_digit_of_mem_write hc
  have hdigits : "0123456789abcdef".toList.all (· != '-') = true := by decide
  exact List.all_eq_true.mp hdigits _ (Hex.digit_mem k)

theorem layouts_eq (id : DocumentId) :
    let digits := Hex.write 32 id.bits.toNat
    id.layouts = [digits, hyphenate groups digits, '\x7b' :: hyphenate groups digits ++ ['\x7d'],
      "urn:uuid:".toList ++ hyphenate groups digits] := by
  have hfilter : (hyphenate groups (Hex.write 32 id.bits.toNat)).filter (· != '-') =
      Hex.write 32 id.bits.toNat :=
    (filter_hyphenate (List.cons_ne_nil _ _) _).trans (filter_write 32 _)
  rw [layouts, canonical_toList, hfilter]

/-! ## What is read is in one of the layouts -/

/-- Hyphens that are taken out can be put back. -/
theorem unhyphenate?_eq_some {sizes : List Nat} {cs ds : List Char}
    (h : unhyphenate? sizes cs = some ds) : cs = hyphenate sizes ds ∧ ds.length = sizes.sum := by
  induction sizes generalizing cs ds with
  | nil => cases h
  | cons n sizes ih =>
    cases sizes with
    | nil =>
      rw [unhyphenate?] at h
      split at h
      · next hlength =>
        cases h
        exact ⟨rfl, by simpa using hlength⟩
      · cases h
    | cons m sizes =>
      rw [unhyphenate?] at h
      · split at h
        · next rest hrest =>
          obtain ⟨others, hothers, rfl⟩ := Option.map_eq_some_iff.mp h
          obtain ⟨rfl, hlength⟩ := ih hothers
          -- The hyphen stands after the first group, so that group is complete.
          have htake : (cs.take n).length = n := by
            have hlong : (cs.drop n).length ≠ 0 := by rw [hrest]; simp
            rw [List.length_drop] at hlong
            rw [List.length_take]
            omega
          constructor
          · rw [hyphenate, List.take_left' htake, List.drop_left' htake, ← hrest,
              List.take_append_drop]
            exact List.cons_ne_nil m sizes
          · rw [List.length_append, htake, hlength, List.sum_cons (a := n)]
        · cases h
      · exact List.cons_ne_nil m sizes

theorem map_hyphenate (f : Char → Char) (hf : f '-' = '-') (sizes : List Nat) (cs : List Char) :
    (hyphenate sizes cs).map f = hyphenate sizes (cs.map f) := by
  induction sizes generalizing cs with
  | nil => rfl
  | cons n sizes ih =>
    cases sizes with
    | nil => rfl
    | cons m sizes =>
      have hne : m :: sizes ≠ [] := List.cons_ne_nil m sizes
      rw [hyphenate.eq_3 _ _ _ hne, hyphenate.eq_3 _ _ _ hne, List.map_append, List.map_cons, hf,
        ih, List.map_take, List.map_drop]

/-- The digits of an identifier are those of its bits, in lower case. -/
theorem toLower_of_ofDigits? {cs : List Char} {id : DocumentId} (h : ofDigits? cs = some id) :
    cs.map Char.toLower = Hex.write 32 id.bits.toNat := by
  rw [ofDigits?] at h
  split at h
  · next hlength =>
    obtain ⟨n, hn, rfl⟩ := Option.map_eq_some_iff.mp h
    obtain ⟨hdigits, hlt⟩ := Hex.toLower_of_read? hn
    rw [hlength] at hdigits hlt
    have hbits : (BitVec.ofNat 128 n).toNat = n := Nat.mod_eq_of_lt hlt
    rw [hdigits, hbits]
  · cases h

theorem unbrace?_eq_some {cs bare : List Char} (h : unbrace? cs = some bare) :
    cs = '\x7b' :: bare ++ ['\x7d'] := by
  rw [unbrace?.eq_def] at h
  split at h
  · next rest =>
    split at h
    · next hlast =>
      cases h
      rw [List.cons_append, List.dropLast_append_getLast? _ hlast]
    · cases h
  · cases h

theorem afterUrn?_eq_some {cs bare : List Char} (h : afterUrn? cs = some bare) :
    cs.map Char.toLower = "urn:uuid:".toList ++ bare.map Char.toLower := by
  rw [afterUrn?] at h
  split at h
  · next hstart =>
    cases h
    rw [← beq_iff_eq.mp hstart, ← List.map_append, List.take_append_drop]
  · cases h

/-- What is read as an identifier is in one of its layouts. -/
theorem toLower_mem_layouts {cs ds : List Char} {id : DocumentId} (hdigits : digits? cs = some ds)
    (h : ofDigits? ds = some id) : cs.map Char.toLower ∈ id.layouts := by
  have hlower := toLower_of_ofDigits? h
  have hhyphens : ∀ bare, unhyphenate? groups bare = some ds →
      bare.map Char.toLower = hyphenate groups (Hex.write 32 id.bits.toNat) := by
    intro bare hbare
    rw [(unhyphenate?_eq_some hbare).1, map_hyphenate _ (by decide), hlower]
  rw [layouts_eq]
  rw [digits?] at hdigits
  split at hdigits
  · cases hdigits
    rw [hlower]
    exact List.mem_cons_self
  · cases hbrace : unbrace? cs with
    | some bare =>
      rw [hbrace] at hdigits
      have hbare := hhyphens bare hdigits
      rw [unbrace?_eq_some hbrace, List.map_append, List.map_cons, hbare]
      exact List.mem_cons_of_mem _ (List.mem_cons_of_mem _ List.mem_cons_self)
    | none =>
      cases hurn : afterUrn? cs with
      | some bare =>
        rw [hbrace, hurn] at hdigits
        have hbare := hhyphens bare hdigits
        rw [afterUrn?_eq_some hurn, hbare]
        simp
      | none =>
        rw [hbrace, hurn] at hdigits
        have hbare := hhyphens cs hdigits
        rw [hbare]
        simp

/-! ## What is in one of the layouts is read -/

/-- A character becomes one without case only if it is that character. -/
theorem eq_of_toLower {c d : Char} (hd : ∀ n < 128, (Char.ofNat n).toLower = d → Char.ofNat n = d)
    (h : c.toLower = d) : c = d :=
  forall_of_ascii (P := fun c => c.toLower = d → c = d) hd
    (fun c hc h => by rwa [toLower_of_le hc] at h) c h

theorem toLower_toLower (c : Char) : c.toLower.toLower = c.toLower :=
  forall_of_ascii (P := fun c => c.toLower.toLower = c.toLower) (by decide)
    (fun c hc => by rw [toLower_of_le hc, toLower_of_le hc]) c

theorem unhyphenate?_toLower (sizes : List Nat) (cs : List Char) :
    unhyphenate? sizes (cs.map Char.toLower) =
      (unhyphenate? sizes cs).map (·.map Char.toLower) := by
  induction sizes generalizing cs with
  | nil => rfl
  | cons n sizes ih =>
    cases sizes with
    | nil =>
      rw [unhyphenate?, unhyphenate?, List.length_map]
      split <;> rfl
    | cons m sizes =>
      have hne : m :: sizes ≠ [] := List.cons_ne_nil m sizes
      rw [unhyphenate?.eq_3 _ _ _ hne, unhyphenate?.eq_3 _ _ _ hne, ← List.map_drop]
      cases hdrop : cs.drop n with
      | nil => rfl
      | cons c rest =>
        rw [List.map_cons]
        by_cases hc : c = '-'
        · subst hc
          show (unhyphenate? _ _).map _ = ((unhyphenate? _ _).map _).map _
          rw [ih, Option.map_map, Option.map_map]
          congr 1
          funext others
          simp
        · have hlower : c.toLower ≠ '-' := fun h => hc (eq_of_toLower (by decide) h)
          split
          · next heq => exact absurd (List.cons.inj heq).1 hlower
          · split
            · next heq => exact absurd (List.cons.inj heq).1 hc
            · rfl

theorem unbrace?_toLower (cs : List Char) :
    unbrace? (cs.map Char.toLower) = (unbrace? cs).map (·.map Char.toLower) := by
  cases cs with
  | nil => rfl
  | cons c rest =>
    rw [List.map_cons]
    by_cases hc : c = '\x7b'
    · subst hc
      have hlast : (rest.map Char.toLower).getLast? = some '\x7d' ↔
          rest.getLast? = some '\x7d' := by
        rw [List.getLast?_map, Option.map_eq_some_iff]
        constructor
        · rintro ⟨c, hc, hlower⟩
          rw [hc, eq_of_toLower (by decide) hlower]
        · exact fun h => ⟨_, h, rfl⟩
      show (if _ then _ else _) = Option.map _ (if _ then _ else _)
      by_cases h : rest.getLast? = some '\x7d'
      · rw [if_pos (hlast.mpr h), if_pos h, Option.map_some, List.map_dropLast]
      · rw [if_neg (fun h' => h (hlast.mp h')), if_neg h, Option.map_none]
    · have hlower : c.toLower ≠ '\x7b' := fun h => hc (eq_of_toLower (by decide) h)
      rw [unbrace?.eq_2, unbrace?.eq_2, Option.map_none]
      · exact fun rest' heq => hc (List.cons.inj heq).1
      · exact fun rest' heq => hlower (List.cons.inj heq).1

theorem afterUrn?_toLower (cs : List Char) :
    afterUrn? (cs.map Char.toLower) = (afterUrn? cs).map (·.map Char.toLower) := by
  have hidem : Char.toLower ∘ Char.toLower = Char.toLower := funext toLower_toLower
  rw [afterUrn?, afterUrn?, ← List.map_take, List.map_map, hidem, ← List.map_drop]
  split <;> rfl

/-- The case of letters makes no difference to the layout. -/
theorem digits?_toLower (cs : List Char) :
    digits? (cs.map Char.toLower) = (digits? cs).map (·.map Char.toLower) := by
  rw [digits?, digits?, List.length_map]
  split
  · rfl
  · show unhyphenate? groups _ = (unhyphenate? groups _).map _
    rw [unbrace?_toLower, afterUrn?_toLower, ← unhyphenate?_toLower]
    cases unbrace? cs with
    | some bare => rfl
    | none => cases afterUrn? cs <;> rfl

theorem ofDigits?_toLower (cs : List Char) : ofDigits? (cs.map Char.toLower) = ofDigits? cs := by
  rw [ofDigits?, ofDigits?, List.length_map, Hex.read?_toLower]

theorem unbrace?_braced (bare : List Char) :
    unbrace? ('\x7b' :: bare ++ ['\x7d']) = some bare := by
  rw [List.cons_append, unbrace?, List.getLast?_concat, if_pos rfl, List.dropLast_concat]

theorem afterUrn?_named (bare : List Char) :
    afterUrn? ("urn:uuid:".toList ++ bare) = some bare := by
  have hlength : "urn:uuid:".toList.length = 9 := by decide
  have hlower : "urn:uuid:".toList.map Char.toLower = "urn:uuid:".toList := by decide
  rw [afterUrn?, List.take_left' hlength, List.drop_left' hlength, hlower,
    if_pos (beq_self_eq_true _)]

theorem unbrace?_named (bare : List Char) :
    unbrace? ("urn:uuid:".toList ++ bare) = none := by
  have hlist : "urn:uuid:".toList = 'u' :: "rn:uuid:".toList := by decide
  rw [hlist, List.cons_append, unbrace?.eq_2]
  exact fun rest heq => absurd (List.cons.inj heq).1 (by decide)

theorem digits?_braced {text ds : List Char} (hlength : text.length = 36)
    (h : unhyphenate? groups text = some ds) : digits? ('\x7b' :: text ++ ['\x7d']) = some ds := by
  rw [digits?, if_neg, unbrace?_braced]
  · exact h
  · simp only [List.cons_append, List.length_append, List.length_cons, List.length_nil]
    omega

theorem digits?_named {text ds : List Char} (hlength : text.length = 36)
    (h : unhyphenate? groups text = some ds) : digits? ("urn:uuid:".toList ++ text) = some ds := by
  have hstart : "urn:uuid:".toList.length = 9 := by decide
  rw [digits?, if_neg, unbrace?_named, afterUrn?_named]
  · exact h
  · rw [List.length_append, hstart]
    omega

/-- Each layout gives the digits. -/
theorem digits?_of_mem_layouts {id : DocumentId} {cs : List Char} (h : cs ∈ id.layouts) :
    digits? cs = some (Hex.write 32 id.bits.toNat) := by
  have hplain := digits?_hyphenate id.bits.toNat
  have hdigits : (Hex.write 32 id.bits.toNat).length = 32 := Hex.length_write 32 _
  rw [layouts_eq] at h
  -- What the digits are does not matter from here on, only that there are 32 of them.
  generalize Hex.write 32 id.bits.toNat = ds at h hplain hdigits ⊢
  have hne : groups ≠ [] := List.cons_ne_nil _ _
  have hhyphens : unhyphenate? groups (hyphenate groups ds) = some ds :=
    unhyphenate?_hyphenate hne hdigits
  have hlength : (hyphenate groups ds).length = 36 := by
    have hcount := length_hyphenate hne hdigits
    rw [hdigits] at hcount
    exact Nat.succ.inj hcount
  simp only [List.mem_cons, List.not_mem_nil, or_false] at h
  rcases h with rfl | rfl | rfl | rfl
  · rw [digits?, if_pos hdigits]
  · exact hplain
  · exact digits?_braced hlength hhyphens
  · exact digits?_named hlength hhyphens

theorem mem_of_mem_hyphenate {sizes : List Nat} {cs : List Char} {c : Char}
    (h : c ∈ hyphenate sizes cs) : c ∈ cs ∨ c = '-' := by
  induction sizes generalizing cs with
  | nil => cases h
  | cons n sizes ih =>
    cases sizes with
    | nil => exact .inl h
    | cons m sizes =>
      rw [hyphenate.eq_3 _ _ _ (List.cons_ne_nil m sizes), List.mem_append, List.mem_cons] at h
      rcases h with h | rfl | h
      · exact .inl (List.mem_of_mem_take h)
      · exact .inr rfl
      · exact (ih h).imp_left List.mem_of_mem_drop

/-- No layout has a blank in it. -/
theorem not_isBlank_of_mem_layouts {id : DocumentId} {cs : List Char} (h : cs ∈ id.layouts) :
    ∀ c ∈ cs, isBlank c = false := by
  have hdigits : ∀ c ∈ Hex.write 32 id.bits.toNat, isBlank c = false := by
    intro c hc
    obtain ⟨k, rfl⟩ := Hex.exists_digit_of_mem_write hc
    exact Hex.not_isBlank_digit k
  have hhyphens : ∀ c ∈ hyphenate groups (Hex.write 32 id.bits.toNat), isBlank c = false := by
    intro c hc
    rcases mem_of_mem_hyphenate hc with hc | rfl
    · exact hdigits c hc
    · decide
  rw [layouts_eq] at h
  generalize Hex.write 32 id.bits.toNat = ds at h hdigits hhyphens
  simp only [List.mem_cons, List.not_mem_nil, or_false] at h
  rcases h with rfl | rfl | rfl | rfl
  · exact hdigits
  · exact hhyphens
  · intro c hc
    simp only [List.cons_append, List.mem_cons, List.mem_append, List.not_mem_nil, or_false] at hc
    rcases hc with rfl | hc | rfl
    · decide
    · exact hhyphens c hc
    · decide
  · intro c hc
    have hstart : "urn:uuid:".toList.all (!isBlank ·) = true := by decide
    refine (List.mem_append.mp hc).elim (fun hc => ?_) (hhyphens c)
    simpa using List.all_eq_true.mp hstart c hc

/-- A text in a layout, with letters of either case, is not trimmed any further. -/
theorem trimChars_spelled {id : DocumentId} {before form after : List Char}
    (hbefore : ∀ c ∈ before, isBlank c = true) (hafter : ∀ c ∈ after, isBlank c = true)
    (h : form.map Char.toLower ∈ id.layouts) : trimChars (before ++ form ++ after) = form := by
  have hplain : ∀ c ∈ form, isBlank c = false := by
    intro c hc
    refine Bool.eq_false_iff.mpr fun hblank => ?_
    have hlower := not_isBlank_of_mem_layouts h _ (List.mem_map_of_mem hc)
    rw [toLower_of_isBlank hblank, hblank] at hlower
    cases hlower
  have hne : form ≠ [] := by
    rintro rfl
    have hnone := digits?_of_mem_layouts h
    cases hnone
  exact trimChars_surrounded hne hbefore hafter (fun c hc => hplain c (List.mem_of_head? hc))
    fun c hc => hplain c (List.mem_of_getLast? hc)

/-! ## Reading identifiers -/

/-- A text is read as an identifier exactly if it spells it. -/
theorem read?_eq_some_iff {text : String} {id : DocumentId} :
    read? text = some id ↔ Spells text id := by
  rw [read?, Option.bind_eq_some_iff]
  constructor
  · rintro ⟨ds, hdigits, hid⟩
    obtain ⟨before, after, htext, hbefore, hafter⟩ := exists_trimChars text.toList
    exact ⟨before, _, after, htext, hbefore, hafter, toLower_mem_layouts hdigits hid⟩
  · rintro ⟨before, form, after, htext, hbefore, hafter, hform⟩
    rw [htext, trimChars_spelled hbefore hafter hform]
    have hdigits := digits?_of_mem_layouts hform
    rw [digits?_toLower] at hdigits
    obtain ⟨ds, hds, hlower⟩ := Option.map_eq_some_iff.mp hdigits
    refine ⟨ds, hds, ?_⟩
    rw [← ofDigits?_toLower, hlower, ofDigits?_write]

theorem parse_eq_ok_iff {text : String} {id : DocumentId} :
    parse text = .ok id ↔ Spells text id := by
  rw [← read?_eq_some_iff, parse]
  cases read? text <;> simp

/-- A value is a form of an identifier if it is a text that spells it, or an object that holds such
a text under `$oid`, or under `$uuid` where there is no `$oid`. -/
def IsForm (v : Json) (id : DocumentId) : Prop :=
  ∃ text, Spells text id ∧ (v = .string text ∨ ∃ fields : Document, v = .object fields ∧
    (fields.get? "$oid" = some (.string text) ∨
      fields.get? "$oid" = none ∧ fields.get? "$uuid" = some (.string text)))

/-- A value is read as an identifier exactly if it is a form of it. -/
theorem ofJson_eq_ok_iff {v : Json} {id : DocumentId} : ofJson v = .ok id ↔ IsForm v id := by
  constructor
  · intro h
    rw [ofJson.eq_def] at h
    split at h
    · next text => exact ⟨text, parse_eq_ok_iff.mp h, .inl rfl⟩
    · next fields =>
      split at h
      · next text hfound =>
        refine ⟨text, parse_eq_ok_iff.mp h, .inr ⟨fields, rfl, ?_⟩⟩
        cases hoid : Document.get? fields "$oid" with
        | some w =>
          rw [hoid] at hfound
          exact .inl hfound
        | none =>
          rw [hoid] at hfound
          exact .inr ⟨rfl, hfound⟩
      · cases h
    · cases h
  · rintro ⟨text, htext, rfl | ⟨fields, rfl, hoid | ⟨hoid, huuid⟩⟩⟩
    · exact parse_eq_ok_iff.mpr htext
    · rw [ofJson, hoid]
      exact parse_eq_ok_iff.mpr htext
    · rw [ofJson, hoid, huuid]
      exact parse_eq_ok_iff.mpr htext

theorem ofJson?_eq_some_iff {v : Json} {id : DocumentId} : ofJson? v = some id ↔ IsForm v id :=
  toOption_eq_some.trans ofJson_eq_ok_iff

/-- Forms of an identifier stay forms of it when the keys of objects are put in another order. -/
theorem IsForm.of_same {v w : Json} {id : DocumentId} (hv : v.distinctKeys = true)
    (hw : w.distinctKeys = true) (h : v.same w = true) : IsForm v id ↔ IsForm w id := by
  cases v with
  | string text => rw [Json.eq_of_same_string h]
  | object fields =>
    obtain ⟨others, rfl, -, -⟩ := Json.exists_object_of_same h
    obtain ⟨hfields, -⟩ := Json.distinctKeys_object.mp hv
    obtain ⟨hothers, -⟩ := Json.distinctKeys_object.mp hw
    have hsame : Document.same fields others = true := h
    simp only [IsForm, reduceCtorEq, false_or, Json.object.injEq, exists_eq_left',
      Document.get?_eq_string_iff_of_same hfields hothers hsame,
      Document.get?_eq_none_iff_of_same hfields hothers hsame]
  | null | bool | number | array =>
    -- No other value is a form of an identifier, and neither is what is the same as one.
    cases w <;> simp_all [IsForm, Json.same]

end DocumentId

/-! ## Canonical forms -/

namespace Json

open DocumentId

theorem canonicalize_of_none {v : Json} (h : ofJson? v = none) : v.canonicalize = v := by
  rw [canonicalize, h]

/-- The canonical form is read as the same identifier. -/
theorem ofJson?_canonicalize (v : Json) : ofJson? v.canonicalize = ofJson? v := by
  cases h : ofJson? v with
  | none => rw [canonicalize_of_none h, h]
  | some id => rw [canonicalize_of_ofJson? h, ofJson?_toJson]

/-- What is in canonical form stays as it is. -/
theorem canonicalize_canonicalize (v : Json) : v.canonicalize.canonicalize = v.canonicalize := by
  cases h : ofJson? v with
  | none => rw [canonicalize_of_none h, canonicalize_of_none h]
  | some id =>
    rw [canonicalize_of_ofJson? h, canonicalize_of_ofJson? (ofJson?_toJson id)]

theorem exists_isForm_iff {v w : Json} :
    (∃ id, IsForm v id ∧ IsForm w id) ↔ ∃ id, ofJson? v = some id ∧ ofJson? w = some id := by
  simp only [ofJson?_eq_some_iff]

/-- Values have one canonical form exactly if they are equal or forms of one identifier. -/
theorem canonicalize_eq_iff {v w : Json} :
    v.canonicalize = w.canonicalize ↔ v = w ∨ ∃ id, IsForm v id ∧ IsForm w id := by
  rw [exists_isForm_iff]
  constructor
  · intro h
    -- The canonical form tells which identifier it was made from, if it was made from any.
    have hread : ofJson? v = ofJson? w := by
      rw [← ofJson?_canonicalize v, h, ofJson?_canonicalize]
    cases hv : ofJson? v with
    | some id => exact .inr ⟨id, rfl, hread.symm.trans hv⟩
    | none =>
      rw [canonicalize_of_none hv, canonicalize_of_none (hread.symm.trans hv)] at h
      exact .inl h
  · rintro (rfl | ⟨id, hv, hw⟩)
    · rfl
    · rw [canonicalize_of_ofJson? hv, canonicalize_of_ofJson? hw]

theorem distinctKeys_canonicalize {v : Json} (h : v.distinctKeys = true) :
    v.canonicalize.distinctKeys = true := by
  cases hv : ofJson? v with
  | none => rwa [canonicalize_of_none hv]
  | some id =>
    rw [canonicalize_of_ofJson? hv]
    rfl

theorem ofJson?_of_same {v w : Json} (hv : v.distinctKeys = true) (hw : w.distinctKeys = true)
    (h : v.same w = true) : ofJson? v = ofJson? w := by
  refine Option.ext fun id => ?_
  rw [ofJson?_eq_some_iff, ofJson?_eq_some_iff, IsForm.of_same hv hw h]

/-- Values have the same canonical form, disregarding the order of keys, exactly if they are the
same or forms of one identifier. -/
theorem same_canonicalize_iff {v w : Json} (hv : v.distinctKeys = true)
    (hw : w.distinctKeys = true) : v.canonicalize.same w.canonicalize = true ↔
      v.same w = true ∨ ∃ id, IsForm v id ∧ IsForm w id := by
  rw [exists_isForm_iff]
  constructor
  · intro h
    have hread := ofJson?_of_same (distinctKeys_canonicalize hv) (distinctKeys_canonicalize hw) h
    rw [ofJson?_canonicalize, ofJson?_canonicalize] at hread
    cases hform : ofJson? v with
    | some id => exact .inr ⟨id, rfl, hread.symm.trans hform⟩
    | none =>
      rw [canonicalize_of_none hform, canonicalize_of_none (hread.symm.trans hform)] at h
      exact .inl h
  · rintro (h | ⟨id, hidv, hidw⟩)
    · have hread := ofJson?_of_same hv hw h
      cases hform : ofJson? v with
      | none => rwa [canonicalize_of_none hform, canonicalize_of_none (hread.symm.trans hform)]
      | some id =>
        rw [canonicalize_of_ofJson? hform, canonicalize_of_ofJson? (hread.symm.trans hform)]
        exact same_self _ rfl
    · rw [canonicalize_of_ofJson? hidv, canonicalize_of_ofJson? hidw]
      exact same_self _ rfl

end Json

namespace DocumentId

/-- **Identifiers are read back and brought into one form.** The canonical form of an identifier is
read as that identifier. A text is read as an identifier exactly if it spells it in one of the four
layouts, and a value exactly if it is such a text or holds one under `$oid` or else `$uuid`.
Bringing a value into its canonical form twice is the same as once, and two values come to one
canonical form exactly if they are equal or forms of one identifier, whether or not the order of
keys counts. -/
theorem forms_normalize :
    (∀ id : DocumentId, parse id.canonical = .ok id) ∧
    (∀ (text : String) (id : DocumentId), parse text = .ok id ↔ Spells text id) ∧
    (∀ (v : Json) (id : DocumentId), ofJson v = .ok id ↔ IsForm v id) ∧
    (∀ v : Json, v.canonicalize.canonicalize = v.canonicalize) ∧
    (∀ v w : Json, v.canonicalize = w.canonicalize ↔ v = w ∨ ∃ id, IsForm v id ∧ IsForm w id) ∧
    ∀ v w : Json, v.distinctKeys = true → w.distinctKeys = true →
      (v.canonicalize.same w.canonicalize = true ↔
        v.same w = true ∨ ∃ id, IsForm v id ∧ IsForm w id) := by
  refine ⟨fun id => ?_, fun _ _ => parse_eq_ok_iff, fun _ _ => ofJson_eq_ok_iff,
    Json.canonicalize_canonicalize, fun _ _ => Json.canonicalize_eq_iff,
    fun _ _ => Json.same_canonicalize_iff⟩
  rw [parse, read?_canonical]

end DocumentId

namespace LabelSample

def label : DocumentId := ⟨0x6f9619ff8b86d011b42d00c04fc964ff⟩

/-- The label in braces and capitals, with blanks around it, in an object. -/
def wrapped : Json :=
  .object [("note", .null), ("$uuid", .string " \x7b6F9619FF-8B86-D011-B42D-00C04FC964FF\x7d\n")]

/-- The label as a name. -/
def named : Json := .string "URN:uuid:6f9619ff-8B86-d011-b42d-00c04fc964ff"

theorem label_forms_meet :
    (wrapped.distinctKeys = true ∧ named.distinctKeys = true) ∧
      wrapped.same named = false ∧ wrapped.canonicalize.same named.canonicalize = true := by
  have hwrapped : DocumentId.ofJson wrapped = .ok label := toOption_eq_some.mp (by decide +kernel)
  have hnamed : DocumentId.ofJson named = .ok label := toOption_eq_some.mp (by decide +kernel)
  obtain ⟨-, -, hforms, -, -, hsame⟩ := DocumentId.forms_normalize
  refine ⟨⟨rfl, rfl⟩, rfl, (hsame wrapped named rfl rfl).mpr (.inr ⟨label, ?_⟩)⟩
  exact ⟨(hforms _ _).mp hwrapped, (hforms _ _).mp hnamed⟩

end LabelSample

end DocMapper
