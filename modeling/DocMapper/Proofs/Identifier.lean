import DocMapper.Expression
import DocMapper.Id
import Mathlib.Algebra.Ring.Nat

/-! # Identifiers and their canonical form

The canonical form of an identifier is read back as that identifier (`read?_canonical`), so distinct
identifiers are stored as distinct values (`toJson_injective`), and a value that spells an
identifier in any form is canonicalised to what the store holds (`canonicalize_of_ofJson?`).

The proof follows the reader from the outside in: nothing is trimmed, because the text begins and
ends with a digit; the text is in none of the longer forms; and taking the hyphens out leaves the
digits, which spell the number they were written from. -/

namespace DocMapper

/-! ## Digits -/

namespace Text.Hex

theorem value?_digit (n : Nat) : value? (digit n) = some (n % 16) := by
  have h : ∀ k < 16, value? (Nat.digitChar k) = some k := by decide
  exact h (n % 16) (Nat.mod_lt n (by decide))

theorem not_isBlank_digit (n : Nat) : isBlank (digit n) = false := by
  have h : ∀ k < 16, isBlank (Nat.digitChar k) = false := by decide
  exact h (n % 16) (Nat.mod_lt n (by decide))

theorem not_opens_digit (n : Nat) :
    digit n ≠ '\x7b' ∧ (digit n).toLower ≠ 'u' := by
  have h : ∀ k < 16, Nat.digitChar k ≠ '\x7b' ∧ (Nat.digitChar k).toLower ≠ 'u' := by decide
  exact h (n % 16) (Nat.mod_lt n (by decide))

theorem digit_ne_dollar (n : Nat) : digit n ≠ '$' := by
  have h : ∀ k < 16, Nat.digitChar k ≠ '$' := by decide
  exact h (n % 16) (Nat.mod_lt n (by decide))

theorem digit_mem (n : Nat) : digit n ∈ "0123456789abcdef".toList := by
  have h : ∀ k < 16, Nat.digitChar k ∈ "0123456789abcdef".toList := by decide
  exact h (n % 16) (Nat.mod_lt n (by decide))

@[simp] theorem length_write (count n : Nat) : (write count n).length = count := by
  induction count generalizing n with
  | zero => rfl
  | succ count ih => rw [write, List.length_append, ih, List.length_singleton]

theorem exists_digit_of_mem_write {count n : Nat} {c : Char} (h : c ∈ write count n) :
    ∃ k, c = digit k := by
  induction count generalizing n with
  | zero => cases h
  | succ count ih =>
    rw [write, List.mem_append, List.mem_singleton] at h
    rcases h with h | h
    · exact ih h
    · exact ⟨n, h⟩

theorem readFrom?_append (sofar : Nat) (cs : List Char) (c : Char) :
    readFrom? sofar (cs ++ [c]) =
      (readFrom? sofar cs).bind fun n => (value? c).map fun d => n * 16 + d := by
  induction cs generalizing sofar with
  | nil =>
    rw [List.nil_append, readFrom?, readFrom?, Option.bind_some]
    cases value? c <;> rfl
  | cons c' cs ih =>
    rw [List.cons_append, readFrom?, readFrom?]
    cases value? c' with
    | none => rfl
    | some d => exact ih (sofar * 16 + d)

/-- Written digits spell the number as far as the digits go. -/
theorem read?_write (count n : Nat) : read? (write count n) = some (n % 16 ^ count) := by
  induction count generalizing n with
  | zero => rw [Nat.pow_zero, Nat.mod_one]; rfl
  | succ count ih =>
    rw [write, read?, readFrom?_append, ← read?, ih, Option.bind_some, value?_digit,
      Option.map_some, Nat.pow_succ', Nat.mod_mul]
    congr 1
    omega

end Text.Hex

/-! ## Blanks -/

namespace Text

theorem dropBlanks_of_head {cs : List Char} (h : ∀ c, cs.head? = some c → isBlank c = false) :
    dropBlanks cs = cs := by
  cases cs with
  | nil => rfl
  | cons c cs => rw [dropBlanks, List.dropWhile_cons, h c rfl, if_neg Bool.false_ne_true]

theorem trimChars_of_ends {cs : List Char} (hhead : ∀ c, cs.head? = some c → isBlank c = false)
    (hlast : ∀ c, cs.getLast? = some c → isBlank c = false) : trimChars cs = cs := by
  have hrev : dropBlanks cs.reverse = cs.reverse := by
    apply dropBlanks_of_head
    intro c hc
    rw [List.head?_reverse] at hc
    exact hlast c hc
  rw [trimChars, dropBlanks_of_head hhead, hrev, List.reverse_reverse]

end Text

/-! ## Hyphens -/

namespace DocumentId

/-- Taking out the hyphens that were put in gives the digits back. -/
theorem unhyphenate?_hyphenate {sizes : List Nat} (hne : sizes ≠ []) {cs : List Char}
    (h : cs.length = sizes.sum) : unhyphenate? sizes (hyphenate sizes cs) = some cs := by
  induction sizes generalizing cs with
  | nil => exact absurd rfl hne
  | cons n sizes ih =>
    cases sizes with
    | nil =>
      rw [List.sum_cons, List.sum_nil, Nat.add_zero] at h
      rw [hyphenate, unhyphenate?, if_pos h]
    | cons m sizes =>
      rw [List.sum_cons] at h
      -- The first group is as long as its size says, so the hyphen stands right after it.
      have htake : (cs.take n).length = n := by
        rw [List.length_take]
        omega
      have hdrop : (cs.drop n).length = (m :: sizes).sum := by
        rw [List.length_drop]
        omega
      have hrest : (cs.take n ++ '-' :: hyphenate (m :: sizes) (cs.drop n)).drop n
          = '-' :: hyphenate (m :: sizes) (cs.drop n) := by
        rw [List.drop_append_of_le_length (Nat.le_of_eq htake.symm), List.drop_of_length_le
          (Nat.le_of_eq htake), List.nil_append]
      have hfirst : (cs.take n ++ '-' :: hyphenate (m :: sizes) (cs.drop n)).take n =
          cs.take n := by
        rw [List.take_append_of_le_length (Nat.le_of_eq htake.symm), List.take_of_length_le
          (Nat.le_of_eq htake)]
      rw [hyphenate, unhyphenate?, hrest]
      simp only [ih (List.cons_ne_nil m sizes) hdrop, Option.map_some, hfirst,
        List.take_append_drop]
      · exact List.cons_ne_nil m sizes
      · exact List.cons_ne_nil m sizes

theorem length_hyphenate {sizes : List Nat} (hne : sizes ≠ []) {cs : List Char}
    (h : cs.length = sizes.sum) : (hyphenate sizes cs).length + 1 = cs.length + sizes.length := by
  induction sizes generalizing cs with
  | nil => exact absurd rfl hne
  | cons n sizes ih =>
    cases sizes with
    | nil => rfl
    | cons m sizes =>
      rw [List.sum_cons] at h
      have hdrop : (cs.drop n).length = (m :: sizes).sum := by
        rw [List.length_drop]
        omega
      have hrest := ih (List.cons_ne_nil m sizes) hdrop
      rw [hyphenate, List.length_append, List.length_cons, List.length_cons]
      · rw [List.length_take, List.length_drop] at *
        omega
      · exact List.cons_ne_nil m sizes

/-- The first character of a text with hyphens is its first digit. -/
theorem head?_hyphenate {n : Nat} (hn : 0 < n) (sizes : List Nat) {cs : List Char} (hcs : cs ≠ []) :
    (hyphenate (n :: sizes) cs).head? = cs.head? := by
  cases sizes with
  | nil => rfl
  | cons m sizes =>
    obtain ⟨c, rest, rfl⟩ := List.exists_cons_of_ne_nil hcs
    obtain ⟨k, rfl⟩ := Nat.exists_eq_add_one.mpr hn
    rfl

/-- The last character of a text with hyphens is its last digit. -/
theorem getLast?_hyphenate {sizes : List Nat} (hne : sizes ≠ []) (hpos : ∀ n ∈ sizes, 0 < n)
    {cs : List Char} (h : cs.length = sizes.sum) :
    (hyphenate sizes cs).getLast? = cs.getLast? := by
  induction sizes generalizing cs with
  | nil => exact absurd rfl hne
  | cons n sizes ih =>
    cases sizes with
    | nil => rfl
    | cons m sizes =>
      rw [List.sum_cons] at h
      have hm : 0 < m := hpos m (List.mem_cons_of_mem _ List.mem_cons_self)
      have hdrop : (cs.drop n).length = (m :: sizes).sum := by
        rw [List.length_drop]
        omega
      have hrest := ih (List.cons_ne_nil m sizes) (fun k hk => hpos k (List.mem_cons_of_mem n hk))
        hdrop
      have hlast : (cs.drop n).getLast? = cs.getLast? := by
        rw [List.getLast?_drop, if_neg]
        rw [List.sum_cons] at h
        omega
      have hsome : (hyphenate (m :: sizes) (cs.drop n)) ≠ [] := by
        intro hnil
        rw [hnil, List.getLast?_nil, eq_comm, List.getLast?_eq_none_iff] at hrest
        rw [hrest, List.sum_cons, List.length_nil] at hdrop
        omega
      rw [hyphenate, List.getLast?_append, List.getLast?_cons_of_ne_nil hsome, hrest, hlast]
      · cases hcs : cs.getLast? with
        | none =>
          rw [List.getLast?_eq_none_iff] at hcs
          rw [hcs, List.take_nil]
          rfl
        | some c => rfl
      · exact List.cons_ne_nil m sizes

/-! ## The canonical form -/

/-- What a number is written as begins with a digit. -/
theorem exists_head_hyphenate (n : Nat) :
    ∃ k rest, hyphenate groups (Text.Hex.write 32 n) = Text.Hex.digit k :: rest := by
  have hdigits : Text.Hex.write 32 n ≠ [] := by
    intro hnil
    have hlen : (Text.Hex.write 32 n).length = 32 := Text.Hex.length_write 32 n
    rw [hnil] at hlen
    cases hlen
  have hhead := head?_hyphenate (n := 8) (by decide) [4, 4, 4, 12] hdigits
  obtain ⟨c, rest, hcs⟩ := List.exists_cons_of_ne_nil hdigits
  rw [hcs, List.head?_cons] at hhead
  obtain ⟨tail, htail⟩ := List.head?_eq_some_iff.mp hhead
  obtain ⟨k, rfl⟩ := Text.Hex.exists_digit_of_mem_write (hcs ▸ List.mem_cons_self)
  exact ⟨k, tail, by rw [hcs]; exact htail⟩

/-- The canonical form is taken for no operator and for no reference. -/
theorem startsDollar_canonical (id : DocumentId) : startsDollar id.canonical = false := by
  obtain ⟨k, rest, hcs⟩ := exists_head_hyphenate id.bits.toNat
  rw [startsDollar, canonical, String.toList_ofList, hcs, List.head?_cons]
  simpa using Text.Hex.digit_ne_dollar k

/-- A text that begins with a digit is in no form with more than digits and hyphens. -/
theorem digits?_hyphenate (n : Nat) :
    digits? (hyphenate groups (Text.Hex.write 32 n)) = some (Text.Hex.write 32 n) := by
  have hlen : (Text.Hex.write 32 n).length = groups.sum := Text.Hex.length_write 32 n
  have hne : groups ≠ [] := List.cons_ne_nil _ _
  -- With its hyphens the text is longer than the digits alone are.
  have hlong : (hyphenate groups (Text.Hex.write 32 n)).length ≠ 32 := by
    have hlength := length_hyphenate hne hlen
    rw [hlen] at hlength
    simp only [groups, List.sum_cons, List.sum_nil, List.length_cons, List.length_nil] at hlength ⊢
    omega
  -- It begins with a digit, so neither with a brace nor with the prefix of a name.
  obtain ⟨k, rest, hcs⟩ := exists_head_hyphenate n
  have hbrace : unbrace? (hyphenate groups (Text.Hex.write 32 n)) = none := by
    rw [hcs, unbrace?]
    intro rest' heq
    exact (Text.Hex.not_opens_digit k).1 (List.cons.inj heq).1
  have hurn : afterUrn? (hyphenate groups (Text.Hex.write 32 n)) = none := by
    rw [hcs, afterUrn?, if_neg]
    rw [List.take_succ_cons, List.map_cons, beq_iff_eq]
    intro heq
    exact (Text.Hex.not_opens_digit k).2 (List.cons.inj heq).1
  rw [digits?, if_neg hlong, hbrace, hurn]
  exact unhyphenate?_hyphenate hne hlen

/-- A text in the canonical form: 32 hexadecimal digits in lower case, in groups that hyphens join. -/
def IsCanonical (text : String) : Prop :=
  ∃ cs : List Char, cs.length = groups.sum ∧ (∀ c ∈ cs, c ∈ "0123456789abcdef".toList) ∧
    text.toList = hyphenate groups cs

theorem isCanonical_canonical (id : DocumentId) : IsCanonical id.canonical := by
  refine ⟨Text.Hex.write 32 id.bits.toNat, Text.Hex.length_write 32 _, fun c hc => ?_, ?_⟩
  · obtain ⟨k, rfl⟩ := Text.Hex.exists_digit_of_mem_write hc
    exact Text.Hex.digit_mem k
  · rw [canonical, String.toList_ofList]

/-- An identifier is read from its digits. -/
theorem ofDigits?_write (id : DocumentId) :
    ofDigits? (Text.Hex.write 32 id.bits.toNat) = some id := by
  have hbits : id.bits.toNat % 16 ^ 32 = id.bits.toNat := Nat.mod_eq_of_lt id.bits.isLt
  rw [ofDigits?, if_pos (Text.Hex.length_write 32 _), Text.Hex.read?_write, Option.map_some, hbits,
    BitVec.ofNat_toNat, BitVec.setWidth_eq]

theorem read?_canonical (id : DocumentId) : read? id.canonical = some id := by
  have hlen : (Text.Hex.write 32 id.bits.toNat).length = groups.sum := Text.Hex.length_write 32 _
  have hne : groups ≠ [] := List.cons_ne_nil _ _
  have hdigits : Text.Hex.write 32 id.bits.toNat ≠ [] := by
    intro hnil
    rw [hnil] at hlen
    cases hlen
  have hhead : (hyphenate groups (Text.Hex.write 32 id.bits.toNat)).head?
      = (Text.Hex.write 32 id.bits.toNat).head? := head?_hyphenate (by decide) _ hdigits
  have hlast : (hyphenate groups (Text.Hex.write 32 id.bits.toNat)).getLast?
      = (Text.Hex.write 32 id.bits.toNat).getLast? := getLast?_hyphenate hne (by decide) hlen
  have htrim : Text.trimChars (hyphenate groups (Text.Hex.write 32 id.bits.toNat))
      = hyphenate groups (Text.Hex.write 32 id.bits.toNat) := by
    apply Text.trimChars_of_ends
    · intro c hc
      rw [hhead] at hc
      obtain ⟨k, rfl⟩ := Text.Hex.exists_digit_of_mem_write (List.mem_of_head? hc)
      exact Text.Hex.not_isBlank_digit k
    · intro c hc
      rw [hlast] at hc
      obtain ⟨k, rfl⟩ := Text.Hex.exists_digit_of_mem_write (List.mem_of_getLast? hc)
      exact Text.Hex.not_isBlank_digit k
  rw [read?, canonical, String.toList_ofList, htrim, digits?_hyphenate, Option.bind_some,
    ofDigits?_write]

@[simp] theorem ofJson_toJson (id : DocumentId) : ofJson id.toJson = .ok id := by
  rw [toJson, ofJson, parse, read?_canonical]

@[simp] theorem ofJson?_toJson (id : DocumentId) : ofJson? id.toJson = some id := by
  rw [ofJson?, ofJson_toJson]
  rfl

/-- Identifiers in their canonical form are read back, in their order. -/
theorem ofJsons_toJson (ids : List DocumentId) : ofJsons (ids.map (·.toJson)) = .ok ids := by
  induction ids with
  | nil => rfl
  | cons id ids ih =>
    rw [ofJsons] at ih ⊢
    rw [List.map_cons, List.mapM_cons, ofJson_toJson, ih]
    rfl

theorem toJson_injective {a b : DocumentId} (h : a.toJson = b.toJson) : a = b := by
  have hread : ofJson? a.toJson = ofJson? b.toJson := congrArg ofJson? h
  rw [ofJson?_toJson, ofJson?_toJson] at hread
  exact Option.some.inj hread

theorem canonical_injective {a b : DocumentId} (h : a.canonical = b.canonical) : a = b :=
  toJson_injective (congrArg Json.string h)

end DocumentId

theorem Json.canonicalize_of_ofJson? {v : Json} {id : DocumentId}
    (h : DocumentId.ofJson? v = some id) : v.canonicalize = id.toJson := by
  rw [canonicalize, h]

end DocMapper
