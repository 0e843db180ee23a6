import DocMapper.Pattern.Reader

/-! # Reading patterns step by step

What the reader does with the next characters of a pattern in which blanks count: a character that
stands for itself, escaped or not, and some of those with a meaning of their own. Each of the steps
adds an item to the current alternative or changes the last one, and uses up one unit of fuel. -/

namespace DocMapper.Pattern

variable {f : Flags} {fuel : Nat} {names : List String} {before : List Pattern}
  {items : List (Option Pattern)} {p : Pattern} {c : Char} {rest : List Char}

theorem skipAll_of_plain (hf : f.verbose = false) (cs : List Char) : skipAll f cs = cs := by
  cases cs with
  | nil => rfl
  | cons c cs =>
    rw [skipAll, List.length_cons, skip, hf]
    rfl

/-- What follows a backslash stands for itself if it has a meaning of its own else. -/
theorem readEscape_of_isMeta (hc : isMeta c = true) :
    readEscape f (c :: rest) = some (.literal c, rest) := by
  have hmem : c ∈ "\\.+*?()|[]\x7b\x7d^$#&-~".toList := List.contains_iff_mem.mp hc
  simp only [String.reduceToList, List.mem_cons, List.not_mem_nil, or_false] at hmem
  rcases hmem with rfl | rfl | rfl | rfl | rfl | rfl | rfl | rfl | rfl | rfl | rfl | rfl | rfl | rfl |
    rfl | rfl | rfl | rfl
  all_goals rfl

section Steps

variable (hf : f.verbose = false)

include hf

theorem read_nil : readAlternatives (fuel + 1) f names before items [] =
    some (alternatives before items, names, []) := by
  rw [readAlternatives, skipAll_of_plain hf]

theorem read_dot : readAlternatives (fuel + 1) f names before items ('.' :: rest) =
    readAlternatives fuel f names before (some (.set (dot f)) :: items) rest := by
  rw [readAlternatives, skipAll_of_plain hf]
  rfl

theorem read_textStart (hline : f.multiLine = false) :
    readAlternatives (fuel + 1) f names before items ('^' :: rest) =
      readAlternatives fuel f names before (some (.anchor .textStart) :: items) rest := by
  rw [readAlternatives, skipAll_of_plain hf, hline]
  rfl

theorem read_textEnd (hline : f.multiLine = false) :
    readAlternatives (fuel + 1) f names before items ('$' :: rest) =
      readAlternatives fuel f names before (some (.anchor .textEnd) :: items) rest := by
  rw [readAlternatives, skipAll_of_plain hf, hline]
  rfl

/-- A star repeats the last item, unless a question mark follows it. -/
theorem read_star (hrest : rest.head? ≠ some '?') :
    readAlternatives (fuel + 1) f names before (some p :: items) ('*' :: rest) =
      readAlternatives fuel f names before (some (.repeats p 0 none) :: items) rest := by
  have hlazy : dropLazy f rest = rest := by
    rw [dropLazy, skipAll_of_plain hf]
    split
    · exact absurd rfl hrest
    · rfl
  rw [readAlternatives, skipAll_of_plain hf]
  show readAlternatives fuel f names before (some (.repeats p 0 none) :: items) (dropLazy f rest) = _
  rw [hlazy]

/-- A character that stands for itself is read as the set of those that are equal to it. -/
theorem read_escapeChar (c : Char) :
    readAlternatives (fuel + 1) f names before items (escapeChar c ++ rest) =
      readAlternatives fuel f names before (some (.set (f.fold (.one c))) :: items) rest := by
  cases hc : isMeta c with
  | true =>
    rw [escapeChar, hc, if_pos rfl, List.cons_append, List.singleton_append, readAlternatives,
      skipAll_of_plain hf]
    simp only [readEscape_of_isMeta hc]
  | false =>
    have hne : ∀ d, isMeta d = true → c ≠ d := by
      rintro d hd rfl
      rw [hc] at hd
      cases hd
    rw [escapeChar, hc, if_neg Bool.false_ne_true, List.singleton_append, readAlternatives,
      skipAll_of_plain hf]
    -- All characters that the reader tells apart have a meaning of their own, but for the last case.
    split
    · next heq => cases heq
    all_goals next heq =>
      first
        | exact absurd (List.cons.inj heq).1 (hne _ (by decide))
        | (cases heq; rfl)

end Steps

end DocMapper.Pattern
