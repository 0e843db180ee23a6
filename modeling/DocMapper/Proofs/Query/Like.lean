import DocMapper.Proofs.Pattern.Reading
import DocMapper.Proofs.Pattern.Stretches
import DocMapper.Proofs.Relation.Lazy
import DocMapper.Proofs.Text.Folding

/-! # LIKE

A LIKE pattern is translated into a pattern of texts. `Like` says what it should match, and leaves
open which characters a wildcard may stand for; the translation is read as one item for each of its
characters (`read?_likePattern`), so a text matches it if it is `Like` the pattern with wildcards
that stand for everything but a line break (`matchesText_likePattern`).

A query with a LIKE condition gets the documents whose text matches (`Query.like_matches`). It finds
none that it should not find, and misses those that only match if a wildcard stands for a line
break. -/

namespace DocMapper

/-- A text matches a LIKE pattern: `%` stands for a stretch of characters, `_` for one character, and
everything else for itself up to case. A wildcard may stand for some characters only. -/
def Like (wild : Char → Prop) : (pattern text : List Char) → Prop
  | [], text => text = []
  | d :: pattern, text =>
    if d = '%' then ∃ stretch rest, text = stretch ++ rest ∧ (∀ c ∈ stretch, wild c) ∧
      Like wild pattern rest
    else ∃ c rest, text = c :: rest ∧ (if d = '_' then wild c else Text.sameFold d c = true) ∧
      Like wild pattern rest

namespace Like

variable {wild wild' : Char → Prop} {d : Char} {pattern text : List Char}

theorem stretch_iff [DecidablePred wild] (hd : d = '%') : Like wild (d :: pattern) text ↔
    ∃ n ∈ List.range (text.length + 1),
      ((text.take n).all fun c => decide (wild c)) = true ∧ Like wild pattern (text.drop n) := by
  simp only [List.all_eq_true, decide_eq_true_eq]
  rw [Like, if_pos hd]
  constructor
  · rintro ⟨stretch, rest, rfl, hwild, hrest⟩
    refine ⟨stretch.length, ?_, by rwa [List.take_left], by rwa [List.drop_left]⟩
    rw [List.mem_range, List.length_append]
    omega
  · rintro ⟨n, -, hwild, hrest⟩
    exact ⟨_, _, (List.take_append_drop n text).symm, hwild, hrest⟩

theorem cons_iff (hd : d ≠ '%') {c : Char} : Like wild (d :: pattern) (c :: text) ↔
    (if d = '_' then wild c else Text.sameFold d c = true) ∧ Like wild pattern text := by
  rw [Like, if_neg hd]
  constructor
  · rintro ⟨_, _, ⟨⟩, hc, hrest⟩
    exact ⟨hc, hrest⟩
  · exact fun ⟨hc, hrest⟩ => ⟨c, text, rfl, hc, hrest⟩

theorem not_nil (hd : d ≠ '%') : ¬ Like wild (d :: pattern) [] := by
  rw [Like, if_neg hd]
  rintro ⟨_, _, ⟨⟩, -⟩

/-- Whether a text matches can be computed, by trying where the stretches end. -/
instance decidable (wild : Char → Prop) [DecidablePred wild] :
    (pattern text : List Char) → Decidable (Like wild pattern text)
  | [], text => inferInstanceAs (Decidable (text = []))
  | d :: pattern, text =>
    have : ∀ rest, Decidable (Like wild pattern rest) := decidable wild pattern
    if hd : d = '%' then decidable_of_iff' _ (stretch_iff hd)
    else
      match text with
      | [] => isFalse (not_nil hd)
      | _ :: _ => decidable_of_iff' _ (cons_iff hd)

/-- If wildcards may stand for more of the characters of a text, it still matches. -/
theorem imp (h : ∀ c ∈ text, wild c → wild' c) (hlike : Like wild pattern text) :
    Like wild' pattern text := by
  induction pattern generalizing text with
  | nil => exact hlike
  | cons d pattern ih =>
    rw [Like] at hlike ⊢
    split
    · next hstretch =>
      rw [if_pos hstretch] at hlike
      obtain ⟨stretch, rest, rfl, hwild, hrest⟩ := hlike
      rw [List.forall_mem_append] at h
      exact ⟨stretch, rest, rfl, fun c hc => h.1 c hc (hwild c hc), ih h.2 hrest⟩
    · next hstretch =>
      rw [if_neg hstretch] at hlike
      obtain ⟨c, rest, rfl, hc, hrest⟩ := hlike
      rw [List.forall_mem_cons] at h
      refine ⟨c, rest, rfl, ?_, ih h.2 hrest⟩
      split
      · next hsingle =>
        rw [if_pos hsingle] at hc
        exact h.1 hc
      · next hsingle =>
        rwa [if_neg hsingle] at hc

end Like

/-! ## Reading a translated pattern -/

namespace Pattern

variable {f : Flags}

/-- A character of a LIKE pattern as an item of a pattern of texts. -/
def likeItem (f : Flags) (d : Char) : Pattern :=
  if d = '%' then .repeats (.set (dot f)) 0 none
  else .set (if d = '_' then dot f else f.fold (.one d))

theorem likeChar_stretch : likeChar '%' = ['.', '*'] := rfl

theorem likeChar_single : likeChar '_' = ['.'] := rfl

theorem likeChar_literal {d : Char} (hstretch : d ≠ '%') (hsingle : d ≠ '_') :
    likeChar d = escapeChar d := by
  rw [likeChar, if_neg (by simpa using hstretch), if_neg (by simpa using hsingle)]

/-- A translated character does not start with a question mark, so it does not change a star in front
of it. -/
theorem head?_likeChars (pattern : List Char) :
    (pattern.flatMap likeChar ++ ['$']).head? ≠ some '?' := by
  cases pattern with
  | nil => decide
  | cons d pattern =>
    rw [List.flatMap_cons]
    by_cases hstretch : d = '%'
    · simp [hstretch, likeChar_stretch]
    · by_cases hsingle : d = '_'
      · simp [hsingle, likeChar_single]
      · rw [likeChar_literal hstretch hsingle, escapeChar]
        cases hd : isMeta d with
        | true => simp
        | false =>
          intro h
          obtain rfl : d = '?' := Option.some.inj h
          exact absurd hd (by decide)

/-- A translated pattern is read as one item for each of its characters. -/
theorem read_likeChars (hf : f.verbose = false) (hline : f.multiLine = false) (pattern : List Char)
    {fuel : Nat} (hfuel : (pattern.flatMap likeChar).length + 2 ≤ fuel)
    (items : List (Option Pattern)) :
    readAlternatives fuel f [] [] items (pattern.flatMap likeChar ++ ['$']) =
      some (alternatives [] (some (.anchor .textEnd) ::
        ((pattern.map fun d => some (likeItem f d)).reverse ++ items)), [], []) := by
  induction pattern generalizing fuel items with
  | nil =>
    obtain ⟨fuel, rfl⟩ := Nat.exists_eq_add_of_le' hfuel
    exact (read_textEnd hf hline).trans (read_nil hf)
  | cons d pattern ih =>
    rw [List.flatMap_cons, List.length_append] at hfuel
    rw [List.flatMap_cons, List.append_assoc, List.map_cons, List.reverse_cons, List.append_assoc,
      List.singleton_append]
    by_cases hstretch : d = '%'
    · subst hstretch
      have hlength : (likeChar '%').length = 2 := rfl
      obtain ⟨fuel, rfl⟩ : ∃ k, fuel = k + 2 := ⟨fuel - 2, by omega⟩
      rw [likeChar_stretch]
      refine (read_dot hf).trans ((read_star hf (head?_likeChars pattern)).trans ?_)
      exact ih (by omega) _
    · obtain ⟨fuel, rfl⟩ : ∃ k, fuel = k + 1 := ⟨fuel - 1, by omega⟩
      by_cases hsingle : d = '_'
      · subst hsingle
        have hlength : (likeChar '_').length = 1 := rfl
        rw [likeChar_single]
        exact (read_dot hf).trans (ih (by omega) _)
      · have hlength : 1 ≤ (likeChar d).length := by
          rw [likeChar_literal hstretch hsingle, escapeChar]
          split <;> exact Nat.le_add_left _ _
        rw [likeChar_literal hstretch hsingle]
        refine (read_escapeChar hf d).trans ((ih (by omega) _).trans ?_)
        rw [likeItem, if_neg hstretch, if_neg hsingle]

/-- What a translated pattern is read as. -/
theorem read?_likePattern (hf : f.verbose = false) (hline : f.multiLine = false) (pattern : String) :
    read? f (likePattern pattern) = some (sequence (.anchor .textStart ::
      (pattern.toList.map (likeItem f) ++ [.anchor .textEnd]))) := by
  have hchars : (likePattern pattern).toList = '^' :: (pattern.toList.flatMap likeChar ++ ['$']) := by
    rw [likePattern, String.toList_ofList, List.cons_append]
  have hread := read_likeChars hf hline pattern.toList (Nat.le_refl _)
    [some (.anchor .textStart)]
  rw [read?, hchars, List.length_cons, List.length_append, List.length_singleton,
    read_textStart hf hline, hread]
  simp [alternatives, choice, List.filterMap_map]

/-! ## Matching a translated pattern -/

section Matching

variable {text : List Char} {i j k n : Nat} {cs : CharSet}

/-- What is left of a text behind a stretch. -/
theorem drop_add_length {stretch rest : List Char} (h : text.drop i = stretch ++ rest) :
    text.drop (i + stretch.length) = rest := by
  rw [← List.drop_drop, h, List.drop_left]

theorem add_length_le {stretch rest : List Char} (hi : i ≤ text.length)
    (h : text.drop i = stretch ++ rest) : i + stretch.length ≤ text.length := by
  have hlength := congrArg List.length h
  rw [List.length_append, List.length_drop] at hlength
  omega

theorem stretch_set : Stretch text.toArray (.set cs) i k ↔
    k = i + 1 ∧ ∃ c, cs.contains c = true ∧ text.drop i = c :: text.drop k := by
  rw [Stretch]
  refine and_congr_right fun hk => exists_congr fun c => ?_
  subst hk
  rw [List.getElem?_toArray, and_comm]
  refine and_congr_right fun _ => ?_
  constructor
  · intro hc
    obtain ⟨hi, rfl⟩ := List.getElem?_eq_some_iff.mp hc
    exact List.drop_eq_getElem_cons hi
  · intro hdrop
    rw [← List.head?_drop, hdrop, List.head?_cons]

/-- Characters of a set in a row take up a stretch of such characters. -/
theorem row_set : Row (Stretch text.toArray (.set cs)) n i k ↔
    k = i + n ∧ ∃ stretch : List Char, stretch.length = n ∧ (∀ c ∈ stretch, cs.contains c = true) ∧
      text.drop i = stretch ++ text.drop k := by
  induction n generalizing i with
  | zero =>
    constructor
    · rintro rfl
      exact ⟨rfl, [], rfl, nofun, rfl⟩
    · exact fun h => h.1.symm
  | succ n ih =>
    constructor
    · rintro ⟨l, hfirst, hrest⟩
      obtain ⟨rfl, c, hc, hdrop⟩ := stretch_set.mp hfirst
      obtain ⟨rfl, stretch, rfl, hall, hdrop'⟩ := ih.mp hrest
      refine ⟨by omega, c :: stretch, rfl, List.forall_mem_cons.mpr ⟨hc, hall⟩, ?_⟩
      rw [hdrop, hdrop', List.cons_append]
    · rintro ⟨rfl, stretch, hlength, hall, hdrop⟩
      obtain ⟨c, stretch, rfl⟩ := List.exists_cons_of_length_eq_add_one hlength
      obtain ⟨hc, hall⟩ := List.forall_mem_cons.mp hall
      have hsplit : text.drop i = [c] ++ (stretch ++ text.drop (i + (n + 1))) := hdrop
      have hnext : text.drop (i + 1) = stretch ++ text.drop (i + (n + 1)) := drop_add_length hsplit
      refine ⟨i + 1, stretch_set.mpr ⟨rfl, c, hc, ?_⟩, ih.mpr ⟨by omega, stretch, ?_, hall, hnext⟩⟩
      · rw [hnext, hdrop, List.cons_append]
      · exact Nat.succ.inj hlength

/-- What the reader makes of a character that stands for itself holds what is equal to it up to
case. -/
theorem contains_fold_one (hcase : f.ignoreCase = true) (c d : Char) :
    (f.fold (.one d)).contains c = true ↔ Text.sameFold d c = true := by
  rw [Flags.fold, if_pos hcase, CharSet.contains, List.any_eq_true, ← Text.mem_orbit c d]
  constructor
  · rintro ⟨e, he, hd⟩
    rwa [← beq_iff_eq.mp hd]
  · exact fun hd => ⟨d, hd, beq_self_eq_true d⟩

/-- From a position, the items of a LIKE pattern lead to the end of a text that is like it from
there. -/
theorem stretch_likeItems (hcase : f.ignoreCase = true) (pattern : List Char)
    (hi : i ≤ text.length) :
    Stretch text.toArray (sequence (pattern.map (likeItem f) ++ [.anchor .textEnd])) i j ↔
      j = text.length ∧ Like (fun c => (dot f).contains c = true) pattern (text.drop i) := by
  induction pattern generalizing i with
  | nil =>
    rw [Like, List.drop_eq_nil_iff]
    show i = j ∧ (i == text.toArray.size) = true ↔ _
    rw [beq_iff_eq, List.size_toArray]
    omega
  | cons d pattern ih =>
    rw [List.map_cons, List.cons_append, stretch_sequence_cons, Like, likeItem]
    split
    · constructor
      · rintro ⟨k, ⟨n, -, hrow⟩, hrest⟩
        rw [Nat.zero_add] at hrow
        obtain ⟨rfl, stretch, rfl, hall, hdrop⟩ := row_set.mp hrow
        obtain ⟨rfl, hlike⟩ := (ih (add_length_le hi hdrop)).mp hrest
        exact ⟨rfl, stretch, _, hdrop, hall, hlike⟩
      · rintro ⟨rfl, stretch, rest, hdrop, hall, hlike⟩
        have hk := add_length_le hi hdrop
        obtain rfl := drop_add_length hdrop
        refine ⟨_, ⟨stretch.length, nofun, ?_⟩, (ih hk).mpr ⟨rfl, hlike⟩⟩
        rw [Nat.zero_add]
        exact row_set.mpr ⟨rfl, stretch, rfl, hall, hdrop⟩
    · have hone : ∀ c, (if d = '_' then dot f else f.fold (.one d)).contains c = true ↔
          if d = '_' then (dot f).contains c = true else Text.sameFold d c = true := by
        intro c
        split
        · rfl
        · exact contains_fold_one hcase c d
      constructor
      · rintro ⟨k, hfirst, hrest⟩
        obtain ⟨rfl, c, hc, hdrop⟩ := stretch_set.mp hfirst
        have hsplit : text.drop i = [c] ++ text.drop (i + 1) := hdrop
        obtain ⟨rfl, hlike⟩ := (ih (add_length_le hi hsplit)).mp hrest
        exact ⟨rfl, c, _, hdrop, (hone c).mp hc, hlike⟩
      · rintro ⟨rfl, c, rest, hdrop, hc, hlike⟩
        have hsplit : text.drop i = [c] ++ rest := hdrop
        have hk := add_length_le hi hsplit
        obtain rfl := drop_add_length hsplit
        exact ⟨_, stretch_set.mpr ⟨rfl, c, (hone c).mpr hc, hdrop⟩, (ih hk).mpr ⟨rfl, hlike⟩⟩

end Matching

/-- A translated LIKE pattern can be read, and texts match it that are like it with wildcards that
stand for everything but a line break. -/
theorem exists_read_likePattern (pattern : String) :
    ∃ p, read? { ignoreCase := true } (likePattern pattern) = some p ∧ ∀ text : String,
      p.matchesText text = true ↔ Like (· ≠ '\n') pattern.toList text.toList := by
  refine ⟨_, read?_likePattern rfl rfl pattern, fun text => ?_⟩
  have hdot : (fun c => (dot { ignoreCase := true }).contains c = true) = fun c => c ≠ '\n' := by
    funext c
    simp [dot, CharSet.contains]
  have hwhole := fun {j} => stretch_likeItems (f := { ignoreCase := true }) (j := j) rfl
    pattern.toList (Nat.zero_le text.toList.length)
  simp only [List.drop_zero, hdot] at hwhole
  rw [matchesText_iff]
  constructor
  · rintro ⟨i, -, j, hstretch⟩
    obtain ⟨k, ⟨rfl, hstart⟩, hrest⟩ := stretch_sequence_cons.mp hstretch
    obtain rfl : i = 0 := beq_iff_eq.mp hstart
    exact (hwhole.mp hrest).2
  · intro hlike
    exact ⟨0, Nat.zero_le _, _, stretch_sequence_cons.mpr ⟨0, ⟨rfl, rfl⟩, hwhole.mpr ⟨rfl, hlike⟩⟩⟩

end Pattern

/-! ## Conditions -/

namespace Filter

/-- Whether a text that a path leads to matches a pattern. -/
def holdsText (p : Pattern) (path : String) (d : Document) : Bool :=
  ((d.candidates path).getD []).any fun v => v.string?.any p.matchesText

theorem holdsText_of_at? {p : Pattern} {path text : String} {d : Document}
    (h : d.at? path = some (.string text)) : holdsText p path d = p.matchesText text := by
  rw [holdsText, Document.candidates, h]
  simp [Json.string?]

/-- A condition with a pattern that ignores case asks for a text that matches it. -/
theorem conditionHolds_regex {p : Pattern} {pattern : String}
    (hread : Pattern.read? { ignoreCase := true } pattern = some p) (d : Document) (path : String) :
    conditionHolds d path (.object [("$regex", .string pattern), ("$options", .string "i")]) =
      .ok (holdsText p path d) := by
  have hcase : "i".toList.contains 'i' = true := by decide
  have hline : "i".toList.contains 'm' = false := by decide
  have hholds : holds d path "i" "$regex" (.string pattern) = .ok (holdsText p path d) := by
    show matchesPattern d path "i" (.string pattern) = _
    simp only [matchesPattern, hcase, hline, hread]
    rfl
  rw [conditionHolds_operators rfl (by simp)]
  show allOutcomes [holds d path "i" "$regex" (.string pattern), .ok true] = _
  rw [hholds]
  cases holdsText p path d with
  | false => rfl
  | true => rfl

end Filter

/-- A LIKE condition on a plain column has a filter, which cannot fail: it asks for a text that
matches the translated pattern. -/
theorem Term.exists_filter_like {column pattern : String} {p : Pattern}
    (hcolumn : startsDollar column = false)
    (hread : Pattern.read? { ignoreCase := true } (likePattern pattern) = some p)
    (connector : Connector) :
    ∃ f, (⟨connector, column, .compare .like (.string pattern)⟩ : Term).filter = .ok f ∧
      ∀ d, Filter.accepts d f = .ok (Filter.holdsText p column d) :=
  ⟨_, rfl, fun d => Filter.accepts_single hcolumn (Filter.conditionHolds_regex hread d column)⟩

/-! ## Queries -/

namespace Query

variable {m : Model} {t : Term} {f : Json} {accepted : Document → Bool}

/-- A query with one condition that cannot fail gets the documents that are seen and meet it. -/
theorem get_of_condition (schema : Schema) (s : Store) (mode : TrashedMode)
    (hmarker : ∀ x, m.softDelete = some x → startsDollar x.marker = false)
    (hfilter : t.filter = .ok f) (haccepts : ∀ d, Filter.accepts d f = .ok (accepted d)) :
    Query.get schema s { model := m, conditions := [t], trashed := mode } =
      .ok ((((s.documents m.collection).filter (m.policy mode).sees).filter accepted).map
        (Entity.ofDocument m · [])) := by
  have hstage : conditionStage? [t] = .ok (some (.filter (.single "$and" (.array [f])))) := by
    rw [conditionStage?, Term.filterAll, List.mapM_cons, hfilter]
    rfl
  have hand : ∀ d, Filter.accepts d (.single "$and" (.array [f])) = .ok (accepted d) := by
    intro d
    have hresults : [f].map (Filter.accepts d) = [accepted d].map Except.ok :=
      congrArg (fun result => [result]) (haccepts d)
    rw [Filter.accepts_and hresults, List.all_cons, List.all_nil, Bool.and_true]
    rfl
  refine get_of_accepted hmarker hstage (fun db rest docs => ?_) rfl
  exact Stage.runAll_append_ok ((Stage.runAll_singleton db _ docs).trans
    (Stage.run_filter (fun d _ => hand d) db)) rest

/-- **LIKE.** Of the documents that are seen and hold a text under a column, a query with a LIKE
condition on that column gets those whose text is like the pattern with wildcards that stand for
everything but a line break. So it gets only documents whose text is like the pattern, and all of
them but for texts with line breaks. -/
theorem like_matches (schema : Schema) (s : Store)
    (hmarker : ∀ x, m.softDelete = some x → startsDollar x.marker = false) (mode : TrashedMode)
    {column : String} (hcolumn : startsDollar column = false) (pattern : String) :
    ∃ found : List Document, Query.get schema s { m.query.withCondition .and column (.compare .like (.string pattern))
        with trashed := mode } = .ok (found.map (Entity.ofDocument m · [])) ∧
      found.Sublist ((s.documents m.collection).filter (m.policy mode).sees) ∧
      ∀ d ∈ (s.documents m.collection).filter (m.policy mode).sees, ∀ text : String,
        d.at? column = some (.string text) →
          (d ∈ found ↔ Like (· ≠ '\n') pattern.toList text.toList) ∧
          (d ∈ found → Like (fun _ => True) pattern.toList text.toList) ∧
          ('\n' ∉ text.toList → (d ∈ found ↔ Like (fun _ => True) pattern.toList text.toList)) := by
  obtain ⟨p, hread, hmatches⟩ := Pattern.exists_read_likePattern pattern
  obtain ⟨f, hfilter, haccepts⟩ := Term.exists_filter_like hcolumn hread .and
  refine ⟨_, get_of_condition schema s mode hmarker hfilter haccepts, List.filter_sublist, ?_⟩
  intro d hd text htext
  have hfound : d ∈ ((s.documents m.collection).filter (m.policy mode).sees).filter
      (Filter.holdsText p column) ↔ Like (· ≠ '\n') pattern.toList text.toList := by
    rw [List.mem_filter, Filter.holdsText_of_at? htext, hmatches]
    exact and_iff_right hd
  refine ⟨hfound, fun h => (hfound.mp h).imp fun _ _ _ => trivial, fun hbreak => ?_⟩
  refine ⟨fun h => (hfound.mp h).imp fun _ _ _ => trivial, fun hlike => hfound.mpr (hlike.imp ?_)⟩
  rintro c hc - rfl
  exact hbreak hc

end Query

/-! ## Releases and their tags -/

namespace ReleaseSample

def releaseModel : Model := ⟨"Release", "releases", "_id", some ⟨"isHidden", "hiddenAt"⟩, none, []⟩

def schema : Schema := ⟨fun _ => []⟩

def release (tag : String) : Document := [("tag", .string tag), ("isHidden", .bool false)]

def store (tags : List String) : Store where
  collections := [("releases", tags.map release)]
  ids := ⟨fun _ => ⟨0⟩, 0⟩

theorem release_seen {tag : String} {tags : List String} (h : tag ∈ tags) : release tag ∈
    ((store tags).documents releaseModel.collection).filter (releaseModel.policy .hidden).sees :=
  List.mem_filter.mpr ⟨List.mem_map_of_mem h, rfl⟩

theorem marker_plain : ∀ x, releaseModel.softDelete = some x → startsDollar x.marker = false := by
  rintro x ⟨⟩
  decide

/-- The releases with a tag like a pattern. -/
def tagged (pattern : String) : Query :=
  releaseModel.query.withCondition .and "tag" (.compare .like (.string pattern))

/-- Wildcards, a character with a meaning of its own in patterns of texts, and a letter in the other
case. -/
theorem releases_tagged : ∃ found : List Document,
    (tagged "v_.%").get schema (store ["V1.2", "v1x2"]) =
      .ok (found.map (Entity.ofDocument releaseModel · [])) ∧
    release "V1.2" ∈ found ∧ release "v1x2" ∉ found := by
  have hcolumn : startsDollar "tag" = false := by decide
  obtain ⟨found, hget, -, hfound⟩ := Query.like_matches schema (store ["V1.2", "v1x2"])
    marker_plain .hidden hcolumn "v_.%"
  have htag := fun {tag} htag => (hfound (release tag) (release_seen htag) tag rfl).1
  refine ⟨found, hget, (htag (by simp)).mpr ?_, fun h => absurd ((htag (by simp)).mp h) ?_⟩
  · decide +kernel
  · decide +kernel

/-- A tag of two lines is not found, although a wildcard stands for any characters. -/
theorem lines_missed : ¬ ∀ (m : Model) (s : Store) (column pattern : String) (found : List Document),
    startsDollar column = false →
    (m.query.withCondition .and column (.compare .like (.string pattern))).get schema s =
      .ok (found.map (Entity.ofDocument m · [])) →
    ∀ d ∈ (s.documents m.collection).filter (m.policy .hidden).sees, ∀ text : String,
      d.at? column = some (.string text) →
        (d ∈ found ↔ Like (fun _ => True) pattern.toList text.toList) := by
  intro h
  have hcolumn : startsDollar "tag" = false := by decide
  obtain ⟨p, hread, hmatches⟩ := Pattern.exists_read_likePattern "a%b"
  obtain ⟨f, hfilter, haccepts⟩ := Term.exists_filter_like hcolumn hread .and
  have hget := Query.get_of_condition schema (store ["a\nb"]) .hidden marker_plain hfilter haccepts
  have hfound := (h releaseModel _ "tag" "a%b" _ hcolumn hget (release "a\nb")
    (release_seen List.mem_cons_self) _ rfl).mpr (by decide +kernel)
  have htext : (release "a\nb").at? "tag" = some (.string "a\nb") := rfl
  have hmatch := (List.mem_filter.mp hfound).2
  rw [Filter.holdsText_of_at? htext, hmatches] at hmatch
  revert hmatch
  decide +kernel

end ReleaseSample

end DocMapper
