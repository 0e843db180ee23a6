import DocMapper.Json.Basic

/-! # Entries of a document

A document is the list of its entries. As long as no key occurs twice, which every operation keeps,
the order of the entries decides nothing about what `get?` finds: `get?_eq_some_iff` reads a
document as a set of entries, and the laws of `insert` and `erase` follow from what they do to that
set. -/

namespace DocMapper

/-! ## Lists without repeats -/

theorem nodup_append_new {α : Type} [BEq α] [LawfulBEq α] {l : List α} (h : l.Nodup) (a : α) :
    (if l.contains a then l else l ++ [a]).Nodup := by
  split
  · exact h
  · next hnot =>
    rw [List.contains_iff_mem] at hnot
    refine List.nodup_append.mpr ⟨h, List.pairwise_singleton _ a, ?_⟩
    intro b hb c hc hbc
    rw [List.mem_singleton] at hc
    exact hnot (hc ▸ hbc ▸ hb)

/-- Taking in members one by one keeps a list without repeats, if taking in one does. -/
theorem nodup_foldl {α : Type} {f : List α → α → List α} (hf : ∀ l a, l.Nodup → (f l a).Nodup)
    (as : List α) {l : List α} (h : l.Nodup) : (as.foldl f l).Nodup := by
  induction as generalizing l with
  | nil => exact h
  | cons a as ih => exact ih (hf l a h)

namespace Document

/-- No key of the document occurs twice. -/
def Unique (d : Document) : Prop := d.keys.Nodup

instance (d : Document) : Decidable d.Unique := inferInstanceAs (Decidable d.keys.Nodup)

/-! ## Looking up -/

@[simp] theorem get?_nil (key : String) : get? [] key = none := rfl

theorem get?_cons (k : String) (v : Json) (d : Document) (key : String) :
    get? ((k, v) :: d) key = if k = key then some v else get? d key := rfl

@[simp] theorem get?_cons_self (key : String) (v : Json) (d : Document) :
    get? ((key, v) :: d) key = some v := if_pos rfl

theorem get?_cons_of_ne {k key : String} (h : k ≠ key) (v : Json) (d : Document) :
    get? ((k, v) :: d) key = get? d key := if_neg h

@[simp] theorem keys_nil : keys [] = [] := rfl

@[simp] theorem keys_cons (k : String) (v : Json) (d : Document) :
    keys ((k, v) :: d) = k :: keys d := rfl

theorem mem_of_get? {d : Document} {key : String} {v : Json} (h : d.get? key = some v) :
    (key, v) ∈ d := by
  induction d with
  | nil => cases h
  | cons e d ih =>
    obtain ⟨k, w⟩ := e
    rw [get?_cons] at h
    split at h
    · next hk =>
      cases h
      rw [hk]
      exact List.mem_cons_self
    · exact List.mem_cons_of_mem _ (ih h)

theorem get?_isSome_iff {d : Document} {key : String} : (d.get? key).isSome ↔ key ∈ d.keys := by
  induction d with
  | nil => simp
  | cons e d ih =>
    obtain ⟨k, w⟩ := e
    rw [get?_cons, keys_cons, List.mem_cons]
    by_cases hk : k = key
    · simp [hk]
    · rw [if_neg hk, ih]
      simp [Ne.symm hk]

theorem get?_eq_none_iff {d : Document} {key : String} : d.get? key = none ↔ key ∉ d.keys := by
  rw [← get?_isSome_iff]
  simp

theorem contains_iff {d : Document} {key : String} : d.contains key = true ↔ key ∈ d.keys :=
  get?_isSome_iff

theorem mem_keys_of_mem {d : Document} {key : String} {v : Json} (h : (key, v) ∈ d) :
    key ∈ d.keys := List.mem_map.mpr ⟨(key, v), h, rfl⟩

@[simp] theorem unique_nil : Unique [] := List.nodup_nil

theorem unique_cons {k : String} {v : Json} {d : Document} :
    Unique ((k, v) :: d) ↔ k ∉ d.keys ∧ d.Unique := List.nodup_cons

/-- Without repeated keys, looking up is membership. -/
theorem get?_eq_some_iff {d : Document} (hd : d.Unique) {key : String} {v : Json} :
    d.get? key = some v ↔ (key, v) ∈ d := by
  refine ⟨mem_of_get?, fun h => ?_⟩
  induction d with
  | nil => cases h
  | cons e d ih =>
    obtain ⟨k, w⟩ := e
    obtain ⟨hk, hd⟩ := unique_cons.mp hd
    rcases List.mem_cons.mp h with heq | hmem
    · cases heq
      exact get?_cons_self key v d
    · have hne : k ≠ key := by
        rintro rfl
        exact hk (mem_keys_of_mem hmem)
      rw [get?_cons_of_ne hne]
      exact ih hd hmem

/-- What `get?` finds depends only on which entries there are. -/
theorem get?_congr {d e : Document} (hd : d.Unique) (he : e.Unique) {key other : String}
    (h : ∀ v, (key, v) ∈ d ↔ (other, v) ∈ e) : d.get? key = e.get? other := by
  apply Option.ext
  intro v
  rw [get?_eq_some_iff hd, get?_eq_some_iff he, h]

/-! ## Inserting -/

theorem get?_insert (d : Document) (key : String) (v : Json) (other : String) :
    (d.insert key v).get? other = if key = other then some v else d.get? other := by
  induction d with
  | nil => rfl
  | cons e d ih =>
    obtain ⟨k, w⟩ := e
    rw [insert]
    by_cases hk : k = key
    · rw [if_pos hk, get?_cons, get?_cons, hk]
      split <;> rfl
    · rw [if_neg hk, get?_cons, get?_cons, ih]
      by_cases ho : k = other
      · have hne : key ≠ other := fun h => hk (ho.trans h.symm)
        rw [if_pos ho, if_neg hne, if_pos ho]
      · rw [if_neg ho, if_neg ho]

@[simp] theorem get?_insert_self (d : Document) (key : String) (v : Json) :
    (d.insert key v).get? key = some v := by rw [get?_insert, if_pos rfl]

theorem get?_insert_of_ne {key other : String} (h : key ≠ other) (d : Document) (v : Json) :
    (d.insert key v).get? other = d.get? other := by rw [get?_insert, if_neg h]

theorem mem_keys_insert {d : Document} {key : String} {v : Json} {other : String} :
    other ∈ (d.insert key v).keys ↔ other = key ∨ other ∈ d.keys := by
  rw [← get?_isSome_iff, get?_insert, ← get?_isSome_iff]
  by_cases h : key = other
  · simp [h]
  · simp [h, Ne.symm h]

theorem mem_of_mem_insert {d : Document} {key : String} {v : Json} {e : String × Json}
    (h : e ∈ d.insert key v) : e ∈ d ∨ e = (key, v) := by
  induction d with
  | nil => exact .inr (List.mem_singleton.mp h)
  | cons first d ih =>
    obtain ⟨k, w⟩ := first
    rw [insert] at h
    split at h
    · rcases List.mem_cons.mp h with rfl | h
      · exact .inr rfl
      · exact .inl (List.mem_cons_of_mem _ h)
    · rcases List.mem_cons.mp h with rfl | h
      · exact .inl List.mem_cons_self
      · exact (ih h).imp_left (List.mem_cons_of_mem _)

/-- What is inserted under a key is found under no other. -/
theorem mem_of_mem_insert_of_ne {d : Document} {key other : String} {v w : Json}
    (hne : other ≠ key) (h : (other, w) ∈ d.insert key v) : (other, w) ∈ d :=
  (mem_of_mem_insert h).resolve_right fun heq => hne (Prod.mk.inj heq).1

theorem Unique.insert {d : Document} (hd : d.Unique) (key : String) (v : Json) :
    (d.insert key v).Unique := by
  induction d with
  | nil => exact unique_cons.mpr ⟨List.not_mem_nil, unique_nil⟩
  | cons e d ih =>
    obtain ⟨k, w⟩ := e
    obtain ⟨hk, hd⟩ := unique_cons.mp hd
    rw [Document.insert]
    split
    · next h => exact unique_cons.mpr ⟨h ▸ hk, hd⟩
    · next h =>
      refine unique_cons.mpr ⟨fun hmem => ?_, ih hd⟩
      rcases mem_keys_insert.mp hmem with h' | h'
      · exact h h'
      · exact hk h'

/-- Setting a key twice is setting it to the second value. -/
@[simp] theorem insert_insert (d : Document) (key : String) (v w : Json) :
    (d.insert key v).insert key w = d.insert key w := by
  induction d with
  | nil => exact if_pos rfl
  | cons e d ih =>
    obtain ⟨k, u⟩ := e
    rw [insert, insert]
    by_cases hk : k = key
    · rw [if_pos hk, if_pos hk]
      exact if_pos rfl
    · rw [if_neg hk, if_neg hk, insert, if_neg hk, ih]

theorem mem_insert {d : Document} (hd : d.Unique) {key other : String} {v w : Json} :
    (other, w) ∈ d.insert key v ↔ other = key ∧ w = v ∨ other ≠ key ∧ (other, w) ∈ d := by
  rw [← get?_eq_some_iff (hd.insert key v), get?_insert, ← get?_eq_some_iff hd]
  by_cases h : key = other
  · subst h
    rw [if_pos rfl, Option.some_inj]
    constructor
    · exact fun heq => .inl ⟨rfl, heq.symm⟩
    · rintro (⟨-, heq⟩ | ⟨hne, -⟩)
      · exact heq.symm
      · exact absurd rfl hne
  · rw [if_neg h]
    constructor
    · exact fun hget => .inr ⟨Ne.symm h, hget⟩
    · rintro (⟨heq, -⟩ | ⟨-, hget⟩)
      · exact absurd heq.symm h
      · exact hget

/-- Setting a key that is not there appends it. -/
theorem insert_of_not_mem {d : Document} {key : String} (h : key ∉ d.keys) (v : Json) :
    d.insert key v = d ++ [(key, v)] := by
  induction d with
  | nil => rfl
  | cons e d ih =>
    obtain ⟨k, w⟩ := e
    rw [keys_cons, List.mem_cons, not_or] at h
    rw [insert, if_neg (Ne.symm h.1), ih h.2, List.cons_append]

/-- Setting a key that is there leaves it in its place. -/
theorem keys_insert_of_mem {d : Document} {key : String} (h : key ∈ d.keys) (v : Json) :
    (d.insert key v).keys = d.keys := by
  induction d with
  | nil => cases h
  | cons e d ih =>
    obtain ⟨k, w⟩ := e
    rw [insert]
    split
    · next heq => rw [keys_cons, keys_cons, heq]
    · next hne =>
      rw [keys_cons, keys_cons, ih ((List.mem_cons.mp h).resolve_left (Ne.symm hne))]

/-- Setting a key to what it holds changes nothing. -/
theorem insert_eq_self {d : Document} {key : String} {v : Json} (h : d.get? key = some v) :
    d.insert key v = d := by
  induction d with
  | nil => cases h
  | cons e d ih =>
    obtain ⟨k, w⟩ := e
    rw [insert]
    by_cases hk : k = key
    · subst hk
      rw [get?_cons_self] at h
      cases h
      rw [if_pos rfl]
    · rw [get?_cons_of_ne hk] at h
      rw [if_neg hk, ih h]

/-! ## Merging -/

theorem merge_cons (d : Document) (k : String) (v : Json) (e : Document) :
    d.merge ((k, v) :: e) = (d.insert k v).merge e := rfl

theorem mem_of_mem_merge {d e : Document} {x : String × Json} (h : x ∈ d.merge e) :
    x ∈ d ∨ x ∈ e := by
  induction e generalizing d with
  | nil => exact .inl h
  | cons first e ih =>
    rcases ih h with hx | hx
    · rcases mem_of_mem_insert hx with hx | rfl
      · exact .inl hx
      · exact .inr List.mem_cons_self
    · exact .inr (List.mem_cons_of_mem _ hx)

theorem Unique.merge {d : Document} (hd : d.Unique) (e : Document) : (d.merge e).Unique := by
  induction e generalizing d with
  | nil => exact hd
  | cons x e ih =>
    obtain ⟨k, v⟩ := x
    exact ih (hd.insert k v)

/-- The entries of the second document win. -/
theorem get?_merge {e : Document} (he : e.Unique) (d : Document) (key : String) :
    (d.merge e).get? key = (e.get? key <|> d.get? key) := by
  induction e generalizing d with
  | nil => rfl
  | cons x e ih =>
    obtain ⟨k, v⟩ := x
    obtain ⟨hk, he⟩ := unique_cons.mp he
    rw [merge_cons, ih he, get?_insert, get?_cons]
    by_cases h : k = key
    · -- The key does not come again, so what is set here is not set once more.
      subst h
      rw [get?_eq_none_iff.mpr hk, if_pos rfl, if_pos rfl]
      rfl
    · rw [if_neg h, if_neg h]

/-- Merging entries with new keys appends them. -/
theorem merge_of_disjoint {e : Document} (he : e.Unique) {d : Document}
    (h : ∀ k ∈ e.keys, k ∉ d.keys) : d.merge e = d ++ e := by
  induction e generalizing d with
  | nil => exact (List.append_nil d).symm
  | cons x e ih =>
    obtain ⟨k, v⟩ := x
    obtain ⟨hk, he⟩ := unique_cons.mp he
    rw [merge_cons, insert_of_not_mem (h k List.mem_cons_self), ih he]
    · rw [List.append_assoc, List.singleton_append]
    · intro k' hk' hmem
      have hkeys : keys (d ++ [(k, v)]) = d.keys ++ [k] := by simp [keys]
      rw [hkeys, List.mem_append, List.mem_singleton] at hmem
      rcases hmem with hmem | rfl
      · exact h k' (List.mem_cons_of_mem _ hk') hmem
      · exact hk hk'

/-- A document without repeated keys is what merging its entries gives. -/
theorem merge_nil_left {d : Document} (hd : d.Unique) : merge [] d = d :=
  merge_of_disjoint hd fun _ _ => List.not_mem_nil

/-! ## Erasing -/

theorem cons_dropLast_perm {α : Type} {l : List α} {a : α} (h : l.getLast? = some a) :
    (a :: l.dropLast).Perm l := by
  obtain ⟨ys, rfl⟩ := List.getLast?_eq_some_iff.mp h
  rw [List.dropLast_concat]
  exact (List.perm_append_singleton a ys).symm

/-- Erasing a key leaves the other entries, if not in their order. -/
theorem erase_perm {d : Document} (hd : d.Unique) (key : String) :
    (d.erase key).Perm (d.filter fun e => e.1 ≠ key) := by
  induction d with
  | nil => exact List.Perm.refl _
  | cons e d ih =>
    obtain ⟨k, v⟩ := e
    obtain ⟨hk, hd⟩ := unique_cons.mp hd
    rw [erase]
    by_cases h : k = key
    · -- The first entry goes, and the last one, if there is another, comes in its place.
      subst h
      have hrest : d.filter (fun e => e.1 ≠ k) = d := by
        rw [List.filter_eq_self]
        rintro ⟨k', w⟩ hmem
        have hne : k' ≠ k := by
          rintro rfl
          exact hk (mem_keys_of_mem hmem)
        exact decide_eq_true hne
      rw [if_pos rfl, List.filter_cons, if_neg (by simp), hrest]
      cases hlast : d.getLast? with
      | none =>
        rw [List.getLast?_eq_none_iff] at hlast
        rw [hlast]
      | some last =>
        exact cons_dropLast_perm hlast
    · rw [if_neg h, List.filter_cons, if_pos (by simpa using h)]
      exact (ih hd).cons _

theorem mem_of_mem_erase {d : Document} {key : String} {e : String × Json}
    (h : e ∈ d.erase key) : e ∈ d := by
  induction d with
  | nil => cases h
  | cons first d ih =>
    obtain ⟨k, v⟩ := first
    rw [erase] at h
    split at h
    · cases hlast : d.getLast? with
      | none =>
        rw [hlast] at h
        cases h
      | some last =>
        rw [hlast] at h
        exact List.mem_cons_of_mem _ ((cons_dropLast_perm hlast).mem_iff.mp h)
    · rcases List.mem_cons.mp h with rfl | h
      · exact List.mem_cons_self
      · exact List.mem_cons_of_mem _ (ih h)

/-- Erasing a key that is not there changes nothing. -/
theorem erase_of_not_mem {d : Document} {key : String} (h : d.get? key = none) :
    d.erase key = d := by
  induction d with
  | nil => rfl
  | cons e d ih =>
    obtain ⟨k, v⟩ := e
    rw [get?_cons] at h
    split at h
    · cases h
    · next hk => rw [erase, if_neg hk, ih h]

theorem mem_erase {d : Document} (hd : d.Unique) {key other : String} {v : Json} :
    (other, v) ∈ d.erase key ↔ (other, v) ∈ d ∧ other ≠ key := by
  rw [(erase_perm hd key).mem_iff, List.mem_filter, decide_eq_true_iff]

theorem Unique.erase {d : Document} (hd : d.Unique) (key : String) : (d.erase key).Unique := by
  have hperm : (d.erase key).keys.Perm (keys (d.filter fun e => e.1 ≠ key)) :=
    (erase_perm hd key).map _
  rw [Unique, hperm.nodup_iff]
  exact List.Nodup.sublist (List.Sublist.map _ List.filter_sublist) hd

theorem get?_erase_self {d : Document} (hd : d.Unique) (key : String) :
    (d.erase key).get? key = none := by
  rw [get?_eq_none_iff]
  intro hmem
  obtain ⟨⟨k, v⟩, hkv, rfl⟩ := List.mem_map.mp hmem
  exact ((mem_erase hd).mp hkv).2 rfl

theorem get?_erase_of_ne {d : Document} (hd : d.Unique) {key other : String} (h : other ≠ key) :
    (d.erase key).get? other = d.get? other := by
  apply get?_congr (hd.erase key) hd
  intro v
  rw [mem_erase hd, and_iff_left h]

/-- Erasing several keys takes these away and leaves the others. -/
theorem get?_foldl_erase {d : Document} (hd : d.Unique) (gone : List String) (key : String) :
    (gone.foldl erase d).get? key = if key ∈ gone then none else d.get? key := by
  induction gone generalizing d with
  | nil => rfl
  | cons first gone ih =>
    rw [List.foldl_cons, ih (hd.erase first)]
    by_cases hkey : key = first
    · simp [hkey, get?_erase_self hd]
    · simp [hkey, get?_erase_of_ne hd hkey]

theorem Unique.foldl_erase {d : Document} (hd : d.Unique) (gone : List String) :
    (gone.foldl Document.erase d).Unique := by
  induction gone generalizing d with
  | nil => exact hd
  | cons first gone ih => exact ih (hd.erase first)

/-- Erasing all keys leaves nothing. -/
theorem foldl_erase_keys {d : Document} (hd : d.Unique) : d.keys.foldl erase d = [] := by
  refine List.eq_nil_iff_forall_not_mem.mpr fun ⟨key, v⟩ hmem => ?_
  have hget := (get?_eq_some_iff (hd.foldl_erase d.keys)).mpr hmem
  rw [get?_foldl_erase hd] at hget
  split at hget
  · cases hget
  · next hnot =>
    rw [get?_eq_none_iff.mpr hnot] at hget
    cases hget

/-- Erasing a key of entries that were appended. -/
theorem erase_append {d : Document} {key : String} (h : key ∉ d.keys) (e : Document) :
    erase (d ++ e) key = d ++ e.erase key := by
  induction d with
  | nil => rfl
  | cons first d ih =>
    obtain ⟨k, v⟩ := first
    rw [keys_cons, List.mem_cons, not_or] at h
    rw [List.cons_append, erase, if_neg (Ne.symm h.1), ih h.2]
    rfl

theorem foldl_erase_append {d : Document} {gone : List String} (h : ∀ key ∈ gone, key ∉ d.keys)
    (e : Document) : gone.foldl erase (d ++ e) = d ++ gone.foldl erase e := by
  induction gone generalizing e with
  | nil => rfl
  | cons key gone ih =>
    obtain ⟨hkey, hgone⟩ := List.forall_mem_cons.mp h
    rw [List.foldl_cons, List.foldl_cons, erase_append hkey, ih hgone]

theorem mem_keys_erase {d : Document} (hd : d.Unique) {key other : String} :
    other ∈ (d.erase key).keys ↔ other ∈ d.keys ∧ other ≠ key := by
  constructor
  · intro hmem
    obtain ⟨⟨k, v⟩, hkv, rfl⟩ := List.mem_map.mp hmem
    obtain ⟨hkv, hne⟩ := (mem_erase hd).mp hkv
    exact ⟨mem_keys_of_mem hkv, hne⟩
  · rintro ⟨hmem, hne⟩
    obtain ⟨⟨k, v⟩, hkv, rfl⟩ := List.mem_map.mp hmem
    exact mem_keys_of_mem ((mem_erase hd).mpr ⟨hkv, hne⟩)

end Document

end DocMapper
