import DocMapper.Proofs.Document
import DocMapper.Proofs.Order
import Mathlib.Data.List.Perm.Subperm

/-! # When two values are the same

Two values are the same if they differ in the order of object keys alone. A value in which no object
has a key twice is the same as itself (`Json.same_self`), and sameness is passed on from one value
to the next (`Json.same_trans`).

Whether two documents are the same can be read off key by key: they are if under every key both hold
the same value or neither holds one (`Document.same_iff`). -/

namespace DocMapper

/-! ## Values without repeated keys -/

namespace Json

mutual

/-- Whether no object in a value has a key twice, at any depth. -/
def distinctKeys : Json → Bool
  | .array items => distinctKeysItems items
  | .object fields => decide (Document.keys fields).Nodup && distinctKeysEntries fields
  | _ => true

def distinctKeysItems : List Json → Bool
  | [] => true
  | item :: items => item.distinctKeys && distinctKeysItems items

def distinctKeysEntries : List (String × Json) → Bool
  | [] => true
  | (_, v) :: fields => v.distinctKeys && distinctKeysEntries fields

end

theorem distinctKeysEntries_iff {fields : Document} :
    distinctKeysEntries fields = true ↔ ∀ e ∈ fields, e.2.distinctKeys = true := by
  induction fields with
  | nil => simp [distinctKeysEntries]
  | cons e fields ih => simp [distinctKeysEntries, ih]

theorem distinctKeys_object {fields : Document} : (object fields).distinctKeys = true ↔
    fields.Unique ∧ ∀ e ∈ fields, e.2.distinctKeys = true := by
  rw [distinctKeys, Bool.and_eq_true, distinctKeysEntries_iff, decide_eq_true_iff, Document.Unique]

theorem distinctKeys_insert {d : Document} (hd : (object d).distinctKeys = true) (key : String)
    {v : Json} (hv : v.distinctKeys = true) : (object (d.insert key v)).distinctKeys = true := by
  obtain ⟨hunique, hvalues⟩ := distinctKeys_object.mp hd
  refine distinctKeys_object.mpr ⟨hunique.insert key v, fun e he => ?_⟩
  rcases Document.mem_of_mem_insert he with he | rfl
  · exact hvalues e he
  · exact hv

theorem distinctKeys_erase {d : Document} (hd : (object d).distinctKeys = true) (key : String) :
    (object (d.erase key)).distinctKeys = true := by
  obtain ⟨hunique, hvalues⟩ := distinctKeys_object.mp hd
  exact distinctKeys_object.mpr
    ⟨hunique.erase key, fun e he => hvalues e (Document.mem_of_mem_erase he)⟩

theorem sameEntries_of_get? {fields d : Document}
    (h : ∀ e ∈ fields, ∃ w, d.get? e.1 = some w ∧ e.2.same w = true) :
    sameEntries fields d = true := by
  induction fields with
  | nil => rfl
  | cons e fields ih =>
    obtain ⟨w, hw, hsame⟩ := h e List.mem_cons_self
    rw [sameEntries, hw]
    simp only [hsame, Bool.true_and]
    exact ih fun e' he' => h e' (List.mem_cons_of_mem e he')

mutual

/-- A value without repeated keys is the same as itself. -/
theorem same_self : ∀ v : Json, v.distinctKeys = true → v.same v = true
  | .null, _ | .bool _, _ | .string _, _ => by simp [same]
  | .number n, _ => by cases n <;> simp [same, Number.same]
  | .array items, h => by
    rw [distinctKeys] at h
    rw [same]
    exact sameItems_self items h
  | .object fields, h => by
    obtain ⟨hunique, -⟩ := distinctKeys_object.mp h
    rw [distinctKeys, Bool.and_eq_true] at h
    rw [same, beq_self_eq_true, Bool.true_and]
    refine sameEntries_of_get? fun e he => ?_
    exact ⟨e.2, (Document.get?_eq_some_iff hunique).mpr he, same_values_self fields h.2 e he⟩

theorem sameItems_self : ∀ items : List Json, distinctKeysItems items = true →
    sameItems items items = true
  | [], _ => rfl
  | item :: items, h => by
    rw [distinctKeysItems, Bool.and_eq_true] at h
    rw [sameItems, same_self item h.1, sameItems_self items h.2, Bool.and_self]

theorem same_values_self : ∀ fields : List (String × Json), distinctKeysEntries fields = true →
    ∀ e ∈ fields, e.2.same e.2 = true
  | [], _, e, he => absurd he List.not_mem_nil
  | (k, v) :: fields, h, e, he => by
    rw [distinctKeysEntries, Bool.and_eq_true] at h
    rcases List.mem_cons.mp he with rfl | he
    · exact same_self v h.1
    · exact same_values_self fields h.2 e he

end

end Json

namespace Document

theorem sameEntries_get? {l d : Document} {key : String} {v : Json}
    (h : Json.sameEntries l d = true) (hmem : (key, v) ∈ l) :
    ∃ w, d.get? key = some w ∧ v.same w = true := by
  induction l with
  | nil => cases hmem
  | cons e l ih =>
    obtain ⟨k, u⟩ := e
    rw [Json.sameEntries, Bool.and_eq_true] at h
    rcases List.mem_cons.mp hmem with heq | hmem
    · cases heq
      cases hget : d.get? key with
      | none =>
        rw [hget] at h
        cases h.1
      | some w =>
        rw [hget] at h
        exact ⟨w, rfl, h.1⟩
    · exact ih h.2 hmem

/-- Documents that hold different values under a key differ. -/
theorem same_eq_false {d e : Document} {key : String} {v w : Json} (hd : d.get? key = some v)
    (he : e.get? key = some w) (h : v.same w = false) : d.same e = false := by
  refine Bool.eq_false_iff.mpr fun hsame => ?_
  rw [same, Json.same, Bool.and_eq_true] at hsame
  obtain ⟨u, hu, hvu⟩ := sameEntries_get? hsame.2 (mem_of_get? hd)
  rw [he] at hu
  cases hu
  rw [h] at hvu
  cases hvu

end Document

/-! ## One value after another -/

theorem Number.same_trans {a b c : Number} (hab : a.same b = true) (hbc : b.same c = true) :
    a.same c = true := by
  cases a <;> cases b <;> cases c <;> simp_all [Number.same]

namespace Json

theorem exists_object_of_same {fields : Document} {v : Json} (h : (object fields).same v = true) :
    ∃ others, v = object others ∧ fields.length = others.length ∧
      sameEntries fields others = true := by
  cases v <;> simp_all [same]

theorem exists_array_of_same {items : List Json} {v : Json} (h : (array items).same v = true) :
    ∃ others, v = array others ∧ sameItems items others = true := by
  cases v <;> simp_all [same]

theorem exists_number_of_same {n : Number} {v : Json} (h : (number n).same v = true) :
    ∃ m, v = number m ∧ n.same m = true := by
  cases v <;> simp_all [same]

theorem eq_of_same_null {v : Json} (h : null.same v = true) : v = null := by
  cases v <;> simp_all [same]

theorem eq_of_same_bool {b : Bool} {v : Json} (h : (bool b).same v = true) : v = bool b := by
  cases v <;> simp_all [same]

theorem eq_of_same_string {s : String} {v : Json} (h : (string s).same v = true) :
    v = string s := by
  cases v <;> simp_all [same]

mutual

theorem same_trans : ∀ (u : Json) {v w : Json}, u.same v = true → v.same w = true → u.same w = true
  | .null, v, w, huv, hvw => eq_of_same_null huv ▸ hvw
  | .bool _, v, w, huv, hvw => eq_of_same_bool huv ▸ hvw
  | .string _, v, w, huv, hvw => eq_of_same_string huv ▸ hvw
  | .number n, v, w, huv, hvw => by
    obtain ⟨m, rfl, hnm⟩ := exists_number_of_same huv
    obtain ⟨k, rfl, hmk⟩ := exists_number_of_same hvw
    exact Number.same_trans hnm hmk
  | .array items, v, w, huv, hvw => by
    obtain ⟨others, rfl, hothers⟩ := exists_array_of_same huv
    obtain ⟨last, rfl, hlast⟩ := exists_array_of_same hvw
    rw [same]
    exact sameItems_trans items hothers hlast
  | .object fields, v, w, huv, hvw => by
    obtain ⟨others, rfl, hlength, hothers⟩ := exists_object_of_same huv
    obtain ⟨last, rfl, hlength', hlast⟩ := exists_object_of_same hvw
    rw [same, hlength, hlength', beq_self_eq_true, Bool.true_and]
    refine sameEntries_of_get? fun e he => ?_
    obtain ⟨v, hv, hev⟩ := Document.sameEntries_get? hothers he
    obtain ⟨w, hw, hvw⟩ := Document.sameEntries_get? hlast (Document.mem_of_get? hv)
    exact ⟨w, hw, same_values_trans fields e he hev hvw⟩

theorem sameItems_trans : ∀ items {others last : List Json}, sameItems items others = true →
    sameItems others last = true → sameItems items last = true
  | [], [], _, _, h => h
  | [], _ :: _, _, h, _ => by cases h
  | _ :: _, [], _, h, _ => by cases h
  | _ :: _, _ :: _, [], _, h => by cases h
  | item :: items, _ :: _, _ :: _, h, h' => by
    rw [sameItems, Bool.and_eq_true] at h h' ⊢
    exact ⟨same_trans item h.1 h'.1, sameItems_trans items h.2 h'.2⟩

theorem same_values_trans : ∀ fields : List (String × Json), ∀ e ∈ fields, ∀ {v w : Json},
    e.2.same v = true → v.same w = true → e.2.same w = true
  | [], _, he, _, _, _, _ => absurd he List.not_mem_nil
  | (_, u) :: fields, e, he, v, w, hev, hvw => by
    rcases List.mem_cons.mp he with rfl | he
    · exact same_trans u hev hvw
    · exact same_values_trans fields e he hev hvw

end

end Json

/-! ## Key by key -/

namespace Document

variable {d e : Document}

theorem get?_same_trans {u v w : Option Json} (huv : (u == v) = true) (hvw : (v == w) = true) :
    (u == w) = true := by
  match u, v, w with
  | none, none, _ => exact hvw
  | some u, some _, some _ => exact Json.same_trans u huv hvw

/-- Documents of the same length have the same keys if all keys of one are keys of the other. -/
theorem mem_keys_of_length_eq (hd : d.Unique) (hlength : d.length = e.length)
    (hkeys : ∀ key ∈ d.keys, key ∈ e.keys) {key : String} (hkey : key ∈ e.keys) :
    key ∈ d.keys := by
  have hle : e.keys.length ≤ d.keys.length := by simp [keys, hlength]
  exact ((List.subperm_of_subset hd hkeys).perm_of_length_le hle).mem_iff.mpr hkey

theorem length_eq_of_keys (hd : d.Unique) (he : e.Unique)
    (hkeys : ∀ key, key ∈ d.keys ↔ key ∈ e.keys) : d.length = e.length := by
  have hperm : d.keys.Perm e.keys := (List.perm_ext_iff_of_nodup hd he).mpr hkeys
  simpa [keys] using hperm.length_eq

/-- Two documents are the same if they hold the same under every key. -/
theorem same_iff (hd : d.Unique) (he : e.Unique) :
    d.same e = true ↔ ∀ key, (d.get? key == e.get? key) = true := by
  rw [same, Json.same, Bool.and_eq_true, beq_iff_eq]
  constructor
  · rintro ⟨hlength, hentries⟩ key
    cases hget : d.get? key with
    | some v =>
      obtain ⟨w, hw, hvw⟩ := sameEntries_get? hentries (mem_of_get? hget)
      rw [hw]
      exact hvw
    | none =>
      have hkeys : ∀ k ∈ d.keys, k ∈ e.keys := by
        intro k hk
        obtain ⟨⟨k, v⟩, hmem, rfl⟩ := List.mem_map.mp hk
        obtain ⟨w, hw, -⟩ := sameEntries_get? hentries hmem
        exact mem_keys_of_mem (mem_of_get? hw)
      have hnone : e.get? key = none := get?_eq_none_iff.mpr fun hkey =>
        get?_eq_none_iff.mp hget (mem_keys_of_length_eq hd hlength hkeys hkey)
      rw [hnone]
      rfl
  · intro h
    refine ⟨length_eq_of_keys hd he fun key => ?_, Json.sameEntries_of_get? fun entry hentry => ?_⟩
    · rw [← get?_isSome_iff, ← get?_isSome_iff]
      have hkey := h key
      revert hkey
      cases d.get? key <;> cases e.get? key <;> simp
    · have hkey := h entry.1
      rw [(get?_eq_some_iff hd).mpr hentry] at hkey
      cases hget : e.get? entry.1 with
      | none =>
        rw [hget] at hkey
        cases hkey
      | some w =>
        rw [hget] at hkey
        exact ⟨w, rfl, hkey⟩

/-- Of documents that are the same, one has a field just if the other has it. -/
theorem isSome_get?_of_same (hd : d.Unique) (he : e.Unique) (h : d.same e = true) (key : String) :
    (d.get? key).isSome = (e.get? key).isSome := by
  have hkey := (same_iff hd he).mp h key
  revert hkey
  cases d.get? key <;> cases e.get? key <;> simp

/-- Documents that are the same both hold a value that is the same as no other. -/
theorem get?_eq_iff_of_same (hd : d.Unique) (he : e.Unique) (h : d.same e = true) {key : String}
    {u : Json} (hleft : ∀ w, u.same w = true → w = u) (hright : ∀ w, w.same u = true → w = u) :
    d.get? key = some u ↔ e.get? key = some u := by
  have hkey := (same_iff hd he).mp h key
  constructor
  · intro hu
    rw [hu] at hkey
    cases hw : e.get? key with
    | none => simp [hw] at hkey
    | some w =>
      rw [hw] at hkey
      exact congrArg some (hleft w hkey)
  · intro hu
    rw [hu] at hkey
    cases hw : d.get? key with
    | none => simp [hw] at hkey
    | some w =>
      rw [hw] at hkey
      exact congrArg some (hright w hkey)

/-- Documents that are the same hold the same booleans. -/
theorem get?_eq_bool_iff_of_same (hd : d.Unique) (he : e.Unique) (h : d.same e = true)
    {key : String} {b : Bool} : d.get? key = some (.bool b) ↔ e.get? key = some (.bool b) :=
  get?_eq_iff_of_same hd he h (fun _ => Json.eq_of_same_bool) fun _ => Json.same_bool_iff.mp

/-- Documents that are the same hold the same texts. -/
theorem get?_eq_string_iff_of_same (hd : d.Unique) (he : e.Unique) (h : d.same e = true)
    {key s : String} : d.get? key = some (.string s) ↔ e.get? key = some (.string s) :=
  get?_eq_iff_of_same hd he h (fun _ => Json.eq_of_same_string) fun _ => Json.same_string_iff.mp

/-- Of documents that are the same, one lacks a field just if the other lacks it. -/
theorem get?_eq_none_iff_of_same (hd : d.Unique) (he : e.Unique) (h : d.same e = true)
    {key : String} : d.get? key = none ↔ e.get? key = none := by
  rw [← Option.isNone_iff_eq_none, ← Option.isNone_iff_eq_none, ← Option.not_isSome,
    ← Option.not_isSome, isSome_get?_of_same hd he h]

end Document

end DocMapper
