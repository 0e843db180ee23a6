import DocMapper.Json.Path
import DocMapper.Proofs.Document

/-! # Fields and paths below a field

A **field** is a path of one key: a name without a dot. Reading, setting and removing a field is
looking up, inserting and erasing its key (`at?_field`, `set_field`, `remove_field`). A path that
starts with a field and goes on (`field.rest`) reaches into the value under the field and leaves all
other entries alone (`get?_remove_under`). -/

namespace DocMapper

/-! ## Splitting at a separator -/

namespace Text

theorem splitChars_of_not_mem {sep : Char} {cs : List Char} (h : sep ∉ cs) :
    splitChars sep cs = [cs] := by
  induction cs with
  | nil => rfl
  | cons c cs ih =>
    rw [List.mem_cons, not_or] at h
    rw [splitChars, if_neg (Ne.symm h.1), ih h.2]

theorem splitChars_join (sep : Char) (cs ds : List Char) :
    splitChars sep (cs ++ sep :: ds) = splitChars sep cs ++ splitChars sep ds := by
  induction cs with
  | nil => exact if_pos rfl
  | cons c cs ih =>
    rw [List.cons_append, splitChars, splitChars, ih]
    split
    · rfl
    · cases hparts : splitChars sep cs with
      | nil => exact absurd hparts (splitChars_ne_nil sep cs)
      | cons part parts => rfl

theorem splitChars_append {sep : Char} {cs : List Char} (h : sep ∉ cs) (ds : List Char) :
    splitChars sep (cs ++ sep :: ds) = cs :: splitChars sep ds := by
  rw [splitChars_join, splitChars_of_not_mem h, List.singleton_append]

end Text

/-! ## Fields -/

/-- A name is a field if it has no dot. -/
def IsField (name : String) : Prop := '.' ∉ name.toList

instance (name : String) : Decidable (IsField name) :=
  inferInstanceAs (Decidable ('.' ∉ name.toList))

namespace Path

theorem ofString_field {name : String} (h : IsField name) : ofString name = [name] := by
  rw [ofString, Text.split, Text.splitChars_of_not_mem h, List.map_singleton, String.ofList_toList]

theorem ofString_under {name : String} (h : IsField name) (rest : String) :
    ofString (name ++ "." ++ rest) = name :: ofString rest := by
  have hlist : (name ++ "." ++ rest).toList = name.toList ++ '.' :: rest.toList := by simp
  rw [ofString, Text.split, hlist, Text.splitChars_append h, List.map_cons, String.ofList_toList]
  rfl

theorem ofString_ne_nil (s : String) : ofString s ≠ [] := by
  rw [ofString, Text.split, ne_eq, List.map_eq_nil_iff]
  exact Text.splitChars_ne_nil '.' s.toList

theorem eq_of_ofString_singleton {s key : String} (h : ofString s = [key]) : s = key := by
  rw [ofString, Text.split] at h
  obtain ⟨cs, hsplit, hkey⟩ := List.map_eq_singleton_iff.mp h
  have hjoin := Text.joinChars_splitChars '.' s.toList
  rw [hsplit] at hjoin
  have hcs : cs = s.toList := hjoin
  rw [← hkey, hcs, String.ofList_toList]

theorem head_field {name : String} (h : IsField name) : head name = name := by
  rw [head, ofString_field h, List.headD_cons]

theorem head_under {name : String} (h : IsField name) (rest : String) :
    head (name ++ "." ++ rest) = name := by
  rw [head, ofString_under h, List.headD_cons]

end Path

/-! ## Reading and removing in any value -/

@[simp] theorem Json.get?_nil (v : Json) : v.get? [] = some v := by
  cases v <;> rfl

/-- Removing a path from an array removes it from each item. -/
theorem Json.removeEach_eq_map (items : List Json) (path : Path) :
    Json.removeEach items path = items.map fun item => item.removeAt path := by
  induction items with
  | nil => rfl
  | cons item items ih => rw [Json.removeEach, ih, List.map_cons]

namespace Document

/-! ## Reading -/

theorem getEntry?_eq (d : Document) (key : String) (rest : Path) :
    getEntry? d key rest = (d.get? key).bind (·.get? rest) := by
  induction d with
  | nil => rfl
  | cons e d ih =>
    obtain ⟨k, v⟩ := e
    rw [get?_cons, getEntry?]
    split
    · rfl
    · exact ih

theorem at?_field {name : String} (h : IsField name) (d : Document) : d.at? name = d.get? name := by
  rw [at?, Path.ofString_field h, Json.get?, getEntry?_eq]
  cases d.get? name with
  | none => rfl
  | some v => exact Json.get?_nil v

theorem candidates_field_none {name : String} (h : IsField name) {d : Document}
    (hd : d.get? name = none) : d.candidates name = none := by
  rw [candidates, at?_field h, hd]
  rfl

/-! ## Setting -/

theorem set_field {name : String} (h : IsField name) (d : Document) (v : Json) :
    d.set name v = d.insert name v := by
  rw [set, Path.ofString_field h, setAt]

theorem Unique.set {d : Document} (hd : d.Unique) (path : String) (v : Json) :
    (d.set path v).Unique := by
  unfold Document.set
  match Path.ofString path with
  | [] => exact hd
  | [key] => exact hd.insert key v
  | key :: next :: rest => exact hd.insert key _

/-- Setting a path touches no field but the one that the path starts with. -/
theorem get?_set_of_head_ne {path f : String} (h : Path.head path ≠ f) (d : Document) (v : Json) :
    (d.set path v).get? f = d.get? f := by
  unfold Path.head at h
  unfold set
  match hpath : Path.ofString path with
  | [] => exact absurd hpath (Path.ofString_ne_nil path)
  | [key] =>
    rw [hpath] at h
    exact get?_insert_of_ne h d v
  | key :: next :: rest =>
    rw [hpath] at h
    exact get?_insert_of_ne h d _

/-- Setting a path that leads into a field leaves an object there, which depends on the object that
was there at most. -/
theorem get?_set_under {path f : String} (hhead : Path.head path = f) (hne : path ≠ f)
    (d : Document) (v : Json) : (d.set path v).get? f =
      some (.object ((d.child f).setAt (Path.ofString path).tail v)) := by
  unfold Path.head at hhead
  unfold set
  match hpath : Path.ofString path with
  | [] => exact absurd hpath (Path.ofString_ne_nil path)
  | [key] =>
    rw [hpath] at hhead
    exact absurd ((Path.eq_of_ofString_singleton hpath).trans hhead) hne
  | key :: next :: rest =>
    rw [hpath] at hhead
    obtain rfl : key = f := hhead
    exact get?_insert_self d key _

/-! ## Removing -/

theorem remove_field {name : String} (h : IsField name) (d : Document) :
    d.remove name = d.erase name := by
  rw [remove, Path.ofString_field h, removeEntry]

theorem keys_removeEntry_under (d : Document) (key : String) {path : Path} (h : path ≠ []) :
    keys (removeEntry d (key :: path)) = d.keys := by
  obtain ⟨next, rest, rfl⟩ := List.exists_cons_of_ne_nil h
  induction d with
  | nil => rfl
  | cons e d ih =>
    obtain ⟨k, v⟩ := e
    rw [removeEntry]
    split
    · rfl
    · rw [keys_cons, keys_cons, ih]

/-- Removing a path below a key changes the value under that key only. -/
theorem get?_removeEntry_under (d : Document) (key : String) {path : Path} (h : path ≠ [])
    (other : String) :
    get? (removeEntry d (key :: path)) other =
      if key = other then (d.get? key).map (·.removeAt path) else d.get? other := by
  obtain ⟨next, rest, rfl⟩ := List.exists_cons_of_ne_nil h
  induction d with
  | nil =>
    rw [removeEntry]
    split <;> rfl
  | cons e d ih =>
    obtain ⟨k, v⟩ := e
    rw [removeEntry]
    by_cases hk : k = key
    · subst hk
      rw [if_pos rfl, get?_cons, get?_cons_self, get?_cons]
      split <;> rfl
    · rw [if_neg hk, get?_cons, get?_cons_of_ne hk, ih]
      by_cases hko : k = other
      · have hne : key ≠ other := fun h => hk (hko.trans h.symm)
        rw [if_pos hko, if_neg hne, get?_cons, if_pos hko]
      · rw [if_neg hko, get?_cons, if_neg hko]

theorem get?_remove_under {name : String} (h : IsField name) (d : Document) (rest other : String) :
    (d.remove (name ++ "." ++ rest)).get? other =
      if name = other then (d.get? name).map (·.removeAt (Path.ofString rest))
      else d.get? other := by
  rw [remove, Path.ofString_under h]
  exact get?_removeEntry_under d name (Path.ofString_ne_nil rest) other

/-- Removing a path touches no field but the one that the path starts with. -/
theorem get?_remove_of_head_ne {path f : String} (h : Path.head path ≠ f) {d : Document}
    (hd : d.Unique) : (d.remove path).get? f = d.get? f := by
  unfold Path.head at h
  unfold remove
  match hpath : Path.ofString path with
  | [] => exact absurd hpath (Path.ofString_ne_nil path)
  | [key] =>
    rw [hpath] at h
    rw [removeEntry]
    exact get?_erase_of_ne hd (Ne.symm h)
  | key :: next :: rest =>
    rw [hpath] at h
    have hne : key ≠ f := h
    rw [get?_removeEntry_under d key (List.cons_ne_nil next rest), if_neg hne]

/-- Removing any path leaves the keys distinct. -/
theorem Unique.removeEntry {d : Document} (hd : d.Unique) (path : Path) :
    Unique (removeEntry d path) := by
  match path with
  | [] =>
    rw [Document.removeEntry]
    exact hd
  | [key] =>
    rw [Document.removeEntry]
    exact hd.erase key
  | key :: next :: rest =>
    rw [Unique, keys_removeEntry_under d key (List.cons_ne_nil next rest)]
    exact hd

theorem Unique.remove {d : Document} (hd : d.Unique) (path : String) : (d.remove path).Unique :=
  hd.removeEntry _

end Document

end DocMapper
