import DocMapper.Pipeline.Projection
import DocMapper.Proofs.Outcome
import DocMapper.Proofs.Path
import Mathlib.Tactic.Choose

/-! # What projections leave

A projection only leaves things out. A value is a **cut** of another (`Json.Cut`) if fields of its
objects and items of its arrays are missing and nothing else is different. Removing a path gives a
cut (`Json.removeAt_cut`), and so does an inclusion that copies and computes nothing
(`Inclusion.Copies.cut`), which shows no keys but the first ones of its paths
(`Inclusion.mem_keys_ofPaths`). -/

namespace DocMapper

/-! ## Cuts -/

/-- The first value is the second with some fields and items left out. For each item and each entry
of the first, `source` is that of the second from which it comes. -/
inductive Json.Cut : Json → Json → Prop where
  | refl (v : Json) : Cut v v
  | array {items whole : List Json} (source : Json → Json) (h : ∀ v ∈ items, source v ∈ whole)
    (cut : ∀ v ∈ items, Cut v (source v)) : Cut (.array items) (.array whole)
  | object {fields whole : Document} (source : String × Json → Json)
    (h : ∀ e ∈ fields, (e.1, source e) ∈ whole)
    (cut : ∀ e ∈ fields, Cut e.2 (source e)) : Cut (.object fields) (.object whole)

namespace Json.Cut

theorem of_items {items whole : List Json} (h : ∀ v ∈ items, ∃ w ∈ whole, Cut v w) :
    Cut (.array items) (.array whole) := by
  choose! source hsource hcut using h
  exact .array source hsource hcut

theorem of_entries {fields whole : Document}
    (h : ∀ e ∈ fields, ∃ w, (e.1, w) ∈ whole ∧ Cut e.2 w) :
    Cut (.object fields) (.object whole) := by
  choose! source hsource using h
  exact .object source (fun e he => (hsource e he).1) fun e he => (hsource e he).2

theorem exists_entry {fields whole : Document} (h : Cut (.object fields) (.object whole))
    {key : String} {v : Json} (hv : (key, v) ∈ fields) : ∃ w, (key, w) ∈ whole ∧ Cut v w := by
  cases h with
  | refl => exact ⟨v, hv, .refl v⟩
  | object source hsource hcut => exact ⟨source (key, v), hsource _ hv, hcut _ hv⟩

theorem keys_subset {fields whole : Document} (h : Cut (.object fields) (.object whole)) :
    ∀ key ∈ fields.keys, key ∈ whole.keys := by
  intro key hkey
  obtain ⟨⟨k, v⟩, hv, rfl⟩ := List.mem_map.mp hkey
  obtain ⟨w, hw, -⟩ := h.exists_entry hv
  exact Document.mem_keys_of_mem hw

/-- A cut of a cut is a cut. -/
theorem trans {u v w : Json} (h : Cut u v) (h' : Cut v w) : Cut u w := by
  induction h generalizing w with
  | refl => exact h'
  | array source hsource hcut ih =>
    cases h' with
    | refl => exact .array source hsource hcut
    | array source' hsource' hcut' =>
      exact .array (fun v => source' (source v)) (fun v hv => hsource' _ (hsource v hv))
        fun v hv => ih v hv (hcut' _ (hsource v hv))
  | object source hsource hcut ih =>
    cases h' with
    | refl => exact .object source hsource hcut
    | object source' hsource' hcut' =>
      exact .object (fun e => source' (e.1, source e)) (fun e he => hsource' _ (hsource e he))
        fun e he => ih e he (hcut' _ (hsource e he))

end Json.Cut

/-! ## Removing -/

mutual

/-- Removing a path cuts a value. -/
theorem Json.removeAt_cut : ∀ (v : Json) (path : Path), Json.Cut (v.removeAt path) v
  | .object fields, path => by
    rw [Json.removeAt]
    exact .of_entries fun e he => Document.removeEntry_cut fields path e he
  | .array items, path => by
    rw [Json.removeAt]
    exact .of_items fun v hv => Json.removeEach_cut items path v hv
  | .null, _ => .refl _
  | .bool _, _ => .refl _
  | .number _, _ => .refl _
  | .string _, _ => .refl _

theorem Document.removeEntry_cut :
    ∀ (d : Document) (path : Path), ∀ e ∈ Document.removeEntry d path,
    ∃ w, (e.1, w) ∈ d ∧ Json.Cut e.2 w
  | d, [], e, he => by
    rw [Document.removeEntry] at he
    exact ⟨e.2, he, .refl _⟩
  | d, [key], e, he => by
    rw [Document.removeEntry] at he
    exact ⟨e.2, Document.mem_of_mem_erase he, .refl _⟩
  | [], _ :: _ :: _, e, he => by
    rw [Document.removeEntry] at he
    cases he
  | (k, v) :: d, key :: next :: rest, e, he => by
    rw [Document.removeEntry] at he
    split at he
    · rcases List.mem_cons.mp he with rfl | he
      · exact ⟨v, List.mem_cons_self, Json.removeAt_cut v (next :: rest)⟩
      · exact ⟨e.2, List.mem_cons_of_mem _ he, .refl _⟩
    · rcases List.mem_cons.mp he with rfl | he
      · exact ⟨v, List.mem_cons_self, .refl _⟩
      · obtain ⟨w, hw, hcut⟩ := Document.removeEntry_cut d (key :: next :: rest) e he
        exact ⟨w, List.mem_cons_of_mem _ hw, hcut⟩

theorem Json.removeEach_cut : ∀ (items : List Json) (path : Path),
    ∀ v ∈ Json.removeEach items path, ∃ w ∈ items, Json.Cut v w
  | [], _, v, hv => by
    rw [Json.removeEach] at hv
    cases hv
  | item :: items, path, v, hv => by
    rw [Json.removeEach] at hv
    rcases List.mem_cons.mp hv with rfl | hv
    · exact ⟨item, List.mem_cons_self, Json.removeAt_cut item path⟩
    · obtain ⟨w, hw, hcut⟩ := Json.removeEach_cut items path v hv
      exact ⟨w, List.mem_cons_of_mem _ hw, hcut⟩

end

/-! ## Inclusions -/

namespace Inclusion

/-- An inclusion that copies what is there and computes nothing. -/
inductive Copies : Inclusion → Prop where
  | whole : Copies .whole
  | fields {nodes : List (String × Inclusion)} (h : ∀ node ∈ nodes, Copies node.2) :
    Copies (.fields nodes)

/-- What an inclusion shows under a key comes from a node under that key. -/
theorem exists_node {root source d : Document} {tree : List (String × Inclusion)}
    (h : applyAll root tree source = .ok d) {e : String × Json} (he : e ∈ d) :
    ∃ node, (e.1, node) ∈ tree ∧ node.apply root (source.get? e.1) = .ok (some e.2) := by
  induction tree generalizing d with
  | nil =>
    cases h
    cases he
  | cons first tree ih =>
    obtain ⟨key, node⟩ := first
    rw [applyAll] at h
    obtain ⟨value, hvalue, h⟩ := bind_eq_ok.mp h
    obtain ⟨others, hothers, h⟩ := bind_eq_ok.mp h
    have hrest : e ∈ others → ∃ n, (e.1, n) ∈ (key, node) :: tree ∧
        n.apply root (source.get? e.1) = .ok (some e.2) := by
      intro he
      obtain ⟨n, hn, happly⟩ := ih hothers he
      exact ⟨n, List.mem_cons_of_mem _ hn, happly⟩
    cases value with
    | none =>
      cases h
      exact hrest he
    | some v =>
      cases h
      rcases List.mem_cons.mp he with rfl | he
      · exact ⟨node, List.mem_cons_self, hvalue⟩
      · exact hrest he

/-- An inclusion shows no keys but those of its nodes. -/
theorem mem_keys_of_applyAll {root source d : Document} {tree : List (String × Inclusion)}
    (h : applyAll root tree source = .ok d) {key : String} (hkey : key ∈ d.keys) :
    key ∈ tree.map (·.1) := by
  obtain ⟨e, he, rfl⟩ := List.mem_map.mp hkey
  obtain ⟨node, hnode, -⟩ := exists_node h he
  exact List.mem_map.mpr ⟨_, hnode, rfl⟩

/-- An inclusion with one node for each key shows each key once. -/
theorem unique_applyAll {root source d : Document} {tree : List (String × Inclusion)}
    (hnodup : (tree.map (·.1)).Nodup) (h : applyAll root tree source = .ok d) : d.Unique := by
  induction tree generalizing d with
  | nil =>
    cases h
    exact Document.unique_nil
  | cons first tree ih =>
    obtain ⟨key, node⟩ := first
    rw [List.map_cons, List.nodup_cons] at hnodup
    rw [applyAll] at h
    obtain ⟨value, -, h⟩ := bind_eq_ok.mp h
    obtain ⟨others, hothers, h⟩ := bind_eq_ok.mp h
    cases value with
    | none =>
      cases h
      exact ih hnodup.2 hothers
    | some v =>
      cases h
      exact Document.unique_cons.mpr
        ⟨fun hkey => hnodup.1 (mem_keys_of_applyAll hothers hkey), ih hnodup.2 hothers⟩

/-- What a node under a key makes of the source is shown under that key, if no other node is. -/
theorem apply_eq_get? {root source d : Document} {tree : List (String × Inclusion)}
    (hnodup : (tree.map (·.1)).Nodup) (h : applyAll root tree source = .ok d) {key : String}
    {node : Inclusion} (hmem : (key, node) ∈ tree) :
    node.apply root (source.get? key) = .ok (d.get? key) := by
  induction tree generalizing d with
  | nil => cases hmem
  | cons first tree ih =>
    obtain ⟨k, n⟩ := first
    rw [List.map_cons, List.nodup_cons] at hnodup
    rw [applyAll] at h
    obtain ⟨value, hvalue, h⟩ := bind_eq_ok.mp h
    obtain ⟨others, hothers, h⟩ := bind_eq_ok.mp h
    rcases List.mem_cons.mp hmem with heq | hmem
    · cases heq
      -- The key is not among those of the other nodes, so what this node finds decides.
      have hnone : others.get? key = none := Document.get?_eq_none_iff.mpr fun hkey =>
        hnodup.1 (mem_keys_of_applyAll hothers hkey)
      cases value with
      | none =>
        cases h
        rw [hvalue, hnone]
      | some v =>
        cases h
        rw [hvalue, Document.get?_cons_self]
    · have hne : k ≠ key := by
        rintro rfl
        exact hnodup.1 (List.mem_map.mpr ⟨_, hmem, rfl⟩)
      have hrest := ih hnodup.2 hothers hmem
      cases value with
      | none =>
        cases h
        exact hrest
      | some v =>
        cases h
        rw [Document.get?_cons_of_ne hne]
        exact hrest

/-- What fields show: of an object an object, of an array the objects in it, and of anything else,
which cannot be read further either, nothing. -/
theorem apply_fields_cases {root : Document} {nodes : List (String × Inclusion)}
    {found shown : Option Json} (h : (fields nodes).apply root found = .ok shown) :
    (∃ d e, found = some (.object d) ∧ shown = some (.object e) ∧
      applyAll root nodes d = .ok e) ∨
    (∃ items docs, found = some (.array items) ∧ shown = some (.array (docs.map .object)) ∧
      List.Forall₂ (fun d e => applyAll root nodes d = .ok e)
        (items.filterMap (·.object?)) docs) ∨
    shown = none ∧ ∀ key rest, found.bind (·.get? (key :: rest)) = none := by
  match found with
  | some (.object d) =>
    rw [apply] at h
    obtain ⟨e, he, h⟩ := bind_eq_ok.mp h
    cases h
    exact .inl ⟨d, e, rfl, rfl, he⟩
  | some (.array items) =>
    rw [apply] at h
    obtain ⟨docs, hdocs, h⟩ := bind_eq_ok.mp h
    cases h
    exact .inr (.inl ⟨items, docs, rfl, rfl, forall₂_mapM hdocs⟩)
  | none | some .null | some (.bool _) | some (.number _) | some (.string _) =>
    cases h
    exact .inr (.inr ⟨rfl, fun _ _ => rfl⟩)

/-- A tree of copies cuts a document. -/
theorem applyAll_cut {root source d : Document} {tree : List (String × Inclusion)}
    (hcut : ∀ node ∈ tree, ∀ found v, node.2.apply root found = .ok (some v) →
      ∃ w, found = some w ∧ Json.Cut v w)
    (h : applyAll root tree source = .ok d) : Json.Cut (.object d) (.object source) := by
  refine .of_entries fun e he => ?_
  obtain ⟨node, hnode, happly⟩ := exists_node h he
  obtain ⟨w, hw, hcut⟩ := hcut _ hnode _ _ happly
  exact ⟨w, Document.mem_of_get? hw, hcut⟩

/-- What copies show is a cut of what was there. -/
theorem Copies.cut {node : Inclusion} (h : node.Copies) (root : Document) :
    ∀ found v, node.apply root found = .ok (some v) → ∃ w, found = some w ∧ Json.Cut v w := by
  induction h with
  | whole =>
    intro found v hv
    rw [Inclusion.apply] at hv
    cases hv
    exact ⟨v, rfl, .refl v⟩
  | @fields nodes _ ih =>
    intro found v hv
    rcases apply_fields_cases hv with ⟨d, e, rfl, hv, he⟩ | ⟨items, docs, rfl, hv, hdocs⟩ | ⟨hv, -⟩
    · cases hv
      exact ⟨_, rfl, applyAll_cut ih he⟩
    · cases hv
      refine ⟨_, rfl, .of_items fun w hw => ?_⟩
      obtain ⟨e, he, rfl⟩ := List.mem_map.mp hw
      obtain ⟨d, hd, happly⟩ := exists_of_mem_forall₂ hdocs he
      obtain ⟨item, hitem, hobject⟩ := List.mem_filterMap.mp hd
      cases item with
      | object fields =>
        cases hobject
        exact ⟨_, hitem, applyAll_cut ih happly⟩
      | _ => cases hobject
    · cases hv

theorem exists_applyAll {root source : Document} {tree : List (String × Inclusion)}
    (h : ∀ node ∈ tree, ∀ found, ∃ v, node.2.apply root found = .ok v) :
    ∃ d, applyAll root tree source = .ok d := by
  induction tree with
  | nil => exact ⟨[], rfl⟩
  | cons first tree ih =>
    obtain ⟨key, node⟩ := first
    obtain ⟨v, hv⟩ := h _ List.mem_cons_self (source.get? key)
    obtain ⟨d, hd⟩ := ih fun node hnode => h node (List.mem_cons_of_mem _ hnode)
    rw [applyAll, hv, hd]
    cases v with
    | none => exact ⟨_, rfl⟩
    | some v => exact ⟨_, rfl⟩

/-- Copying cannot fail. -/
theorem Copies.exists_apply {node : Inclusion} (h : node.Copies) (root : Document) :
    ∀ found, ∃ v, node.apply root found = .ok v := by
  induction h with
  | whole => exact fun found => ⟨found, rfl⟩
  | @fields nodes _ ih =>
    intro found
    match found with
    | some (.object source) =>
      obtain ⟨d, hd⟩ := @exists_applyAll root source nodes ih
      rw [apply, hd]
      exact ⟨_, rfl⟩
    | some (.array items) =>
      obtain ⟨docs, hdocs⟩ := exists_mapM fun source
        (_ : source ∈ items.filterMap (·.object?)) => @exists_applyAll root source nodes ih
      rw [apply, hdocs]
      exact ⟨_, rfl⟩
    | none | some .null | some (.bool _) | some (.number _) | some (.string _) => exact ⟨_, rfl⟩

/-! ## Trees of paths -/

theorem mem_put {tree : List (String × Inclusion)} {key : String} {node : Inclusion}
    {e : String × Inclusion} (h : e ∈ put tree key node) : e = (key, node) ∨ e ∈ tree := by
  induction tree with
  | nil => exact .inl (List.mem_singleton.mp h)
  | cons first tree ih =>
    obtain ⟨k, old⟩ := first
    rw [put] at h
    split at h
    · next hk =>
      rcases List.mem_cons.mp h with rfl | h
      · exact .inl (by rw [hk])
      · exact .inr (List.mem_cons_of_mem _ h)
    · rcases List.mem_cons.mp h with rfl | h
      · exact .inr List.mem_cons_self
      · rcases ih h with rfl | h
        · exact .inl rfl
        · exact .inr (List.mem_cons_of_mem _ h)

theorem mem_put_self (tree : List (String × Inclusion)) (key : String) (node : Inclusion) :
    (key, node) ∈ put tree key node := by
  induction tree with
  | nil => exact List.mem_cons_self
  | cons first tree ih =>
    obtain ⟨k, old⟩ := first
    rw [put]
    split
    · next hk =>
      rw [hk]
      exact List.mem_cons_self
    · exact List.mem_cons_of_mem _ ih

theorem mem_put_of_ne {tree : List (String × Inclusion)} {key : String} {node : Inclusion}
    {e : String × Inclusion} (h : e ∈ tree) (hne : e.1 ≠ key) : e ∈ put tree key node := by
  induction tree with
  | nil => cases h
  | cons first tree ih =>
    obtain ⟨k, old⟩ := first
    rw [put]
    rcases List.mem_cons.mp h with rfl | h
    · rw [if_neg hne]
      exact List.mem_cons_self
    · split
      · exact List.mem_cons_of_mem _ h
      · exact List.mem_cons_of_mem _ (ih h)

theorem nodup_put {tree : List (String × Inclusion)} (h : (tree.map (·.1)).Nodup) (key : String)
    (node : Inclusion) : ((put tree key node).map (·.1)).Nodup := by
  induction tree with
  | nil => exact List.pairwise_singleton _ key
  | cons first tree ih =>
    obtain ⟨k, old⟩ := first
    rw [List.map_cons, List.nodup_cons] at h
    rw [put]
    split
    · exact List.nodup_cons.mpr h
    · next hk =>
      refine List.nodup_cons.mpr ⟨fun hmem => ?_, ih h.2⟩
      obtain ⟨e, he, rfl⟩ := List.mem_map.mp hmem
      rcases mem_put he with rfl | he
      · exact hk rfl
      · exact h.1 (List.mem_map.mpr ⟨e, he, rfl⟩)

@[simp] theorem put_put (tree : List (String × Inclusion)) (key : String) (node new : Inclusion) :
    put (put tree key node) key new = put tree key new := by
  induction tree with
  | nil => simp [put]
  | cons first tree ih =>
    obtain ⟨k, old⟩ := first
    rw [put, put]
    split
    · next hk => rw [put, if_pos hk]
    · next hk => rw [put, if_neg hk, ih]

@[simp] theorem children_put (tree : List (String × Inclusion)) (key : String)
    (nodes : List (String × Inclusion)) : children (put tree key (.fields nodes)) key = nodes := by
  induction tree with
  | nil => simp [put, children]
  | cons first tree ih =>
    obtain ⟨k, old⟩ := first
    rw [put]
    split
    · next hk => simp [children, hk]
    · next hk => simp [children, hk, ih]

/-- The children under a key are copies where the tree is. -/
theorem copies_children {tree : List (String × Inclusion)} (h : ∀ e ∈ tree, e.2.Copies)
    (key : String) : ∀ e ∈ children tree key, e.2.Copies := by
  induction tree with
  | nil =>
    intro e he
    cases he
  | cons first tree ih =>
    obtain ⟨k, node⟩ := first
    have hnode : node.Copies := h _ List.mem_cons_self
    by_cases hk : k = key
    · cases hnode with
      | whole =>
        intro e he
        simp [children, hk] at he
      | fields hnodes =>
        intro e he
        simp only [children, hk, if_true] at he
        exact hnodes e he
    · intro e he
      simp only [children, hk, if_false] at he
      exact ih (fun e he => h e (List.mem_cons_of_mem _ he)) e he

/-- A path that is put into a tree adds no key but its first. -/
theorem mem_keys_insert {tree : List (String × Inclusion)} {path : Path} {node : Inclusion}
    {key : String} (h : key ∈ (insert tree path node).map (·.1)) :
    path.head? = some key ∨ key ∈ tree.map (·.1) := by
  match path with
  | [] => exact .inr h
  | [first] =>
    obtain ⟨e, he, rfl⟩ := List.mem_map.mp h
    rcases mem_put he with rfl | he
    · exact .inl rfl
    · exact .inr (List.mem_map.mpr ⟨e, he, rfl⟩)
  | first :: next :: rest =>
    obtain ⟨e, he, rfl⟩ := List.mem_map.mp h
    rcases mem_put he with rfl | he
    · exact .inl rfl
    · exact .inr (List.mem_map.mpr ⟨e, he, rfl⟩)

/-- A tree of copies stays one when a path is copied. -/
theorem copies_insert {tree : List (String × Inclusion)} (h : ∀ e ∈ tree, e.2.Copies)
    (path : Path) : ∀ e ∈ insert tree path .whole, e.2.Copies := by
  -- A longer path goes on in the tree that stands under its first key.
  induction path generalizing tree with
  | nil => exact h
  | cons key path ih =>
    cases path with
    | nil =>
      intro e he
      rcases mem_put he with rfl | he
      · exact .whole
      · exact h e he
    | cons next rest =>
      intro e he
      rcases mem_put he with rfl | he
      · exact .fields (ih (copies_children h key))
      · exact h e he

/-- The tree that copies what paths lead to. -/
def ofPaths (paths : List String) : List (String × Inclusion) :=
  paths.foldl (fun tree path => insert tree (Path.ofString path) .whole) []

theorem copies_foldl_insert {paths : List String} {tree : List (String × Inclusion)}
    (h : ∀ e ∈ tree, e.2.Copies) :
    ∀ e ∈ paths.foldl (fun tree path => insert tree (Path.ofString path) .whole) tree,
      e.2.Copies := by
  induction paths generalizing tree with
  | nil => exact h
  | cons path paths ih => exact ih (copies_insert h _)

theorem copies_ofPaths (paths : List String) : (Inclusion.fields (ofPaths paths)).Copies :=
  .fields (copies_foldl_insert fun _ he => absurd he List.not_mem_nil)

/-- Paths that are put into a tree leave it with one node for each key. -/
theorem nodup_foldl_insert {paths : List String} {tree : List (String × Inclusion)}
    (h : (tree.map (·.1)).Nodup) :
    ((paths.foldl (fun tree path => insert tree (Path.ofString path) .whole) tree).map
      (·.1)).Nodup := by
  induction paths generalizing tree with
  | nil => exact h
  | cons path paths ih =>
    refine ih ?_
    show ((insert tree (Path.ofString path) .whole).map (·.1)).Nodup
    match Path.ofString path with
    | [] => exact h
    | [first] => exact nodup_put h first _
    | first :: next :: rest => exact nodup_put h first _

/-- Paths that are put into a tree add no keys but their first ones. -/
theorem mem_keys_foldl_insert {paths : List String} {tree : List (String × Inclusion)}
    {key : String}
    (h : key ∈ (paths.foldl (fun tree path => insert tree (Path.ofString path) .whole) tree).map
      (·.1)) : key ∈ paths.map Path.head ∨ key ∈ tree.map (·.1) := by
  induction paths generalizing tree with
  | nil => exact .inr h
  | cons path paths ih =>
    rcases ih h with h | h
    · exact .inl (List.mem_cons_of_mem _ h)
    · rcases mem_keys_insert h with h | h
      · refine .inl (List.mem_cons.mpr (.inl ?_))
        rw [Path.head, List.headD_eq_head?_getD, h]
        rfl
      · exact .inr h

/-- The keys of the tree are the first keys of the paths. -/
theorem mem_keys_ofPaths {paths : List String} {key : String}
    (h : key ∈ (ofPaths paths).map (·.1)) : key ∈ paths.map Path.head := by
  rcases mem_keys_foldl_insert h with h | h
  · exact h
  · cases h

/-- Paths below one key fill one node. -/
theorem foldl_insert_under (tree : List (String × Inclusion)) {key : String} (h : IsField key)
    {paths : List String} (hne : paths ≠ []) :
    paths.foldl (fun tree path => insert tree (Path.ofString (key ++ "." ++ path)) .whole) tree =
      put tree key (.fields (paths.foldl
        (fun tree path => insert tree (Path.ofString path) .whole) (children tree key))) := by
  have hinsert : ∀ (tree : List (String × Inclusion)) (path : String),
      insert tree (Path.ofString (key ++ "." ++ path)) .whole =
        put tree key (.fields (insert (children tree key) (Path.ofString path) .whole)) := by
    intro tree path
    rw [Path.ofString_under h, insert]
    exact Path.ofString_ne_nil path
  induction paths generalizing tree with
  | nil => exact absurd rfl hne
  | cons path paths ih =>
    rw [List.foldl_cons, hinsert]
    cases paths with
    | nil => rfl
    | cons next paths =>
      rw [ih _ (List.cons_ne_nil _ _), put_put, children_put]
      rfl

end Inclusion

end DocMapper
