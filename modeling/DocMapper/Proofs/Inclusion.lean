import DocMapper.Proofs.Exclusion
import DocMapper.Proofs.Projection

/-! # What an inclusion shows

The tree of an inclusion **reaches** a path (`Inclusion.Reaches`) if following the path through the
tree ends at something that is copied whole. Paths of which none leads to a place on the way to
another (`Path.PrefixFree`) can be put into a tree in any order: the tree reaches these paths and no
others (`Inclusion.reaches_ofPaths`), and none of its objects is empty (`Inclusion.Tidy`).

Such a tree shows a document exactly at the paths it reaches. A path that is reached reads as in the
document (`Inclusion.get?_apply`), because an inclusion keeps the objects of an array in their order
and reading looks at nothing else in it. Where anything is shown at all, a path that is reached leads
there or passes by on its way (`Inclusion.exists_reaches_of_nodeAt?`). -/

namespace DocMapper

open Json (Place)

/-- None of the paths leads to a place on the way to another one. -/
def Path.PrefixFree (paths : List String) : Prop :=
  ∀ p ∈ paths, ∀ q ∈ paths, leadsTo (ofString p) (ofString q) = true → p = q

instance (paths : List String) : Decidable (Path.PrefixFree paths) :=
  inferInstanceAs (Decidable (∀ p ∈ paths, ∀ q ∈ paths, _))

theorem Path.PrefixFree.eq_or_apart {paths : List String} (h : PrefixFree paths) {p q : String}
    (hp : p ∈ paths) (hq : q ∈ paths) : ofString q = ofString p ∨ Apart (ofString p) (ofString q) := by
  by_cases heq : ofString q = ofString p
  · exact .inl heq
  · refine .inr ⟨?_, ?_⟩
    · rw [Bool.eq_false_iff]
      exact fun hto => heq (congrArg ofString (h p hp q hq hto).symm)
    · rw [Bool.eq_false_iff]
      exact fun hto => heq (congrArg ofString (h q hq p hp hto))

namespace Inclusion

variable {tree : List (String × Inclusion)} {key : String} {node : Inclusion} {path q : Path}
  {root d e : Document}

/-! ## The paths of a tree -/

/-- A path leads through a tree to something that is copied whole. -/
inductive Reaches : Inclusion → Path → Prop where
  | whole : Reaches .whole []
  | fields {nodes : List (String × Inclusion)} {key : String} {node : Inclusion} {path : Path}
    (h : (key, node) ∈ nodes) (reaches : Reaches node path) :
    Reaches (.fields nodes) (key :: path)

theorem reaches_whole_iff : Reaches .whole q ↔ q = [] := by
  refine ⟨fun h => ?_, fun h => h ▸ .whole⟩
  cases h
  rfl

theorem not_reaches_nil : ¬ (fields tree).Reaches [] := by
  intro h
  cases h

theorem reaches_fields_iff :
    (fields tree).Reaches (key :: q) ↔ ∃ node, (key, node) ∈ tree ∧ node.Reaches q := by
  refine ⟨fun h => ?_, fun ⟨node, hmem, h⟩ => .fields hmem h⟩
  cases h with
  | fields hmem h => exact ⟨_, hmem, h⟩

theorem not_reaches_empty : ¬ (fields []).Reaches q := by
  intro h
  cases h with
  | fields hmem => exact List.not_mem_nil hmem

theorem not_reaches_of_not_mem (h : key ∉ tree.map (·.1)) : ¬ (fields tree).Reaches (key :: q) := by
  intro hq
  obtain ⟨n, hn, -⟩ := reaches_fields_iff.mp hq
  exact h (List.mem_map.mpr ⟨_, hn, rfl⟩)

theorem reaches_cons_iff {other : String} :
    (fields ((other, node) :: tree)).Reaches (key :: q) ↔
      (key = other ∧ node.Reaches q) ∨ (fields tree).Reaches (key :: q) := by
  simp [reaches_fields_iff, or_and_right, exists_or, and_assoc]

/-- With one node for each key, what is put under a key replaces what was reached there. -/
theorem reaches_put_iff (hnodup : (tree.map (·.1)).Nodup) {other : String} :
    (fields (put tree key node)).Reaches (other :: q) ↔
      (other = key ∧ node.Reaches q) ∨ (other ≠ key ∧ (fields tree).Reaches (other :: q)) := by
  induction tree with
  | nil => simp [put, reaches_fields_iff]
  | cons first tree ih =>
    obtain ⟨k, old⟩ := first
    rw [List.map_cons, List.nodup_cons] at hnodup
    rw [put]
    split
    · next hk =>
      subst hk
      -- No later node stands under the key.
      have hlater : (fields tree).Reaches (other :: q) → other ≠ k := by
        rintro h rfl
        exact not_reaches_of_not_mem hnodup.1 h
      rw [reaches_cons_iff, reaches_cons_iff]
      grind
    · next hk =>
      have hother : other = k → other ≠ key := fun h => h ▸ hk
      rw [reaches_cons_iff, reaches_cons_iff, ih hnodup.2]
      grind

/-! ## Tidy trees -/

/-- An inclusion that copies what is there, with one node for each key and no empty objects. -/
inductive Tidy : Inclusion → Prop where
  | whole : Tidy .whole
  | fields {nodes : List (String × Inclusion)} (hne : nodes ≠ [])
    (hnodup : (nodes.map (·.1)).Nodup) (h : ∀ node ∈ nodes, Tidy node.2) : Tidy (.fields nodes)

/-- The nodes of a tree are tidy, and there is one for each key. -/
structure TidyTree (tree : List (String × Inclusion)) : Prop where
  nodup : (tree.map (·.1)).Nodup
  nodes : ∀ node ∈ tree, node.2.Tidy

theorem tidyTree_nil : TidyTree [] := ⟨List.nodup_nil, fun _ h => absurd h List.not_mem_nil⟩

theorem Tidy.copies (h : node.Tidy) : node.Copies := by
  induction h with
  | whole => exact .whole
  | fields _ _ _ ih => exact .fields ih

/-- A tidy inclusion copies something. -/
theorem Tidy.exists_reaches (h : node.Tidy) : ∃ path, node.Reaches path := by
  induction h with
  | whole => exact ⟨[], .whole⟩
  | fields hne _ _ ih =>
    obtain ⟨first, hfirst⟩ := List.exists_mem_of_ne_nil _ hne
    obtain ⟨path, hpath⟩ := ih first hfirst
    exact ⟨_, .fields hfirst hpath⟩

theorem TidyTree.put (h : TidyTree tree) (hnode : node.Tidy) : TidyTree (put tree key node) := by
  refine ⟨nodup_put h.nodup key node, fun e he => ?_⟩
  rcases mem_put he with rfl | he
  · exact hnode
  · exact h.nodes e he

theorem children_whole (rest : List (String × Inclusion)) :
    children ((key, .whole) :: rest) key = [] := by
  simp [children]

theorem children_fields (nodes rest : List (String × Inclusion)) :
    children ((key, .fields nodes) :: rest) key = nodes := by
  simp [children]

theorem children_of_ne {other : String} (h : other ≠ key) :
    children ((other, node) :: tree) key = children tree key := by
  simp [children, h]

theorem TidyTree.tail {first : String × Inclusion} (h : TidyTree (first :: tree)) :
    TidyTree tree :=
  ⟨(List.nodup_cons.mp h.nodup).2, fun node hnode => h.nodes node (List.mem_cons_of_mem _ hnode)⟩

theorem TidyTree.children (h : TidyTree tree) (key : String) : TidyTree (children tree key) := by
  induction tree with
  | nil => exact tidyTree_nil
  | cons first tree ih =>
    obtain ⟨k, node⟩ := first
    by_cases hk : k = key
    · subst hk
      cases h.nodes _ List.mem_cons_self with
      | whole =>
        rw [children_whole]
        exact tidyTree_nil
      | fields _ hnodup hnodes =>
        rw [children_fields]
        exact ⟨hnodup, hnodes⟩
    · rw [children_of_ne hk]
      exact ih h.tail

/-- Below a key, a tree reaches what its children do. -/
theorem reaches_children_iff (h : TidyTree tree) :
    (fields (children tree key)).Reaches q ↔ q ≠ [] ∧ (fields tree).Reaches (key :: q) := by
  induction tree with
  | nil => simp [children, reaches_fields_iff, not_reaches_empty]
  | cons first tree ih =>
    obtain ⟨k, node⟩ := first
    rw [reaches_cons_iff]
    by_cases hk : k = key
    · subst hk
      have hlater : ¬ (fields tree).Reaches (k :: q) :=
        not_reaches_of_not_mem (List.nodup_cons.mp h.nodup).1
      cases h.nodes _ List.mem_cons_self with
      | whole =>
        rw [children_whole, reaches_whole_iff]
        have := @not_reaches_empty q
        grind
      | fields =>
        rw [children_fields]
        refine ⟨fun hq => ⟨?_, .inl ⟨rfl, hq⟩⟩, fun hq => ?_⟩
        · rintro rfl
          exact not_reaches_nil hq
        · exact (hq.2.resolve_right hlater).2
    · have hne : ¬ (key = k ∧ node.Reaches q) := fun h => hk h.1.symm
      rw [children_of_ne hk, ih h.tail]
      grind

/-! ## Putting paths into a tree -/

theorem tidyTree_insert (h : TidyTree tree) (path : Path) :
    TidyTree (insert tree path .whole) ∧ (path ≠ [] → insert tree path .whole ≠ []) := by
  -- What stands under the first key of a longer path is filled by the rest of the path.
  induction path generalizing tree with
  | nil => exact ⟨h, fun hne => absurd rfl hne⟩
  | cons key path ih =>
    cases path with
    | nil => exact ⟨h.put .whole, fun _ => List.ne_nil_of_mem (mem_put_self tree key _)⟩
    | cons next rest =>
      obtain ⟨hbelow, hne⟩ := ih (h.children key)
      refine ⟨h.put ?_, fun _ => List.ne_nil_of_mem (mem_put_self tree key _)⟩
      exact .fields (hne (List.cons_ne_nil _ _)) hbelow.nodup hbelow.nodes

/-- A path that is put into a tree is reached, and no other that was not, if what was reached lies
apart from it. -/
theorem reaches_insert_iff (h : TidyTree tree) (hpath : path ≠ [])
    (happart : ∀ q, (fields tree).Reaches q → q = path ∨ Path.Apart path q) :
    (fields (insert tree path .whole)).Reaches q ↔ q = path ∨ (fields tree).Reaches q := by
  induction path generalizing tree q with
  | nil => exact absurd rfl hpath
  | cons key path ih =>
    cases q with
    | nil => simp [not_reaches_nil]
    | cons other q =>
      cases path with
      | nil =>
        have hbelow : (fields tree).Reaches (key :: q) → q = [] := by
          intro hq
          rcases happart _ hq with heq | hq
          · exact (List.cons.inj heq).2
          · exact absurd (Path.apart_cons_self.mp hq) Path.not_apart_nil_left
        rw [insert, reaches_put_iff h.nodup, reaches_whole_iff, List.cons.injEq]
        by_cases hkey : other = key
        · subst hkey
          grind
        · grind
      | cons next rest =>
        have hbelow : ∀ q, (fields tree).Reaches (key :: q) →
            q = next :: rest ∨ Path.Apart (next :: rest) q := by
          intro q hq
          rcases happart _ hq with heq | hq
          · exact .inl (List.cons.inj heq).2
          · exact .inr (Path.apart_cons_self.mp hq)
        have hnil : (fields tree).Reaches (key :: q) → q ≠ [] := by
          rintro hq rfl
          rcases hbelow _ hq with heq | hq
          · cases heq
          · exact Path.not_apart_nil_right hq
        have hrest : (fields (insert (children tree key) (next :: rest) .whole)).Reaches q ↔
            q = next :: rest ∨ (fields (children tree key)).Reaches q :=
          ih (h.children key) (List.cons_ne_nil _ _) fun q hq =>
            hbelow q ((reaches_children_iff h).mp hq).2
        rw [reaches_children_iff h] at hrest
        rw [insert, reaches_put_iff h.nodup, hrest, List.cons.injEq]
        · by_cases hkey : other = key
          · subst hkey
            grind
          · grind
        · exact List.cons_ne_nil _ _

theorem reaches_foldl_insert {paths : List String} (h : TidyTree tree)
    (hfree : Path.PrefixFree paths)
    (happart : ∀ p ∈ paths, ∀ q, (fields tree).Reaches q →
      q = Path.ofString p ∨ Path.Apart (.ofString p) q) :
    let built := paths.foldl (fun tree path => insert tree (Path.ofString path) .whole) tree
    TidyTree built ∧
      ∀ q, (fields built).Reaches q ↔ q ∈ paths.map Path.ofString ∨ (fields tree).Reaches q := by
  induction paths generalizing tree with
  | nil => exact ⟨h, fun q => by simp⟩
  | cons path paths ih =>
    have hpath : path ∈ path :: paths := List.mem_cons_self
    have hinsert : ∀ q, (fields (insert tree (Path.ofString path) .whole)).Reaches q ↔
        q = Path.ofString path ∨ (fields tree).Reaches q :=
      fun q => reaches_insert_iff h (Path.ofString_ne_nil path) (happart path hpath)
    obtain ⟨htidy, hreaches⟩ := ih (tidyTree_insert h (.ofString path)).1
      (fun p hp q hq => hfree p (List.mem_cons_of_mem _ hp) q (List.mem_cons_of_mem _ hq))
      (fun p hp q hq => by
        rcases (hinsert q).mp hq with rfl | hq
        · exact hfree.eq_or_apart (List.mem_cons_of_mem _ hp) hpath
        · exact happart p (List.mem_cons_of_mem _ hp) q hq)
    refine ⟨htidy, fun q => ?_⟩
    rw [List.map_cons, List.mem_cons, or_comm (a := q = _), or_assoc, ← hinsert q]
    exact hreaches q

/-- The tree of paths of which none leads on to another reaches these and no others. -/
theorem reaches_ofPaths {paths : List String} (hfree : Path.PrefixFree paths) :
    TidyTree (ofPaths paths) ∧
      ∀ q, (fields (ofPaths paths)).Reaches q ↔ q ∈ paths.map Path.ofString := by
  obtain ⟨htidy, hreaches⟩ := reaches_foldl_insert tidyTree_nil hfree
    fun _ _ _ hq => absurd hq not_reaches_empty
  refine ⟨htidy, fun q => (hreaches q).trans ?_⟩
  rw [or_iff_left not_reaches_empty]

/-! ## Paths that are reached -/

/-- Of an array, only its objects are read. -/
theorem collect_objects (items : List Json) (key : String) (rest : Path) :
    Json.collect ((items.filterMap (·.object?)).map .object) key rest =
      Json.collect items key rest := by
  induction items with
  | nil => rfl
  | cons item items ih =>
    rw [Json.collect_cons item]
    cases item with
    | object d =>
      rw [← ih]
      exact Json.collect_cons _ _ key rest
    | _ => exact ih

/-- What is collected from objects depends on what is read in each of them. -/
theorem collect_congr {docs shown : List Document} {key : String} {rest : Path}
    (h : List.Forall₂ (fun d e => (Json.object e).get? (key :: rest) =
      (Json.object d).get? (key :: rest)) docs shown) :
    Json.collect (shown.map .object) key rest = Json.collect (docs.map .object) key rest := by
  induction h with
  | nil => rfl
  | @cons d e docs shown hread _ ih =>
    rw [List.map_cons, List.map_cons, Json.collect_cons, Json.collect_cons (.object d), ih,
      Json.collect_object, Json.collect_object, hread]

theorem get?_applyAll (hnodup : (tree.map (·.1)).Nodup) (hmem : (key, node) ∈ tree)
    (hnode : ∀ found shown, node.apply root found = .ok shown →
      shown.bind (·.get? path) = found.bind (·.get? path))
    (h : applyAll root tree d = .ok e) :
    (Json.object e).get? (key :: path) = (Json.object d).get? (key :: path) := by
  rw [Document.get?_object_cons, Document.get?_object_cons]
  exact hnode _ _ (apply_eq_get? hnodup h hmem)

/-- A path that is reached reads as it did. -/
theorem get?_apply (h : node.Reaches path) (htidy : node.Tidy) :
    ∀ found shown, node.apply root found = .ok shown →
      shown.bind (·.get? path) = found.bind (·.get? path) := by
  induction h with
  | whole =>
    intro found shown happly
    rw [apply] at happly
    cases happly
    rfl
  | @fields nodes key node path hmem _ ih =>
    cases htidy with
    | fields _ hnodup hnodes =>
      intro found shown happly
      have hall : ∀ d e, applyAll root nodes d = .ok e →
          (Json.object e).get? (key :: path) = (Json.object d).get? (key :: path) :=
        fun d e => get?_applyAll hnodup hmem (ih (hnodes _ hmem))
      rcases apply_fields_cases happly with
        ⟨d, e, rfl, rfl, he⟩ | ⟨items, docs, rfl, rfl, hdocs⟩ | ⟨rfl, hnone⟩
      · exact hall d e he
      · have hread := collect_congr (hdocs.imp hall)
        rw [collect_objects] at hread
        show (Json.array (docs.map .object)).get? (key :: path) =
          (Json.array items).get? (key :: path)
        rw [Json.get?_array, Json.get?_array, hread]
      · exact (hnone key path).symm

/-! ## Places where something is shown -/

theorem exists_reaches_of_applyAll {s : Place} (hne : s = [] → ∃ p, (fields tree).Reaches p)
    (hnodes : ∀ n ∈ tree, ∀ found shown, n.2.apply root found = .ok (some shown) →
      ∀ s : Place, shown.nodeAt? s ≠ none → ∃ p, n.2.Reaches p ∧ ¬ Path.Apart p s.keys)
    (h : applyAll root tree d = .ok e) (hs : (Json.object e).nodeAt? s ≠ none) :
    ∃ p, (fields tree).Reaches p ∧ ¬ Path.Apart p s.keys := by
  match s with
  | [] =>
    obtain ⟨p, hp⟩ := hne rfl
    exact ⟨p, hp, Path.not_apart_nil_right⟩
  | .item i :: s => exact absurd rfl hs
  | .key key :: s =>
    rw [Json.nodeAt?_key] at hs
    cases hget : e.get? key with
    | none => exact absurd (by rw [hget]; rfl) hs
    | some w =>
      rw [hget] at hs
      obtain ⟨node, hmem, happly⟩ := exists_node h (Document.mem_of_get? hget)
      obtain ⟨p, hp, hbelow⟩ := hnodes _ hmem _ _ happly s hs
      exact ⟨key :: p, .fields hmem hp, fun hout => hbelow (Path.apart_cons_self.mp hout)⟩

/-- Where anything is shown, a path that is reached leads there or passes by. -/
theorem exists_reaches_of_nodeAt? (htidy : node.Tidy) :
    ∀ found shown, node.apply root found = .ok (some shown) →
      ∀ s : Place, shown.nodeAt? s ≠ none → ∃ p, node.Reaches p ∧ ¬ Path.Apart p s.keys := by
  induction htidy with
  | whole => exact fun _ _ _ _ _ => ⟨[], .whole, Path.not_apart_nil_left⟩
  | @fields nodes hne hnodup hnodes ih =>
    intro found shown happly s hs
    have hreaches := (Tidy.fields hne hnodup hnodes).exists_reaches
    rcases apply_fields_cases happly with
      ⟨d, e, rfl, hshown, he⟩ | ⟨items, docs, rfl, hshown, hdocs⟩ | ⟨hshown, -⟩
    · cases hshown
      exact exists_reaches_of_applyAll (fun _ => hreaches) ih he hs
    · cases hshown
      cases s with
      | nil =>
        obtain ⟨p, hp⟩ := hreaches
        exact ⟨p, hp, Path.not_apart_nil_right⟩
      | cons step s =>
        rw [Json.nodeAt?_cons] at hs
        obtain ⟨node, hnode⟩ := Option.ne_none_iff_exists'.mp hs
        obtain ⟨v, hv, hnode⟩ := Option.bind_eq_some_iff.mp hnode
        cases step with
        | key name => cases hv
        | item i =>
          obtain ⟨e, he, rfl⟩ := List.mem_map.mp (List.mem_of_getElem? hv)
          obtain ⟨d, -, happly⟩ := exists_of_mem_forall₂ hdocs he
          have hplace : (Json.object e).nodeAt? s ≠ none := hnode ▸ Option.some_ne_none node
          -- A step to an item adds no key to the path.
          have hbelow := exists_reaches_of_applyAll (fun _ => hreaches) ih happly hplace
          exact hbelow
    · cases hshown

/-! ## What paths show -/

/-- **An inclusion shows exactly its paths.** If of several paths none leads to a place on the way to
another, then the tree into which they are put, in any order, makes a document of every document. All
of the paths read in it as in the one that it was made of, and a path that is apart from all of them
reads as nothing, or as an empty array. -/
theorem shows_exactly_paths (paths : List String) (hfree : Path.PrefixFree paths)
    (root d : Document) :
    ∃ e, applyAll root (ofPaths paths) d = .ok e ∧
      (∀ path ∈ paths, e.at? path = d.at? path) ∧
      ∀ other, (∀ path ∈ paths, Path.Apart (.ofString path) (.ofString other)) →
        e.at? other = none ∨ e.at? other = some (.array []) := by
  obtain ⟨htidy, hreaches⟩ := reaches_ofPaths hfree
  obtain ⟨e, he⟩ := @exists_applyAll root d (ofPaths paths)
    fun node hnode => (htidy.nodes node hnode).copies.exists_apply root
  refine ⟨e, he, fun path hpath => ?_, fun other hother => ?_⟩
  · obtain ⟨key, rest, hkeys⟩ := List.exists_cons_of_ne_nil (Path.ofString_ne_nil path)
    have hreached : (fields (ofPaths paths)).Reaches (key :: rest) :=
      (hreaches _).mpr (hkeys ▸ List.mem_map_of_mem hpath)
    obtain ⟨node, hmem, hnode⟩ := reaches_fields_iff.mp hreached
    rw [Document.at?, Document.at?, hkeys]
    exact get?_applyAll htidy.nodup hmem (get?_apply hnode (htidy.nodes _ hmem)) he
  · have hides : (Json.object e).Hides (.ofString other) := by
      refine Json.hides_of_nodeAt? fun s hs => by_contra fun hplace => ?_
      obtain ⟨p, hp, hbelow⟩ := exists_reaches_of_applyAll
        (by
          rintro rfl
          exact absurd hs.symm (Path.ofString_ne_nil other))
        (fun n hn => exists_reaches_of_nodeAt? (htidy.nodes n hn)) he hplace
      obtain ⟨path, hpath, rfl⟩ := List.mem_map.mp ((hreaches p).mp hp)
      exact hbelow (hs ▸ hother path hpath)
    cases hget : e.at? other with
    | none => exact .inl rfl
    | some found => exact .inr (congrArg some (hides found hget))

end Inclusion

/-! ## An invoice -/

namespace InvoiceSample

/-- Among the lines of the invoice there is a remark, which is no object. -/
def invoice : Document :=
  [("number", .string "17"),
    ("customer", .object [("name", .string "Ann"), ("city", .string "Basel")]),
    ("lines", .array [
      .object [("item", .string "pen"), ("price", .string "2")],
      .string "as ordered",
      .object [("price", .string "5")]])]

def paths : List String := ["lines.item", "customer.city"]

def shown : Document :=
  [("lines", .array [.object [("item", .string "pen")], .object []]),
    ("customer", .object [("city", .string "Basel")])]

/-- The items are shown as they read before. Of the prices an empty array is left, and of the number
nothing. -/
theorem invoice_shows_items :
    Path.PrefixFree paths ∧
    Inclusion.applyAll invoice (Inclusion.ofPaths paths) invoice = .ok shown ∧
    invoice.at? "lines.item" = some (.array [.string "pen"]) ∧
    shown.at? "lines.item" = invoice.at? "lines.item" ∧
    (∀ path ∈ paths, Path.Apart (.ofString path) (.ofString "lines.price")) ∧
    (shown.at? "lines.price" = none ∨ shown.at? "lines.price" = some (.array [])) ∧
    shown.at? "lines.price" = some (.array []) ∧ shown.at? "number" = none := by
  have hfree : Path.PrefixFree paths := by decide +kernel
  have hrun : Inclusion.applyAll invoice (Inclusion.ofPaths paths) invoice = .ok shown := by cbv
  have happart : ∀ path ∈ paths, Path.Apart (.ofString path) (.ofString "lines.price") := by
    decide +kernel
  obtain ⟨e, he, hread, hgone⟩ := Inclusion.shows_exactly_paths paths hfree invoice invoice
  cases hrun.symm.trans he
  exact ⟨hfree, hrun, by cbv, hread _ (by decide), happart, hgone _ happart, by cbv, by cbv⟩

end InvoiceSample

end DocMapper
