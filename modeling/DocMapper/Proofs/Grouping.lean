import DocMapper.Pipeline.Run
import DocMapper.Proofs.Comparison
import DocMapper.Proofs.Outcome
import Mathlib.Data.List.Nodup
import Mathlib.Data.List.Perm.Basic

/-! # Grouping is a partition

A grouping whose fields collect values puts every document into exactly one group
(`Stage.group_partitions`): the groups are the classes of documents with equal keys, in the order in
which the keys first occur, and a group collects the values of its class in the order of the
documents.

A document that is read joins the first class whose first member it equals, or starts a new one
(`Classes.join`). The proof keeps, for the documents read so far, that these are their classes
(`Classes.step`, `Classes.run`), which needs that equality of keys is an equivalence, and follows
the loop class by class: what is gathered of a group are the values of its class
(`Grouping.groupsFrom_gathered`). -/

namespace DocMapper

/-! ## Classes of a list -/

section Classes

variable {α : Type} {same : α → α → Bool}

/-- Whether an item equals the first member of a class. -/
def belongs (same : α → α → Bool) (c : List α) (a : α) : Bool := c.head?.any (same · a)

/-- The classes of the items of a list under an equality: none is empty, each is what the list holds
of the items that equal any of its members, in their order, together they hold each item once, and
they stand in the order in which the first of their members occur. -/
structure Classes (same : α → α → Bool) (items : List α) (classes : List (List α)) : Prop where
  nonempty : ∀ c ∈ classes, c ≠ []
  whole : ∀ c ∈ classes, ∀ a ∈ c, c = items.filter (same a)
  perm : classes.flatten.Perm items
  ordered : (classes.map fun c => items.findIdx (belongs same c)).Pairwise (· < ·)

namespace Classes

/-- Puts an item into the class to which it belongs, or into a new one at the end. -/
def join (same : α → α → Bool) (a : α) : List (List α) → List (List α)
  | [] => [[a]]
  | c :: rest => if belongs same c a then (c ++ [a]) :: rest else c :: join same a rest

/-- An item joins a class or starts one. -/
theorem join_cases (same : α → α → Bool) (a : α) (classes : List (List α)) :
    (∃ before c after, classes = before ++ c :: after ∧ belongs same c a = true ∧
      join same a classes = before ++ (c ++ [a]) :: after) ∨
    (∀ c ∈ classes, belongs same c a = false) ∧ join same a classes = classes ++ [[a]] := by
  induction classes with
  | nil => exact .inr ⟨nofun, rfl⟩
  | cons c rest ih =>
    rw [join]
    split
    · next h => exact .inl ⟨[], c, rest, rfl, h, rfl⟩
    · next h =>
      rcases ih with ⟨before, c', after, rfl, hc', hjoin⟩ | ⟨hrest, hjoin⟩
      · exact .inl ⟨c :: before, c', after, rfl, hc', by rw [hjoin]; rfl⟩
      · refine .inr ⟨fun c' hc' => ?_, by rw [hjoin]; rfl⟩
        rcases List.mem_cons.mp hc' with rfl | hc'
        · exact Bool.eq_false_iff.mpr h
        · exact hrest c' hc'

theorem join_ne_nil {classes : List (List α)} (h : ∀ c ∈ classes, c ≠ []) {a : α} :
    ∀ c ∈ join same a classes, c ≠ [] := by
  rcases join_cases same a classes with ⟨before, c, after, rfl, -, hjoin⟩ | ⟨-, hjoin⟩
  · rw [hjoin]
    simp only [List.forall_mem_append, List.forall_mem_cons] at h ⊢
    exact ⟨h.1, by simp, h.2.2⟩
  · rw [hjoin]
    exact List.forall_mem_append.mpr ⟨h, by simp⟩

theorem nil : Classes same [] [] where
  nonempty := nofun
  whole := nofun
  perm := .nil
  ordered := .nil

theorem belongs_append {c : List α} (h : c ≠ []) (b : α) :
    belongs same (c ++ [b]) = belongs same c := by
  obtain ⟨first, rest, rfl⟩ := List.exists_cons_of_ne_nil h
  rfl

variable {items : List α} {classes before after : List (List α)} {c : List α} {a b : α}

theorem mem_items (h : Classes same items classes) (hc : c ∈ classes) (ha : a ∈ c) : a ∈ items :=
  h.perm.mem_iff.mp (List.mem_flatten.mpr ⟨c, hc, ha⟩)

/-- A class of other items stays whole when an item is read. -/
theorem whole_append (h : Classes same items classes) (hc : c ∈ classes) (ha : a ∈ c)
    (hne : same a b = false) : c = (items ++ [b]).filter (same a) := by
  rw [List.filter_append, List.filter_cons_of_neg (Bool.eq_false_iff.mp hne), List.filter_nil,
    List.append_nil]
  exact h.whole c hc a ha

section Step

variable (hself : ∀ a, same a a = true) (hcongr : ∀ a b, same a b = true → same a = same b)

include hcongr in
/-- Belonging to a class is being equal to any of its members. -/
theorem belongs_eq (h : Classes same items classes) (hc : c ∈ classes) (ha : a ∈ c) :
    belongs same c = same a := by
  obtain ⟨first, rest, rfl⟩ := List.exists_cons_of_ne_nil (h.nonempty c hc)
  show same first = same a
  rw [h.whole _ hc first List.mem_cons_self] at ha
  exact hcongr first a (List.mem_filter.mp ha).2

include hself hcongr in
/-- Where a class begins does not change when another item is read. -/
theorem findIdx_belongs (h : Classes same items classes) (hc : c ∈ classes) (b : α) :
    (items ++ [b]).findIdx (belongs same c) = items.findIdx (belongs same c) ∧
      items.findIdx (belongs same c) < items.length := by
  obtain ⟨a, ha⟩ := List.exists_mem_of_ne_nil c (h.nonempty c hc)
  have hlt : items.findIdx (belongs same c) < items.length := by
    refine List.findIdx_lt_length_of_exists ⟨a, h.mem_items hc ha, ?_⟩
    rw [h.belongs_eq hcongr hc ha, hself]
  rw [List.findIdx_append, if_pos hlt]
  exact ⟨rfl, hlt⟩

include hcongr in
/-- No two classes begin at one place, so an item belongs to one class only. -/
theorem same_eq_false_of_belongs (h : Classes same items (before ++ c :: after))
    (hb : belongs same c b = true) : ∀ c' ∈ before ++ after, ∀ a ∈ c', same a b = false := by
  intro c' hc' a ha
  refine Bool.eq_false_iff.mpr fun hab => ?_
  have hin : before ++ after ⊆ before ++ c :: after :=
    ((List.sublist_cons_self c after).append_left before).subset
  have hc : c ∈ before ++ c :: after := List.mem_append_right _ List.mem_cons_self
  obtain ⟨first, hfirst⟩ := List.exists_mem_of_ne_nil c (h.nonempty c hc)
  have heq : belongs same c' = belongs same c := by
    have hfirstb : same first b = true := h.belongs_eq hcongr hc hfirst ▸ hb
    rw [h.belongs_eq hcongr (hin hc') ha, h.belongs_eq hcongr hc hfirst,
      hcongr a b hab, hcongr first b hfirstb]
  have hnodup : ((before ++ c :: after).map fun c => items.findIdx (belongs same c)).Nodup :=
    h.ordered.imp Nat.ne_of_lt
  rw [List.map_append, List.map_cons, List.nodup_middle, ← List.map_append] at hnodup
  exact (List.nodup_cons.mp hnodup).1 (List.mem_map.mpr ⟨c', hc', by rw [heq]⟩)

include hself hcongr in
/-- An item is put into the class to which it belongs. -/
theorem step_member (h : Classes same items (before ++ c :: after)) (hb : belongs same c b = true) :
    Classes same (items ++ [b]) (before ++ (c ++ [b]) :: after) := by
  have hin : before ++ after ⊆ before ++ c :: after :=
    ((List.sublist_cons_self c after).append_left before).subset
  have hc : c ∈ before ++ c :: after := List.mem_append_right _ List.mem_cons_self
  have hsplit : ∀ c', c' ∈ before ++ (c ++ [b]) :: after →
      c' = c ++ [b] ∨ c' ∈ before ++ after := by
    intro c' hc'
    rw [List.mem_append, List.mem_cons] at hc'
    rw [List.mem_append]
    exact or_left_comm.mp hc'
  have hothers := h.same_eq_false_of_belongs hcongr hb
  obtain ⟨a, ha⟩ := List.exists_mem_of_ne_nil c (h.nonempty c hc)
  have hca : belongs same c = same a := h.belongs_eq hcongr hc ha
  have hab : same a = same b := hcongr a b (hca ▸ hb)
  refine ⟨fun c' hc' => ?_, fun c' hc' x hx => ?_, ?_, ?_⟩
  · rcases hsplit c' hc' with rfl | hc'
    · simp
    · exact h.nonempty c' (hin hc')
  · rcases hsplit c' hc' with rfl | hc'
    · have hxa : same x = same a := by
        rcases List.mem_append.mp hx with hx | hx
        · rw [← hca, h.belongs_eq hcongr hc hx]
        · rw [List.mem_singleton.mp hx, hab]
      rw [hxa, List.filter_append, ← h.whole c hc a ha, List.filter_cons_of_pos (hca ▸ hb),
        List.filter_nil]
    · exact h.whole_append (hin hc') hx (hothers c' hc' x hx)
  · have hperm := h.perm
    rw [List.flatten_append, List.flatten_cons] at hperm ⊢
    refine List.Perm.trans ?_ (hperm.append_right [b])
    rw [List.append_assoc, List.append_assoc, List.append_assoc]
    exact (List.perm_append_comm.append_left c).append_left before.flatten
  · -- Every class begins where it did, the one that has grown too.
    have hplaces : (before ++ (c ++ [b]) :: after).map
          (fun c => (items ++ [b]).findIdx (belongs same c)) =
        (before ++ c :: after).map fun c => items.findIdx (belongs same c) := by
      have hsame : ∀ c' ∈ before ++ c :: after,
          (items ++ [b]).findIdx (belongs same c') = items.findIdx (belongs same c') :=
        fun c' hc' => (h.findIdx_belongs hself hcongr hc' b).1
      rw [← List.map_congr_left hsame, List.map_append, List.map_append, List.map_cons,
        List.map_cons, belongs_append (h.nonempty c hc)]
    rw [hplaces]
    exact h.ordered

include hself hcongr in
/-- An item that belongs to none of the classes starts one of its own. -/
theorem step_start (h : Classes same items classes)
    (hnone : ∀ c ∈ classes, belongs same c b = false) :
    Classes same (items ++ [b]) (classes ++ [[b]]) := by
  have hnot : ∀ c ∈ classes, ∀ x ∈ c, same x b = false := by
    intro c hc x hx
    rw [← h.belongs_eq hcongr hc hx]
    exact hnone c hc
  have hnew : items.filter (same b) = [] := by
    rw [List.filter_eq_nil_iff]
    intro x hx hbx
    obtain ⟨c, hc, hxc⟩ := List.mem_flatten.mp (h.perm.mem_iff.mpr hx)
    have hxb := hnot c hc x hxc
    rw [← hcongr b x hbx, hself] at hxb
    cases hxb
  refine ⟨fun c hc => ?_, fun c hc x hx => ?_, ?_, ?_⟩
  · rcases List.mem_append.mp hc with hc | hc
    · exact h.nonempty c hc
    · rw [List.mem_singleton.mp hc]
      exact List.cons_ne_nil _ _
  · rcases List.mem_append.mp hc with hc | hc
    · exact h.whole_append hc hx (hnot c hc x hx)
    · obtain rfl := List.mem_singleton.mp hc
      rw [List.mem_singleton.mp hx, List.filter_append, hnew, List.filter_cons_of_pos (hself b)]
      rfl
  · rw [List.flatten_append]
    exact h.perm.append_right [b]
  · -- The others begin within the items read before, and the new class after them.
    rw [List.map_append, List.pairwise_append]
    have hplaces : classes.map (fun c => (items ++ [b]).findIdx (belongs same c)) =
        classes.map fun c => items.findIdx (belongs same c) :=
      List.map_congr_left fun c hc => (h.findIdx_belongs hself hcongr hc b).1
    refine ⟨hplaces ▸ h.ordered, List.pairwise_singleton _ _, fun i hi j hj => ?_⟩
    rw [hplaces] at hi
    obtain ⟨c, hc, rfl⟩ := List.mem_map.mp hi
    obtain rfl := List.mem_singleton.mp hj
    have hlt := (h.findIdx_belongs hself hcongr hc b).2
    have hlast : items.length ≤ (items ++ [b]).findIdx (belongs same [b]) := by
      rw [List.findIdx_append, if_neg]
      · omega
      · rw [List.findIdx_lt_length, not_exists]
        rintro x ⟨hx, hbx⟩
        exact List.filter_eq_nil_iff.mp hnew x hx hbx
    exact Nat.lt_of_lt_of_le hlt hlast

include hself hcongr in
/-- One more item is read. -/
theorem step (h : Classes same items classes) (b : α) :
    Classes same (items ++ [b]) (join same b classes) := by
  rcases join_cases same b classes with ⟨before, c, after, rfl, hb, hjoin⟩ | ⟨hnone, hjoin⟩
  · rw [hjoin]
    exact h.step_member hself hcongr hb
  · rw [hjoin]
    exact h.step_start hself hcongr hnone

include hself hcongr in
/-- All items are read. -/
theorem run (h : Classes same items classes) (more : List α) :
    Classes same (items ++ more) (more.foldl (fun classes b => join same b classes) classes) := by
  induction more generalizing items classes with
  | nil => rwa [List.append_nil]
  | cons b more ih =>
    rw [List.append_cons, List.foldl_cons]
    exact ih (h.step hself hcongr b)

end Step

end Classes

end Classes

/-! ## What is gathered of a class -/

namespace Expression

/-- Whether an expression can be evaluated in a document. -/
def CanEval (d : Document) (e : Json) : Prop := ∃ found, eval d e = .ok found

/-- What an expression finds in a document, and null where it finds nothing. -/
def valueIn (d : Document) (e : Json) : Json :=
  match eval d e with
  | .ok (some v) => v
  | _ => .null

theorem CanEval.valueIn_eq {d : Document} {e : Json} (h : CanEval d e) :
    ∃ found, eval d e = .ok found ∧ found.getD .null = valueIn d e := by
  obtain ⟨found, hfound⟩ := h
  refine ⟨found, hfound, ?_⟩
  rw [valueIn, hfound]
  cases found <;> rfl

end Expression

namespace Grouping

open Expression

/-- Whether two documents have equal keys. -/
def sameKey (key : Json) (d e : Document) : Bool := (valueIn d key).equals (valueIn e key)

theorem sameKey_self (key : Json) (d : Document) : sameKey key d d = true :=
  Json.equals_self _

/-- Documents with equal keys have keys equal to the same others. -/
theorem sameKey_congr (key : Json) (d e : Document) (h : sameKey key d e = true) :
    sameKey key d = sameKey key e := by
  funext other
  rw [sameKey, sameKey, Json.equals, Json.equals, Json.compare_congr h (Json.equals_self _)]

/-- The grouping by a key whose fields collect what expressions find. -/
def collecting (key : Json) (fields : List (String × Json)) : Grouping :=
  ⟨key, fields.map fun f => ⟨f.1, "$push", f.2⟩⟩

variable {key : Json} {fields : List (String × Json)} {d : Document}

/-- What is gathered of a class: the key of its first document, and for each field what is found in
all of them. -/
def gathered (key : Json) (fields : List (String × Json)) : List Document → Group
  | [] => (.null, [])
  | d :: rest =>
    (valueIn d key, fields.map fun f => .all ((d :: rest).map fun d => valueIn d f.2))

/-- The document of a class. -/
def ofClass (key : Json) (fields : List (String × Json)) : List Document → Document
  | [] => []
  | d :: rest => ("_id", valueIn d key) ::
      fields.map fun f => (f.1, .array ((d :: rest).map fun d => valueIn d f.2))

theorem document_gathered {c : List Document} (h : c ≠ []) :
    (collecting key fields).document (gathered key fields c) = ofClass key fields c := by
  obtain ⟨d, rest, rfl⟩ := List.exists_cons_of_ne_nil h
  rw [document, gathered, ofClass, collecting, List.zip_map', List.map_map]
  rfl

/-! ## One document -/

/-- Feeding a document to collected values adds what the fields find in it. -/
theorem feedAll_collecting (d : Document) (values : String × Json → List Json) :
    feedAll d (collecting key fields).fields (fields.map fun f => .all (values f)) =
      fields.mapM fun f =>
        (eval d f.2).map fun found => .all (values f ++ [found.getD .null]) := by
  rw [collecting]
  induction fields with
  | nil => rfl
  | cons f fields ih =>
    have hcount : ("$push" == "$count") = false := rfl
    rw [List.map_cons, List.map_cons, feedAll, hcount, if_neg Bool.false_ne_true, ih,
      List.mapM_cons]
    cases eval d f.2 <;> rfl

theorem feedAll_ok (h : ∀ f ∈ fields, CanEval d f.2) (values : String × Json → List Json) :
    feedAll d (collecting key fields).fields (fields.map fun f => .all (values f)) =
      .ok (fields.map fun f => .all (values f ++ [valueIn d f.2])) := by
  rw [feedAll_collecting]
  refine mapM_ok fun f hf => ?_
  obtain ⟨found, hfound, hvalue⟩ := (h f hf).valueIn_eq
  rw [hfound, map_ok, hvalue]

theorem canEval_of_feedAll {values : String × Json → List Json} {accs : List Accumulator}
    (h : feedAll d (collecting key fields).fields (fields.map fun f => .all (values f)) =
      .ok accs) : ∀ f ∈ fields, CanEval d f.2 := by
  rw [feedAll_collecting] at h
  intro f hf
  obtain ⟨before, after, rfl⟩ := List.append_of_mem hf
  obtain ⟨-, acc, -, -, -, hacc, -⟩ := exists_split_of_forall₂ (forall₂_mapM h)
  obtain ⟨found, hfound, -⟩ := map_eq_ok.mp hacc
  exact ⟨found, hfound⟩

theorem start_collecting :
    ((collecting key fields).fields.mapM fun field => Accumulator.start field.operator) =
      .ok (fields.map fun _ => .all []) := by
  rw [collecting, List.mapM_map]
  exact mapM_ok fun _ _ => rfl

open Classes in
/-- A document is taken into the class to which it belongs. -/
theorem add_gathered (h : ∀ f ∈ fields, CanEval d f.2) {classes : List (List Document)}
    (hne : ∀ c ∈ classes, c ≠ []) :
    (collecting key fields).add d (valueIn d key) (classes.map (gathered key fields)) =
      .ok ((join (sameKey key) d classes).map (gathered key fields)) := by
  induction classes with
  | nil =>
    rw [List.map_nil, add, start_collecting, ok_bind, feedAll_ok h]
    rfl
  | cons c classes ih =>
    obtain ⟨hc, hrest⟩ := List.forall_mem_cons.mp hne
    obtain ⟨first, rest, rfl⟩ := List.exists_cons_of_ne_nil hc
    rw [List.map_cons, gathered, add, join]
    by_cases hsame : (valueIn first key).equals (valueIn d key) = true
    · have hbelongs : belongs (sameKey key) (first :: rest) d = true := hsame
      rw [if_pos hsame, if_pos hbelongs, feedAll_ok h]
      show Except.ok _ = Except.ok _
      rw [List.map_cons, List.cons_append, gathered]
      simp only [List.map_cons, List.map_append, List.map_nil, List.cons_append]
    · have hbelongs : ¬ belongs (sameKey key) (first :: rest) d = true := hsame
      rw [if_neg hsame, if_neg hbelongs, ih hrest]
      rfl

/-- A document that is taken into a group can be read by all fields. -/
theorem canEval_of_add {classes : List (List Document)} {k : Json} {groups : List Group}
    (h : (collecting key fields).add d k (classes.map (gathered key fields)) = .ok groups)
    (hne : ∀ c ∈ classes, c ≠ []) : ∀ f ∈ fields, CanEval d f.2 := by
  induction classes generalizing groups with
  | nil =>
    rw [List.map_nil, add, start_collecting, ok_bind] at h
    obtain ⟨accs, haccs, -⟩ := bind_eq_ok.mp h
    exact canEval_of_feedAll haccs
  | cons c classes ih =>
    obtain ⟨hc, hrest⟩ := List.forall_mem_cons.mp hne
    obtain ⟨first, rest, rfl⟩ := List.exists_cons_of_ne_nil hc
    rw [List.map_cons, gathered, add] at h
    split at h
    · obtain ⟨accs, haccs, -⟩ := bind_eq_ok.mp h
      exact canEval_of_feedAll haccs
    · obtain ⟨others, hothers, -⟩ := bind_eq_ok.mp h
      exact ih hothers hrest

/-! ## All documents -/

/-- Whether a grouping can read a document: its key and its fields can be evaluated. -/
def CanRead (key : Json) (fields : List (String × Json)) (d : Document) : Prop :=
  CanEval d key ∧ ∀ f ∈ fields, CanEval d f.2

open Classes in
/-- What is gathered of the documents are the values of their classes. -/
theorem groupsFrom_gathered {docs : List Document} (h : ∀ d ∈ docs, CanRead key fields d)
    (classes : List (List Document)) (hne : ∀ c ∈ classes, c ≠ []) :
    (collecting key fields).groupsFrom (classes.map (gathered key fields)) docs =
      .ok ((docs.foldl (fun classes d => join (sameKey key) d classes) classes).map
        (gathered key fields)) := by
  induction docs generalizing classes with
  | nil => rfl
  | cons d docs ih =>
    obtain ⟨⟨hkey, hfields⟩, hrest⟩ := List.forall_mem_cons.mp h
    obtain ⟨found, hfound, hvalue⟩ := hkey.valueIn_eq
    have heval : eval d (collecting key fields).key = .ok found := hfound
    rw [groupsFrom, heval, ok_bind, hvalue, add_gathered hfields hne, ok_bind]
    exact ih hrest _ (join_ne_nil hne)

/-- Documents that are grouped can all be read. -/
theorem canRead_of_groupsFrom {docs : List Document} (classes : List (List Document))
    {groups : List Group} (hne : ∀ c ∈ classes, c ≠ [])
    (h : (collecting key fields).groupsFrom (classes.map (gathered key fields)) docs = .ok groups) :
    ∀ d ∈ docs, CanRead key fields d := by
  induction docs generalizing classes with
  | nil => exact nofun
  | cons d docs ih =>
    rw [groupsFrom] at h
    obtain ⟨found, hfound, h⟩ := bind_eq_ok.mp h
    obtain ⟨groups', hadd, h⟩ := bind_eq_ok.mp h
    have hkey : CanEval d key := ⟨found, hfound⟩
    have hfields := canEval_of_add hadd hne
    have hvalue : found.getD .null = valueIn d key := by
      obtain ⟨found', hfound', hvalue⟩ := hkey.valueIn_eq
      cases hfound.symm.trans hfound'
      exact hvalue
    rw [hvalue, add_gathered hfields hne] at hadd
    cases hadd
    exact List.forall_mem_cons.mpr ⟨⟨hkey, hfields⟩, ih _ (Classes.join_ne_nil hne) h⟩

/-- The description of a grouping: an expression for the key, and fields that collect what
expressions find. -/
structure Collects (spec : Document) (key : Json) (fields : List (String × Json)) : Prop where
  key : spec.get? "_id" = some key
  fields : spec.filter (·.1 != "_id") = fields.map fun f => (f.1, .single "$push" f.2)

theorem Collects.ofSpec {spec : Document} (h : Collects spec key fields) :
    Grouping.ofSpec spec = .ok (collecting key fields) := by
  have hfields : (fields.map fun f => (f.1, Json.single "$push" f.2)).mapM
      (fun e => fieldOf e.1 e.2) = .ok (collecting key fields).fields := by
    rw [List.mapM_map]
    exact mapM_ok fun _ _ => rfl
  rw [Grouping.ofSpec, h.key, h.fields]
  show (List.mapM _ _ >>= fun _ => _) = _
  rw [hfields]
  rfl

end Grouping

/-! ## The stage -/

open Grouping in
/-- **Grouping is a partition.** A grouping whose fields collect what expressions find succeeds
exactly if its key and its fields can be evaluated in every document. Then there are classes of the
documents by equal keys, in the order in which the keys first occur and with every document in
exactly one, and the result is one document for each class: it holds the key of the first document
of the class, and under each field what the expression finds in the documents of the class, in their
order and with null for nothing. -/
theorem Stage.group_partitions {spec : Document} {key : Json} {fields : List (String × Json)}
    (h : Collects spec key fields) (db : Collections) (docs : List Document) :
    ((∃ out, run db (.group spec) docs = .ok out) ↔ ∀ d ∈ docs, CanRead key fields d) ∧
      ∀ out, run db (.group spec) docs = .ok out →
        ∃ classes, Classes (sameKey key) docs classes ∧ out = classes.map (ofClass key fields) := by
  have hrun : run db (.group spec) docs = ((collecting key fields).groupsFrom [] docs).map
      fun groups => groups.map (collecting key fields).document := by
    rw [run, h.ofSpec]
    rfl
  have hread : ∀ out, run db (.group spec) docs = .ok out → ∀ d ∈ docs, CanRead key fields d := by
    intro out hout
    rw [hrun] at hout
    obtain ⟨groups, hgroups, -⟩ := map_eq_ok.mp hout
    exact canRead_of_groupsFrom [] nofun hgroups
  have hgroups := fun hall : ∀ d ∈ docs, CanRead key fields d =>
    groupsFrom_gathered hall [] nofun
  refine ⟨⟨fun ⟨out, hout⟩ => hread out hout, fun hall => ?_⟩, fun out hout => ?_⟩
  · exact ⟨_, hrun.trans (congrArg (Except.map _) (hgroups hall))⟩
  · have hclasses := Classes.run (sameKey_self key) (sameKey_congr key) Classes.nil docs
    refine ⟨_, hclasses, ?_⟩
    rw [hrun] at hout
    cases hout.symm.trans (congrArg (Except.map _) (hgroups (hread out (hrun.trans hout))))
    show List.map _ (List.map _ _) = _
    rw [List.map_map]
    exact List.map_congr_left fun c hc => document_gathered (hclasses.nonempty c hc)

namespace VisitorSample

open Grouping

/-- Who lives where is collected under each place. -/
def byPlace : Document :=
  [("names", .single "$push" (.string "$name")), ("_id", .string "$place")]

/-- Two places that count as equal, and two documents without a place. -/
def visitors : List Document :=
  [[("name", .string "Ann"), ("place", .int 0)], [("name", .string "Bob")],
    [("name", .string "Cleo"), ("place", .number (.float .zero))], [("place", .null)]]

/-- The names that each group holds. -/
def namesIn (groups : List Document) : List (List (Option String)) :=
  groups.map fun group => (((group.get? "names").bind (·.array?)).getD []).map (·.string?)

theorem visitors_by_place :
    Collects byPlace (.string "$place") [("names", .string "$name")] ∧
      ∃ places classes, Stage.run (fun _ => []) (.group byPlace) visitors = .ok places ∧
        namesIn places = [[some "Ann", some "Cleo"], [some "Bob", none]] ∧
        Classes (sameKey (.string "$place")) visitors classes ∧
        places = classes.map (ofClass (.string "$place") [("names", .string "$name")]) := by
  have hspec : Collects byPlace (.string "$place") [("names", .string "$name")] := ⟨rfl, rfl⟩
  have hnames : (Stage.run (fun _ => []) (.group byPlace) visitors).toOption.map namesIn =
      some [[some "Ann", some "Cleo"], [some "Bob", none]] := by decide +kernel
  obtain ⟨places, hrun, hnames⟩ := Option.map_eq_some_iff.mp hnames
  rw [toOption_eq_some] at hrun
  obtain ⟨classes, hclasses, hplaces⟩ :=
    (Stage.group_partitions hspec _ visitors).2 places hrun
  exact ⟨hspec, places, classes, hrun, hnames, hclasses, hplaces⟩

end VisitorSample

end DocMapper
