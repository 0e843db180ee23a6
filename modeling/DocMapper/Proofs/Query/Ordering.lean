import DocMapper.Proofs.Comparison
import DocMapper.Proofs.Query.Carrying
import DocMapper.Proofs.Relation.Predicates
import DocMapper.Proofs.Sorting

/-! # The order of what a query gets

A query sorts by its columns one after the other. What stands at a column is compared in the order of
values, or, without regard to case, by its text in lower case (`SortKey.orderAll`). For the latter
the stages of the query give temporary fields to each document, sort by these as well, and drop them
again, after which each document is as it was stored (`Query.run_orderingStages`).

The stage that sorts has each column once, and if a column is given twice, the later direction
replaces the earlier one. So the columns that a query sorts by are not those that it was given, but
those that they settle to (`Query.settled`). The documents tell the difference exactly if a column is
given in two directions and decides something (`Query.columns_in_order`). -/

namespace DocMapper

/-! ## The order of columns -/

namespace SortKey

/-- The text by which a document is sorted without regard to case. -/
def text (key : SortKey) (d : Document) : String :=
  Text.lower (Expression.caseText (d.at? key.column))

/-- The order of documents by what they hold at a column. -/
def ascending (key : SortKey) : Document → Document → Ordering :=
  if key.foldsCase then compareOn key.text
  else fun d e => ((d.at? key.column).getD .null).compare ((e.at? key.column).getD .null)

/-- The order of documents by one column alone. -/
def order (key : SortKey) : Document → Document → Ordering :=
  match key.direction with
  | .ascending => key.ascending
  | .descending => fun d e => key.ascending e d

/-- The order of documents by several columns: the first one on which they differ decides. -/
def orderAll : List SortKey → Document → Document → Ordering
  | [] => fun _ _ => .eq
  | key :: keys => compareLex key.order (orderAll keys)

instance (key : SortKey) : Std.TransCmp key.ascending := by
  unfold ascending
  split
  · infer_instance
  · exact {
      eq_swap := Std.OrientedCmp.eq_swap
      isLE_trans := Std.TransCmp.isLE_trans }

theorem order_eq (key : SortKey) (d e : Document) : key.order d e =
    if key.direction == .descending then (key.ascending d e).swap else key.ascending d e := by
  have hswap : key.ascending e d = (key.ascending d e).swap := Std.OrientedCmp.eq_swap
  rw [order, ← hswap]
  cases key.direction <;> rfl

theorem order_eq_eq_iff {key : SortKey} {d e : Document} :
    key.order d e = .eq ↔ key.ascending d e = .eq := by
  rw [order_eq]
  cases key.ascending d e <;> cases key.direction <;> decide

instance (key : SortKey) : Std.TransCmp key.order := by
  unfold order
  cases key.direction with
  | ascending => infer_instance
  | descending => exact Std.TransCmp.opposite

instance instTransCmpOrderAll : (keys : List SortKey) → Std.TransCmp (orderAll keys)
  | [] => { eq_swap := rfl, isLE_trans := fun _ _ => rfl }
  | key :: keys =>
    have := instTransCmpOrderAll keys
    inferInstanceAs (Std.TransCmp (compareLex key.order (orderAll keys)))

end SortKey

/-! ## Temporary fields -/

namespace Query

variable {ordering : List SortKey}

/-- The temporary fields of a sort with the texts that a document gets in them. -/
def foldedTexts (ordering : List SortKey) (d : Document) : Document :=
  (ordering.zipIdx.filter (·.1.foldsCase)).map fun (key, position) =>
    (foldedField position, .string (key.text d))

theorem keys_foldedTexts (ordering : List SortKey) (d : Document) :
    (foldedTexts ordering d).keys = (foldedFields ordering).keys := by
  rw [foldedTexts, foldedFields, Document.keys, Document.keys, List.map_map, List.map_map]
  rfl

theorem unique_foldedTexts (ordering : List SortKey) (d : Document) :
    (foldedTexts ordering d).Unique := by
  have hpositions : ((ordering.zipIdx.filter (·.1.foldsCase)).map (·.2)).Nodup := by
    refine List.Nodup.sublist (List.filter_sublist.map _) ?_
    rw [List.zipIdx_map_snd]
    exact List.nodup_range'
  have hkeys : (foldedTexts ordering d).keys =
      ((ordering.zipIdx.filter (·.1.foldsCase)).map (·.2)).map foldedField := by
    rw [foldedTexts, Document.keys, List.map_map, List.map_map]
    rfl
  rw [Document.Unique, hkeys]
  exact List.pairwise_map.mpr (hpositions.imp fun hne heq => hne (foldedField_inj heq))

theorem isField_of_mem_foldedTexts {d : Document} {field : String}
    (h : field ∈ (foldedTexts ordering d).keys) : IsField field :=
  isField_of_mem_foldedFields (keys_foldedTexts ordering d ▸ h)

/-- What a sort can do with its columns: a column that it folds is no operator, and no other one
starts with a temporary field. -/
structure Plain (ordering : List SortKey) : Prop where
  folded : ∀ key ∈ ordering, key.foldsCase = true → startsDollar key.column = false
  exact : ∀ key ∈ ordering, key.foldsCase = false →
    Path.head key.column ∉ (foldedFields ordering).keys

/-- A document without keys as temporary fields have. -/
def NoTemporary (d : Document) : Prop := ∀ key ∈ d.keys, ¬ "__order_".toList <+: key.toList

instance (d : Document) : Decidable (NoTemporary d) :=
  inferInstanceAs (Decidable (∀ key ∈ d.keys, ¬ "__order_".toList <+: key.toList))

theorem NoTemporary.not_mem {d : Document} (h : NoTemporary d) :
    ∀ key ∈ (foldedTexts ordering d).keys, key ∉ d.keys := by
  intro key hkey hmem
  rw [keys_foldedTexts] at hkey
  obtain ⟨-, position, -, -, rfl⟩ := mem_keys_foldedFields.mp hkey
  exact h _ hmem (toList_foldedField position ▸ List.prefix_append _ _)

/-- A document with the temporary fields of a sort. -/
def withTexts (ordering : List SortKey) (d : Document) : Document := d ++ foldedTexts ordering d

/-- What is computed for a temporary field is the folded text of its column. -/
theorem eval_toLower {key : SortKey} (hcolumn : startsDollar key.column = false) (d : Document) :
    Expression.eval d (.single "$toLower" (.string ("$" ++ key.column))) =
      .ok (some (.string (key.text d))) := by
  rw [Json.single, Expression.eval_entry (by rintro _ ⟨⟩), Expression.eval_reference hcolumn]
  rfl

/-- The temporary fields are appended to a document. -/
theorem extended_foldedFields (hplain : Plain ordering) {d : Document} (hd : NoTemporary d) :
    Stage.extended (foldedFields ordering) d = .ok (withTexts ordering d) := by
  have hvalues : (foldedFields ordering).mapM (fun entry => do
      return (entry.1, ← Expression.eval d entry.2) : _ → Except QueryFault _) =
        .ok ((foldedTexts ordering d).map fun entry => (entry.1, some entry.2)) := by
    rw [foldedFields, foldedTexts, mapM_eq_ok_iff, List.map_map, List.forall₂_map_left_iff,
      List.forall₂_map_right_iff, List.forall₂_same]
    rintro ⟨key, position⟩ hmem
    obtain ⟨hmem, hfolds⟩ := List.mem_filter.mp hmem
    have hcolumn := hplain.folded key (List.fst_mem_of_mem_zipIdx hmem) hfolds
    rw [eval_toLower hcolumn]
    rfl
  have hfields : ∀ field ∈ (foldedTexts ordering d).keys, IsField field :=
    fun _ => isField_of_mem_foldedTexts
  rw [Stage.extended, hvalues, ok_bind, withTexts,
    ← Document.merge_of_disjoint (unique_foldedTexts ordering d) hd.not_mem,
    ← Stage.extendedBy_some hfields]
  rfl

/-- The temporary fields are removed again. -/
theorem removeAll_withTexts {d : Document} (hd : NoTemporary d) :
    Update.removeAll (withTexts ordering d) (foldedFields ordering).keys = d := by
  rw [← keys_foldedTexts ordering d,
    Update.removeAll_eq_erase (fun _ => isField_of_mem_foldedTexts), withTexts,
    Document.foldl_erase_append hd.not_mem,
    Document.foldl_erase_keys (unique_foldedTexts ordering d), List.append_nil]

/-! ## What a query sorts by -/

/-- What is sorted by: the fields of the columns, with their directions. -/
def sortFields (ordering : List SortKey) : List (String × SortDirection) :=
  ordering.zipIdx.map fun (key, position) => (sortField key position, key.direction)

/-- The columns that are sorted with regard to case, with their directions. -/
def exactColumns (ordering : List SortKey) : List (String × SortDirection) :=
  (ordering.filter fun key => !key.foldsCase).map fun key => (key.column, key.direction)

/-- A column that is sorted with regard to case takes the direction that comes last for it. -/
def settledKey (ordering : List SortKey) (key : SortKey) : SortKey :=
  if key.foldsCase then key
  else { key with direction := lastDirection (exactColumns ordering) key.column }

/-- An ordering as it is carried out. -/
def settled (ordering : List SortKey) : List SortKey := ordering.map (settledKey ordering)

theorem ascending_settledKey (ordering : List SortKey) (key : SortKey) :
    (settledKey ordering key).ascending = key.ascending := by
  unfold settledKey
  split <;> rfl

theorem column_ne_foldedField (hplain : Plain ordering) {key key' : SortKey} {position : Nat}
    (hmem : (key, position) ∈ ordering.zipIdx) (hfolds : key.foldsCase = true)
    (hmem' : key' ∈ ordering) (hexact : key'.foldsCase = false) :
    key'.column ≠ foldedField position := by
  intro heq
  refine hplain.exact key' hmem' hexact ?_
  rw [heq, Path.head_field (isField_foldedField position)]
  exact mem_keys_foldedFields.mpr ⟨key, position, hmem, hfolds, rfl⟩

/-- Of the fields that are sorted by, only columns that are sorted with regard to case can have a
name that is not temporary. -/
theorem lastDirection_columns {name : String} {entries : List (SortKey × Nat)}
    (h : ∀ entry ∈ entries, entry.1.foldsCase = true → foldedField entry.2 ≠ name) :
    lastDirection (entries.map fun (key, position) => (sortField key position, key.direction)) name =
      lastDirection (exactColumns (entries.map (·.1))) name := by
  induction entries using List.reverseRecOn with
  | nil => rfl
  | append_singleton entries entry ih =>
    obtain ⟨key, position⟩ := entry
    obtain ⟨hrest, hentry⟩ := List.forall_mem_append.mp h
    have hname := hentry _ (List.mem_singleton_self _)
    rw [exactColumns, List.map_append, List.map_append, List.filter_append, List.map_append,
      List.map_singleton, List.map_singleton, lastDirection_append, ih hrest]
    cases hfolds : key.foldsCase with
    | true => simp [sortField, hfolds, hname hfolds, exactColumns]
    | false => simp [sortField, hfolds, lastDirection_append, exactColumns]

/-- The direction that comes last for a field is that of its column as it is carried out. -/
theorem lastDirection_sortField (hplain : Plain ordering) {key : SortKey} {position : Nat}
    (hmem : (key, position) ∈ ordering.zipIdx) :
    lastDirection (sortFields ordering) (sortField key position) =
      (settledKey ordering key).direction := by
  have hkey := List.fst_mem_of_mem_zipIdx hmem
  rw [settledKey]
  cases hfolds : key.foldsCase with
  | true =>
    -- The position belongs to this column, and no column looks like a temporary field.
    rw [sortField, if_pos hfolds, if_pos rfl]
    refine lastDirection_of_forall (List.mem_map.mpr ⟨_, List.mem_map_of_mem hmem, ?_⟩) ?_
    · exact if_pos hfolds
    · intro entry hentry hname
      obtain ⟨⟨key', position'⟩, hmem', rfl⟩ := List.mem_map.mp hentry
      cases hfolds' : key'.foldsCase with
      | true =>
        simp only [sortField, hfolds', if_true] at hname
        rw [foldedField_inj hname, List.mem_zipIdx_iff_getElem?] at hmem'
        rw [List.mem_zipIdx_iff_getElem?, hmem'] at hmem
        obtain rfl : key' = key := Option.some.inj hmem
        rfl
      | false =>
        simp only [sortField, hfolds', Bool.false_eq_true, if_false] at hname
        exact absurd hname
          (column_ne_foldedField hplain hmem hfolds (List.fst_mem_of_mem_zipIdx hmem') hfolds')
  | false =>
    rw [sortField, hfolds, if_neg Bool.false_ne_true, if_neg Bool.false_ne_true, sortFields,
      lastDirection_columns, List.zipIdx_map_fst]
    exact fun entry hentry hfolds' heq =>
      column_ne_foldedField hplain hentry hfolds' hkey hfolds heq.symm

theorem get?_withTexts (ordering : List SortKey) {d : Document} (hd : NoTemporary d) (key : String) :
    (withTexts ordering d).get? key = ((foldedTexts ordering d).get? key <|> d.get? key) := by
  have hunique := unique_foldedTexts ordering d
  rw [withTexts, ← Document.merge_of_disjoint hunique hd.not_mem, Document.get?_merge hunique]

theorem at?_withTexts_folded {key : SortKey} {position : Nat}
    (hmem : (key, position) ∈ ordering.zipIdx) (hfolds : key.foldsCase = true) {d : Document}
    (hd : NoTemporary d) :
    (withTexts ordering d).at? (foldedField position) = some (.string (key.text d)) := by
  have hentry : (foldedField position, Json.string (key.text d)) ∈ foldedTexts ordering d :=
    List.mem_map_of_mem (List.mem_filter.mpr ⟨hmem, hfolds⟩)
  rw [Document.at?_field (isField_foldedField position), get?_withTexts ordering hd,
    (Document.get?_eq_some_iff (unique_foldedTexts ordering d)).mpr hentry]
  rfl

theorem at?_withTexts_exact (hplain : Plain ordering) {key : SortKey} (hmem : key ∈ ordering)
    (hexact : key.foldsCase = false) {d : Document} (hd : NoTemporary d) :
    (withTexts ordering d).at? key.column = d.at? key.column := by
  have hhead := hplain.exact key hmem hexact
  rw [← keys_foldedTexts ordering d] at hhead
  refine Document.at?_congr ?_
  rw [get?_withTexts ordering hd, Document.get?_eq_none_iff.mpr hhead]
  rfl

/-- The order of documents by a column is the one of what they hold in the field that is sorted
by. -/
theorem ascending_eq (hplain : Plain ordering) {key : SortKey} {position : Nat}
    (hmem : (key, position) ∈ ordering.zipIdx) {d e : Document} (hd : NoTemporary d)
    (he : NoTemporary e) : key.ascending d e =
      (((withTexts ordering d).at? (sortField key position)).getD .null).compare
        (((withTexts ordering e).at? (sortField key position)).getD .null) := by
  rw [sortField, SortKey.ascending]
  cases hfolds : key.foldsCase with
  | true =>
    rw [if_pos rfl, if_pos rfl, at?_withTexts_folded hmem hfolds hd,
      at?_withTexts_folded hmem hfolds he]
    rfl
  | false =>
    have hkey := List.fst_mem_of_mem_zipIdx hmem
    rw [if_neg Bool.false_ne_true, if_neg Bool.false_ne_true,
      at?_withTexts_exact hplain hkey hfolds hd, at?_withTexts_exact hplain hkey hfolds he]

/-- Documents with temporary fields stand in the order of some columns of a sort as those columns are
settled. -/
theorem compareBy_entries (hplain : Plain ordering) {d e : Document} (hd : NoTemporary d)
    (he : NoTemporary e) {entries : List (SortKey × Nat)}
    (hmem : ∀ entry ∈ entries, entry ∈ ordering.zipIdx) :
    Stage.compareBy (entries.map fun entry => (sortField entry.1 entry.2,
        lastDirection (sortFields ordering) (sortField entry.1 entry.2) == .descending))
      (withTexts ordering d) (withTexts ordering e) =
    SortKey.orderAll (entries.map fun entry => settledKey ordering entry.1) d e := by
  induction entries with
  | nil => rfl
  | cons entry entries ih =>
    obtain ⟨key, position⟩ := entry
    obtain ⟨hkey, hrest⟩ := List.forall_mem_cons.mp hmem
    rw [List.map_cons, List.map_cons, Stage.compareBy, ih hrest,
      lastDirection_sortField hplain hkey, ← ascending_eq hplain hkey hd he,
      ← ascending_settledKey ordering, ← SortKey.order_eq]
    rfl

theorem compareBy_withTexts (hplain : Plain ordering) {d e : Document} (hd : NoTemporary d)
    (he : NoTemporary e) :
    Stage.compareBy ((sortFields ordering).map fun key =>
        (key.1, lastDirection (sortFields ordering) key.1 == .descending))
      (withTexts ordering d) (withTexts ordering e) = SortKey.orderAll (settled ordering) d e := by
  have hall := compareBy_entries hplain hd he fun _ (h : _ ∈ ordering.zipIdx) => h
  have hfirsts := congrArg (List.map (settledKey ordering)) (List.zipIdx_map_fst 0 ordering)
  rw [List.map_map] at hfirsts
  rw [settled, ← hfirsts]
  conv_lhs => rw [sortFields, List.map_map]
  exact hall

theorem orderingStages_eq (ordering : List SortKey) : orderingStages ordering =
    if ordering = [] then []
    else if foldedFields ordering = [] then [.sort (Stage.sortSpec (sortFields ordering))]
    else [.addFields (foldedFields ordering), .sort (Stage.sortSpec (sortFields ordering)),
      .exclude (foldedFields ordering).keys] := by
  have hsort : Stage.sortBy (ordering.zipIdx.map fun (key, position) =>
      (sortField key position, key.direction.toInt)) =
        .sort (Stage.sortSpec (sortFields ordering)) := by
    rw [Stage.sortBy, Stage.sortSpec, sortFields, List.map_map]
    rfl
  unfold orderingStages
  rw [hsort]
  split
  · rfl
  · next hne hnone => rw [if_neg hne, if_pos hnone]
  · next hne hsome => rw [if_neg hne, if_neg hsome]

/-- Sorting documents with temporary fields puts them in the order in which the columns are
settled. -/
theorem sorted_withTexts (hplain : Plain ordering) {docs : List Document}
    (hdocs : ∀ d ∈ docs, NoTemporary d) :
    Stage.sorted ((sortFields ordering).map fun key =>
        (key.1, lastDirection (sortFields ordering) key.1 == .descending))
      (docs.map (withTexts ordering)) =
        (docs.mergeSort fun d e => SortKey.orderAll (settled ordering) d e != .gt).map
          (withTexts ordering) :=
  (List.map_mergeSort fun d hd e he => by
    rw [compareBy_withTexts hplain (hdocs d hd) (hdocs e he)]).symm

theorem withTexts_of_exact (hnone : foldedFields ordering = []) : withTexts ordering = id := by
  funext d
  have hkeys := keys_foldedTexts ordering d
  rw [hnone, Document.keys_nil, Document.keys, List.map_eq_nil_iff] at hkeys
  rw [withTexts, hkeys, List.append_nil, id]

/-- The stages that sort put documents in the order in which the columns are settled, and leave them
as they were. -/
theorem run_orderingStages (hplain : Plain ordering) {docs : List Document}
    (hdocs : ∀ d ∈ docs, NoTemporary d) (db : Collections) :
    Stage.runAll db (orderingStages ordering) docs =
      .ok (docs.mergeSort fun d e => SortKey.orderAll (settled ordering) d e != .gt) := by
  have hsorted := sorted_withTexts hplain hdocs
  rw [orderingStages_eq]
  split
  · next hnil =>
    subst hnil
    exact congrArg Except.ok
      (List.mergeSort_of_pairwise (List.pairwise_of_forall fun _ _ => rfl)).symm
  split
  · next hnone =>
    rw [withTexts_of_exact hnone, List.map_id, List.map_id] at hsorted
    rw [Stage.runAll_singleton, Stage.run_sortSpec, hsorted]
  · next hsome =>
    have hkeys : (foldedFields ordering).keys ≠ [] := fun hnil =>
      hsome (List.map_eq_nil_iff.mp hnil)
    have hunique : (foldedFields ordering).keys.Nodup := by
      have htexts := unique_foldedTexts ordering []
      rwa [Document.Unique, keys_foldedTexts] at htexts
    have hadded : Stage.run db (.addFields (foldedFields ordering)) docs =
        .ok (docs.map (withTexts ordering)) := by
      rw [Stage.run]
      exact mapM_ok fun d hd => extended_foldedFields hplain (hdocs d hd)
    rw [Stage.runAll, hadded, ok_bind, Stage.runAll, Stage.run_sortSpec, hsorted, ok_bind,
      Stage.runAll_singleton, Stage.run_exclude hkeys hunique, List.map_map]
    refine congrArg Except.ok ((List.map_congr_left fun d hd => ?_).trans (List.map_id _))
    exact removeAll_withTexts (hdocs d (List.mem_mergeSort.mp hd))

/-! ## Orderings that are settled -/

/-- No column is sorted with regard to case in two directions. -/
def OneDirection (ordering : List SortKey) : Prop :=
  ∀ key ∈ ordering, ∀ key' ∈ ordering, key.foldsCase = false → key'.foldsCase = false →
    key'.column = key.column → key'.direction = key.direction

instance (ordering : List SortKey) : Decidable (OneDirection ordering) :=
  inferInstanceAs (Decidable (∀ key ∈ ordering, ∀ key' ∈ ordering, key.foldsCase = false →
    key'.foldsCase = false → key'.column = key.column → key'.direction = key.direction))

theorem settled_of_oneDirection (h : OneDirection ordering) : settled ordering = ordering := by
  refine (List.map_congr_left fun key hkey => ?_).trans (List.map_id ordering)
  rw [settledKey]
  cases hfolds : key.foldsCase with
  | true => exact if_pos rfl
  | false =>
    have hmem : (key.column, key.direction) ∈ exactColumns ordering :=
      List.mem_map.mpr ⟨key, List.mem_filter.mpr ⟨hkey, by rw [hfolds]; rfl⟩, rfl⟩
    have hlast : lastDirection (exactColumns ordering) key.column = key.direction := by
      refine lastDirection_of_forall (List.mem_map_of_mem hmem) fun entry hentry hname => ?_
      obtain ⟨key', hkey', rfl⟩ := List.mem_map.mp hentry
      obtain ⟨hkey', hfolds'⟩ := List.mem_filter.mp hkey'
      exact h key hkey key' hkey' hfolds (by simpa using hfolds') hname
    rw [if_neg Bool.false_ne_true, hlast, ← hfolds]
    rfl

/-- Directions do not matter for which documents are equal, so the same ones are by an ordering and
as it is settled. -/
theorem orderAll_settled_eq_iff (ordering : List SortKey) (d e : Document) :
    SortKey.orderAll ordering d e = .eq ↔ SortKey.orderAll (settled ordering) d e = .eq := by
  have hkeys : ∀ keys : List SortKey, SortKey.orderAll keys d e = .eq ↔
      SortKey.orderAll (keys.map (settledKey ordering)) d e = .eq := by
    intro keys
    induction keys with
    | nil => exact Iff.rfl
    | cons key keys ih =>
      rw [List.map_cons, SortKey.orderAll, SortKey.orderAll, compareLex, compareLex,
        Ordering.then_eq_eq, Ordering.then_eq_eq, ih, SortKey.order_eq_eq_iff,
        SortKey.order_eq_eq_iff, ascending_settledKey]
  exact hkeys ordering

/-! ## Queries -/

variable {schema : Schema} {s : Store} {q : Query} {found : List Document}

/-- A query for whole documents: it cuts out no stretch, loads nothing and shows all fields. -/
structure Whole (q : Query) : Prop where
  skip : q.skip = none
  limit : q.limit = none
  eager : q.eager = []
  select : q.select = none
  exclude : q.exclude = []

theorem Finds.exists_stages (hfinds : q.Finds schema s found) (heager : q.eager = []) :
    ∃ scope conditions, q.check = .ok () ∧ conditionStage? q.scope = .ok scope ∧
      conditionStage? q.conditions = .ok conditions ∧
      Stage.runAll s.documents (q.rootStages scope ++ conditions.toList)
        (s.documents q.model.collection) = .ok found := by
  obtain ⟨stages, hstages, hrun⟩ := hfinds
  have hloads := loaded_of_eager_nil heager schema
  rw [filterStages, hloads, ok_bind, mapError_eq_ok, stagesWith_eq_ok q.readsAlias_nil] at hstages
  obtain ⟨scope, conditions, hcheck, hscope, hconditions, rfl⟩ := hstages
  rw [List.append_nil, List.append_nil] at hrun
  exact ⟨scope, conditions, hcheck, hscope, hconditions, hrun⟩

/-- A query that loads nothing finds stored documents, in the order in which they are stored. -/
theorem Finds.sublist (hfinds : q.Finds schema s found) (heager : q.eager = []) :
    found.Sublist (s.documents q.model.collection) := by
  obtain ⟨scope, conditions, -, hscope, hconditions, hrun⟩ := hfinds.exists_stages heager
  obtain ⟨kept, hkept, hrun⟩ := Stage.runAll_append_eq_ok.mp hrun
  obtain ⟨seen, hseen, hkept⟩ := Stage.runAll_append_eq_ok.mp hkept
  exact (sublist_of_conditions hconditions hrun).trans
    ((sublist_of_conditions hscope hkept).trans (Stage.sublist_of_filter? hseen))

/-- A query for whole documents gets what the stages that sort make of what it finds. -/
theorem get_of_finds (hq : q.Whole) (hfinds : q.Finds schema s found) {out : List Document}
    (hout : Stage.runAll s.documents (orderingStages q.ordering) found = .ok out) :
    q.get schema s = .ok (out.map fun d => Entity.ofDocument q.model d []) := by
  obtain ⟨scope, conditions, hcheck, hscope, hconditions, hrun⟩ := hfinds.exists_stages hq.eager
  have hloads := loaded_of_eager_nil hq.eager schema
  have hwindow : q.windowStages = orderingStages q.ordering := by
    rw [windowStages, hq.skip, hq.limit]
    exact (List.append_nil _).trans (List.append_nil _)
  have hprojection : q.projectionStage? [] = none := by
    rw [projectionStage?, hq.select, hq.exclude]
    rfl
  have hstages : q.stagesWith {} q.windowStages [] =
      .ok (q.rootStages scope ++ conditions.toList ++ q.windowStages ++ []) :=
    (stagesWith_eq_ok q.readsAlias_nil).mpr ⟨scope, conditions, hcheck, hscope, hconditions, rfl⟩
  refine get_eq_ok.mpr ⟨{}, _, out, hloads, hstages, ?_, rfl⟩
  rw [hprojection, Option.toList_none, List.append_nil, List.append_nil, hwindow,
    Stage.runAll_append_ok hrun, hout]

/-- What a query for whole documents gets is put in the order of its columns as it is carried out. -/
theorem get_settled (hq : q.Whole) (hplain : Plain q.ordering)
    (hs : ∀ d ∈ s.documents q.model.collection, NoTemporary d) (hfinds : q.Finds schema s found) :
    ∃ es, q.get schema s = .ok es ∧
      StableSort (SortKey.orderAll (settled q.ordering)) found (es.map (·.attributes)) := by
  have hdocs : ∀ d ∈ found, NoTemporary d := fun d hd =>
    hs d ((hfinds.sublist hq.eager).subset hd)
  refine ⟨_, get_of_finds hq hfinds (run_orderingStages hplain hdocs _), ?_⟩
  have hattributes : (fun d => (Entity.ofDocument q.model d []).attributes) = id := rfl
  rw [List.map_map]
  show StableSort _ found (List.map (fun d => (Entity.ofDocument q.model d []).attributes) _)
  rw [hattributes, List.map_id]
  exact .of_mergeSort found

end Query

namespace RelationHandle

/-- The column by which the options of a handle sort, if they do. -/
def sortColumn (h : RelationHandle) : List SortKey :=
  h.relation.options.sort.toList.map fun (column, direction) => ⟨column, direction, false⟩

theorem ordering_resolve {h : RelationHandle} {s : Store} {q : Query} (hq : h.resolve s = .ok q) :
    q.ordering = h.query.ordering ++ h.sortColumn := by
  obtain ⟨terms, -, hq⟩ := bind_eq_ok.mp hq
  cases hq
  rw [baseQuery, withRelationOptions, sortColumn]
  cases h.relation.options.sort <;> cases h.relation.options.select <;>
    simp [Query.scopedBy, Query.orderedBy, Query.without]

end RelationHandle

/-- **The order of the columns.** A query for whole documents gets the stored documents that it finds
as they are, stably sorted by its columns one after the other, where a column that is sorted with
regard to case takes the direction that comes last for it. That is the order that was asked for if no
such column comes in two directions, and otherwise exactly if the documents do not tell. Through a
handle, the column of the options comes last. -/
theorem Query.columns_in_order {schema : Schema} {s : Store} {q : Query} {found : List Document}
    (hq : q.Whole) (hplain : Query.Plain q.ordering)
    (hs : ∀ d ∈ s.documents q.model.collection, Query.NoTemporary d)
    (hfinds : q.Finds schema s found) :
    found.Sublist (s.documents q.model.collection) ∧
    (∃ es, q.get schema s = .ok es ∧
      StableSort (SortKey.orderAll (Query.settled q.ordering)) found (es.map (·.attributes)) ∧
      (Query.OneDirection q.ordering →
        StableSort (SortKey.orderAll q.ordering) found (es.map (·.attributes))) ∧
      (StableSort (SortKey.orderAll q.ordering) found (es.map (·.attributes)) ↔
        ∀ d ∈ found, ∀ e ∈ found, SortKey.orderAll q.ordering d e =
          SortKey.orderAll (Query.settled q.ordering) d e)) ∧
    ∀ h : RelationHandle, h.resolve s = .ok q →
      h.get schema s = q.get schema s ∧ q.ordering = h.query.ordering ++ h.sortColumn := by
  obtain ⟨es, hget, hsorted⟩ := Query.get_settled hq hplain hs hfinds
  refine ⟨hfinds.sublist hq.eager, ⟨es, hget, hsorted, fun hone => ?_, ?_⟩, fun h hresolve => ?_⟩
  · rwa [Query.settled_of_oneDirection hone] at hsorted
  · exact hsorted.iff_agree (Query.orderAll_settled_eq_iff q.ordering)
  · exact ⟨RelationHandle.get_of_resolve hresolve, RelationHandle.ordering_resolve hresolve⟩

/-! ## Some songs -/

namespace SongSample

open Query

def songModel : Model := ⟨"Song", "songs", "_id", none, none, []⟩

def schema : Schema := ⟨fun _ => []⟩

def song (title : String) (plays : Int) : Document :=
  [("title", .string title), ("plays", .int plays)]

def songs : List Document := [song "Waltz" 3, song "reel" 5, song "Reel" 7, song "waltz" 3]

def store : Store where
  collections := [("songs", songs)]
  ids := ⟨fun _ => ⟨0⟩, 0⟩

/-- All songs, by some columns. -/
def allBy (ordering : List SortKey) : Query := { model := songModel, ordering }

theorem whole_allBy (ordering : List SortKey) : (allBy ordering).Whole := ⟨rfl, rfl, rfl, rfl, rfl⟩

theorem finds_songs (ordering : List SortKey) : (allBy ordering).Finds schema store songs := by
  refine ⟨[], ?_, rfl⟩
  rw [filterStages, loaded_of_eager_nil rfl, ok_bind, stagesWith, readsAlias_nil]
  rfl

theorem noTemporary_songs : ∀ d ∈ store.documents songModel.collection, NoTemporary d := by
  decide

/-- By title without regard to case, and songs of one title by plays, most first. -/
def byTitle : List SortKey := [⟨"title", .ascending, true⟩, ⟨"plays", .descending, false⟩]

theorem plain_byTitle : Plain byTitle := ⟨by decide, by decide⟩

/-- Songs of one title in either case stand together, and those with the same plays as well are left
in their order. -/
theorem songs_by_title :
    (allBy byTitle).Whole ∧ Plain byTitle ∧
      (∀ d ∈ store.documents songModel.collection, NoTemporary d) ∧
      (allBy byTitle).Finds schema store songs ∧ OneDirection byTitle ∧
      SortKey.orderAll byTitle (song "reel" 5) (song "Reel" 7) = .gt ∧
      SortKey.orderAll byTitle (song "Waltz" 3) (song "waltz" 3) = .eq ∧
      ∃ es, (allBy byTitle).get schema store = .ok es ∧
        StableSort (SortKey.orderAll byTitle) songs (es.map (·.attributes)) := by
  have hone : OneDirection byTitle := by decide
  have hwhole := whole_allBy byTitle
  have hfinds := finds_songs byTitle
  obtain ⟨-, ⟨es, hget, -, hsorted, -⟩, -⟩ :=
    columns_in_order hwhole plain_byTitle noTemporary_songs hfinds
  exact ⟨hwhole, plain_byTitle, noTemporary_songs, hfinds, hone, by decide +kernel,
    by decide +kernel, es, hget, hsorted hone⟩

/-- By plays, least first, and then by plays again, most first. -/
def byPlaysTwice : List SortKey :=
  [⟨"plays", .ascending, false⟩, ⟨"plays", .descending, false⟩]

/-- The second column has nothing to decide, but the first one takes its direction: songs that were
played most come first. -/
theorem later_direction_counts :
    ¬ ∀ (schema : Schema) (s : Store) (q : Query) (found : List Document) (es : List Entity),
      q.Whole → Plain q.ordering →
      (∀ d ∈ s.documents q.model.collection, NoTemporary d) → q.Finds schema s found →
      q.get schema s = .ok es →
        StableSort (SortKey.orderAll q.ordering) found (es.map (·.attributes)) := by
  intro hright
  have hplain : Plain byPlaysTwice := ⟨by decide, by decide⟩
  have hwhole := whole_allBy byPlaysTwice
  have hfinds := finds_songs byPlaysTwice
  obtain ⟨es, hget, hsorted⟩ := get_settled hwhole hplain noTemporary_songs hfinds
  have hagree := (hsorted.iff_agree (orderAll_settled_eq_iff byPlaysTwice)).mp
    (hright _ _ _ _ _ hwhole hplain noTemporary_songs hfinds hget)
  have hsame := hagree (song "Waltz" 3) (by simp [songs]) (song "reel" 5) (by simp [songs])
  revert hsame
  decide +kernel

end SongSample

end DocMapper
