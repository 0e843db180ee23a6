import DocMapper.Proofs.Query.Reordering
import DocMapper.Proofs.Relation.Predicates

/-! # The pages of a query

A page of a query is counted and read by pipelines of its own: the count leaves out order, window
and fields, and each page sorts anew and cuts out its stretch before the relations are loaded and
the fields are shown. All of them agree with what the query gets without a window:

  * the stages in front of the window are those that count (`Query.stagesWith_eq_append`);
  * sorting neither adds nor drops documents (`Query.length_of_ordering`);
  * what stands behind the window makes one document of each, if the query loads relations with any
    number of related documents only, so that it makes of a stretch what the stretch becomes in the
    whole (`Stage.EachAlone.run_stretch`);
  * so the query counts what it gets (`Query.Gets.count`), and with a window it gets a stretch of it
    (`Query.Gets.get_stretch`).

The rest is about lists: the pages of a list up to the last one make up the list
(`Page.flatMap_items`). `Query.pages_partition` puts both together. -/

namespace DocMapper

/-! ## Pages of a list -/

namespace Page

variable {α : Type}

/-- The page of a list with a given number, where the pages have a given size. -/
def ofList (l : List α) (size number : Nat) : Page α :=
  { items := (l.drop (itemsBefore number size)).take size, total := l.length, size, number }

/-- The number of the last page of a list. -/
def lastOf (l : List α) (size : Nat) : Nat := (ofList l size 1).last

variable {l : List α} {size number : Nat}

theorem last_ofList (l : List α) (size number : Nat) : (ofList l size number).last = lastOf l size :=
  rfl

/-- The first pages of a list make up its beginning. -/
theorem flatMap_items (l : List α) (size count : Nat) :
    (List.range' 1 count).flatMap (fun number => (ofList l size number).items) =
      l.take (count * size) := by
  induction count with
  | zero => rw [Nat.zero_mul, List.take_zero]; rfl
  | succ count ih =>
    have hitems : (ofList l size (1 + count)).items = (l.drop (count * size)).take size := by
      rw [ofList, itemsBefore, Nat.add_sub_cancel_left]
    rw [List.range'_1_concat, List.flatMap_append, ih, List.flatMap_singleton, hitems,
      Nat.succ_mul, List.take_add]

theorem lastOf_eq (l : List α) (size : Nat) :
    lastOf l size = if l.length = 0 then 1 else (l.length + size - 1) / size := rfl

/-- The pages up to the last one have room for the whole list. -/
theorem length_le_lastOf_mul (hsize : 1 ≤ size) : l.length ≤ lastOf l size * size := by
  rw [lastOf_eq]
  split
  · omega
  · have hdiv := Nat.lt_mul_div_succ (l.length + size - 1) hsize
    rw [Nat.mul_add, Nat.mul_one, Nat.mul_comm] at hdiv
    omega

/-- The pages before the last one do not have room for the whole list. -/
theorem mul_lt_length (hsize : 1 ≤ size) (hpage : 1 ≤ number) (h : number < lastOf l size) :
    number * size < l.length := by
  rw [lastOf_eq] at h
  split at h
  · omega
  · have hdiv := (Nat.le_div_iff_mul_le hsize).mp h
    rw [Nat.succ_mul] at hdiv
    omega

theorem lastOf_le (hsize : 1 ≤ size) : lastOf l size ≤ max 1 l.length := by
  by_cases hmore : 1 < lastOf l size
  · have hroom := mul_lt_length hsize (Nat.le_sub_one_of_lt hmore) (Nat.sub_one_lt_of_lt hmore)
    have hpages := Nat.le_mul_of_pos_right (lastOf l size - 1) hsize
    omega
  · omega

/-- A page before the last one is full. -/
theorem length_items_of_lt_last (hsize : 1 ≤ size) (hpage : 1 ≤ number)
    (h : number < lastOf l size) : (ofList l size number).items.length = size := by
  have hroom := mul_lt_length hsize hpage h
  obtain ⟨before, rfl⟩ := Nat.exists_eq_add_of_le' hpage
  rw [Nat.succ_mul] at hroom
  rw [ofList, itemsBefore, Nat.add_sub_cancel, List.length_take, List.length_drop]
  omega

/-- A page after the last one is empty. -/
theorem items_of_last_lt (hsize : 1 ≤ size) (h : lastOf l size < number) :
    (ofList l size number).items = [] := by
  obtain ⟨before, rfl⟩ := Nat.exists_eq_add_of_le' (Nat.zero_lt_of_lt h)
  have hroom : l.length ≤ before * size := Nat.le_trans (length_le_lastOf_mul hsize)
    (Nat.mul_le_mul_right size (Nat.le_of_lt_succ h))
  rw [ofList, itemsBefore, Nat.add_sub_cancel, List.drop_eq_nil_of_le hroom, List.take_nil]

end Page

/-! ## Stretches of documents -/

namespace Stage

variable {db : Collections} {stages : List Stage} {docs out : List Document}

/-- Stages that take documents one by one make of a stretch what the stretch becomes in the
whole. -/
theorem EachAlone.run_stretch (h : EachAlone db stages) (hrun : runAll db stages docs = .ok out)
    (skip limit : Nat) :
    runAll db stages ((docs.drop skip).take limit) = .ok ((out.drop skip).take limit) :=
  (h _ _).mpr (List.forall₂_take limit (List.forall₂_drop skip ((h _ _).mp hrun)))

/-- A stage that takes documents one by one leaves as many as there were. -/
theorem length_of_mapM {f : Document → Except QueryFault Document} (h : docs.mapM f = .ok out) :
    out.length = docs.length :=
  (forall₂_mapM h).length_eq.symm

end Stage

namespace Query

variable {schema : Schema} {s : Store} {q : Query} {loads : Relation.Loaded} {es : List Entity}

/-! ## The stages around the window -/

/-- The stages in front of the window do not depend on it, and those that load stand in front of it
or behind it. -/
theorem stagesWith_eq_append (q : Query) (loads : Relation.Loaded) (window last : List Stage) :
    q.stagesWith loads window last = (q.stagesWith loads [] []).map fun before =>
      before ++ window ++ if q.readsAlias loads.aliases then [] else last := by
  unfold stagesWith
  cases q.check with
  | error fault => rfl
  | ok =>
    cases conditionStage? q.scope with
    | error fault => rfl
    | ok scope =>
      cases conditionStage? q.conditions with
      | error fault => rfl
      | ok conditions =>
        simp only [ok_bind]
        split
        · simp [pure, Except.pure]
        · simp [pure, Except.pure]

/-- The stages that sort leave as many documents as there were. -/
theorem length_of_ordering {db : Collections} {ordering : List SortKey} {docs out : List Document}
    (h : Stage.runAll db (orderingStages ordering) docs = .ok out) : out.length = docs.length := by
  have hsorted : ∀ {spec : Document} {docs out : List Document},
      Stage.run db (.sort spec) docs = .ok out → out.length = docs.length := by
    intro spec docs out hout
    obtain ⟨keys, -, hout⟩ := bind_eq_ok.mp hout
    cases hout
    exact List.length_mergeSort docs
  unfold orderingStages at h
  split at h
  · cases h
    rfl
  · rw [Stage.runAll_singleton] at h
    exact hsorted h
  · obtain ⟨extended, hextended, h⟩ := Stage.runAll_cons_eq_ok.mp h
    obtain ⟨sorted, hout, h⟩ := Stage.runAll_cons_eq_ok.mp h
    rw [Stage.runAll_singleton] at h
    obtain ⟨p, -, hshown⟩ := bind_eq_ok.mp h
    rw [Stage.length_of_mapM hshown, hsorted hout, Stage.length_of_mapM hextended]

/-- If showing fields succeeds, it takes documents one by one. -/
theorem eachAlone_projectionStage {aliases : List EagerAlias} {db : Collections}
    {docs out : List Document}
    (h : Stage.runAll db (q.projectionStage? aliases).toList docs = .ok out) :
    Stage.EachAlone db (q.projectionStage? aliases).toList := by
  cases hstage : q.projectionStage? aliases with
  | none => exact Stage.eachAlone_nil
  | some stage =>
    rw [hstage, Option.toList_some, Stage.runAll_singleton] at h
    obtain ⟨spec, rfl⟩ := exists_spec_of_projectionStage hstage
    obtain ⟨p, hp, -⟩ := bind_eq_ok.mp h
    exact Stage.eachAlone_project hp

/-- The stages that load relations with any number of related documents take the owners one by
one. -/
theorem eachAlone_loads (hloads : q.loaded schema = .ok loads)
    (hmany : ∀ r, q.Loads schema r → r.kind.isCollection = true) (db : Collections) :
    Stage.EachAlone db loads.stages := by
  obtain ⟨xs, hxs, rfl⟩ := Relation.Sibling.exists_together_of_loadAll hloads
  refine Relation.Sibling.eachAlone_together (fun x hx => ?_) (fun x hx => ?_) db
  · obtain ⟨load, -, hrequested⟩ := exists_of_mem_forall₂ hxs hx
    exact hrequested.valid
  · obtain ⟨load, hload, hrequested⟩ := exists_of_mem_forall₂ hxs hx
    exact (Bool.not_eq_true' _).mp (hmany _ ⟨load, hload, hrequested.relation⟩)

/-! ## What is counted and got -/

/-- The stages behind the window of a query. -/
def closingStages (q : Query) (loads : Relation.Loaded) : List Stage :=
  (if q.readsAlias loads.aliases then [] else loads.stages) ++
    (q.projectionStage? loads.aliases).toList

/-- How a query without a window gets what it gets: it finds documents, sorts them, and makes one
document of each in the end. -/
structure Gets (schema : Schema) (s : Store) (q : Query) (loads : Relation.Loaded)
    (before : List Stage) (found sorted docs : List Document) : Prop where
  loaded : q.loaded schema = .ok loads
  staged : q.stagesWith loads [] [] = .ok before
  finds : Stage.runAll s.documents before (s.documents q.model.collection) = .ok found
  sorts : Stage.runAll s.documents (orderingStages q.ordering) found = .ok sorted
  closing : Stage.EachAlone s.documents (q.closingStages loads)
  closes : Stage.runAll s.documents (q.closingStages loads) sorted = .ok docs

variable {before : List Stage} {found sorted docs : List Document}

theorem exists_gets (hskip : q.skip = none) (hlimit : q.limit = none)
    (hmany : ∀ r, q.Loads schema r → r.kind.isCollection = true) (h : q.get schema s = .ok es) :
    ∃ loads before found sorted docs, q.Gets schema s loads before found sorted docs ∧
      es = docs.map fun d => Entity.ofDocument q.model d loads.aliases := by
  obtain ⟨loads, stages, docs, hloads, hstages, hdocs, rfl⟩ := get_eq_ok.mp h
  rw [stagesWith_eq_append] at hstages
  obtain ⟨before, hbefore, rfl⟩ := map_eq_ok.mp hstages
  rw [windowStages, hskip, hlimit, Option.map_none, Option.map_none, Option.toList_none,
    List.append_nil, List.append_nil, List.append_assoc, List.append_assoc] at hdocs
  obtain ⟨found, hfound, hdocs⟩ := Stage.runAll_append_eq_ok.mp hdocs
  obtain ⟨sorted, hsorted, hdocs⟩ := Stage.runAll_append_eq_ok.mp hdocs
  obtain ⟨mid, -, hshown⟩ := Stage.runAll_append_eq_ok.mp hdocs
  have hclosing : Stage.EachAlone s.documents (q.closingStages loads) := by
    refine Stage.EachAlone.append ?_ (eachAlone_projectionStage hshown)
    split
    · exact Stage.eachAlone_nil
    · exact eachAlone_loads hloads hmany s.documents
  exact ⟨loads, before, found, sorted, docs,
    ⟨hloads, hbefore, hfound, hsorted, hclosing, hdocs⟩, rfl⟩

/-- As many documents are found as are shown. -/
theorem Gets.length_eq (h : q.Gets schema s loads before found sorted docs) :
    found.length = docs.length := by
  have hclosing := ((h.closing _ _).mp h.closes).length_eq
  rw [← hclosing, length_of_ordering h.sorts]

/-- A query counts the documents that it finds. -/
theorem Gets.count (h : q.Gets schema s loads before found sorted docs)
    (hlength : docs.length < twoTo 64) : q.count schema s = .ok docs.length := by
  rw [← h.length_eq] at hlength ⊢
  have hstages : q.filterStages schema = .ok before := by
    rw [filterStages, h.loaded, ok_bind, h.staged, mapError_ok]
  have hrun : Stage.runAll s.documents (before ++ [.count "count"])
      (s.documents q.model.collection) =
        .ok (if found.isEmpty then [] else [[("count", .int found.length)]]) := by
    rw [Stage.runAll_append_ok h.finds, Stage.runAll_singleton, Stage.run]
  rw [Query.count, hstages, ok_bind, Store.aggregate, hrun, mapError_ok, ok_bind]
  exact congrArg _ (counted_eq hlength)

/-- With a window, a query gets that stretch of what it gets without one. -/
theorem Gets.get_stretch (h : q.Gets schema s loads before found sorted docs)
    (skip limit : Nat) :
    get schema s { q with skip := some skip, limit := some limit } =
      .ok (((docs.map fun d => Entity.ofDocument q.model d loads.aliases).drop skip).take limit) := by
  have hbefore : stagesWith { q with skip := some skip, limit := some limit } loads [] [] =
      .ok before := h.staged
  have hwindow : Stage.runAll s.documents ([.skip skip] ++ [.limit limit]) sorted =
      .ok ((sorted.drop skip).take limit) := rfl
  refine get_eq_ok.mpr ⟨loads, _, (docs.drop skip).take limit, h.loaded,
    (stagesWith_eq_append _ _ _ _).trans (congrArg _ hbefore), ?_, ?_⟩
  · show Stage.runAll s.documents
      (before ++ (orderingStages q.ordering ++ [.skip skip] ++ [.limit limit]) ++
        (if q.readsAlias loads.aliases then [] else loads.stages) ++
          (q.projectionStage? loads.aliases).toList) _ = _
    simp only [List.append_assoc]
    rw [Stage.runAll_append_ok h.finds, Stage.runAll_append_ok h.sorts, ← List.append_assoc,
      Stage.runAll_append_ok hwindow]
    exact h.closing.run_stretch h.closes skip limit
  · rw [List.map_take, List.map_drop]

end Query

/-! ## Pages -/

theorem signed_eq {n : Nat} (h : n < twoTo 63) : signed n = n := by
  have hbits : twoTo 64 = 2 * twoTo 63 := rfl
  rw [signed, Int.bmod_eq_of_le] <;> omega

/-- A page number and a page size from one to the greatest signed number of 64 bits are not
refused. -/
theorem Window.ofPage_eq {page size : Nat} (hpage : 1 ≤ page) (hpage' : page < twoTo 63)
    (hsize : 1 ≤ size) (hsize' : size < twoTo 63) :
    Window.ofPage page size = .ok ⟨min (itemsBefore page size) (twoTo 64 - 1), size⟩ := by
  have hchecked : checkPage page size = .ok () := by
    rw [checkPage, if_neg]
    simp only [Bool.or_eq_true, decide_eq_true_eq, not_or]
    omega
  rw [ofPage, signed_eq hpage', signed_eq hsize', hchecked]
  rfl

namespace Query

variable {schema : Schema} {s : Store} {q : Query} {es : List Entity}

/-- A page of a query is a page of what the query gets. -/
theorem paginate_eq (hskip : q.skip = none) (hlimit : q.limit = none)
    (hmany : ∀ r, q.Loads schema r → r.kind.isCollection = true) (h : q.get schema s = .ok es)
    (hlength : es.length < twoTo 63) {page size : Nat} (hpage : 1 ≤ page)
    (hpage' : page < twoTo 63) (hsize : 1 ≤ size) (hsize' : size < twoTo 63) :
    q.paginate schema s page size = .ok (Page.ofList es size page) := by
  have hbits : twoTo 64 = 2 * twoTo 63 := rfl
  obtain ⟨loads, before, found, sorted, docs, hgets, hes⟩ := exists_gets hskip hlimit hmany h
  have hdocs : docs.length = es.length := by rw [hes, List.length_map]
  -- What is skipped at most is more than there is, so it does not matter where it is cut off.
  have hdrop : es.drop (min (itemsBefore page size) (twoTo 64 - 1)) =
      es.drop (itemsBefore page size) := by
    rcases Nat.le_total (itemsBefore page size) (twoTo 64 - 1) with hle | hle
    · rw [Nat.min_eq_left hle]
    · rw [Nat.min_eq_right hle, List.drop_eq_nil_of_le (by omega),
        List.drop_eq_nil_of_le (by omega)]
  rw [paginate, Window.ofPage_eq hpage hpage' hsize hsize', mapError_ok, ok_bind,
    hgets.count (by omega), ok_bind, hgets.get_stretch, ← hes, hdrop, hdocs]
  rfl

/-- **The pages of a query make up what it gets.** A query without a window that loads relations
with any number of related documents only, and that can get what it asks for, counts what it gets,
and all its pages can be read: each reports the count; the pages up to the last one make up what the
query gets; those before the last one are full, and those after it are empty. That a list has fewer
than `twoTo 63` members holds of every list that fits into a machine. -/
theorem pages_partition (hskip : q.skip = none) (hlimit : q.limit = none)
    (hmany : ∀ r, q.Loads schema r → r.kind.isCollection = true) (h : q.get schema s = .ok es)
    (hlength : es.length < twoTo 63) {size : Nat} (hsize : 1 ≤ size) (hsize' : size < twoTo 63) :
    q.count schema s = .ok es.length ∧
    ∃ (pages : Nat → Page Entity) (last : Nat), last < twoTo 63 ∧
      (∀ page, 1 ≤ page → page < twoTo 63 →
        q.paginate schema s page size = .ok (pages page) ∧ (pages page).total = es.length ∧
        (pages page).last = last ∧ (page < last → (pages page).items.length = size) ∧
        (last < page → (pages page).items = [])) ∧
      (List.range' 1 last).flatMap (fun page => (pages page).items) = es := by
  refine ⟨?_, Page.ofList es size, Page.lastOf es size, ?_, fun page hpage hpage' => ⟨?_, ?_⟩, ?_⟩
  · have hbits : twoTo 64 = 2 * twoTo 63 := rfl
    obtain ⟨loads, before, found, sorted, docs, hgets, rfl⟩ := exists_gets hskip hlimit hmany h
    rw [List.length_map] at hlength ⊢
    exact hgets.count (by omega)
  · have hlast := Page.lastOf_le (l := es) hsize
    have hone : 1 < twoTo 63 := by decide
    omega
  · exact paginate_eq hskip hlimit hmany h hlength hpage hpage' hsize hsize'
  · exact ⟨rfl, Page.last_ofList es size page, Page.length_items_of_lt_last hsize hpage,
      Page.items_of_last_lt hsize⟩
  · rw [Page.flatMap_items, List.take_of_length_le (Page.length_le_lastOf_mul hsize)]

end Query

/-! ## Two users on two pages -/

namespace OrderSample

open AuthorSample (posts user post)

/-- The user of the post comes second. -/
def twoUsers : Store where
  collections := [("users", [[("_id", .string "bob"), ("name", .string "bob")], user]),
    ("posts", [post])]
  ids := ⟨fun n => ⟨BitVec.ofNat 128 n⟩, 0⟩

/-- Two users with their posts are sorted by name and read on two pages. -/
theorem twoUsers_on_two_pages :
    ∃ es last, ∃ pages : Nat → Page Entity,
      (sortedBy "name").get (only posts) twoUsers = .ok es ∧
      es.map (·.get? "_id") = [some (.string "ann"), some (.string "bob")] ∧
      (sortedBy "name").count (only posts) twoUsers = .ok 2 ∧
      (sortedBy "name").paginate (only posts) twoUsers 1 1 = .ok (pages 1) ∧
      (sortedBy "name").paginate (only posts) twoUsers 2 1 = .ok (pages 2) ∧
      (List.range' 1 last).flatMap (fun page => (pages page).items) = es := by
  have hvalid : posts.validate = .ok () := rfl
  have hfound : Stage.runAll twoUsers.documents (sortedBy "name").windowStages
      (twoUsers.documents "users") =
        .ok [user, [("_id", .string "bob"), ("name", .string "bob")]] := by
    have hadded : Stage.run twoUsers.documents (.addFields
        [("__order_0", .single "$toLower" (.string ("$" ++ "name")))])
          [[("_id", .string "bob"), ("name", .string "bob")], user] =
            .ok [[("_id", .string "bob"), ("name", .string "bob"), ("__order_0", .string "bob")],
              user ++ [("__order_0", .string "ann")]] := rfl
    show Stage.runAll _ _ [[("_id", .string "bob"), ("name", .string "bob")], user] = _
    rw [run_sortedBy _ hadded, sorted_pair]
    rfl
  have hget : (sortedBy "name").get (only posts) twoUsers = .ok _ :=
    Query.get_eq_ok.mpr ⟨_, _, _, loaded_only hvalid rfl rfl, rfl,
      (Stage.runAll_append_ok (Stage.runAll_append_ok hfound _) _).trans rfl, rfl⟩
  obtain ⟨hcount, pages, last, -, hpages, hall⟩ := Query.pages_partition rfl rfl
    (fun r hr => by rw [eq_of_loads hvalid rfl rfl hr]; rfl) hget (by decide)
    (Nat.le_refl 1) (by decide)
  exact ⟨_, last, pages, hget, rfl, hcount, (hpages 1 (by decide) (by decide)).1,
    (hpages 2 (by decide) (by decide)).1, hall⟩

end OrderSample

end DocMapper
