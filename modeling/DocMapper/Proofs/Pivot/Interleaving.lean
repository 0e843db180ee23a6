import DocMapper.Proofs.Pivot.Reconcile
import DocMapper.Proofs.Schedule

/-! # No two rows about the same, under any interleaving

Changes of many-to-many relations plan their writes from a snapshot, which others may outdate before
the writes are made; so several of them may plan to insert a row for the same owner and target. What
keeps the rows of a collection **apart** all the same is the condition of the write: a row is only
inserted if the filter holds of no row that is there.

That a filter does not hold of a row says that one of its entries does not. If that entry is about a
field, the row differs there from the new one, which holds what the filter asks for
(`shares_inserted`). An entry under `$and`, `$or`, `$nor` or `$expr` is not about a field, and
neither does a value that has operators in it ask for itself: `PivotRows.Over` leaves these out, and
`PivotSample.attached_twice_repeats` shows why. -/

namespace DocMapper

/-- Whether two documents hold values under a key that count as equal, or both hold none. -/
def Document.agreesAt (d e : Document) (key : String) : Bool :=
  match d.get? key, e.get? key with
  | some v, some w => v.equals w
  | none, none => true
  | _, _ => false

namespace PivotKeys

/-- Whether two rows are about the same owner, type and target. -/
def shares (keys : PivotKeys) (row row' : Document) : Bool := keys.keyFields.all (row.agreesAt row')

/-- No two rows are about the same. -/
def Apart (keys : PivotKeys) (docs : List Document) : Prop :=
  docs.Pairwise fun row row' => keys.shares row row' = false

/-- The fields that a layout names are distinct, and none of them leads into another. -/
structure Separate (keys : PivotKeys) : Prop where
  dotFree : ∀ f ∈ keys.fields, IsField f
  distinct : keys.fields.Nodup

end PivotKeys

/-- The rows that a change handles are those of a collection with given fields for the key, and the
filters for them ask for what these fields hold. -/
structure PivotRows.Over (rows : PivotRows) (keys : PivotKeys) : Prop where
  collection : rows.keys.collection = keys.collection
  keyFields : rows.keys.keyFields = keys.keyFields
  separate : rows.keys.Separate
  /-- The field for the owner is not one under which filters have other filters. -/
  ownerField : rows.keys.foreignPivotKey ∉ Filter.combinators
  /-- The name of a type is no reference. -/
  typeName : ∀ name, rows.keys.morphType = some ("$expr", name) → startsDollar name = false
  /-- The owner's key has no operators. -/
  ownerKey : Filter.isLiteral rows.owner = true

/-- Extra attributes that do not reach into a field of the key. -/
def PivotKeys.Spares (keys : PivotKeys) (extra : Document) : Prop :=
  ∀ path ∈ extra.keys, Path.head path ∉ keys.keyFields

namespace PivotKeys

variable {keys : PivotKeys} {row row' : Document} {docs : List Document}

/-! ## Rows with the same fields -/

theorem shares_congr (h : ∀ f ∈ keys.keyFields, row'.get? f = row.get? f) (other : Document) :
    keys.shares row' other = keys.shares row other ∧
      keys.shares other row' = keys.shares other row := by
  have hagrees : ∀ f ∈ keys.keyFields, row'.agreesAt other f = row.agreesAt other f ∧
      other.agreesAt row' f = other.agreesAt row f := by
    intro f hf
    simp only [Document.agreesAt, h f hf, and_self]
  refine ⟨?_, ?_⟩
  · rw [shares, shares, Bool.eq_iff_iff, List.all_eq_true, List.all_eq_true]
    exact forall₂_congr fun f hf => by rw [(hagrees f hf).1]
  · rw [shares, shares, Bool.eq_iff_iff, List.all_eq_true, List.all_eq_true]
    exact forall₂_congr fun f hf => by rw [(hagrees f hf).2]

/-- Rows stay apart if one of them changes and keeps the fields of its key. -/
theorem Apart.modify (h : keys.Apart docs) (i : Nat) {f : Document → Document}
    (hf : ∀ row ∈ docs, ∀ k ∈ keys.keyFields, (f row).get? k = row.get? k) :
    keys.Apart (docs.modify i f) := by
  unfold Apart at h ⊢
  rw [List.pairwise_iff_getElem] at h ⊢
  intro a b ha hb hab
  rw [List.length_modify] at ha hb
  have hrow := fun other => shares_congr (hf docs[a] (List.getElem_mem ha)) other
  have hrow' := fun other => shares_congr (hf docs[b] (List.getElem_mem hb)) other
  have hpair := h a b ha hb hab
  rw [List.getElem_modify, List.getElem_modify]
  split
  · next hia =>
    have hib : i ≠ b := by omega
    rw [if_neg hib, (hrow _).1]
    exact hpair
  · split
    · rw [(hrow' _).2]
      exact hpair
    · exact hpair

theorem Apart.append (h : keys.Apart docs) (hnew : ∀ r ∈ docs, keys.shares r row = false) :
    keys.Apart (docs ++ [row]) := by
  refine List.pairwise_append.mpr ⟨h, List.pairwise_singleton _ _, ?_⟩
  intro r hr r' hr'
  rw [List.mem_singleton.mp hr']
  exact hnew r hr

/-! ## Fields of a separate layout -/

namespace Separate

theorem keyFields_nodup (h : keys.Separate) : keys.keyFields.Nodup :=
  (List.nodup_append.mp h.distinct).1

theorem isField (h : keys.Separate) {f : String} (hf : f ∈ keys.keyFields) : IsField f :=
  h.dotFree f (List.mem_append_left _ hf)

/-- A path that is one of the other fields of the layout does not start with a field of the key. -/
theorem head_ne (h : keys.Separate) {path : String}
    (hpath : path ∈ keys.deletionFields ++ keys.stampFields) {f : String} (hf : f ∈ keys.keyFields) :
    Path.head path ≠ f := by
  rw [Path.head_field (h.dotFree path (List.mem_append_right _ hpath))]
  rintro rfl
  exact (List.nodup_append.mp h.distinct).2.2 path hf path hpath rfl

end Separate

end PivotKeys

namespace PivotRows

variable {rows : PivotRows} {layout : PivotKeys} {extra : Document} {now : String} {id : DocumentId}

/-! ## The write that attaches -/

/-- Whatever the extra attributes are, the write that attaches sets and removes only fields by which
rows are deleted, and gives a new row its new fields or what the filter asks for. -/
theorem attachWrite_paths (rows : PivotRows) (extra : Document) (now : String) (id : DocumentId) :
    (∀ path ∈ Document.keys (rows.attachWrite extra now id).set, path ∈ rows.keys.deletionFields) ∧
      (∀ path ∈ (rows.attachWrite extra now id).unset, path ∈ rows.keys.deletionFields) ∧
      ((rows.attachWrite extra now id).setOnInsert = rows.newFields extra now ∨
        (rows.attachWrite extra now id).setOnInsert = rows.targetFilter id.toJson ∨
        (rows.attachWrite extra now id).setOnInsert = []) := by
  rw [attachWrite, PivotKeys.deletionFields]
  refine ⟨?_, ?_, ?_⟩
  · cases rows.keys.softDelete <;> simp
  · cases rows.keys.softDelete with
    | none => simp
    | some d => exact fun path hpath => List.mem_cons_of_mem _ hpath
  · dsimp only
    split
    · split
      · exact .inr (.inl rfl)
      · exact .inr (.inr rfl)
    · exact .inl rfl

/-- The new fields of a row are extra attributes and times. -/
theorem mem_keys_newFields {path : String}
    (h : path ∈ Document.keys (rows.newFields extra now)) :
    path ∈ extra.keys ∨ path ∈ rows.keys.stampFields := by
  have hextra : ∀ (keep : String × Json → Bool), ∀ p ∈ Document.keys (extra.filter keep),
      p ∈ extra.keys := by
    intro keep p hp
    obtain ⟨e, he, rfl⟩ := List.mem_map.mp hp
    exact List.mem_map_of_mem (List.mem_filter.mp he).1
  unfold newFields at h
  rw [PivotKeys.stampFields]
  cases ht : rows.keys.timestamps with
  | none =>
    rw [ht] at h
    exact .inl (hextra _ path h)
  | some t =>
    simp only [ht] at h
    rcases Document.mem_keys_insert.mp h with rfl | h
    · exact .inr (by simp)
    · rcases Document.mem_keys_insert.mp h with rfl | h
      · exact .inr (by simp)
      · exact .inl (hextra _ path h)

/-! ## Entries of the filter for a target -/

theorem field_of_mem_targetFilter (h : rows.keys.Separate) {e : String × Json}
    (he : e ∈ rows.targetFilter id.toJson) : e.1 ∈ rows.keys.keyFields := by
  rw [← keys_targetFilter h.keyFields_nodup id.toJson]
  exact Document.mem_keys_of_mem he

/-- What the filter asks of the fields is what new rows get. -/
theorem isLiteral_of_mem_targetFilter (h : rows.Over layout) {e : String × Json}
    (he : e ∈ rows.targetFilter id.toJson) : Filter.isLiteral e.2 = true := by
  rcases mem_targetFilter h.separate.keyFields_nodup he with rfl | ⟨field, name, -, rfl⟩ | rfl
  · exact h.ownerKey
  · rfl
  · rfl

/-- A row that the filter does not hold of differs from what the filter asks for in a field. -/
theorem exists_differing (h : rows.Over layout) {row : Document}
    (hnot : Filter.accepts row (.object (rows.targetFilter id.toJson)) = .ok false) :
    ∃ e ∈ rows.targetFilter id.toJson, startsDollar e.1 = false ∧
      Filter.equals row e.1 e.2 = false := by
  rw [Filter.accepts] at hnot
  obtain ⟨⟨f, v⟩, he, hfalse⟩ := Filter.exists_of_entriesHold_eq_false hnot
  -- The other entries can only be tested if they hold.
  have hfield : startsDollar f = false := by
    refine Bool.eq_false_iff.mpr fun hdollar => ?_
    rcases mem_targetFilter h.separate.keyFields_nodup he with heq | ⟨field, name, hm, heq⟩ | heq
    · cases heq
      exact h.ownerField (Filter.mem_combinators_of_entriesHold hdollar hfalse)
    · cases heq
      refine Filter.entriesHold_string_ne_false hdollar ?_ row hfalse
      rintro rfl
      exact h.typeName name hm
    · cases heq
      exact Filter.entriesHold_string_ne_false hdollar (fun _ => id.startsDollar_canonical) row
        hfalse
  have hliteral := isLiteral_of_mem_targetFilter h he
  rw [Filter.entriesHold_single hfield, Filter.conditionHolds_of_literal hliteral] at hfalse
  exact ⟨(f, v), he, hfield, Except.ok.inj hfalse⟩

/-! ## The new row -/

/-- A new row holds what the filter asks of a field. -/
theorem get?_inserted (h : rows.Over layout) (hextra : layout.Spares extra) {u : Update}
    (hu : Update.ofJson (rows.attachUpdate extra now id) = .ok u) {f : String} {v : Json}
    (hmem : (f, v) ∈ rows.targetFilter id.toJson) (hfield : startsDollar f = false) :
    (u.inserted (.object (rows.targetFilter id.toJson))).get? f = some v := by
  obtain ⟨hset, hunset, hnew⟩ := attachWrite_paths rows extra now id
  cases hu.symm.trans (ofJson_attachUpdate rows extra now id)
  have hsep := h.separate
  have hkey : f ∈ rows.keys.keyFields := field_of_mem_targetFilter hsep hmem
  have hfields : ∀ k ∈ Document.keys (rows.targetFilter id.toJson), IsField k := by
    rw [keys_targetFilter hsep.keyFields_nodup]
    exact fun k hk => hsep.isField hk
  have hunique : Document.Unique (rows.targetFilter id.toJson) := by
    rw [Document.Unique, keys_targetFilter hsep.keyFields_nodup]
    exact hsep.keyFields_nodup
  have hfixed : Update.fixedValue? v = some v :=
    Update.fixedValue?_of_isLiteral (isLiteral_of_mem_targetFilter h hmem)
  have hseed := Update.get?_seed hfields hunique hmem hfield hfixed
  have honInsert : (Update.setAll (Update.seed (.object (rows.targetFilter id.toJson)))
      (rows.attachWrite extra now id).setOnInsert).get? f = some v := by
    rcases hnew with hnew | hnew | hnew
    · rw [hnew, Update.get?_setAll_of_head_ne _ _, hseed]
      intro path hpath
      rcases mem_keys_newFields hpath with hpath | hpath
      · rintro rfl
        exact hextra path hpath (h.keyFields ▸ hkey)
      · exact hsep.head_ne (List.mem_append_right _ hpath) hkey
    · rw [hnew, Update.setAll_eq_merge hfields, Document.get?_merge hunique,
        (Document.get?_eq_some_iff hunique).mpr hmem]
      rfl
    · rw [hnew]
      exact hseed
  rw [Update.inserted, Update.get?_apply_of_head_ne, honInsert]
  · exact Update.unique_setAll (Update.unique_seed _) _
  · exact fun path hpath => hsep.head_ne (List.mem_append_left _ (hset path hpath)) hkey
  · exact fun path hpath => hsep.head_ne (List.mem_append_left _ (hunset path hpath)) hkey

/-- A row that the filter does not hold of, and whose identifier is another one, is not about the
same as the row that is inserted. -/
theorem shares_inserted (h : rows.Over layout) (hextra : layout.Spares extra) {u : Update}
    (hu : Update.ofJson (rows.attachUpdate extra now id) = .ok u) {row : Document}
    (hnot : Filter.accepts row (.object (rows.targetFilter id.toJson)) = .ok false)
    {rowId : DocumentId} (hrowId : Store.hasId rowId row = false) :
    layout.shares row ((u.inserted (.object (rows.targetFilter id.toJson))).insert "_id" rowId.toJson)
      = false := by
  obtain ⟨⟨f, v⟩, hmem, hfield, hdiffers⟩ := exists_differing h hnot
  have hkey : f ∈ rows.keys.keyFields := field_of_mem_targetFilter h.separate hmem
  rw [PivotKeys.shares, List.all_eq_false]
  refine ⟨f, h.keyFields ▸ hkey, ?_⟩
  unfold Document.agreesAt
  by_cases hf : "_id" = f
  · -- The identifier takes the place of what the filter asks for, and is new.
    subst hf
    rw [Document.get?_insert_self]
    unfold Store.hasId at hrowId
    cases hget : row.get? "_id" with
    | none => simp
    | some w =>
      rw [hget] at hrowId
      simpa using hrowId
  · rw [Document.get?_insert_of_ne hf, get?_inserted h hextra hu hmem hfield]
    cases hget : row.get? f with
    | none => simp
    | some w =>
      simp only [Bool.not_eq_true]
      refine Bool.eq_false_iff.mpr fun hequals => ?_
      rw [Filter.equals_of_get?_equals (h.separate.isField hkey) hget hequals] at hdiffers
      cases hdiffers

/-- Updating a row leaves the fields of its key as they are. -/
theorem get?_apply (h : rows.Over layout) {u : Update}
    (hu : Update.ofJson (rows.attachUpdate extra now id) = .ok u) {row : Document}
    (hrow : row.Unique) {f : String} (hf : f ∈ layout.keyFields) :
    (u.apply row).get? f = row.get? f := by
  obtain ⟨hset, hunset, -⟩ := attachWrite_paths rows extra now id
  cases hu.symm.trans (ofJson_attachUpdate rows extra now id)
  rw [← h.keyFields] at hf
  apply Update.get?_apply_of_head_ne hrow
  · exact fun path hpath => h.separate.head_ne (List.mem_append_left _ (hset path hpath)) hf
  · exact fun path hpath => h.separate.head_ne (List.mem_append_left _ (hunset path hpath)) hf

end PivotRows

/-! ## What every call preserves -/

/-- The rows of a collection are maps, and no two of them are about the same. -/
structure PivotKeys.ApartIn (keys : PivotKeys) (s : Store) : Prop where
  unique : ∀ row ∈ s.documents keys.collection, row.Unique
  apart : keys.Apart (s.documents keys.collection)

namespace PivotRows

variable {rows : PivotRows} {layout : PivotKeys} {extra : Document} {s : Store}

/-- Attaching a target inserts no row about the same as another one, whatever was written since it
was planned. -/
theorem attachOne_apart (h : rows.Over layout) (hextra : layout.Spares extra) (now : String)
    (id : DocumentId) (hs : layout.ApartIn s) : layout.ApartIn (rows.attachOne extra now id s).2 := by
  have hafter := Store.documents_upsertOne layout.collection
    (.object (rows.targetFilter id.toJson)) (rows.attachUpdate extra now id) s
  rw [attachOne, h.collection]
  rcases hafter with hsame | ⟨u, hu, ⟨i, hmodified⟩ | ⟨hnone, rowId, hrowId, happended⟩⟩
  · exact ⟨hsame ▸ hs.unique, hsame ▸ hs.apart⟩
  · refine ⟨?_, ?_⟩
    · rw [hmodified, Store.documents_put_self]
      intro row hrow
      obtain ⟨j, hj, rfl⟩ := List.mem_iff_getElem.mp hrow
      rw [List.getElem_modify]
      rw [List.length_modify] at hj
      have hunique := hs.unique _ (List.getElem_mem hj)
      split
      · exact Update.unique_apply hunique u
      · exact hunique
    · rw [hmodified, Store.documents_put_self]
      exact hs.apart.modify i fun row hrow f hf => get?_apply h hu (hs.unique row hrow) hf
  · refine ⟨?_, ?_⟩
    · rw [happended, Store.documents_put_self]
      intro row hrow
      rcases List.mem_append.mp hrow with hrow | hrow
      · exact hs.unique row hrow
      · rw [List.mem_singleton.mp hrow]
        exact (Update.unique_inserted u _).insert _ _
    · rw [happended, Store.documents_put_self]
      exact hs.apart.append fun row hrow =>
        shares_inserted h hextra hu (hnone row hrow) (hrowId row hrow)

/-- Removing rows leaves those that stay apart, also if it fails. -/
theorem deleteMany_apart (h : rows.Over layout) (filter : Json) (hs : layout.ApartIn s) :
    layout.ApartIn (Store.deleteMany rows.keys.collection filter s).2 := by
  rw [h.collection]
  have hsub := Store.documents_deleteMany_sublist layout.collection filter s
  exact ⟨fun row hrow => hs.unique row (hsub.subset hrow), hs.apart.sublist hsub⟩

/-! ## What every program keeps -/

theorem removing_keeps (h : rows.Over layout) (ids : List DocumentId) (changes : PivotChanges) :
    (rows.removing ids changes).Keeps layout.ApartIn := by
  unfold removing
  split
  · trivial
  · exact Program.keeps_call (fun _ hs => deleteMany_apart h _ hs) fun _ => trivial

theorem attaching_keeps (h : rows.Over layout) (hextra : layout.Spares extra) (now : String)
    (delete ids : List DocumentId) (changes : PivotChanges) :
    (rows.attaching extra now delete ids changes).Keeps layout.ApartIn := by
  induction ids generalizing changes with
  | nil => exact removing_keeps h delete changes
  | cons id ids ih =>
    exact Program.keeps_call (fun _ hs => attachOne_apart h hextra now id hs) fun _ => ih _

/-- Reading rows changes nothing, so the plan may be any. -/
theorem reconciling_keeps (h : rows.Over layout) (hextra : layout.Spares extra) (now : String)
    (plan : PivotSnapshot → PivotPlan) :
    (rows.reconciling extra now plan).Keeps layout.ApartIn :=
  Program.keeps_call (fun _ hs => hs) fun _ => attaching_keeps h hextra now _ _ _

theorem clearing_keeps (h : rows.Over layout) : rows.clearing.Keeps layout.ApartIn :=
  Program.keeps_call (fun _ hs => hs) fun _ =>
    Program.keeps_call (fun _ hs => deleteMany_apart h _ hs) fun _ => trivial

end PivotRows

/-! ## Changes side by side -/

/-- A change that is asked for through a handle at some time. -/
structure PivotCall where
  handle : RelationHandle
  now : String
  change : Reconciliation

namespace PivotCall

def program (c : PivotCall) : Program PivotChanges := c.handle.program c.now c.change

/-- A change of rows with given fields for their key, whose extra attributes leave the key alone. -/
structure Over (c : PivotCall) (layout : PivotKeys) : Prop where
  rows : ∀ rows, c.handle.pivotRows = .ok rows → rows.Over layout
  extra : ∀ extra, RelationHandle.extraAttributes c.change.extra = .ok extra → layout.Spares extra

variable {c : PivotCall} {layout : PivotKeys}

theorem planned_keeps (h : c.Over layout) (ids : List Json)
    (plan : PivotSnapshot → List DocumentId → PivotPlan) {extra : Json}
    (hextra : ∀ fields, RelationHandle.extraAttributes extra = .ok fields → layout.Spares fields) :
    (c.handle.planned c.now ids extra plan).Keeps layout.ApartIn :=
  Program.keeps_given fun _ _ => Program.keeps_given fun fields hfields =>
    Program.keeps_given fun rows hrows =>
      PivotRows.reconciling_keeps (h.rows rows hrows) (hextra fields hfields) c.now _

theorem program_keeps (h : c.Over layout) : c.program.Keeps layout.ApartIn := by
  obtain ⟨handle, now, change⟩ := c
  cases change with
  | attach ids extra => exact planned_keeps h ids _ h.extra
  | detach ids => exact planned_keeps h ids _ h.extra
  | detachAll =>
    exact Program.keeps_given fun rows hrows => PivotRows.clearing_keeps (h.rows rows hrows)
  | sync ids extra => exact planned_keeps h ids _ h.extra
  | syncWithoutDetaching ids extra => exact planned_keeps h ids _ h.extra
  | toggle ids => exact planned_keeps h ids _ h.extra

end PivotCall

/-- **No two rows about the same, under any interleaving.** However many changes of many-to-many
relations run side by side over the rows of one collection, for whatever owners, and in whatever
order their calls come: if no two rows are about the same owner, type and target at the start, no
two are at any time. -/
theorem PivotKeys.apart_at_any_time {ι : Type} [DecidableEq ι] (layout : PivotKeys)
    (calls : ι → PivotCall) (hcalls : ∀ i, (calls i).Over layout) (s : Store)
    (hunique : ∀ row ∈ s.documents layout.collection, row.Unique)
    (hstart : layout.Apart (s.documents layout.collection)) (schedule : List ι) :
    layout.Apart (((Pool.mk (fun i => (calls i).program) s).after schedule).store.documents
      layout.collection) :=
  (Pool.after_keeps (p := ⟨fun i => (calls i).program, s⟩)
    (fun i => PivotCall.program_keeps (hcalls i)) ⟨hunique, hstart⟩ schedule).apart

/-! ## Two users of one collection -/

namespace PivotSample

/-- One caller attaches both roles to the user, with a note on the rows, while another one toggles
them. -/
def calls (attaches : Bool) : PivotCall where
  handle := handle
  now := "now"
  change := if attaches then .attach (roles.map (·.toJson)) (.single "note" (.string "new")) else change

theorem calls_over (attaches : Bool) : (calls attaches).Over keys := by
  refine ⟨?_, ?_⟩
  · intro rows hrows
    have hhandle : handle.HasPivot keys user := ⟨rfl, user.toJson, rfl, user.ofJson?_toJson⟩
    have heq : rows = keys.rowsOf user :=
      Except.ok.inj (hrows.symm.trans (RelationHandle.pivotRows_eq hhandle))
    subst heq
    exact ⟨rfl, rfl, ⟨fun f hf => (keys_tidy.plain f hf).field, keys_tidy.distinct⟩, by decide,
      nofun, rfl⟩
  · intro extra hextra
    cases attaches with
    | false =>
      cases hextra
      exact fun path hpath => absurd hpath List.not_mem_nil
    | true =>
      cases hextra
      intro path hpath
      rw [List.mem_singleton.mp hpath]
      decide

/-- The two callers take turns, and each role has one row in the end. -/
theorem taking_turns_apart :
    (∀ attaches, (calls attaches).Over keys) ∧
      keys.Apart (((Pool.mk (fun attaches => (calls attaches).program) store).after
        [true, false, true, false, true, false]).store.documents keys.collection) :=
  ⟨calls_over, keys.apart_at_any_time calls calls_over store
    (fun row hrow => (store_wellFormed.rows row hrow).unique) (List.pairwise_singleton _ _) _⟩

/-- A layout whose rows refer to a code of the owner, under a given field. -/
def codeKeys (field : String) : PivotKeys where
  collection := "role_user"
  foreignPivotKey := field
  relatedPivotKey := "roleId"
  parentKey := "code"

/-- A request to attach a role to an owner with a given code. -/
def attachToCode (field : String) (code : Json) : PivotCall where
  handle := { handle with
    relation := { handle.relation with keys := .pivot (codeKeys field) }
    owner := [("code", code)] }
  now := "now"
  change := .attach [DocumentId.toJson ⟨2#128⟩] .null

/-- The rows after two callers, one after the other, have attached a role to the same owner. -/
def attachedTwice (field : String) (code : Json) : List Document :=
  ((Pool.mk (fun _ : Bool => (attachToCode field code).program) ⟨[], 0, store.ids⟩).after
    [true, true, false, false]).store.documents "role_user"

/-- The condition of the write is no condition on the key if the field for the owner is an operator
of filters, or if the owner's code has operators in it: both callers insert a row. -/
theorem attached_twice_repeats :
    ((codeKeys "$expr").Separate ∧
        ¬ (codeKeys "$expr").Apart (attachedTwice "$expr" (.string "$foo"))) ∧
      (codeKeys "userId").Separate ∧
        ¬ (codeKeys "userId").Apart
          (attachedTwice "userId" (.object [("$eq", .int 1), ("$gt", .int 5)])) := by
  have hseparate : ∀ field, IsField field → field ≠ "roleId" → (codeKeys field).Separate := by
    intro field hfield hne
    refine ⟨?_, ?_⟩
    · intro f hf
      have hcases : f = field ∨ f = "roleId" := by
        simpa [PivotKeys.fields, PivotKeys.keyFields, PivotKeys.deletionFields,
          PivotKeys.stampFields, codeKeys] using hf
      rcases hcases with rfl | rfl
      · exact hfield
      · decide
    · simp [PivotKeys.fields, PivotKeys.keyFields, PivotKeys.deletionFields,
        PivotKeys.stampFields, codeKeys, hne]
  refine ⟨⟨hseparate _ (by decide) (by decide), ?_⟩, hseparate _ (by decide) (by decide), ?_⟩
  · unfold PivotKeys.Apart
    decide +kernel
  · unfold PivotKeys.Apart
    decide +kernel

end PivotSample

end DocMapper
