import DocMapper.Proofs.Pivot.Detaching
import DocMapper.Proofs.Pivot.Interleaving
import DocMapper.Proofs.Pivot.NewRow

/-! # What extra attributes do to new rows

Extra attributes under the exact names of the references and of the marker are left out of a new
row. One under the field of the type is not, nor is one whose path leads into a field of the key, so
the row may come out as that of another type or target, or of none.

A row `States` what it should if it is about the owner, the type and the target and nobody else.
This is what decides (`RelationHandle.attach_redirects_nothing_iff`): all targets that were attached
are listed as active, and nobody else finds other rows than before, exactly if the row that the
attributes describe for each target says what it should. Attributes that leave the key alone do no
harm. -/

namespace DocMapper

namespace PivotKeys

variable {keys : PivotKeys} {owner target id : DocumentId} {row row' : Document}
  {docs olds news : List Document} {extra : Document} {now : String} {s t : Store}

/-- A row that refers to an owner and a target, and whose type is that of the layout and no other
one. -/
structure States (keys : PivotKeys) (owner target : DocumentId) (row : Document) : Prop where
  owner : row.get? keys.foreignPivotKey = some owner.toJson
  type : ∀ field name, keys.morphType = some (field, name) →
    ∀ other, Filter.equals row field (.string other) = true ↔ other = name
  target : (row.get? keys.relatedPivotKey).bind DocumentId.ofJson? = some target

/-! ## Rows that keep their keys -/

/-- A row becomes another one of the same owner with the same key, or stays as it is. -/
def KeepsKey (keys : PivotKeys) (owner : DocumentId) (row row' : Document) : Prop :=
  row' = row ∨ keys.owns owner row = true ∧ ∀ f ∈ keys.keyFields, row'.get? f = row.get? f

theorem KeepsKey.key_eq (h : keys.KeepsKey owner row row') : keys.key row' = keys.key row := by
  rcases h with rfl | ⟨-, hkey⟩
  · rfl
  · exact key_congr hkey

theorem KeepsKey.trans {row'' : Document} (h : keys.KeepsKey owner row row')
    (h' : keys.KeepsKey owner row' row'') : keys.KeepsKey owner row row'' := by
  rcases h with rfl | ⟨howns, hkey⟩
  · exact h'
  · rcases h' with rfl | ⟨-, hkey'⟩
    · exact .inr ⟨howns, hkey⟩
    · exact .inr ⟨howns, fun f hf => (hkey' f hf).trans (hkey f hf)⟩

theorem keepsKey_refl (docs : List Document) : List.Forall₂ (keys.KeepsKey owner) docs docs :=
  List.forall₂_same.mpr fun _ _ => .inl rfl

theorem keepsKey_restored (hk : keys.Tidy) (hunique : row.Unique)
    (howns : keys.owns owner row = true) (before after : List Document) :
    List.Forall₂ (keys.KeepsKey owner) (before ++ row :: after)
      (before ++ keys.restored row :: after) := by
  refine List.rel_append (keepsKey_refl before) (.cons (.inr ⟨howns, fun f hf => ?_⟩)
    (keepsKey_refl after))
  exact get?_restored_key hk hunique hf

/-! ## Attaching several targets -/

theorem exists_split_left {α : Type} {l r before after : List α} {a : α}
    (h : l ++ r = before ++ a :: after) (ha : a ∉ r) :
    ∃ after', l = before ++ a :: after' ∧ after = after' ++ r := by
  rcases List.append_eq_append_iff.mp h with ⟨rest, -, hr⟩ | ⟨rest, hl, hrest⟩
  · exact absurd (hr ▸ List.mem_append_right _ List.mem_cons_self) ha
  · cases rest with
    | nil =>
      rw [List.nil_append] at hrest
      exact absurd (hrest ▸ List.mem_cons_self) ha
    | cons b rest =>
      obtain ⟨rfl, rfl⟩ := List.cons.inj hrest
      exact ⟨rest, hl, rfl⟩

/-- The row for one target is not found for another one. -/
theorem IsNewRow.not_found (hk : keys.Tidy) (h : keys.IsNewRow owner target extra now row)
    (hne : id ≠ target) : keys.found owner id row = false := by
  refine Bool.eq_false_iff.mpr fun hfound => ?_
  have hequals := equals_of_found hk hfound
  have hfield := (hk.plain_of_mem related_mem_keyFields).field
  have hget := h.key _ related_mem_keyFields
  rcases get?_described_cases hk owner extra now (.inr rfl) with hkept | ⟨fields, hfields⟩
  · rw [hkept, (get?_targetFilter hk owner target).2.1] at hget
    have hsame : target.toJson = id.toJson :=
      (Filter.equals_string_iff hfield hget (Json.ne_array_of_isScalar rfl) _).mp hequals
    exact hne (DocumentId.toJson_injective hsame).symm
  · rw [hfields] at hget
    have hsame : Json.object fields = id.toJson :=
      (Filter.equals_string_iff hfield hget (fun _ => Json.noConfusion) _).mp hequals
    cases hsame

/-- Attaching targets appends a new row for each that it reports as attached, and leaves the key of
every other row as it is. -/
theorem attaching_appends (hk : keys.Tidy) {ids : List DocumentId} (hids : ids.Nodup)
    (hdocs : s.documents keys.collection = olds ++ news) (hwf : keys.WellFormed olds)
    (hnews : ∀ id ∈ ids, ∀ row ∈ news, keys.found owner id row = false)
    {changes out : PivotChanges}
    (hrun : ((keys.rowsOf owner).attaching extra now [] ids changes).run s = (.ok out, t)) :
    ∃ olds' inserted news', t.documents keys.collection = olds' ++ (news ++ news') ∧
      List.Forall₂ (keys.KeepsKey owner) olds olds' ∧ keys.WellFormed olds' ∧
      out.attached = changes.attached ++ inserted ∧
      (∀ id ∈ inserted, ∀ row ∈ olds', keys.ties owner id row = false) ∧
      List.Forall₂ (fun id => keys.IsNewRow owner id extra now) inserted news' := by
  induction ids generalizing s olds news changes with
  | nil =>
    cases hrun
    exact ⟨olds, [], [], by rw [List.append_nil, hdocs], keepsKey_refl olds, hwf,
      (List.append_nil _).symm, fun _ hid => absurd hid List.not_mem_nil, .nil⟩
  | cons id ids ih =>
    obtain ⟨hid, hids⟩ := List.nodup_cons.mp hids
    obtain ⟨outcome, u, hone, hrest⟩ := Program.call_eq_ok hrun
    have hnews' : ∀ other ∈ ids, ∀ row ∈ news, keys.found owner other row = false :=
      fun other hother => hnews other (List.mem_cons_of_mem id hother)
    rcases attachOne_eq_ok hk hone with ⟨hnone, before, row, after, hsplit, hfound, hu⟩ |
      ⟨⟨rowId, hsome⟩, hnotFound, row, hnew, -, hu⟩
    · have hnotNew : row ∉ news := fun hmem =>
        Bool.false_ne_true ((hnews id List.mem_cons_self row hmem).symm.trans hfound)
      obtain ⟨after', rfl, rfl⟩ := exists_split_left (hdocs.symm.trans hsplit) hnotNew
      have hrow : keys.FitsRow row :=
        hwf.rows row (List.mem_append_right _ List.mem_cons_self)
      rw [found_eq_ties hk hrow.singleValued] at hfound
      rw [List.append_cons, ← List.append_assoc, ← List.append_cons] at hu
      obtain ⟨olds', inserted, news', hdocs', hkeeps, hwf', hattached, hnone', hnews''⟩ :=
        ih hids hu (hwf.replace (hrow.restored hk) (key_restored hk hrow.unique)) hnews' hrest
      have hrestored := keepsKey_restored hk hrow.unique (ties_iff.mp hfound).1 before after'
      refine ⟨olds', inserted, news', hdocs', ?_, hwf', ?_, hnone', hnews''⟩
      · exact (forall₂_trans hrestored hkeeps).imp fun _ _ ⟨_, h, h'⟩ => h.trans h'
      · rw [hattached, PivotRows.attached_report_none hnone]
    · rw [hdocs, List.append_assoc] at hu
      have hnewsRow : ∀ other ∈ ids, ∀ r ∈ news ++ [row], keys.found owner other r = false := by
        intro other hother r hr
        rcases List.mem_append.mp hr with hr | hr
        · exact hnews' other hother r hr
        · rw [List.mem_singleton.mp hr]
          exact hnew.not_found hk fun heq => hid (heq ▸ hother)
      obtain ⟨olds', inserted, news', hdocs', hkeeps, hwf', hattached, hnone', hnews''⟩ :=
        ih hids hu hwf hnewsRow hrest
      refine ⟨olds', id :: inserted, row :: news', ?_, hkeeps, hwf', ?_, ?_, .cons hnew hnews''⟩
      · rw [hdocs', List.append_assoc, List.singleton_append]
      · rw [hattached, PivotRows.attached_report_some hsome, List.append_assoc,
          List.singleton_append]
      · intro other hother r hr
        rcases List.mem_cons.mp hother with rfl | hother
        · obtain ⟨e, he, hkey⟩ := exists_of_mem_forall₂ hkeeps hr
          have hnot := hnotFound e (hdocs ▸ List.mem_append_left _ he)
          rw [found_eq_ties hk (hwf.rows e he).singleValued] at hnot
          rw [ties_of_key_eq hkey.key_eq, hnot]
        · exact hnone' other hother r hr

/-! ## What a row says -/

theorem States.congr (hk : keys.Tidy) (h : keys.States owner target row)
    (hkey : ∀ f ∈ keys.keyFields, row'.get? f = row.get? f) : keys.States owner target row' := by
  refine ⟨?_, ?_, ?_⟩
  · rw [hkey _ foreign_mem_keyFields, h.owner]
  · intro field name hm other
    have hmem := morph_mem_keyFields hm
    rw [Filter.equals_of_get?_eq (hk.plain_of_mem hmem).field (hkey field hmem),
      h.type field name hm]
  · rw [hkey _ related_mem_keyFields, h.target]

/-- The row that the filter describes says what it should. -/
theorem states_of_get? (hk : keys.Tidy)
    (h : ∀ f ∈ keys.keyFields, row.get? f =
      Document.get? ((keys.rowsOf owner).targetFilter target.toJson) f) :
    keys.States owner target row := by
  obtain ⟨howner, htarget, htype⟩ := get?_targetFilter hk owner target
  refine ⟨?_, ?_, ?_⟩
  · rw [h _ foreign_mem_keyFields, howner]
  · intro field name hm other
    have hmem := morph_mem_keyFields hm
    have hget := (h field hmem).trans (htype field name hm)
    rw [Filter.equals_string_iff (hk.plain_of_mem hmem).field hget (Json.ne_array_of_isScalar rfl),
      Json.string.injEq, eq_comm]
  · rw [h _ related_mem_keyFields, htarget, Option.bind_some, DocumentId.ofJson?_toJson]

/-- A row that fits and belongs to an owner says so. -/
theorem FitsRow.exists_states (hk : keys.Tidy) (h : keys.FitsRow row)
    (howns : keys.owns owner row = true) : ∃ target, keys.States owner target row := by
  obtain ⟨target, htarget, -⟩ := h.exists_ties howns
  obtain ⟨id, hid⟩ := h.owner
  rw [owns, Bool.and_eq_true, beq_iff_eq, Document.textAt_of_get? hid, Option.some.injEq] at howns
  refine ⟨target, ?_, ?_, ?_⟩
  · rw [hid, DocumentId.canonical_injective howns.1]
  · intro field name hm other
    have hmem := morph_mem_keyFields hm
    have htext : row.textAt field = some name := by simpa [hm] using howns.2
    rw [Filter.equals_string (hk.plain_of_mem hmem).field (h.singleValued field hmem), htext,
      beq_iff_eq, Option.some.injEq, eq_comm]
  · rw [htarget, Option.bind_some, DocumentId.ofJson?_toJson]

/-- Attributes that reach into no field of the key, but for the exact names of the references, leave
the key as the filter says it. -/
theorem get?_described (hk : keys.Tidy) (hextra : ∀ path ∈ extra.keys,
      Path.head path ∈ keys.keyFields →
        path = keys.foreignPivotKey ∨ path = keys.relatedPivotKey)
    {f : String} (hf : f ∈ keys.keyFields) : (keys.described owner target extra now).get? f =
      Document.get? ((keys.rowsOf owner).targetFilter target.toJson) f := by
  refine Update.get?_setAll_of_head_ne (fun path hpath => ?_) _
  rintro rfl
  rcases PivotRows.mem_keys_newFields hpath with hmem | hmem
  · exact reference_not_mem_newFields hk (hextra path hmem hf) hpath
  · have hstamp : path ∈ keys.deletionFields ++ keys.stampFields := List.mem_append_right _ hmem
    rw [Path.head_field (hk.plain path (List.mem_append_right _ hstamp)).field] at hf
    exact (List.nodup_append.mp hk.distinct).2.2 path hf path hstamp rfl

theorem states_described (hk : keys.Tidy) (hextra : ∀ path ∈ extra.keys,
      Path.head path ∈ keys.keyFields →
        path = keys.foreignPivotKey ∨ path = keys.relatedPivotKey)
    (owner target : DocumentId) (now : String) :
    keys.States owner target (keys.described owner target extra now) :=
  states_of_get? hk fun _ hf => get?_described hk hextra hf

/-! ## Who finds a row -/

/-- The rows of an owner with a given key and of a given type, in the same layout. -/
def seenBy (keys : PivotKeys) (owner : Json) (type : String) : PivotRows :=
  ⟨{ keys with morphType := keys.morphType.map fun m => (m.1, type) }, owner⟩

@[simp] theorem keyFields_seenBy (owner : Json) (type : String) :
    (keys.seenBy owner type).keys.keyFields = keys.keyFields := by
  rw [keyFields, keyFields, seenBy]
  cases keys.morphType <;> rfl

@[simp] theorem ownerFields_seenBy (owner : Json) (type : String) :
    (keys.seenBy owner type).keys.ownerFields = keys.ownerFields := by
  rw [ownerFields, ownerFields, seenBy]
  cases keys.morphType <;> rfl

end PivotKeys

namespace PivotRows

variable {rows : PivotRows} {row : Document}

/-- Rows whose filter can be tested on rows of any content. -/
structure Testable (rows : PivotRows) : Prop where
  distinct : rows.keys.keyFields.Nodup
  plain : ∀ f ∈ rows.keys.ownerFields, startsDollar f = false
  literal : Filter.isLiteral rows.owner = true

theorem Testable.finds_eq (h : rows.Testable) (row : Document) :
    rows.finds row = rows.ownerFilter.all fun e => Filter.equals row e.1 e.2 := by
  rw [finds, accepts_ownerFilter h.distinct h.plain h.literal]
  rfl

theorem Testable.accepts (h : rows.Testable) (row : Document) :
    Filter.accepts row (.object rows.ownerFilter) = .ok (rows.finds row) := by
  rw [h.finds_eq, accepts_ownerFilter h.distinct h.plain h.literal]

theorem Testable.exists_snapshot (h : rows.Testable) (s : Store) :
    ∃ p, rows.snapshot s = (.ok p, s) ∧
      rows.Lists ((s.documents rows.keys.collection).filter rows.finds) p :=
  snapshot_lists fun row _ => h.accepts row

theorem Testable.finds_iff (h : rows.Testable) (row : Document) :
    rows.finds row = true ↔
      Filter.equals row rows.keys.foreignPivotKey rows.owner = true ∧
        ∀ field name, rows.keys.morphType = some (field, name) →
          Filter.equals row field (.string name) = true := by
  rw [h.finds_eq, ownerFilter_eq h.distinct, List.all_cons, Bool.and_eq_true]
  refine and_congr_right fun _ => ?_
  cases rows.keys.morphType with
  | none => simp
  | some m =>
    obtain ⟨field, name⟩ := m
    simp

end PivotRows

namespace PivotKeys

variable {keys : PivotKeys} {owner target : DocumentId} {row : Document} {w : Json} {n : String}

theorem testable_seenBy (hk : keys.Tidy) (hw : Filter.isLiteral w = true) (n : String) :
    (keys.seenBy w n).Testable := by
  refine ⟨?_, fun f hf => ?_, hw⟩
  · rw [keyFields_seenBy]
    exact hk.keyFields_nodup
  · rw [ownerFields_seenBy] at hf
    exact (hk.plain_of_mem (mem_keyFields_of_mem_ownerFields hf)).noDollar

theorem testable_rowsOf (hk : keys.Tidy) (owner : DocumentId) : (keys.rowsOf owner).Testable :=
  ⟨hk.keyFields_nodup,
    fun _ hf => (hk.plain_of_mem (mem_keyFields_of_mem_ownerFields hf)).noDollar, rfl⟩

/-- A row that says what it should is found for its owner. -/
theorem States.finds (hk : keys.Tidy) (h : keys.States owner target row) :
    (keys.rowsOf owner).finds row = true := by
  rw [(testable_rowsOf hk owner).finds_iff]
  refine ⟨?_, fun field name hm => (h.type field name hm name).mpr rfl⟩
  exact Filter.equals_of_get?_equals (hk.plain_of_mem foreign_mem_keyFields).field h.owner
    (Json.equals_string_iff.mpr rfl)

/-- A row that says what it should is found for nobody else. -/
theorem States.not_finds (hk : keys.Tidy) (h : keys.States owner target row)
    (hw : Filter.isLiteral w = true)
    (hother : (keys.seenBy w n).ownerFilter ≠ (keys.rowsOf owner).ownerFilter) :
    (keys.seenBy w n).finds row = false := by
  refine Bool.eq_false_iff.mpr fun hfinds => hother ?_
  obtain ⟨howner, htype⟩ := ((testable_seenBy hk hw n).finds_iff row).mp hfinds
  replace howner : Filter.equals row keys.foreignPivotKey w = true := howner
  have hequals : w = owner.toJson := by
    rw [Filter.equals_of_get? (hk.plain_of_mem foreign_mem_keyFields).field h.owner
        (Json.ne_array_of_isScalar rfl),
      Json.equals_comm] at howner
    exact Json.equals_string_iff.mp howner
  rw [PivotRows.ownerFilter, PivotRows.ownerFilter, seenBy, rowsOf, hequals]
  cases hm : keys.morphType with
  | none => rfl
  | some m =>
    obtain ⟨field, name⟩ := m
    have hname : n = name := (h.type field name hm n).mp (htype field n (by simp [seenBy, hm]))
    rw [hname]
    rfl

/-- Rows that keep their keys are found for another owner or type as they were. -/
theorem filter_finds_eq (hk : keys.Tidy) {docs docs' : List Document}
    (h : List.Forall₂ (keys.KeepsKey owner) docs docs') (hrows : ∀ row ∈ docs, keys.FitsRow row)
    (hw : Filter.isLiteral w = true)
    (hother : (keys.seenBy w n).ownerFilter ≠ (keys.rowsOf owner).ownerFilter) :
    docs'.filter (keys.seenBy w n).finds = docs.filter (keys.seenBy w n).finds := by
  induction h with
  | nil => rfl
  | cons hkeeps _ ih =>
    have hrest := ih fun row hrow => hrows row (List.mem_cons_of_mem _ hrow)
    rw [List.filter_cons, List.filter_cons, hrest]
    rcases hkeeps with rfl | ⟨howns, hkey⟩
    · rfl
    · obtain ⟨target, hstates⟩ := (hrows _ List.mem_cons_self).exists_states hk howns
      rw [hstates.not_finds hk hw hother, (hstates.congr hk hkey).not_finds hk hw hother,
        if_neg Bool.false_ne_true, if_neg Bool.false_ne_true]

end PivotKeys

/-- Rows that are read as before: the same are found, and the snapshot is the same. -/
structure PivotRows.ReadsSame (rows : PivotRows) (s t : Store) : Prop where
  found : (t.documents rows.keys.collection).filter rows.finds =
    (s.documents rows.keys.collection).filter rows.finds
  snapshot : (rows.snapshot t).1 = (rows.snapshot s).1

theorem PivotRows.Testable.readsSame {rows : PivotRows} (h : rows.Testable) {s t : Store}
    (hfound : (t.documents rows.keys.collection).filter rows.finds =
      (s.documents rows.keys.collection).filter rows.finds) : rows.ReadsSame s t := by
  refine ⟨hfound, ?_⟩
  rw [snapshot_eq fun row _ => h.accepts row, snapshot_eq fun row _ => h.accepts row, hfound]

namespace PivotKeys

variable {keys : PivotKeys} {owner id : DocumentId} {row : Document} {extra : Document}
  {now : String} {olds news : List Document} {inserted : List DocumentId} {p : PivotSnapshot}

theorem ownerFilter_seenBy_ne (hk : keys.Tidy) {field name other : String}
    (hm : keys.morphType = some (field, name)) (hne : other ≠ name) (w : Json) :
    (keys.seenBy w other).ownerFilter ≠ (keys.rowsOf owner).ownerFilter := by
  intro heq
  have hdistinct : (keys.seenBy w other).keys.keyFields.Nodup := by
    rw [keyFields_seenBy]
    exact hk.keyFields_nodup
  rw [PivotRows.ownerFilter_eq hdistinct, ownerFilter_eq hk, seenBy, hm] at heq
  have htype : Json.string other = Json.string name := by simpa using (List.cons.inj heq).2
  exact hne (Json.string.inj htype)

/-- A new row that is found for its owner with its target, and for nobody else, says what it
should. -/
theorem IsNewRow.states (hk : keys.Tidy) (hnew : keys.IsNewRow owner id extra now row)
    (hfinds : (keys.rowsOf owner).finds row = true)
    (htarget : (keys.rowsOf owner).targetOf row = some id)
    (hothers : ∀ w n, Filter.isLiteral w = true →
      (keys.seenBy w n).ownerFilter ≠ (keys.rowsOf owner).ownerFilter →
        (keys.seenBy w n).finds row = false) : keys.States owner id row := by
  have hfield := (hk.plain_of_mem foreign_mem_keyFields).field
  obtain ⟨howner, htype⟩ := ((testable_rowsOf hk owner).finds_iff row).mp hfinds
  replace howner : Filter.equals row keys.foreignPivotKey owner.toJson = true := howner
  refine ⟨?_, ?_, htarget⟩
  · have hget := hnew.key _ foreign_mem_keyFields
    rcases get?_described_cases hk owner extra now (.inl rfl) with hkept | ⟨fields, hfields⟩
    · rw [hget, hkept, (get?_targetFilter hk owner id).1]
    · rw [hfields] at hget
      have hsame : Json.object fields = owner.toJson :=
        (Filter.equals_string_iff hfield hget (fun _ => Json.noConfusion) _).mp howner
      cases hsame
  · intro field name hm other
    refine ⟨fun hequals => ?_, fun heq => heq ▸ htype field name hm⟩
    by_contra hne
    have hnot := hothers owner.toJson other rfl (ownerFilter_seenBy_ne hk hm hne _)
    rw [(Bool.eq_false_iff), ne_eq, (testable_seenBy hk rfl other).finds_iff] at hnot
    refine hnot ⟨howner, fun field' name' hm' => ?_⟩
    have hsame : (field, other) = (field', name') := by simpa [seenBy, hm] using hm'
    obtain ⟨rfl, rfl⟩ := Prod.mk.inj hsame
    exact hequals

/-- The new rows and the old ones after attaching: the old ones tie the owner to none of the targets
that got a new row. -/
structure Appended (keys : PivotKeys) (owner : DocumentId) (extra : Document) (now : String)
    (inserted : List DocumentId) (olds news : List Document) : Prop where
  fits : ∀ row ∈ olds, keys.FitsRow row
  none : ∀ id ∈ inserted, ∀ row ∈ olds, keys.ties owner id row = false
  news : List.Forall₂ (fun id => keys.IsNewRow owner id extra now) inserted news

/-- A target that got a new row is listed for some new row. -/
theorem Appended.exists_of_mem_active (hk : keys.Tidy)
    (h : keys.Appended owner extra now inserted olds news)
    (hlists : (keys.rowsOf owner).Lists ((olds ++ news).filter (keys.rowsOf owner).finds) p)
    (hid : id ∈ inserted) (hactive : id ∈ p.active) :
    ∃ other ∈ inserted, ∃ row ∈ news, keys.IsNewRow owner other extra now row ∧
      (keys.rowsOf owner).finds row = true ∧ (keys.rowsOf owner).targetOf row = some id := by
  obtain ⟨row, hrow, htarget, -⟩ := (hlists.active id).mp hactive
  obtain ⟨hrow, hfinds⟩ := List.mem_filter.mp hrow
  rcases List.mem_append.mp hrow with hrow | hrow
  · have hfits := h.fits row hrow
    have howns : (keys.rowsOf owner).finds row = keys.owns owner row :=
      Except.ok.inj (((testable_rowsOf hk owner).accepts row).symm.trans
        (accepts_ownerFilter hk hfits.singleValued))
    rw [howns] at hfinds
    have hties := (PivotRows.targetOf_eq_some_iff hfits hfinds).mp htarget
    rw [h.none id hid row hrow] at hties
    cases hties
  · obtain ⟨other, hother, hnew⟩ := exists_of_mem_forall₂ h.news hrow
    exact ⟨other, hother, row, hrow, hnew, hfinds, htarget⟩

/-- If all targets that got a new row are listed, each is listed for its own. -/
theorem Appended.exists_own (hk : keys.Tidy)
    (h : keys.Appended owner extra now inserted olds news)
    (hlists : (keys.rowsOf owner).Lists ((olds ++ news).filter (keys.rowsOf owner).finds) p)
    (hactive : ∀ id ∈ inserted, id ∈ p.active) (hid : id ∈ inserted) :
    ∃ row ∈ news, keys.IsNewRow owner id extra now row ∧
      (keys.rowsOf owner).finds row = true ∧ (keys.rowsOf owner).targetOf row = some id := by
  obtain ⟨other, hother, row, hrow, hnew, hfinds, htarget⟩ :=
    h.exists_of_mem_active hk hlists hid (hactive id hid)
  have hread : ∀ {i : DocumentId} {r : Document}, keys.IsNewRow owner i extra now r →
      (keys.rowsOf owner).targetOf r =
        ((keys.described owner i extra now).get? keys.relatedPivotKey).bind DocumentId.ofJson? :=
    fun hnew => congrArg (Option.bind · DocumentId.ofJson?) (hnew.key _ related_mem_keyFields)
  obtain rfl : other = id := by
    rcases get?_described_cases hk owner extra now (.inr rfl) with hkept | ⟨fields, hfields⟩
    · rw [hread hnew, hkept, (get?_targetFilter hk owner other).2.1, Option.bind_some,
        DocumentId.ofJson?_toJson] at htarget
      exact Option.some.inj htarget
    · -- All new rows refer to the same target then, and both targets are listed.
      obtain ⟨third, -, row', -, hnew', -, htarget'⟩ :=
        h.exists_of_mem_active hk hlists hother (hactive other hother)
      rw [hread hnew, hfields] at htarget
      rw [hread hnew', hfields, htarget] at htarget'
      exact (Option.some.inj htarget').symm
  exact ⟨row, hrow, hnew, hfinds, htarget⟩

/-- If all new rows say what they should, their targets are listed as active. -/
theorem Appended.mem_active (hk : keys.Tidy) (h : keys.Appended owner extra now inserted olds news)
    (hlists : (keys.rowsOf owner).Lists ((olds ++ news).filter (keys.rowsOf owner).finds) p)
    (hstates : ∀ id ∈ inserted, keys.States owner id (keys.described owner id extra now))
    (hid : id ∈ inserted) : id ∈ p.active := by
  obtain ⟨row, hrow, hnew⟩ := exists_of_mem_forall₂ h.news.flip hid
  have hrowStates := (hstates id hid).congr hk hnew.key
  refine (hlists.active id).mpr ⟨row, List.mem_filter.mpr ⟨?_, hrowStates.finds hk⟩,
    hrowStates.target, isTrashed_of_marker hnew.marker⟩
  exact List.mem_append_right _ hrow

/-- If all new rows say what they should, nobody else finds one. -/
theorem Appended.not_finds (hk : keys.Tidy) (h : keys.Appended owner extra now inserted olds news)
    (hstates : ∀ id ∈ inserted, keys.States owner id (keys.described owner id extra now)) {w : Json}
    {n : String} (hw : Filter.isLiteral w = true)
    (hother : (keys.seenBy w n).ownerFilter ≠ (keys.rowsOf owner).ownerFilter) :
    news.filter (keys.seenBy w n).finds = [] := by
  refine List.filter_eq_nil_iff.mpr fun row hrow => ?_
  obtain ⟨id, hid, hnew⟩ := exists_of_mem_forall₂ h.news hrow
  have hrowStates := (hstates id hid).congr hk hnew.key
  rw [hrowStates.not_finds hk hw hother]
  exact Bool.false_ne_true

end PivotKeys

namespace RelationHandle

variable {h : RelationHandle} {keys : PivotKeys} {owner : DocumentId} {s t : Store}

/-- **What extra attributes do to an association.** All targets that were attached are listed as
active, and those of every other owner and type read as before, exactly if the row that the filter
and the attributes describe for each target says what it should. It does if no attribute reaches
into a field of the key, but for the exact names of the references. -/
theorem attach_redirects_nothing_iff (hh : h.HasPivot keys owner) (hk : keys.Tidy)
    (hwf : keys.WellFormed (s.documents keys.collection)) {now : String} {values : List Json}
    {extra : Document} {changes : PivotChanges}
    (hrun : h.reconcile now (.attach values (.object extra)) s = (.ok changes, t)) :
    ∃ p, h.pivotSnapshot t = (.ok p, t) ∧
      ((∀ id ∈ changes.attached, keys.States owner id (keys.described owner id extra now)) ↔
        (∀ id ∈ changes.attached, id ∈ p.active) ∧
          ∀ w n, Filter.isLiteral w = true →
            (keys.seenBy w n).ownerFilter ≠ (keys.rowsOf owner).ownerFilter →
              (keys.seenBy w n).ReadsSame s t) ∧
      ((∀ path ∈ extra.keys, Path.head path ∈ keys.keyFields →
          path = keys.foreignPivotKey ∨ path = keys.relatedPivotKey) →
        ∀ id, keys.States owner id (keys.described owner id extra now)) := by
  obtain ⟨targets, fields, rows, before, htargets, hfields, hrows, hbefore, happly⟩ :=
    planned_eq_ok hrun
  obtain ⟨ids, -, hnodup, -⟩ := targetIds_eq_ok htargets
  obtain rfl : rows = keys.rowsOf owner := Except.ok.inj (hrows.symm.trans (pivotRows_eq hh))
  obtain rfl : extra = fields := Except.ok.inj hfields
  have honce : ((PivotPlan.attach before targets).insert ++
      (PivotPlan.attach before targets).restore).Nodup := by
    obtain ⟨q, hq, hshows⟩ := PivotRows.snapshot_shows hk owner hwf
    rw [hbefore] at hq
    cases hq
    exact (PivotPlan.attach_achieves hshows hnodup).fits.nodup_attached
  obtain ⟨olds, inserted, news, hdocs, hkeeps, hwf', hattached, hnone, hnews⟩ :=
    PivotKeys.attaching_appends hk honce (List.append_nil _).symm hwf
      (fun _ _ _ hmem => absurd hmem List.not_mem_nil) happly
  rw [List.nil_append] at hdocs hattached
  have happended : keys.Appended owner extra now inserted olds news := ⟨hwf'.rows, hnone, hnews⟩
  obtain ⟨p, hp, hlists⟩ := (PivotKeys.testable_rowsOf hk owner).exists_snapshot t
  rw [PivotKeys.rowsOf_keys, hdocs] at hlists
  refine ⟨p, (pivotSnapshot_eq hrows t).trans hp, ?_, fun hextra id =>
    PivotKeys.states_described hk hextra owner id now⟩
  rw [hattached]
  constructor
  · intro hstates
    refine ⟨fun id hid => happended.mem_active hk hlists hstates hid, fun w n hw hother => ?_⟩
    apply (PivotKeys.testable_seenBy hk hw n).readsSame
    show (t.documents keys.collection).filter _ = (s.documents keys.collection).filter _
    rw [hdocs, List.filter_append, happended.not_finds hk hstates hw hother, List.append_nil]
    exact PivotKeys.filter_finds_eq hk hkeeps hwf.rows hw hother
  · rintro ⟨hactive, hreads⟩ id hid
    obtain ⟨row, hrow, hnew, hfinds, htarget⟩ := happended.exists_own hk hlists hactive hid
    have hstates := hnew.states hk hfinds htarget fun w n hw hother => by
      have hfound : (t.documents keys.collection).filter (keys.seenBy w n).finds =
          (s.documents keys.collection).filter (keys.seenBy w n).finds :=
        (hreads w n hw hother).found
      rw [hdocs, List.filter_append, PivotKeys.filter_finds_eq hk hkeeps hwf.rows hw hother]
        at hfound
      have hnone := List.append_right_eq_self.mp hfound
      exact Bool.eq_false_iff.mpr (List.filter_eq_nil_iff.mp hnone row hrow)
    exact hstates.congr hk fun f hf => (hnew.key f hf).symm

end RelationHandle

/-! ## Attributes that redirect a row -/

namespace PivotSample

/-- The request to attach the role without a row, with a note, and with another owner under the
exact name of the reference. -/
def attachNoted : Reconciliation :=
  .attach [DocumentId.toJson ⟨3#128⟩] (.object [("note", .string "new"), ("userId", .string "x")])

theorem attachNoted_reports :
    (handle.reconcile "now" attachNoted store).1.toOption.map (·.attached) = some [⟨3#128⟩] := by
  decide +kernel

/-- The role is attached to its user. -/
theorem attach_noted_role :
    ∃ changes t p, handle.reconcile "now" attachNoted store = (.ok changes, t) ∧
      changes.attached = [⟨3#128⟩] ∧ handle.pivotSnapshot t = (.ok p, t) ∧ ⟨3#128⟩ ∈ p.active := by
  obtain ⟨changes, hrun, hattached⟩ := action_eq_ok attachNoted_reports
  have hhandle : handle.HasPivot keys user := ⟨rfl, user.toJson, rfl, user.ofJson?_toJson⟩
  obtain ⟨p, hp, hiff, hstates⟩ :=
    RelationHandle.attach_redirects_nothing_iff hhandle keys_tidy store_wellFormed hrun
  refine ⟨changes, _, p, hrun, hattached, hp, (hiff.mp fun id _ => hstates ?_ id).1 _ ?_⟩
  · intro path hpath hkey
    rcases List.mem_pair.mp hpath with rfl | rfl
    · exact absurd hkey (by decide)
    · exact .inl rfl
  · rw [hattached]
    exact List.mem_singleton.mpr rfl

/-- Rows that tie posts, among other types, to tags. -/
def tagKeys : PivotKeys where
  collection := "taggables"
  foreignPivotKey := "taggableId"
  relatedPivotKey := "tagId"
  morphType := some ("taggableType", "Post")

def tagHandle : RelationHandle where
  relation := {
    kind := .morphToMany
    name := "tags"
    owner := ⟨"Post", "posts", "_id", none, none, []⟩
    related := ⟨"Tag", "tags", "_id", none, none, []⟩
    keys := .pivot tagKeys }
  owner := [("_id", user.toJson)]
  query := { model := ⟨"Tag", "tags", "_id", none, none, []⟩ }

theorem tagKeys_tidy : tagKeys.Tidy := by
  refine ⟨?_, by decide, by decide⟩
  intro f hf
  have hcases : f = "taggableId" ∨ f = "taggableType" ∨ f = "tagId" := by
    simpa [PivotKeys.fields, PivotKeys.keyFields, PivotKeys.deletionFields, PivotKeys.stampFields,
      tagKeys] using hf
  rcases hcases with rfl | rfl | rfl
  all_goals exact ⟨by decide, by decide⟩

def emptyStore : Store := { store with collections := [] }

/-- Whether a target that is attached with an extra attribute, to an empty collection, is listed as
active if it is reported as attached. -/
def ListsAttached (h : RelationHandle) (path : String) (v : Json) : Prop :=
  ∀ changes t p,
    h.reconcile "now" (.attach [DocumentId.toJson ⟨3#128⟩] (.single path v)) emptyStore
        = (.ok changes, t) →
      (h.pivotSnapshot t).1 = .ok p → ∀ id ∈ changes.attached, id ∈ p.active

theorem not_listsAttached {h : RelationHandle} {path : String} {v : Json}
    (hreports : (h.reconcile "now" (.attach [DocumentId.toJson ⟨3#128⟩] (.single path v))
      emptyStore).1.toOption.map (·.attached) = some [⟨3#128⟩])
    (hlists : (h.pivotSnapshot (h.reconcile "now" (.attach [DocumentId.toJson ⟨3#128⟩]
      (.single path v)) emptyStore).2).1.toOption.map (·.active) = some []) :
    ¬ ListsAttached h path v := by
  intro hlisted
  obtain ⟨changes, hrun, hattached⟩ := action_eq_ok hreports
  obtain ⟨p, hp, hactive⟩ := toOption_map_eq_some.mp hlists
  have hmem := hlisted changes _ p hrun hp ⟨3#128⟩ (hattached ▸ List.mem_cons_self)
  rw [hactive] at hmem
  cases hmem

/-- An attribute under the field of the type makes the row that of another type, and one that leads
into the reference to the owner makes it nobody's: both targets are reported as attached, and
neither is listed. -/
theorem attached_row_redirected :
    (tagKeys.Tidy ∧ tagKeys.WellFormed (emptyStore.documents tagKeys.collection) ∧
        ¬ ListsAttached tagHandle "taggableType" (.string "Video")) ∧
      keys.Tidy ∧ keys.WellFormed (emptyStore.documents keys.collection) ∧
        ¬ ListsAttached handle "userId.x" (.int 1) := by
  have hempty : ∀ keys : PivotKeys, keys.WellFormed (emptyStore.documents keys.collection) :=
    fun keys => ⟨fun _ hrow => absurd hrow List.not_mem_nil, List.nodup_nil⟩
  refine ⟨⟨tagKeys_tidy, hempty tagKeys, not_listsAttached ?_ ?_⟩, keys_tidy, hempty keys,
    not_listsAttached ?_ ?_⟩
  all_goals decide +kernel

end PivotSample

end DocMapper
