import DocMapper.Proofs.Entity.Inserting
import DocMapper.Proofs.Relation.Lazy
import DocMapper.Proofs.Relation.Selection
import DocMapper.Relation.Link

/-! # What is created through a relation is found through it

A document that is created through a handle is linked to the owner, filled in as every new document
is, and appended to its collection. A read through the handle makes its conditions of the same value
of the owner that the link holds, so the document meets them, whatever type the value is of:

  * linking an entity puts into its link fields what the scope of the handle asks for there
    (`RelationHandle.exists_scope_of_link`);
  * inserting an entity leaves all fields but those that the model fills in
    (`Entity.get?_stampNew`, `Entity.exists_of_insert`), and says that it is not deleted;
  * so a read finds what it found before and the new document after it
    (`RelationHandle.created_is_found`).

Names that a filter does not take for fields, and fields that the model fills in, do not serve for
links; nor does a hidden field come back. -/

namespace DocMapper

/-! ## Links -/

namespace Relation

/-- The fields by which a related document is tied to the owner, if it holds the link. -/
def linkFields (r : Relation) : List String :=
  match r.keys with
  | .owning foreignKey _ => [foreignKey]
  | .morph typeField idField _ => [typeField, idField]
  | _ => []

theorem linkFields_owning {r : Relation} {foreignKey localKey : String}
    (h : r.keys = .owning foreignKey localKey) : r.linkFields = [foreignKey] := by
  rw [linkFields, h]

theorem linkFields_morph {r : Relation} {typeField idField localKey : String}
    (h : r.keys = .morph typeField idField localKey) : r.linkFields = [typeField, idField] := by
  rw [linkFields, h]

/-- The fields of a related document that creating it through the relation fills in. -/
def filledIn (r : Relation) : List String := r.linkFields ++ r.related.ownFields

/-- A filter takes the link fields for fields, and they are apart from each other and from those that
the related model fills in. -/
structure LinksApart (r : Relation) : Prop where
  plain : ∀ field ∈ r.linkFields, IsPlain field
  nodup : r.linkFields.Nodup
  apart : ∀ field ∈ r.linkFields, field ∉ r.related.ownFields

end Relation

/-- A filter takes the marker of a model for a field, and it is neither the identifier of a document
nor one of its times. -/
def Model.MarkerApart (m : Model) : Prop :=
  ∀ x, m.softDelete = some x → IsPlain x.marker ∧ x.marker ≠ "_id" ∧ x.marker ∉ m.stampFields

namespace RelationHandle

variable {h : RelationHandle} {e linked : Entity}

theorem ownerValue?_of_require {key : String} {v : Json} (hv : h.requireOwnerValue key = .ok v) :
    h.ownerValue? key = some v := by
  unfold requireOwnerValue at hv
  split at hv
  · next w hw =>
    cases hv
    exact hw
  · cases hv

/-- What links an entity to the owner is what the scope of the handle asks for, in the same fields.
All other fields stay as they were. -/
theorem exists_scope_of_link (hnodup : h.relation.linkFields.Nodup) (hlink : h.link e = .ok linked) :
    linked.model = e.model ∧ linked.isStored = e.isStored ∧
      (e.attributes.Unique → linked.attributes.Unique) ∧
      (∀ key, key ∉ h.relation.linkFields → linked.get? key = e.get? key) ∧
      ∃ terms : List Term, (∀ s, h.scope s = .ok terms) ∧
        ∀ t ∈ terms, ∃ field ∈ h.relation.linkFields, ∃ v,
          t = ⟨.and, field, .compare .equal v⟩ ∧ linked.get? field = some v := by
  unfold link at hlink
  split at hlink
  · next foreignKey localKey hkeys =>
    obtain ⟨v, hv, hlink⟩ := bind_eq_ok.mp hlink
    cases hlink
    rw [Relation.linkFields_owning hkeys]
    refine ⟨rfl, rfl, fun he => he.insert _ _, fun key hkey => ?_,
      [⟨.and, foreignKey, .compare .equal v⟩], fun s => ?_,
      List.forall_mem_singleton.mpr ⟨foreignKey, List.mem_singleton_self _, v, rfl, ?_⟩⟩
    · exact Entity.get?_set_of_ne (Ne.symm (List.ne_of_not_mem_cons hkey)) e v
    · rw [scope, hkeys]
      show Except.ok (equalOrNone foreignKey (h.ownerValue? localKey)) = _
      rw [ownerValue?_of_require hv]
      rfl
    · exact Entity.get?_set_self e foreignKey v
  · next typeField idField localKey hkeys =>
    obtain ⟨v, hv, hlink⟩ := bind_eq_ok.mp hlink
    cases hlink
    rw [Relation.linkFields_morph hkeys] at hnodup ⊢
    have hne : idField ≠ typeField := by
      rintro rfl
      simp at hnodup
    refine ⟨rfl, rfl, fun he => (he.insert _ _).insert _ _, fun key hkey => ?_,
      [⟨.and, typeField, .compare .equal (.string h.relation.owner.typeName)⟩,
        ⟨.and, idField, .compare .equal v⟩], fun s => ?_,
      List.forall_mem_cons.mpr ⟨⟨typeField, by simp, _, rfl, ?_⟩,
        List.forall_mem_singleton.mpr ⟨idField, by simp, v, rfl, ?_⟩⟩⟩
    · simp only [List.mem_cons, List.not_mem_nil, or_false, not_or] at hkey
      rw [Entity.get?_set_of_ne (Ne.symm hkey.2), Entity.get?_set_of_ne (Ne.symm hkey.1)]
    · rw [scope, hkeys]
      dsimp only
      rw [ownerValue?_of_require hv]
      rfl
    · rw [Entity.get?_set_of_ne hne, Entity.get?_set_self]
    · exact Entity.get?_set_self _ idField v
  · cases hlink

/-! ## Creating and reading -/

variable {r : Relation} {owner attributes d : Document} {schema : Schema} {s t : Store}
  {now : String} {terms : List Term}

/-- What a read through a handle without options shows of a related document. -/
def shownAs (r : Relation) (d : Document) : Entity :=
  Entity.ofDocument r.related (Update.removeAll d (r.options.hiddenFields r.related.hidden)) []

/-- A read through a handle without options shows the documents that are seen and meet the
conditions of its scope. -/
theorem get_of_terms (hoptions : r.options = {})
    (hmarker : ∀ x, r.related.softDelete = some x → startsDollar x.marker = false)
    (hscope : scope ⟨r, owner, r.related.query⟩ s = .ok terms) (hterms : ∀ t ∈ terms, t.Ties) :
    get schema s ⟨r, owner, r.related.query⟩ =
      .ok ((((s.documents r.related.collection).filter (r.related.policy .hidden).sees).filter
        fun d => terms.all (Term.meets d)).map (shownAs r)) := by
  have htrashed : r.trashed = .hidden := by rw [Relation.trashed, hoptions]; rfl
  have hselect : r.options.select = none := by rw [hoptions]
  rw [get_of_scope hselect hscope]
  refine Relation.get_queryFor (fun f hf => ?_) hterms ?_
  · obtain ⟨x, hx, rfl⟩ := Option.map_eq_some_iff.mp hf
    exact hmarker x hx
  · rw [hoptions, htrashed]
    rfl

/-- Fields that are not hidden are shown. -/
theorem get?_shownAs (hd : d.Unique) (hoptions : r.options = {}) {key : String}
    (h : ∀ path ∈ r.related.hidden, Path.head path ≠ key) :
    (shownAs r d).get? key = d.get? key := by
  refine Update.get?_removeAll_of_head_ne hd fun path hpath => h path ?_
  rw [hoptions] at hpath
  have hmem := (RelationOptions.mem_foldl_addNew.mp hpath).resolve_left List.not_mem_nil
  simpa using hmem

/-- Creating is linking a new entity and saving it. -/
theorem exists_of_create {h : RelationHandle}
    (hcreate : h.create now (.object attributes) s = (.ok e, t)) :
    ∃ linked, h.link (Entity.ofAttributes h.relation.related attributes) = .ok linked ∧
      linked.save now s = ⟨.ok (), e, t⟩ := by
  rw [create, Entity.ofJson] at hcreate
  dsimp only at hcreate
  unfold save at hcreate
  cases hlink : h.link (Entity.ofAttributes h.relation.related attributes) with
  | error err =>
    rw [hlink] at hcreate
    cases hcreate
  | ok linked =>
    rw [hlink] at hcreate
    dsimp only at hcreate
    cases hsave : linked.save now s with
    | mk result left after =>
      rw [hsave] at hcreate
      cases result with
      | error err => cases hcreate
      | ok =>
        cases hcreate
        exact ⟨linked, rfl, hsave⟩

/-- **What is created through a relation is found through it.** If a document can be created through
a handle of a relation whose related documents hold the link, then a read through the handle finds
what it found before, and the new document after it. The document holds the attributes that were
given, but for the fields that are filled in, and those that are not hidden are shown. -/
theorem created_is_found (schema : Schema) (hoptions : r.options = {})
    (hlinks : r.LinksApart) (hmarker : r.related.MarkerApart)
    (hattributes : Document.Unique attributes)
    (hunmarked : ∀ x, r.related.softDelete = some x → Document.get? attributes x.marker = none)
    (h : create now ⟨r, owner, r.related.query⟩ (.object attributes) s = (.ok e, t)) :
    ∃ (before : List Entity) (id : DocumentId) (d : Document),
      d = e.attributes.insert "_id" id.toJson ∧
      t.documents r.related.collection = s.documents r.related.collection ++ [d] ∧
      get schema s ⟨r, owner, r.related.query⟩ = .ok before ∧
      get schema t ⟨r, owner, r.related.query⟩ = .ok (before ++ [shownAs r d]) ∧
      ∀ key, key ∉ r.filledIn →
        d.get? key = Document.get? attributes key ∧
        ((∀ path ∈ r.related.hidden, Path.head path ≠ key) →
          (shownAs r d).get? key = Document.get? attributes key) := by
  obtain ⟨linked, hlink, hsave⟩ := exists_of_create h
  obtain ⟨hmodel, hnew, hunique, hkept, terms, hscope, hheld⟩ :=
    exists_scope_of_link hlinks.nodup hlink
  have hlinked : linked.model = r.related := hmodel
  rw [Entity.save, hnew, Entity.ofAttributes, if_neg Bool.false_ne_true] at hsave
  obtain ⟨id, hinserts⟩ := Entity.exists_of_insert hsave
  have hleft := hinserts.attributes
  have hdocs := hinserts.documents
  rw [hlinked] at hleft hdocs
  have hstampedUnique := Entity.unique_stampNew (hunique hattributes) now
  have hd : (e.attributes.insert "_id" id.toJson).Unique := by
    rw [hleft]
    exact (hstampedUnique.insert _ _).insert _ _
  -- What is stored is what the stamped entity holds, but for the key.
  have hstored : ∀ key, key ≠ "_id" → key ≠ r.related.primaryKey →
      (e.attributes.insert "_id" id.toJson).get? key = (linked.stampNew now).get? key := by
    intro key hne hkey
    rw [Document.get?_insert_of_ne (Ne.symm hne), hleft, Document.get?_insert_of_ne (Ne.symm hkey)]
    rfl
  have hlinkedField : ∀ key, key ∉ r.related.ownFields →
      (e.attributes.insert "_id" id.toJson).get? key = linked.get? key := by
    intro key hkey
    obtain ⟨hne, hkeyNe⟩ := Model.ne_of_not_mem_ownFields hkey
    rw [hstored key hne hkeyNe, Entity.get?_stampNew (hlinked ▸ hkey)]
  have hmet : terms.all (Term.meets (e.attributes.insert "_id" id.toJson)) = true := by
    refine List.all_eq_true.mpr fun t ht => ?_
    obtain ⟨field, hfield, v, rfl, hv⟩ := hheld t ht
    have hget := (hlinkedField field (hlinks.apart field hfield)).trans hv
    have hequal := Filter.equals_of_get?_equals (hlinks.plain field hfield).field hget
      (Json.equals_self v)
    exact (Bool.or_false _).trans hequal
  have hseen : (r.related.policy .hidden).sees (e.attributes.insert "_id" id.toJson) = true := by
    refine TrashedPolicy.sees_of_unmarked (fun x hx => (hmarker x hx).1.field) fun x hx => ?_
    obtain ⟨-, hne, htimes⟩ := hmarker x hx
    have hown : x.marker ∈ r.related.ownFields := by simp [Model.ownFields, hx]
    have hmissing : linked.get? x.marker = none :=
      (hkept _ fun hmem => hlinks.apart _ hmem hown).trans (hunmarked x hx)
    rw [Document.get?_insert_of_ne (Ne.symm hne)]
    exact hinserts.get?_marker (hlinked ▸ hx) (hlinked ▸ htimes) hmissing
  have hties : ∀ t ∈ terms, t.Ties := by
    intro t ht
    obtain ⟨field, hfield, v, rfl, -⟩ := hheld t ht
    exact .equal (hlinks.plain field hfield).noDollar v
  have hdollar := fun x hx => (hmarker x hx).1.noDollar
  refine ⟨_, id, _, rfl, hdocs, get_of_terms hoptions hdollar (hscope s) hties, ?_,
    fun key hkey => ?_⟩
  · rw [get_of_terms hoptions hdollar (hscope t) hties, hdocs, List.filter_append,
      List.filter_append, List.map_append]
    simp [hseen, hmet]
  · rw [Relation.filledIn, List.mem_append, not_or] at hkey
    have hget := (hlinkedField key hkey.2).trans (hkept key hkey.1)
    exact ⟨hget, fun hhidden => (get?_shownAs hd hoptions hhidden).trans hget⟩

end RelationHandle

/-! ## The accounts of a user -/

namespace CreationSample

def userModel : Model := ⟨"User", "users", "_id", none, none, []⟩

def accountModel : Model :=
  ⟨"Account", "accounts", "uid", some ⟨"archived", "archivedAt"⟩, some ⟨"made", "touched"⟩, ["pin"]⟩

/-- The same model with another marker. -/
def markedBy (marker : String) : Model :=
  { accountModel with softDelete := some ⟨marker, "archivedAt"⟩ }

/-- A user whose code is an array that holds an object. -/
def user : Document :=
  [("_id", .string "ann"), ("code", .array [.int 1, .single "$gt" (.int 0)])]

/-- The accounts of the user, in a collection that a model describes and by given keys. -/
def accounts (related : Model) (keys : RelationKeys) : RelationHandle :=
  ⟨{ kind := .hasMany, name := "accounts", owner := userModel, related, keys }, user,
    related.query⟩

/-- The accounts that hold the code and the type of the user. -/
def byCode : RelationHandle :=
  (accounts accountModel (.morph "ownerType" "owner" "code")).mapRelation
    fun r => { r with kind := .morphMany }

def schema : Schema := ⟨fun _ => []⟩

def store : Store := ⟨[], 0, ⟨fun n => ⟨BitVec.ofNat 128 n⟩, 0⟩⟩

def attributes : Document := [("note", .string "Hello"), ("pin", .string "1234")]

theorem byCode_linksApart : byCode.relation.LinksApart where
  plain := List.forall_mem_cons.mpr ⟨⟨by decide, by decide⟩,
    List.forall_mem_singleton.mpr ⟨by decide, by decide⟩⟩
  nodup := by decide
  apart := by decide

theorem accountModel_markerApart : accountModel.MarkerApart := by
  rintro x ⟨⟩
  exact ⟨⟨by decide, by decide⟩, by decide, by decide⟩

/-- The first account of the user is found, with its note. -/
theorem account_found : ∃ e t found, byCode.create "now" (.object attributes) store = (.ok e, t) ∧
    byCode.get schema t = .ok [found] ∧ found.get? "note" = some (.string "Hello") := by
  have hcreated : (byCode.create "now" (.object attributes) store).1.toOption.isSome = true := by
    decide +kernel
  cases hrun : byCode.create "now" (.object attributes) store with
  | mk outcome t =>
    rw [hrun] at hcreated
    cases outcome with
    | error err => cases hcreated
    | ok e =>
      obtain ⟨before, id, d, -, -, hbefore, hafter, hshown⟩ :=
        RelationHandle.created_is_found schema rfl byCode_linksApart
          accountModel_markerApart (by decide) (fun x hx => by cases hx; decide) hrun
      have hnone : byCode.get schema store = .ok [] :=
        RelationHandle.get_of_terms rfl (fun x hx => (accountModel_markerApart x hx).1.noDollar)
          rfl (List.forall_mem_cons.mpr ⟨.equal (by decide) _,
            List.forall_mem_singleton.mpr (.equal (by decide) _)⟩)
      cases hbefore.symm.trans hnone
      exact ⟨e, t, _, rfl, hafter, (hshown "note" (by decide)).2 (by decide)⟩

/-! ### Accounts that are not found as they were created -/

/-- What a read through a handle finds after an account was created through it, as the fields of
each account, or nothing if the read fails. -/
def readBack (h : RelationHandle) : Option (Option (List (List String))) :=
  match h.create "now" (.object attributes) store with
  | (.ok _, t) => some ((h.get schema t).toOption.map (·.map (·.attributes.keys)))
  | (.error _, _) => none

/-- The accounts that are tied to the user by a field of theirs. -/
def tiedBy (related : Model) (foreignKey : String) : RelationHandle :=
  accounts related (.owning foreignKey "_id")

theorem readBack_eq (related : Model) (foreignKey : String) :
    readBack (tiedBy related foreignKey) =
      match (tiedBy related foreignKey).create "now" (.object attributes) store with
      | (.ok _, t) =>
        let q := (tiedBy related foreignKey).relation.queryFor
          [⟨.and, foreignKey, .compare .equal (.string "ann")⟩]
        some ((q.stagesWith {} [] [] >>= fun stages =>
          Stage.runAll t.documents (stages ++ (q.projectionStage? []).toList)
            (t.documents related.collection)).toOption.map (·.map (·.keys)))
      | (.error _, _) => none := by
  have hfields : ∀ x : Except QueryFault (List Document),
      ((x.mapError Error.query).map fun docs => docs.map fun d =>
        Entity.ofDocument related d []).toOption.map (·.map (·.attributes.keys)) =
          x.toOption.map (·.map (·.keys)) := by
    intro x
    cases x with
    | error fault => rfl
    | ok docs => exact congrArg some (List.map_map ..)
  have hget : ∀ t : Store, (tiedBy related foreignKey).get schema t = _ := fun t =>
    (RelationHandle.get_of_scope rfl rfl).trans (Query.get_eq (Relation.loadAll_nil _ _ _))
  unfold readBack
  split
  · next t _ =>
    rw [hget t]
    exact congrArg some (hfields _)
  · rfl

/-- A name that a filter takes for an operator makes the read fail, as a link or as a marker. An
account whose link is its identifier is not found, nor is one that is marked by a dotted name, by
its identifier or by a time; and one that is found lacks the hidden field. -/
theorem accounts_not_found_as_created :
    readBack (tiedBy accountModel "$owner") = some none ∧
      readBack (tiedBy (markedBy "$archived") "owner") = some none ∧
      readBack (tiedBy accountModel "_id") = some (some []) ∧
      (∀ marker ∈ ["meta.archived", "_id", "made", "touched"],
        readBack (tiedBy (markedBy marker) "owner") = some (some [])) ∧
      readBack (tiedBy accountModel "owner") =
        some (some [["note", "_id", "owner", "made", "touched", "archived", "uid"]]) := by
  simp only [readBack_eq]
  decide +kernel

end CreationSample

end DocMapper
