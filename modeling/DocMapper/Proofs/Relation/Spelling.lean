import DocMapper.Proofs.Relation.Agreement
import DocMapper.Proofs.Relation.Visibility

/-! # Identifiers in other forms

A field may hold an identifier in another form than the canonical one. Loading a relation along with
its owner compares what the fields hold as it is (`Relation.tied`); a query puts the owner's key and
the links in between in canonical form first (`Relation.asked`). So the two need not find the same
documents. `Relation.load_by_spelling` says what each of them finds. They find the same where both
tests let the same documents through, as they do if all keys are in canonical form; and loading
finds nothing at all for a key in another form if the fields that it leads to are in canonical
form. -/

namespace DocMapper

/-- A key that is not in canonical form is no link, and not equal to one. -/
theorem Filter.equals_eq_false_of_spelling {field : String} (hfield : IsField field) {d : Document}
    (hd : d.LinksAt field) {v : Json} (hv : v.IsKey) (hother : v.canonicalize ≠ v) :
    Filter.equals d field v = false := by
  refine Bool.eq_false_iff.mpr fun hequals => ?_
  cases hget : d.get? field with
  | none =>
    rw [equals_of_missing hfield hget, Json.isNull_eq_false hv.notNull] at hequals
    cases hequals
  | some w =>
    have hlink := hd w hget
    rw [equals_of_get? hfield hget (Json.ne_array_of_isScalar hlink.scalar)] at hequals
    -- Only a text has other forms, and a text is equal to itself only.
    cases v with
    | string s =>
      obtain rfl := Json.equals_string_iff.mp hequals
      exact hother hlink.canonical
    | object fields => cases hv.scalar
    | _ => exact hother rfl

namespace Relation

variable {r : Relation} {s : Store} {owner : Document} {v : Json}
  {test test' : Document → Bool} {found found' : List Document}

/-- The related documents that pass a test and that the conditions of the relation keep, sorted and
limited as its options say. -/
def Picks (r : Relation) (s : Store) (test : Document → Bool) (found : List Document) : Prop :=
  Stage.runAll s.documents (windowStages r.options)
    (((s.documents r.related.collection).filter test).filter r.keeps) = .ok found

/-- Loading attaches documents to an owner: with what is nested under the relation, they are put
under the alias. -/
def Attaches (r : Relation) (s : Store) (owner : Document) (docs : List Document) : Prop :=
  ∀ nested found, Stage.runAll s.documents nested docs = .ok found →
    ∃ d, Stage.runAll s.documents (r.joinStages (r.relatedPipeline nested)) [owner] = .ok [d] ∧
      r.Holds d found

/-- The query of an owner's handle finds documents: it answers with what its last stage shows of
them. -/
def Finds (r : Relation) (schema : Schema) (s : Store) (owner : Document) (docs : List Document) :
    Prop :=
  ∃ q, RelationHandle.resolve ⟨r, owner, r.related.query⟩ s = .ok q ∧
    q.select = r.options.select ∧ q.exclude = r.options.hiddenFields r.related.hidden ∧
    ∀ shown, Stage.runAll s.documents (q.projectionStage? []).toList docs = .ok shown →
      RelationHandle.get schema s ⟨r, owner, r.related.query⟩ =
        .ok (shown.map fun d => Entity.ofDocument r.related d [])

/-- What is shown of a related document if no fields are selected. -/
def shown (r : Relation) (d : Document) : Document :=
  Update.removeAll d (r.options.hiddenFields r.related.hidden)

/-- The collection to which the owner's key leads first, with the field that is compared with it. -/
def landing? (r : Relation) : Option (String × String) :=
  match r.keys, r.through with
  | .owning foreignKey _, _ => some (r.related.collection, foreignKey)
  | .inverse _ ownerKey, _ => some (r.related.collection, ownerKey)
  | .morph _ idField _, _ => some (r.related.collection, idField)
  | .pivot keys, _ => some (keys.collection, keys.foreignPivotKey)
  | .through firstKey _ _ _, some m => some (m.collection, firstKey)
  | .through _ _ _ _, none => none

/-! ## What is picked -/

theorem Picks.unique (h : r.Picks s test found) (h' : r.Picks s test' found')
    (hsame : ∀ e ∈ s.documents r.related.collection, r.keeps e = true → test e = test' e) :
    found = found' := by
  have hfilter : ((s.documents r.related.collection).filter test).filter r.keeps =
      ((s.documents r.related.collection).filter test').filter r.keeps := by
    rw [List.filter_filter, List.filter_filter]
    apply List.filter_congr
    intro e he
    cases hkeeps : r.keeps e with
    | false => rfl
    | true => rw [hsame e he hkeeps]
  rw [Picks, hfilter] at h
  exact Except.ok.inj (h.symm.trans h')

theorem Picks.eq_nil (h : r.Picks s test found)
    (hnone : ∀ e ∈ s.documents r.related.collection, test e = false) : found = [] := by
  refine List.eq_nil_iff_forall_not_mem.mpr fun e he => ?_
  obtain ⟨hmem, htest⟩ := List.mem_filter.mp
    (List.mem_filter.mp (mem_of_windowStages h e he)).1
  rw [hnone e hmem] at htest
  cases htest

/-! ## Loading -/

/-- Loading attaches what is tied to the owner's key as it is. -/
theorem attaches (hfit : r.keysFit = true) (halias : IsField r.aliasName) (hnames : r.PlainNames)
    (hkeyed : r.Keyed s) (howner : owner.Unique) (hkey : owner.get? r.ownerKey = some v)
    (hv : v.IsKey) (h : r.Picks s (r.tied s.documents v) found) : r.Attaches s owner found := by
  intro nested nestedFound hnested
  refine run_joinStages_of_keyed hfit halias hnames hkeyed howner hkey hv ?_
  rw [run_relatedPipeline (fun e he d _ => hnames.noOperators.exists_eval_related d e he),
    Stage.runAll_append_ok h, hnested]

/-- What is attached is shown without what is hidden, if no fields are selected. -/
theorem Attaches.exists_load (h : r.Attaches s owner found) (hvalid : r.validate = .ok ())
    (hselect : r.options.select = none) (schema : Schema) :
    ∃ loaded out, load schema r [] = .ok loaded ∧
      Stage.runAll s.documents loaded.1 [owner] = .ok out ∧
      relatedUnder r.aliasName out = found.map fun e => .object (r.shown e) := by
  obtain ⟨-, halias⟩ := validate_eq_ok hvalid
  obtain ⟨d, hjoined, hholds⟩ := h [] found rfl
  obtain ⟨out, hout, hunder⟩ := run_shown s.documents halias hselect hholds
  refine ⟨(r.loadWith {}, r.aliasWith {}), out, ?_, ?_, ?_⟩
  · rw [load, hvalid, loadAll]
    rfl
  · show Stage.runAll s.documents (r.joinStages (r.relatedPipeline []) ++ r.unwindStages ++
      r.projectionStages []) [owner] = .ok out
    rw [List.append_assoc, Stage.runAll_append_ok hjoined, hout]
  · rw [hunder, List.map_map]
    rfl

/-- A key in another form finds no links. -/
theorem tied_eq_false (hnames : r.PlainNames) (hv : v.IsKey) (hother : v.canonicalize ≠ v)
    (hlinks : ∀ source field, r.landing? = some (source, field) →
      ∀ d ∈ s.documents source, d.LinksAt field) :
    ∀ e ∈ s.documents r.related.collection, r.tied s.documents v e = false := by
  have hplain : ∀ name ∈ r.fieldNames, IsField name := fun name hname =>
    (hnames.fields name hname).field
  -- Nothing is found where the key leads first, so nothing is found beyond.
  have hnone : ∀ source field, r.landing? = some (source, field) → IsField field →
      ∀ d ∈ s.documents source, Filter.equals d field v = false :=
    fun source field h hfield d hd =>
      Filter.equals_eq_false_of_spelling hfield (hlinks source field h d hd) hv hother
  have hbetween : ∀ source field, r.landing? = some (source, field) → IsField field →
      ∀ conditions, between s.documents source field v conditions = [] := by
    intro source field h hfield conditions
    have hfound := List.filter_eq_nil_iff.mpr fun d hd =>
      Bool.eq_false_iff.mp (hnone source field h hfield d hd)
    rw [between, hfound, List.filter_nil]
  intro e he
  cases hkeys : r.keys with
  | owning foreignKey localKey =>
    simp only [tied, hkeys]
    exact hnone _ _ (by rw [landing?, hkeys]) (hplain foreignKey (by simp [fieldNames, hkeys])) e he
  | inverse foreignKey relatedKey =>
    simp only [tied, hkeys]
    exact hnone _ _ (by rw [landing?, hkeys]) (hplain relatedKey (by simp [fieldNames, hkeys])) e he
  | morph typeField idField localKey =>
    simp only [tied, hkeys]
    exact hnone _ _ (by rw [landing?, hkeys]) (hplain idField (by simp [fieldNames, hkeys])) e he
  | pivot keys =>
    simp only [tied, hkeys]
    rw [hbetween _ _ (by rw [landing?, hkeys])
      (hplain keys.foreignPivotKey (by simp [fieldNames, hkeys]))]
    rfl
  | through firstKey secondKey localKey secondLocalKey =>
    cases hm : r.through with
    | none => simp only [tied, hkeys, hm]
    | some m =>
      simp only [tied, hkeys, hm]
      rw [hbetween _ _ (by rw [landing?, hkeys, hm])
        (hplain firstKey (by simp [fieldNames, hkeys]))]
      rfl

/-! ## Reading -/

/-- A query finds what is tied to the owner's key in canonical form. -/
theorem finds (hfit : r.keysFit = true) (hnames : r.PlainNames) (hkeyed : r.Keyed s)
    (hkey : owner.get? r.ownerKey = some v) (hv : v.IsKey)
    (h : r.Picks s (r.asked s.documents v) found) (schema : Schema) :
    r.Finds schema s owner found := by
  obtain ⟨terms, hscope, hterms, hmeets⟩ :=
    RelationHandle.exists_scope_of_keyed hfit hnames hkeyed hkey hv
  rw [Picks, filter_keeps_eq hnames hkeyed hmeets] at h
  refine ⟨_, RelationHandle.resolve_eq hscope, rfl, rfl, fun shown hshown => ?_⟩
  exact RelationHandle.get_of_found (fun f hf => (isPlain_marker hnames r.trashed f hf).noDollar)
    hscope hterms h hshown

/-- What is found is read without what is hidden, if no fields are selected. -/
theorem Finds.get_eq {schema : Schema} (h : r.Finds schema s owner found)
    (hselect : r.options.select = none) :
    RelationHandle.get schema s ⟨r, owner, r.related.query⟩ =
      .ok (found.map fun d => Entity.ofDocument r.related (r.shown d) []) := by
  obtain ⟨q, -, hqselect, hexclude, hshow⟩ := h
  have hshown : Stage.runAll s.documents (q.projectionStage? []).toList found =
      .ok (found.map r.shown) := by
    rw [Query.projectionStage?, hqselect, hselect, hexclude]
    exact run_exclusion r.options r.related.hidden s.documents found
  rw [hshow _ hshown, List.map_map]
  rfl

/-- **What loading and reading find, in whatever form identifiers are stored.** Loading attaches
what is tied to the owner's key as it is, and a query finds what is tied to it in canonical form.
They find the same if both tests let through the same of the documents that the relation keeps. If
the owner's key is not in canonical form and what is compared with it is, loading attaches
nothing. -/
theorem load_by_spelling (hvalid : r.validate = .ok ()) (hnames : r.PlainNames)
    (hkeyed : r.Keyed s) (howner : owner.Unique) (hkey : owner.get? r.ownerKey = some v)
    (hv : v.IsKey) (schema : Schema) :
    ∃ attached asked, r.Picks s (r.tied s.documents v) attached ∧
      r.Picks s (r.asked s.documents v) asked ∧
      r.Attaches s owner attached ∧ r.Finds schema s owner asked ∧
      (r.options.select = none → ∃ loaded out entities, load schema r [] = .ok loaded ∧
        Stage.runAll s.documents loaded.1 [owner] = .ok out ∧
        RelationHandle.get schema s ⟨r, owner, r.related.query⟩ = .ok entities ∧
        relatedUnder r.aliasName out = attached.map (fun e => .object (r.shown e)) ∧
        entities.map (·.attributes) = asked.map r.shown) ∧
      ((∀ e ∈ s.documents r.related.collection, r.keeps e = true →
          r.tied s.documents v e = r.asked s.documents v e) → attached = asked) ∧
      (v.canonicalize ≠ v → (∀ source field, r.landing? = some (source, field) →
          ∀ d ∈ s.documents source, d.LinksAt field) → attached = []) := by
  obtain ⟨hfit, halias⟩ := validate_eq_ok hvalid
  obtain ⟨attached, hattached⟩ : ∃ found, r.Picks s (r.tied s.documents v) found :=
    exists_window _ _ _
  obtain ⟨asked, hasked⟩ : ∃ found, r.Picks s (r.asked s.documents v) found :=
    exists_window _ _ _
  have hattaches := attaches hfit halias hnames hkeyed howner hkey hv hattached
  have hfinds := finds hfit hnames hkeyed hkey hv hasked schema
  refine ⟨attached, asked, hattached, hasked, hattaches, hfinds, fun hselect => ?_,
    hattached.unique hasked, fun hother hlinks =>
      hattached.eq_nil (tied_eq_false hnames hv hother hlinks)⟩
  obtain ⟨loaded, out, hload, hout, hunder⟩ := hattaches.exists_load hvalid hselect schema
  refine ⟨loaded, out, _, hload, hout, hfinds.get_eq hselect, hunder, ?_⟩
  rw [List.map_map]
  rfl

end Relation

/-! ## An author in upper case -/

namespace AuthorSample

/-- A user with letters among the digits of its identifier. -/
def lettered : DocumentId := ⟨0xAB#128⟩

def letteredUser : Document := [("_id", lettered.toJson), ("name", .string "Ann")]

/-- A reference to the user in upper case. -/
def upperReference : Json := .string "00000000-0000-0000-0000-0000000000AB"

def upperPost : Document := [("_id", .string "p"), ("userId", upperReference)]

def letteredStore : Store where
  collections := [("users", [letteredUser]), ("posts", [upperPost])]
  ids := ⟨fun n => ⟨BitVec.ofNat 128 n⟩, 0⟩

theorem author_plainNames : (author {}).PlainNames := by
  refine ⟨fun name hname => ?_, fun name hname => ?_⟩
  · have hcases : name = "userId" ∨ name = "_id" := by
      simpa [Relation.fieldNames, author, userModel, postModel] using hname
    rcases hcases with rfl | rfl
    all_goals exact ⟨by decide, by decide⟩
  · cases hname

/-- A relation that is followed by one field has nothing in between and no type to check. -/
theorem author_keyed : (author {}).Keyed letteredStore := by
  refine ⟨fun _ _ h => ?_, fun _ h => ?_, fun _ h => ?_, fun _ _ h => ?_⟩
  all_goals cases h

/-- The reference of the post, in canonical form, is that to the user. -/
theorem author_picks : (author {}).Picks letteredStore
    ((author {}).asked letteredStore.documents upperReference) [letteredUser] := by
  have hasked : (author {}).asked letteredStore.documents upperReference letteredUser = true := by
    decide +kernel
  have hdocs : [letteredUser].filter ((author {}).asked letteredStore.documents upperReference) =
      [letteredUser] := List.filter_cons_of_pos hasked
  show Except.ok (([letteredUser].filter
    ((author {}).asked letteredStore.documents upperReference)).filter (author {}).keeps) = _
  rw [hdocs]
  rfl

/-- The author is found by a query, and not loaded along with the post. -/
theorem author_found_not_attached :
    (author {}).Attaches letteredStore upperPost [] ∧
      (author {}).Finds schema letteredStore upperPost [letteredUser] := by
  obtain ⟨attached, asked, -, hasked, hattaches, hfinds, -, -, hnone⟩ :=
    Relation.load_by_spelling rfl author_plainNames author_keyed (show upperPost.Unique by decide)
      rfl ⟨rfl, Json.noConfusion⟩ schema
  have hother : upperReference.canonicalize ≠ upperReference := by
    intro hsame
    have hdiffers : upperReference.canonicalize.same upperReference = false := by decide +kernel
    rw [hsame] at hdiffers
    cases hdiffers
  have hlinks : ∀ source field, (author {}).landing? = some (source, field) →
      ∀ d ∈ letteredStore.documents source, d.LinksAt field := by
    intro source field h d hd v hv
    cases h
    rw [List.mem_singleton.mp hd] at hv
    cases hv
    exact Json.isLink_toJson lettered
  rw [hnone hother hlinks] at hattaches
  rw [hasked.unique author_picks fun _ _ _ => rfl] at hfinds
  exact ⟨hattaches, hfinds⟩

/-- So what is loaded is not what is read. -/
theorem upper_author_not_loaded :
    ¬ ∀ loaded out entities, (author {}).load schema [] = .ok loaded →
      Stage.runAll letteredStore.documents loaded.1 [upperPost] = .ok out →
        RelationHandle.get schema letteredStore ⟨author {}, upperPost, userModel.query⟩ =
            .ok entities →
          Relation.relatedUnder "author" out = entities.map fun e => .object e.attributes := by
  intro hsame
  have hload : (author {}).load schema [] =
      .ok ((author {}).loadWith {}, (author {}).aliasWith {}) := by
    rw [Relation.load, Relation.loadAll]
    rfl
  have hnone : (Stage.runAll letteredStore.documents ((author {}).loadWith {})
      [upperPost]).toOption.map (fun out => (Relation.relatedUnder "author" out).length) =
        some 0 := by
    decide +kernel
  obtain ⟨out, hout, hempty⟩ := toOption_map_eq_some.mp hnone
  have hfinds := Relation.finds rfl author_plainNames author_keyed
    (show upperPost.get? "userId" = some upperReference from rfl) ⟨rfl, Json.noConfusion⟩
    author_picks schema
  rw [hsame _ out _ hload hout (hfinds.get_eq rfl), List.length_map] at hempty
  cases hempty

end AuthorSample

end DocMapper
