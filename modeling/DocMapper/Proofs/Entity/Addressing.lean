import DocMapper.Proofs.Entity.Saving

/-! # Where a save goes

An entity does not remember which document it was read from. Its changes are sent to the documents
that match the key which it holds when it is saved, so a save that succeeds has changed all of these
and no others (`Entity.save_succeeds`).

Another document than the one that was read is left as it was exactly if it does not match that key,
or if what is pending does not change it. While the key is not edited, only a document with the same
key can be hit (`Entity.save_under_own_key`); but an entity that takes the key of another document
before it is saved writes its changes there. -/

namespace DocMapper

namespace Store

variable {s t : Store} {name : String} {before after : List Document} {d : Document}

/-- The documents beside one of a collection come out the same, and so do the other collections. -/
structure LeavesOthers (s t : Store) (name : String) (before after : List Document) : Prop where
  beside : ∃ before' d' after', t.documents name = before' ++ d' :: after' ∧
    List.Forall₂ (fun d e => d.same e = true) before before' ∧
    List.Forall₂ (fun d e => d.same e = true) after after'
  elsewhere : ∀ other ≠ name, t.documents other = s.documents other

theorem LeavesOthers.refl (hdocs : s.documents name = before ++ d :: after)
    (h : ∀ other ∈ before ++ after, other.same other = true) :
    LeavesOthers s s name before after := by
  obtain ⟨hbefore, hafter⟩ := List.forall_mem_append.mp h
  exact ⟨⟨before, d, after, hdocs, List.forall₂_same.mpr hbefore, List.forall₂_same.mpr hafter⟩,
    fun _ _ => rfl⟩

/-- Changing the documents of a collection leaves those beside one exactly if each of them comes out
the same. -/
theorem leavesOthers_map_iff {f : Document → Document}
    (hdocs : s.documents name = before ++ d :: after)
    (ht : t.documents = (s.put name ((s.documents name).map f)).documents) :
    LeavesOthers s t name before after ↔ ∀ other ∈ before ++ after, other.same (f other) = true := by
  have hmapped : t.documents name = before.map f ++ f d :: after.map f := by
    rw [ht, documents_put_self, hdocs, List.map_append, List.map_cons]
  rw [List.forall_mem_append]
  constructor
  · rintro ⟨⟨before', d', after', hsplit, hbefore, hafter⟩, -⟩
    have hlength : (before.map f).length = before'.length := by
      rw [List.length_map, hbefore.length_eq]
    obtain ⟨rfl, hrest⟩ := List.append_inj (hmapped.symm.trans hsplit) hlength
    cases hrest
    exact ⟨by simpa using hbefore, by simpa using hafter⟩
  · rintro ⟨hbefore, hafter⟩
    refine ⟨⟨_, _, _, hmapped, by simpa using hbefore, by simpa using hafter⟩, fun other hne => ?_⟩
    rw [ht, documents_put_of_ne hne]

end Store

namespace Entity

variable {e : Entity} {schema : Schema} {s₀ s : Store} {m : Model} {edits : List Edit}
  {id : DocumentId} {before after : List Document} {d : Document} {now : String}

/-! ## Saves that succeed -/

/-- What a save of a stored entity has done that succeeded: nothing, if there were no changes; or else
the entity has a key, all documents could be tested for it, and those with that key were changed. -/
theorem save_succeeds (hflag : e.isStored = true) (hsaved : (e.save now s).result = .ok ()) :
    e.isDirty = false ∧ e.save now s = ⟨.ok (), e, s⟩ ∨
      e.isDirty = true ∧ ∃ id, (e.stamped now).requireId = .ok id ∧
        (∀ d ∈ s.documents e.model.collection, Store.CanTest (e.model.keyFilter id) d) ∧
        (e.save now s).store.documents = (s.put e.model.collection
          ((s.documents e.model.collection).map
            (Store.revised (e.model.keyFilter id) (e.stamped now).pending))).documents := by
  cases hdirty : e.isDirty with
  | false => exact .inl ⟨rfl, save_of_clean hflag hdirty now s⟩
  | true =>
    rw [save, if_pos hflag, update_eq] at hsaved ⊢
    simp only [hdirty, Bool.not_true, Bool.false_eq_true, if_false, model_stamped] at hsaved ⊢
    cases hid : (e.stamped now).requireId with
    | error err => simp [hid] at hsaved
    | ok id =>
      simp only [hid] at hsaved ⊢
      cases hrun : Store.updateMany e.model.collection (e.model.keyFilter id)
          (e.stamped now).pendingUpdate s with
      | mk outcome t =>
        cases outcome with
        | error err => simp [hrun] at hsaved
        | ok found =>
          obtain ⟨u, hu, htested, hdocs⟩ := Store.updateMany_succeeds hrun
          rw [ofJson_pendingUpdate] at hu
          cases hu
          exact .inr ⟨trivial, id, rfl, htested, hdocs⟩

theorem Obtained.fresh (hobtained : Obtained schema s₀ m e) : e.Fresh ∧ e.model = m := by
  obtain ⟨d₀, aliases, rfl⟩ := hobtained.exists_ofDocument
  exact ⟨fresh_ofDocument m d₀ aliases, rfl⟩

/-- An entity that was read and then edited is one of its model, and counts as stored. -/
theorem Obtained.edited (hobtained : Obtained schema s₀ m e)
    (hstored : (Json.object e.stored).distinctKeys = true) {touched : String → Prop}
    (hedits : ∀ edit ∈ edits, edit.Within touched) :
    Revises touched e (e.edited edits) ∧ (e.edited edits).model = m ∧
      (e.edited edits).isStored = true := by
  obtain ⟨hfresh, hmodel⟩ := hobtained.fresh
  have hedited := revises_edited (.refl (hfresh.tracked hstored)) hedits
  exact ⟨hedited, hedited.model.trans hmodel, hedited.isStored.trans hfresh.isStored⟩

/-! ## What is left alone -/

/-- What has the key that a stored entity holds when it is saved is changed, and nothing else is. -/
theorem leavesOthers_save_iff (hflag : e.isStored = true)
    (hs : ∀ d ∈ s.documents e.model.collection, (Json.object d).distinctKeys = true)
    (hdocs : s.documents e.model.collection = before ++ d :: after)
    (hsaved : (e.save now s).result = .ok ()) :
    Store.LeavesOthers s (e.save now s).store e.model.collection before after ↔
      (e.isDirty = true → ∀ id, (e.stamped now).requireId = .ok id →
        ∀ other ∈ before ++ after, Filter.accepts other (e.model.keyFilter id) = .ok true →
          (e.stamped now).pending.changes other = false) := by
  have hdistinct : ∀ other ∈ before ++ after, (Json.object other).distinctKeys = true := by
    intro other hother
    refine hs other (hdocs ▸ ?_)
    simp only [List.mem_append, List.mem_cons] at hother ⊢
    tauto
  rcases save_succeeds hflag hsaved with ⟨hclean, hsame⟩ | ⟨hdirty, id, hid, -, hchanged⟩
  · rw [hsame]
    refine iff_of_true (.refl hdocs fun other hother => Json.same_self _ (hdistinct other hother)) ?_
    intro hdirty
    rw [hclean] at hdirty
    cases hdirty
  · rw [Store.leavesOthers_map_iff hdocs hchanged]
    constructor
    · intro hsame _ id' hid' other hother
      cases hid.symm.trans hid'
      exact (Store.same_revised_iff (hdistinct other hother)).mp (hsame other hother)
    · intro hunchanged other hother
      exact Store.same_revised (hdistinct other hother) (hunchanged hdirty id hid other hother)

/-- An entity that was read leaves the documents beside one alone, whatever was edited, exactly if
none of them that matches the key which the entity holds when it is saved is changed by what is
pending then. -/
theorem save_leaves_others_iff (hobtained : Obtained schema s₀ m e)
    (hstored : (Json.object e.stored).distinctKeys = true)
    (hedits : ∀ edit ∈ edits, edit.Within fun _ => True)
    (hs : ∀ d ∈ s.documents m.collection, (Json.object d).distinctKeys = true)
    (hdocs : s.documents m.collection = before ++ d :: after)
    (hsaved : ((e.edited edits).save now s).result = .ok ()) :
    Store.LeavesOthers s ((e.edited edits).save now s).store m.collection before after ↔
      ((e.edited edits).isDirty = true → ∀ id, ((e.edited edits).stamped now).requireId = .ok id →
        ∀ other ∈ before ++ after, Filter.accepts other (m.keyFilter id) = .ok true →
          ((e.edited edits).stamped now).pending.changes other = false) := by
  obtain ⟨-, hmodel, hflag⟩ := hobtained.edited hstored hedits
  subst hmodel
  exact leavesOthers_save_iff hflag hs hdocs hsaved

/-- As long as its key is not edited, an entity that was read leaves all documents alone that do not
match this key. -/
theorem save_under_own_key (hobtained : Obtained schema s₀ m e)
    (hstored : (Json.object e.stored).distinctKeys = true)
    (hedits : ∀ edit ∈ edits, edit.Within fun key => key ≠ m.primaryKey)
    (hstamp : ∀ t, m.timestamps = some t → t.updated ≠ m.primaryKey)
    (hs : ∀ d ∈ s.documents m.collection, (Json.object d).distinctKeys = true)
    (hdocs : s.documents m.collection = before ++ d :: after)
    (hothers : ∀ id, e.requireId = .ok id → ∀ other ∈ before ++ after,
      Filter.accepts other (m.keyFilter id) ≠ .ok true)
    (hsaved : ((e.edited edits).save now s).result = .ok ()) :
    Store.LeavesOthers s ((e.edited edits).save now s).store m.collection before after := by
  obtain ⟨hedited, hmodel, hflag⟩ := hobtained.edited hstored hedits
  subst hmodel
  have hsame : (e.edited edits).model = e.model := hedited.model
  have hkey := (hedited.stamped (fun t ht => hstamp t (hsame ▸ ht)) now).requireId_eq
    (fun hne => hne (congrArg _ hsame.symm))
  refine (leavesOthers_save_iff hflag hs hdocs hsaved).mpr fun _ id hid other hother hmatch => ?_
  exact absurd hmatch (hothers id (hkey.symm.trans hid) other hother)

end Entity

/-! ## Two users -/

namespace UserSample

open Entity

def userModel : Model := ⟨"User", "users", "_id", some ⟨"isDeleted", "deletedAt"⟩, none, ["password"]⟩

def annId : DocumentId := ⟨1⟩

def bobId : DocumentId := ⟨2⟩

def ann : Document :=
  [("_id", annId.toJson), ("name", .string "Ann"), ("email", .string "ann@example.com"),
    ("isDeleted", .bool false)]

def bob : Document :=
  [("_id", bobId.toJson), ("name", .string "Bob"), ("email", .string "bob@example.com"),
    ("isDeleted", .bool false)]

def store : Store where
  collections := [("users", [ann, bob])]
  ids := ⟨fun _ => ⟨0⟩, 0⟩

def schema : Schema := ⟨fun _ => []⟩

/-- Ann, as a query gets her. -/
def found : Entity := ofDocument userModel ann []

theorem found_ann : Obtained schema store userModel found := by
  have hget : userModel.query.get schema store = .ok [found, ofDocument userModel bob []] :=
    Query.get_eq_ok.mpr ⟨{}, _, _, Relation.loadAll_nil _ _ _, rfl, rfl, rfl⟩
  exact .got rfl hget List.mem_cons_self

theorem users_distinct : ∀ d ∈ store.documents "users", (Json.object d).distinctKeys = true := by
  decide

/-- Ann gets another name. -/
def renamed : List Edit := [.set "name" (.string "Eve")]

/-- Saving her leaves the other user alone. -/
theorem renamed_leaves_bob :
    ((found.edited renamed).save "now" store).result = .ok () ∧
      Store.LeavesOthers store ((found.edited renamed).save "now" store).store "users" [] [bob] := by
  have hedits : ∀ edit ∈ renamed, edit.Within fun _ => True :=
    List.forall_mem_singleton.mpr (.set trivial rfl)
  have hid : ((found.edited renamed).stamped "now").requireId = .ok annId := rfl
  have hbob : Filter.accepts bob (userModel.keyFilter annId) = .ok false := rfl
  have hdocs : store.documents "users" = [] ++ ann :: [bob] := rfl
  have hsaved := congrArg Outcome.result
    (save_one rfl rfl hid hdocs rfl (List.forall_mem_singleton.mpr hbob))
  refine ⟨hsaved, (save_leaves_others_iff found_ann rfl hedits users_distinct rfl hsaved).mpr ?_⟩
  intro _ id hid' other hother hmatch
  cases hid.symm.trans hid'
  cases List.mem_singleton.mp hother
  rw [hbob] at hmatch
  cases hmatch

/-- Ann gets the key of the other user, too. -/
def rekeyed : List Edit := [.set "_id" bobId.toJson, .set "name" (.string "Eve")]

/-- Saving her then succeeds, and changes the other user. -/
theorem rekeyed_changes_bob :
    Obtained schema store userModel found ∧ ((found.edited rekeyed).save "now" store).result = .ok () ∧
      ¬ Store.LeavesOthers store ((found.edited rekeyed).save "now" store).store "users" [] [bob] := by
  have hid : ((found.edited rekeyed).stamped "now").requireId = .ok bobId := rfl
  have hann : Filter.accepts ann (userModel.keyFilter bobId) = .ok false := rfl
  have hbob : Filter.accepts bob (userModel.keyFilter bobId) = .ok true := rfl
  have hdocs : store.documents "users" = [ann] ++ bob :: [] := rfl
  have hsaved := congrArg Outcome.result
    (save_one rfl rfl hid hdocs hbob (List.forall_mem_singleton.mpr hann))
  refine ⟨found_ann, hsaved, fun hleaves => ?_⟩
  have hunchanged := (leavesOthers_save_iff rfl users_distinct rfl hsaved).mp hleaves rfl bobId hid
    bob (List.mem_singleton.mpr rfl) hbob
  cases hunchanged

end UserSample

end DocMapper
