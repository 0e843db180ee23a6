import DocMapper.Proofs.Removal
import DocMapper.Proofs.Upsert

/-! # Updating many documents

An update of many documents tests them one after another and writes as it goes: each document that
matches is changed before the next one is tested (`revised`). If every document can be tested, those
that match are the ones that are updated (`updateEach_ok`). If one cannot, the documents before it
have been updated already, and it and those after it are left as they were (`updateEach_error`); the
call fails all the same, and counts no write.

So a failing update leaves the store as it was exactly if none of the documents before the first one
that cannot be tested both matches and is changed (`updateMany_keeps_iff`). -/

namespace DocMapper.Store

variable {filter : Json} {u : Update}

/-- What an update of many documents makes of one of them. -/
def revised (filter : Json) (u : Update) (d : Document) : Document :=
  match Filter.accepts d filter with
  | .ok true => u.apply d
  | _ => d

theorem revised_of_accepts {d : Document} {b : Bool} (h : Filter.accepts d filter = .ok b) :
    revised filter u d = if b then u.apply d else d := by
  cases b <;> simp [revised, h]

/-- A document comes out the same if it is not changed, or does not match. -/
theorem same_revised_iff {d : Document} (hd : (Json.object d).distinctKeys = true) :
    d.same (revised filter u d) = true ↔
      (Filter.accepts d filter = .ok true → u.changes d = false) := by
  unfold revised
  split
  · next hmatch => simp [hmatch, Update.changes]
  · next hnot => exact iff_of_true (Json.same_self (.object d) hd) fun hmatch => absurd hmatch hnot

theorem same_revised {d : Document} (hd : (Json.object d).distinctKeys = true)
    (h : Filter.accepts d filter = .ok true → u.changes d = false) :
    d.same (revised filter u d) = true := (same_revised_iff hd).mpr h

/-! ## Document by document -/

/-- Either all documents can be tested, or there is a first one that cannot. -/
theorem canTest_or_first_fault (filter : Json) (docs : List Document) :
    (∀ d ∈ docs, CanTest filter d) ∨
      ∃ before d rest fault, docs = before ++ d :: rest ∧ (∀ b ∈ before, CanTest filter b) ∧
        Filter.accepts d filter = .error fault := by
  induction docs with
  | nil => exact .inl fun _ hd => absurd hd List.not_mem_nil
  | cons d docs ih =>
    cases hd : Filter.accepts d filter with
    | error fault => exact .inr ⟨[], d, docs, fault, rfl, fun _ hb => absurd hb List.not_mem_nil, hd⟩
    | ok b =>
      rcases ih with hall | ⟨before, e, rest, fault, rfl, hbefore, hfault⟩
      · exact .inl (List.forall_mem_cons.mpr ⟨⟨b, hd⟩, hall⟩)
      · exact .inr ⟨d :: before, e, rest, fault, rfl, List.forall_mem_cons.mpr ⟨⟨b, hd⟩, hbefore⟩,
          hfault⟩

/-- If every document can be tested, the ones that match are updated. -/
theorem updateEach_ok {docs : List Document} {p : Document → Bool}
    (h : ∀ d ∈ docs, Filter.accepts d filter = .ok (p d)) :
    updateEach filter u docs =
      (.ok { matched := docs.countP p, modified := docs.countP fun d => p d && u.changes d },
        docs.map fun d => if p d then u.apply d else d) := by
  induction docs with
  | nil => rfl
  | cons d docs ih =>
    have hrest := ih fun e he => h e (List.mem_cons_of_mem d he)
    have hd := h d List.mem_cons_self
    cases hp : p d with
    | false => simp [updateEach, hd, hrest, hp]
    | true => simp [updateEach, hd, hrest, hp, List.countP_cons]

/-- The documents before the first one that cannot be tested are updated, the others are not. -/
theorem updateEach_error {before rest : List Document} {d : Document} {fault : QueryFault}
    (hbefore : ∀ b ∈ before, CanTest filter b) (hd : Filter.accepts d filter = .error fault) :
    updateEach filter u (before ++ d :: rest) =
      (.error fault, before.map (revised filter u) ++ d :: rest) := by
  induction before with
  | nil => simp [updateEach, hd]
  | cons b before ih =>
    have hrest := ih fun e he => hbefore e (List.mem_cons_of_mem b he)
    obtain ⟨matched, hb⟩ := hbefore b List.mem_cons_self
    cases matched <;> simp [updateEach, hb, hrest, revised_of_accepts hb]

/-- Documents that do not match are passed over. -/
theorem updateEach_skip {docs : List Document}
    (h : ∀ d ∈ docs, Filter.accepts d filter = .ok false) (rest : List Document) :
    updateEach filter u (docs ++ rest) =
      ((updateEach filter u rest).1, docs ++ (updateEach filter u rest).2) := by
  induction docs with
  | nil => rfl
  | cons d docs ih =>
    obtain ⟨hd, hdocs⟩ := List.forall_mem_cons.mp h
    simp [updateEach, hd, ih hdocs]

/-! ## The update of a collection -/

variable {name : String} {update : Json} {s : Store}

/-- An update whose tests all succeed changes the documents that match and no others. It counts as
a write if some document is changed. -/
theorem updateMany_ok {p : Document → Bool} (hu : Update.ofJson update = .ok u)
    (h : ∀ d ∈ s.documents name, Filter.accepts d filter = .ok (p d)) :
    updateMany name filter update s =
      (.ok { matched := (s.documents name).countP p
             modified := (s.documents name).countP fun d => p d && u.changes d },
        (s.put name ((s.documents name).map fun d => if p d then u.apply d else d)).countedIf
          (0 < (s.documents name).countP fun d => p d && u.changes d)) := by
  simp only [updateMany, hu, updateEach_ok h]

/-- If one document alone matches, and the others can be tested, that one is updated in its
place. -/
theorem updateMany_one {before after : List Document} {d : Document}
    (hu : Update.ofJson update = .ok u) (hdocs : s.documents name = before ++ d :: after)
    (hd : Filter.accepts d filter = .ok true)
    (hothers : ∀ other ∈ before ++ after, Filter.accepts other filter = .ok false) :
    updateMany name filter update s =
      (.ok { matched := 1, modified := if u.changes d then 1 else 0 },
        (s.put name (before ++ u.apply d :: after)).countedIf (u.changes d)) := by
  obtain ⟨hbefore, hafter⟩ := List.forall_mem_append.mp hothers
  have hrest : updateEach filter u after = (.ok {}, after) := by
    simpa [updateEach] using updateEach_skip (u := u) hafter []
  have hdocs' : updateEach filter u (before ++ d :: after) =
      (.ok { matched := 1, modified := if u.changes d then 1 else 0 },
        before ++ u.apply d :: after) := by
    rw [updateEach_skip hbefore]
    simp [updateEach, hd, hrest]
  simp only [updateMany, hu, hdocs, hdocs']
  cases u.changes d <;> rfl

theorem updateMany_error {before rest : List Document} {d : Document} {fault : QueryFault}
    (hu : Update.ofJson update = .ok u) (hdocs : s.documents name = before ++ d :: rest)
    (hbefore : ∀ b ∈ before, CanTest filter b) (hd : Filter.accepts d filter = .error fault) :
    updateMany name filter update s =
      (.error (.query fault), s.put name (before.map (revised filter u) ++ d :: rest)) := by
  simp only [updateMany, hu, hdocs, updateEach_error hbefore hd]

/-- An update succeeds only if every document can be tested; then it changes those that match. -/
theorem updateMany_succeeds {outcome : UpdateOutcome} {t : Store}
    (h : updateMany name filter update s = (.ok outcome, t)) :
    ∃ u, Update.ofJson update = .ok u ∧ (∀ d ∈ s.documents name, CanTest filter d) ∧
      t.documents = (s.put name ((s.documents name).map (revised filter u))).documents := by
  cases hu : Update.ofJson update with
  | error fault => simp [updateMany, hu] at h
  | ok u =>
    rcases canTest_or_first_fault filter (s.documents name) with
      hall | ⟨before, d, rest, fault, hdocs, hbefore, hd⟩
    · refine ⟨u, rfl, hall, ?_⟩
      choose! p hp using hall
      rw [updateMany_ok hu hp] at h
      cases h
      rw [documents_countedIf, List.map_congr_left fun d hd => (revised_of_accepts (hp d hd)).symm]
    · rw [updateMany_error hu hdocs hbefore hd] at h
      cases h

/-- Two stores hold the same documents, up to the order of their entries, in every collection, and
have counted the same writes. -/
structure SameContents (s t : Store) : Prop where
  documents : ∀ name, List.Forall₂ (fun d e => d.same e = true) (s.documents name) (t.documents name)
  writes : s.writes = t.writes

theorem SameContents.refl (hs : ∀ name, ∀ d ∈ s.documents name, d.same d = true) :
    s.SameContents s :=
  ⟨fun name => List.forall₂_same.mpr (hs name), rfl⟩

/-- Changing documents at the front of a collection keeps the contents of the store exactly if each
of them comes out the same. -/
theorem sameContents_put_front_iff {before rest : List Document} {f : Document → Document}
    (hs : ∀ name, ∀ d ∈ s.documents name, d.same d = true)
    (hdocs : s.documents name = before ++ rest) :
    s.SameContents (s.put name (before.map f ++ rest)) ↔ ∀ b ∈ before, b.same (f b) = true := by
  have hrest : List.Forall₂ (fun d e => d.same e = true) rest rest :=
    List.forall₂_same.mpr fun d hd => hs name d (hdocs ▸ List.mem_append_right before hd)
  have hput : s.SameDocuments (s.put name (before.map f ++ rest)) ↔
      List.Forall₂ (fun d e => d.same e = true) (before ++ rest) (before.map f ++ rest) :=
    hdocs ▸ sameDocuments_put_iff hs (documents_put_documents s name).symm rfl
  constructor
  · intro hsame
    have hfront := List.forall₂_take before.length (hput.mp hsame.documents)
    simpa using hfront
  · intro hfront
    refine ⟨hput.mpr (List.rel_append ?_ hrest), rfl⟩
    exact List.forall₂_map_right_iff.mpr (List.forall₂_same.mpr hfront)

/-- How an update of many documents fails: it is not an update at all, and nothing is touched; or a
document cannot be tested, and those before it are updated. -/
inductive UpdateFails (s : Store) (name : String) (filter update : Json) : Error → Store → Prop where
  | malformed {fault : QueryFault} : Update.ofJson update = .error fault →
      UpdateFails s name filter update (.query fault) s
  | midway {u : Update} {before rest : List Document} {d : Document} {fault : QueryFault} :
      Update.ofJson update = .ok u → s.documents name = before ++ d :: rest →
      (∀ b ∈ before, CanTest filter b) → Filter.accepts d filter = .error fault →
      UpdateFails s name filter update (.query fault)
        (s.put name (before.map (revised filter u) ++ d :: rest))

theorem updateMany_eq_error_iff {e : Error} {t : Store} :
    updateMany name filter update s = (.error e, t) ↔ UpdateFails s name filter update e t := by
  constructor
  · intro h
    cases hu : Update.ofJson update with
    | error fault =>
      simp only [updateMany, hu, Prod.mk.injEq, Except.error.injEq] at h
      obtain ⟨rfl, rfl⟩ := h
      exact .malformed hu
    | ok u =>
      rcases canTest_or_first_fault filter (s.documents name) with
        hall | ⟨before, d, rest, fault, hdocs, hbefore, hd⟩
      · choose! p hp using hall
        rw [updateMany_ok hu hp] at h
        cases h
      · rw [updateMany_error hu hdocs hbefore hd] at h
        cases h
        exact .midway hu hdocs hbefore hd
  · rintro (hu | ⟨hu, hdocs, hbefore, hd⟩)
    · simp only [updateMany, hu]
    · exact updateMany_error hu hdocs hbefore hd

/-! ## What a failed update leaves -/

/-- A failing update leaves the documents as they were exactly if none of those before the first
one that cannot be tested both matches and is changed. However it fails, the other collections and
the count of writes stay, and of the collection itself the documents from the first fault on. -/
theorem updateMany_keeps_iff (s : Store) (name : String) (filter update : Json)
    (hs : ∀ name, ∀ d ∈ s.documents name, (Json.object d).distinctKeys = true) :
    ((∀ e t, updateMany name filter update s = (.error e, t) → s.SameContents t) ↔
      ∀ u before d rest, Update.ofJson update = .ok u → s.documents name = before ++ d :: rest →
        (∀ b ∈ before, CanTest filter b) → ¬ CanTest filter d →
        ∀ b ∈ before, Filter.accepts b filter = .ok true → u.changes b = false) ∧
    ∀ e t, updateMany name filter update s = (.error e, t) →
      UpdateFails s name filter update e t ∧
        (∀ other ≠ name, t.documents other = s.documents other) ∧ t.writes = s.writes := by
  have hsame : ∀ name, ∀ d ∈ s.documents name, d.same d = true :=
    fun name d hd => Json.same_self (.object d) (hs name d hd)
  refine ⟨⟨?_, ?_⟩, ?_⟩
  · intro hkeeps u before d rest hu hdocs hbefore hnot b hb hmatch
    obtain ⟨fault, hd⟩ : ∃ fault, Filter.accepts d filter = .error fault := by
      cases hd : Filter.accepts d filter with
      | error fault => exact ⟨fault, rfl⟩
      | ok b => exact absurd ⟨b, hd⟩ hnot
    have hkept := (sameContents_put_front_iff hsame hdocs).mp
      (hkeeps _ _ (updateMany_error hu hdocs hbefore hd)) b hb
    rwa [revised_of_accepts hmatch, if_pos rfl, ← Bool.not_eq_false'] at hkept
  · intro h e t hfails
    cases updateMany_eq_error_iff.mp hfails with
    | malformed hu => exact .refl hsame
    | @midway u before rest d fault hu hdocs hbefore hd =>
      have hnot : ¬ CanTest filter d := fun ⟨b, hb⟩ => by simp [hd] at hb
      refine (sameContents_put_front_iff hsame hdocs).mpr fun b hb => ?_
      have hmem : b ∈ s.documents name := hdocs ▸ List.mem_append_left _ hb
      exact same_revised (hs name b hmem) (h u before d rest hu hdocs hbefore hnot b hb)
  · intro e t hfails
    refine ⟨updateMany_eq_error_iff.mp hfails, ?_⟩
    cases updateMany_eq_error_iff.mp hfails with
    | malformed hu => exact ⟨fun _ _ => rfl, rfl⟩
    | midway hu hdocs hbefore hd => exact ⟨fun other hne => documents_put_of_ne hne s _, rfl⟩

end DocMapper.Store

namespace DocMapper.TaskSample

open Store

/-- Two tasks, of which only the first one has tags. -/
def store : Store where
  collections := [("tasks",
    [ [("_id", .string "00000000-0000-4000-8000-000000000001"), ("tags", .array [.string "a"])],
      [("_id", .string "00000000-0000-4000-8000-000000000002")] ])]
  writes := 1
  ids := ⟨fun _ => ⟨0⟩, 0⟩

/-- The tasks that have some tag; it cannot be tested on a task without the field. -/
def tagged : Json :=
  .single "$expr" (.single "$gt" (.array [.single "$size" (.string "$tags"), .int 0]))

def finish : Json := .single "$set" (.single "done" (.bool true))

def retag : Json := .single "$set" (.single "tags" (.array [.string "a"]))

theorem store_distinct : ∀ name, ∀ d ∈ store.documents name, (Json.object d).distinctKeys = true :=
  forall_documents (by decide)

/-- An update that gives the first task the tags that it has keeps all documents, although it fails
at the second one. -/
theorem retagging_keeps_tasks :
    (∀ name, ∀ d ∈ store.documents name, (Json.object d).distinctKeys = true) ∧
      ∀ e t, updateMany "tasks" tagged retag store = (.error e, t) → store.SameContents t := by
  refine ⟨store_distinct, (updateMany_keeps_iff store "tasks" tagged retag store_distinct).1.mpr ?_⟩
  intro u before d rest hu hdocs _ _ b hb hmatch
  cases hu
  have hb : b ∈ store.documents "tasks" := hdocs ▸ List.mem_append_left _ hb
  rcases List.mem_cons.mp hb with rfl | hb
  · rfl
  · cases List.mem_singleton.mp hb
    cases hmatch

/-- An update that gives it a new field changes the first task and fails at the second one. -/
theorem finishing_fails_midway :
    ¬ ∀ e t, updateMany "tasks" tagged finish store = (.error e, t) → store.SameContents t := by
  intro hkeeps
  have htasks : store.documents "tasks" = [_] ++ _ :: [] := rfl
  have hfails : updateMany "tasks" tagged finish store = (_, _) :=
    updateMany_error rfl htasks (List.forall_mem_singleton.mpr ⟨true, rfl⟩) rfl
  have hsame := (hkeeps _ _ hfails).documents "tasks"
  rw [documents_put_self] at hsame
  cases hsame with
  | cons hfirst _ => cases hfirst

end DocMapper.TaskSample
