import DocMapper.Proofs.Insertion
import DocMapper.Proofs.Repeating

/-! # What the count of writes counts

A store counts the calls that succeed and change something. Each call finds out in its own way
whether it did: an insert counts unless there was nothing to insert, an update compares every
document with a copy from before, and a removal compares how many documents there are. Seen from
outside they all do the same (`CountsChange`): the count goes up by one if the documents of the
store are others than before, up to the order of their keys, and else it stays. A call that fails
counts nothing, even if it leaves changed documents behind (`writes_of_failed`).

What holds of one call (`Event.accounts_perform`) holds of every call of a run, because all calls,
also those that fail midway, keep the documents free of repeated keys (`distinct_perform`). So the
count at the end says how many calls succeeded and changed something (`writes_count_changes`). -/

namespace DocMapper

namespace Store

variable {name : String} {filter update : Json} {s t : Store} {docs : List Document} {d : Document}
  {ids : List DocumentId}

/-! ## Changes of the documents -/

/-- From one store to the next, the count of writes goes up by one if the documents are changed, and
stays if they are not. -/
structure CountsChange (s t : Store) : Prop where
  changed : ¬ s.SameDocuments t → t.writes = s.writes + 1
  unchanged : s.SameDocuments t → t.writes = s.writes

theorem countsChange_refl (hs : s.Distinct) : CountsChange s s :=
  ⟨fun hchanged => absurd (sameDocuments_of_eq hs.same rfl) hchanged, fun _ => rfl⟩

/-- A call that knows whether it changed the documents of its collection counts changes. -/
theorem CountsChange.of_put {changed : Bool} (hs : s.Distinct)
    (ht : t.documents = (s.put name docs).documents)
    (h : List.Forall₂ (fun d e => d.same e = true) (s.documents name) docs ↔ changed = false)
    (hwrites : t.writes = s.writes + if changed then 1 else 0) : CountsChange s t := by
  have hsame : s.SameDocuments t ↔ changed = false :=
    (sameDocuments_put_iff hs.same (documents_put_documents s name).symm ht).trans h
  constructor
  · intro hchanged
    rw [hwrites, if_pos (Bool.not_eq_false _ ▸ hsame.not.mp hchanged)]
  · intro hunchanged
    rw [hwrites, hsame.mp hunchanged, if_neg Bool.false_ne_true, Nat.add_zero]

/-! ## Inserting -/

theorem Appends.documents_eq (h : Appends s name docs ids t) :
    t.documents = (s.put name (s.documents name ++ storedUnder docs ids)).documents := by
  funext other
  by_cases hother : other = name
  · rw [hother, documents_put_self, h.documents]
  · rw [documents_put_of_ne hother, h.others other hother]

/-- A batch that is not empty is a change, and counts as one. -/
theorem Appends.countsChange (hs : s.Distinct) (hdocs : docs ≠ [])
    (h : Appends s name docs ids t) : CountsChange s t := by
  have hwrites : t.writes = s.writes + if true then 1 else 0 := h.writes
  refine .of_put hs h.documents_eq ?_ hwrites
  refine iff_of_false (fun hsame => ?_) nofun
  have hlength := hsame.length_eq
  rw [List.length_append, length_storedUnder h.taken.length_eq] at hlength
  have hpos := List.length_pos_of_ne_nil hdocs
  omega

theorem countsChange_insertMany (hs : s.Distinct) (h : insertMany name docs s = (.ok ids, t)) :
    CountsChange s t := by
  by_cases hdocs : docs = []
  · subst hdocs
    cases h
    exact countsChange_refl hs
  · exact (appends_of_insertMany hdocs h).countsChange hs hdocs

theorem countsChange_upsertOne (hs : s.Distinct) {outcome : UpdateOutcome}
    (h : upsertOne name filter update s = (.ok outcome, t)) : CountsChange s t := by
  cases hu : Update.ofJson update with
  | error fault => simp [upsertOne, hu] at h
  | ok u =>
    cases hfind : findMatch filter (s.documents name) with
    | error fault => simp [upsertOne, hu, hfind] at h
    | ok found =>
      cases found with
      | none =>
        obtain ⟨id, happends⟩ := appends_of_upsertOne hu hfind h
        exact happends.countsChange hs (List.cons_ne_nil _ _)
      | some i =>
        obtain ⟨before, d, after, hdocs, -, hbefore, hd⟩ := exists_split_of_findMatch hfind
        rw [upsertOne_first hu hdocs hbefore hd] at h
        cases h
        refine .of_put hs (documents_countedIf _ _) ?_ (writes_countedIf _ _)
        rw [hdocs, forall₂_replace_iff (hdocs ▸ hs.same name), Update.changes, Bool.not_eq_false']

/-! ## Updating -/

/-- What a successful update of many documents reports: how many documents matched before, and how
many have another content after. All documents stay in their places. -/
structure UpdateReport (s : Store) (name : String) (filter : Json) (outcome : UpdateOutcome)
    (t : Store) : Prop where
  matched : ∃ p : Document → Bool, (∀ d ∈ s.documents name, Filter.accepts d filter = .ok (p d)) ∧
    outcome.matched = (s.documents name).countP p
  modified : outcome.modified = s.differing t name
  upserted : outcome.upserted = none
  length : (t.documents name).length = (s.documents name).length
  others : ∀ other ≠ name, t.documents other = s.documents other

theorem report_of_updateMany (hs : s.Distinct) {outcome : UpdateOutcome}
    (h : updateMany name filter update s = (.ok outcome, t)) :
    UpdateReport s name filter outcome t ∧ CountsChange s t := by
  obtain ⟨u, hu, htest, -⟩ := updateMany_succeeds h
  choose! p hp using htest
  rw [updateMany_ok hu hp] at h
  cases h
  -- A document has another content after the call if it matched and the update changes it.
  have hother : ∀ d ∈ s.documents name,
      (!d.same (if p d then u.apply d else d)) = (p d && u.changes d) := by
    intro d hd
    cases hpd : p d with
    | false => simp [hs.same name d hd]
    | true => simp [Update.changes]
  refine ⟨⟨⟨p, hp, rfl⟩, ?_, rfl, ?_, ?_⟩, ?_⟩
  · rw [differing_map (documents_countedIf _ _)]
    exact List.countP_congr fun d hd => by rw [hother d hd]
  · rw [documents_countedIf, documents_put_self, List.length_map]
  · intro other hne
    rw [documents_countedIf, documents_put_of_ne hne]
  · refine .of_put hs (documents_countedIf _ _) ?_ (writes_countedIf _ _)
    rw [List.forall₂_map_right_iff, List.forall₂_same, decide_eq_false_iff_not, Nat.pos_iff_ne_zero,
      not_not, List.countP_eq_zero]
    refine forall₂_congr fun d hd => ?_
    rw [← hother d hd, Bool.not_eq_true', Bool.not_eq_false]

/-! ## Removing -/

/-- What a successful removal reports: how many documents it removed. These are the ones that
matched, and the others are kept as they are, in their order. -/
structure RemovalReport (s : Store) (name : String) (filter : Json) (removed : Nat) (t : Store) :
    Prop where
  kept : ∃ p : Document → Bool, (∀ d ∈ s.documents name, Filter.accepts d filter = .ok (p d)) ∧
    removed = (s.documents name).countP p ∧ t.documents name = (s.documents name).filter (!p ·)
  removed : removed + (t.documents name).length = (s.documents name).length
  others : ∀ other ≠ name, t.documents other = s.documents other

theorem report_of_deleteMany (hs : s.Distinct) {removed : Nat}
    (h : deleteMany name filter s = (.ok removed, t)) :
    RemovalReport s name filter removed t ∧ CountsChange s t := by
  cases hkept : (s.documents name).filterM fun d => (Filter.accepts d filter).map not with
  | error fault => simp [deleteMany, hkept] at h
  | ok kept =>
    have htest : ∀ d ∈ s.documents name, ∃ b, Filter.accepts d filter = .ok b := by
      intro d hd
      obtain ⟨b, hb⟩ := filterM_succeeds_iff.mp ⟨kept, hkept⟩ d hd
      obtain ⟨a, ha, -⟩ := map_eq_ok.mp hb
      exact ⟨a, ha⟩
    choose! p hp using htest
    have hfilter : kept = (s.documents name).filter (!p ·) := by
      refine Except.ok.inj (hkept.symm.trans (filterM_ok fun d hd => ?_))
      rw [hp d hd, map_ok]
    rw [deleteMany_of_kept hkept] at h
    cases h
    have hlength : (s.documents name).countP p + kept.length = (s.documents name).length := by
      rw [hfilter, List.countP_eq_length_filter, ← List.length_eq_length_filter_add]
    refine ⟨⟨⟨p, hp, by omega, ?_⟩, ?_, fun other hne => ?_⟩, ?_⟩
    · rw [documents_countedIf, documents_put_self, hfilter]
    · rw [documents_countedIf, documents_put_self]
      omega
    · rw [documents_countedIf, documents_put_of_ne hne]
    · refine .of_put hs (documents_countedIf _ _) ?_ (writes_countedIf _ _)
      rw [decide_eq_false_iff_not, Nat.pos_iff_ne_zero, not_not]
      constructor
      · intro hsame
        rw [hsame.length_eq, Nat.sub_self]
      · intro hnone
        -- If none was removed, all were kept.
        have hsub : kept.Sublist (s.documents name) := hfilter ▸ List.filter_sublist
        rw [hsub.eq_of_length (by omega)]
        exact List.forall₂_same.mpr (hs.same name)

/-! ## Calls -/

/-- A call to a store: one that may write, or one that only reads. -/
inductive Call where
  | write (w : Write)
  | aggregate (name : String) (stages : List Stage)

/-- What a successful call reports. -/
inductive Report where
  | inserted (ids : List DocumentId)
  | updated (outcome : UpdateOutcome)
  | removed (count : Nat)
  | found (docs : List Document)

/-- The action with its outcome as a report. -/
def reporting {α : Type} (report : α → Report) (action : Action α) : Action Report := fun s =>
  ((action s).1.map report, (action s).2)

def Write.perform : Write → Action Report
  | .insertOne name d => reporting (fun id => .inserted [id]) (Store.insertOne name d)
  | .insertMany name docs => reporting .inserted (Store.insertMany name docs)
  | .updateMany name filter update => reporting .updated (Store.updateMany name filter update)
  | .upsertOne name filter update => reporting .updated (Store.upsertOne name filter update)
  | .deleteMany name filter => reporting .removed (Store.deleteMany name filter)

def Call.perform : Call → Action Report
  | .write w => w.perform
  | .aggregate name stages => fun s => ((s.aggregate name stages).map .found, s)

/-- Whether the values that a call may store have no repeated keys, at any depth. -/
def Call.distinctKeys : Call → Bool
  | .write (.insertOne _ d) => (Json.object d).distinctKeys
  | .write (.insertMany _ docs) => docs.all fun d => (Json.object d).distinctKeys
  | .write (.updateMany _ _ update) => update.distinctKeys
  | .write (.upsertOne _ filter update) => filter.distinctKeys && update.distinctKeys
  | .write (.deleteMany _ _) | .aggregate _ _ => true

theorem reporting_eq_ok {α : Type} {f : α → Report} {action : Action α} {report : Report} :
    reporting f action s = (.ok report, t) ↔ ∃ a, action s = (.ok a, t) ∧ report = f a := by
  rw [reporting, Prod.mk.injEq, map_eq_ok]
  constructor
  · rintro ⟨⟨a, ha, rfl⟩, rfl⟩
    exact ⟨a, Prod.ext ha rfl, rfl⟩
  · rintro ⟨a, ha, rfl⟩
    rw [ha]
    exact ⟨⟨a, rfl, rfl⟩, rfl⟩

theorem reporting_eq_error {α : Type} {f : α → Report} {action : Action α} {e : Error} :
    reporting f action s = (.error e, t) ↔ action s = (.error e, t) := by
  rw [reporting]
  cases action s with
  | mk outcome t' => cases outcome <;> simp [Except.map]

theorem perform_eq_run (w : Write) (s : Store) : (w.perform s).2 = w.run s := by
  cases w <;> rfl

/-- A call that succeeds counts a change if there was one. -/
theorem countsChange_perform {c : Call} {report : Report} (hs : s.Distinct)
    (h : c.perform s = (.ok report, t)) : CountsChange s t := by
  cases c with
  | aggregate name stages =>
    obtain rfl : s = t := congrArg Prod.snd h
    exact countsChange_refl hs
  | write w =>
    cases w with
    | insertOne name d =>
      obtain ⟨id, hrun, -⟩ := reporting_eq_ok.mp h
      exact (appends_of_insertOne hrun).countsChange hs (List.cons_ne_nil _ _)
    | insertMany name docs =>
      obtain ⟨ids, hrun, -⟩ := reporting_eq_ok.mp h
      exact countsChange_insertMany hs hrun
    | updateMany name filter update =>
      obtain ⟨outcome, hrun, -⟩ := reporting_eq_ok.mp h
      exact (report_of_updateMany hs hrun).2
    | upsertOne name filter update =>
      obtain ⟨outcome, hrun, -⟩ := reporting_eq_ok.mp h
      exact countsChange_upsertOne hs hrun
    | deleteMany name filter =>
      obtain ⟨removed, hrun, -⟩ := reporting_eq_ok.mp h
      exact (report_of_deleteMany hs hrun).2

/-- A call that fails counts nothing, whatever it left behind. -/
theorem writes_of_failed {c : Call} {e : Error} (h : c.perform s = (.error e, t)) :
    t.writes = s.writes := by
  cases c with
  | aggregate name stages =>
    obtain rfl : s = t := congrArg Prod.snd h
    rfl
  | write w =>
    cases w with
    | insertOne name d => exact (agrees_of_insertOne_error (reporting_eq_error.mp h)).writes.symm
    | insertMany name docs => exact (agrees_of_insertMany_error (reporting_eq_error.mp h)).writes.symm
    | updateMany name filter update =>
      cases updateMany_eq_error_iff.mp (reporting_eq_error.mp h) with
      | malformed => rfl
      | midway => rfl
    | upsertOne name filter update =>
      exact (agrees_of_upsertOne_error (reporting_eq_error.mp h)).writes.symm
    | deleteMany name filter =>
      obtain ⟨-, -, -, rfl⟩ := deleteMany_eq_error_iff.mp (reporting_eq_error.mp h)
      rfl

/-! ## What calls keep -/

/-- However far an update of many documents gets, it repeats no keys. -/
theorem distinct_updateEach {u : Update} (hset : (Json.object u.set).distinctKeys = true)
    (h : ∀ d ∈ docs, (Json.object d).distinctKeys = true) :
    ∀ d ∈ (updateEach filter u docs).2, (Json.object d).distinctKeys = true := by
  induction docs with
  | nil => exact h
  | cons d docs ih =>
    obtain ⟨hd, hdocs⟩ := List.forall_mem_cons.mp h
    rw [updateEach]
    cases Filter.accepts d filter with
    | error fault => exact h
    | ok b =>
      cases b with
      | false => exact List.forall_mem_cons.mpr ⟨hd, ih hdocs⟩
      | true => exact List.forall_mem_cons.mpr ⟨Update.distinctKeys_apply hset hd, ih hdocs⟩

theorem distinct_storedUnder (h : ∀ d ∈ docs, (Json.object d).distinctKeys = true) :
    ∀ d ∈ storedUnder docs ids, (Json.object d).distinctKeys = true := by
  induction docs generalizing ids with
  | nil => exact fun d hd => absurd hd List.not_mem_nil
  | cons d docs ih =>
    cases ids with
    | nil => exact fun d hd => absurd hd List.not_mem_nil
    | cons id ids =>
      obtain ⟨hd, hdocs⟩ := List.forall_mem_cons.mp h
      exact List.forall_mem_cons.mpr ⟨Json.distinctKeys_insert hd "_id" rfl, ih hdocs⟩

theorem distinct_modify {u : Update} (hset : (Json.object u.set).distinctKeys = true)
    (h : ∀ d ∈ docs, (Json.object d).distinctKeys = true) (i : Nat) :
    ∀ d ∈ docs.modify i u.apply, (Json.object d).distinctKeys = true := by
  induction docs generalizing i with
  | nil => cases i <;> exact h
  | cons d docs ih =>
    obtain ⟨hd, hdocs⟩ := List.forall_mem_cons.mp h
    cases i with
    | zero => exact List.forall_mem_cons.mpr ⟨Update.distinctKeys_apply hset hd, hdocs⟩
    | succ i => exact List.forall_mem_cons.mpr ⟨hd, ih hdocs i⟩

/-- A call keeps the documents free of repeated keys, whether it succeeds or fails. -/
theorem distinct_run {w : Write} (hw : (Call.write w).distinctKeys = true) (hs : s.Distinct) :
    (w.run s).Distinct := by
  cases w with
  | insertOne name d =>
    rcases documents_insertOne name d s with hsame | ⟨id, -, happended⟩
    · exact hs.of_documents hsame
    · refine hs.of_put (List.forall_mem_append.mpr ⟨hs name, List.forall_mem_singleton.mpr ?_⟩)
        happended
      exact Json.distinctKeys_insert hw "_id" rfl
  | insertMany name docs =>
    rcases documents_insertMany name docs s with hsame | ⟨prepared, hprepared, happended⟩
    · exact hs.of_documents hsame
    · obtain ⟨_, -, hall⟩ := prepareAll_cases docs (s.documents name) s
      rw [(hall prepared hprepared).2] at happended
      refine hs.of_put (List.forall_mem_append.mpr ⟨hs name, ?_⟩) happended
      exact distinct_storedUnder (List.all_eq_true.mp hw)
  | updateMany name filter update =>
    rcases documents_updateMany name filter update s with hsame | ⟨u, hu, hupdated⟩
    · exact hs.of_documents hsame
    · have hset := (Update.distinctKeys_of_ofJson hw hu).1
      exact hs.of_put (distinct_updateEach hset (hs name)) hupdated
  | upsertOne name filter update =>
    obtain ⟨hfilter, hupdate⟩ := Bool.and_eq_true_iff.mp hw
    rcases documents_upsertOne name filter update s with
      hsame | ⟨u, hu, ⟨i, hmodified⟩ | ⟨-, id, -, happended⟩⟩
    · exact hs.of_documents hsame
    · have hset := (Update.distinctKeys_of_ofJson hupdate hu).1
      exact hs.of_put (distinct_modify hset (hs name) i) hmodified
    · refine hs.of_put (List.forall_mem_append.mpr ⟨hs name, List.forall_mem_singleton.mpr ?_⟩)
        happended
      exact Json.distinctKeys_insert (Update.distinctKeys_inserted hfilter hupdate hu) "_id" rfl
  | deleteMany name filter =>
    obtain ⟨kept, hsub, hkept⟩ := documents_deleteMany name filter s
    exact hs.of_put (fun d hd => hs name d (hsub.subset hd)) hkept

theorem distinct_perform {c : Call} (hc : c.distinctKeys = true) (hs : s.Distinct) :
    (c.perform s).2.Distinct := by
  cases c with
  | write w =>
    rw [Call.perform, perform_eq_run]
    exact distinct_run hc hs
  | aggregate name stages => exact hs

/-! ## Runs -/

/-- What happened at one call of a run. -/
structure Event where
  before : Store
  call : Call
  outcome : Except Error Report
  after : Store

/-- What happens when calls are made one after the other, where also those that fail may leave
something behind. -/
def history (s : Store) : List Call → List Event
  | [] => []
  | c :: calls => ⟨s, c, (c.perform s).1, (c.perform s).2⟩ :: history (c.perform s).2 calls

/-- The store after a sequence of calls. -/
def final (s : Store) (calls : List Call) : Store := calls.foldl (fun s c => (c.perform s).2) s

namespace Event

/-- A successful call changed the documents. -/
def Changes (e : Event) : Prop :=
  (∃ report, e.outcome = .ok report) ∧ ¬ e.before.SameDocuments e.after

/-- What a call reports is true, and the count of writes tells whether it changed something. -/
structure Accounts (e : Event) : Prop where
  counted : ∀ report, e.outcome = .ok report → CountsChange e.before e.after
  failed : ∀ error, e.outcome = .error error → e.after.writes = e.before.writes
  updated : ∀ name filter update report, e.call = .write (.updateMany name filter update) →
    e.outcome = .ok report →
    ∃ outcome, report = .updated outcome ∧ UpdateReport e.before name filter outcome e.after
  removed : ∀ name filter report, e.call = .write (.deleteMany name filter) →
    e.outcome = .ok report →
    ∃ count, report = .removed count ∧ RemovalReport e.before name filter count e.after

theorem accounts_perform (hs : s.Distinct) (c : Call) :
    Accounts ⟨s, c, (c.perform s).1, (c.perform s).2⟩ where
  counted report h := countsChange_perform hs (Prod.ext h rfl)
  failed error h := writes_of_failed (Prod.ext h rfl)
  updated name filter update report hc h := by
    subst hc
    obtain ⟨outcome, hrun, hreport⟩ := reporting_eq_ok.mp (Prod.ext h rfl)
    exact ⟨outcome, hreport, (report_of_updateMany hs hrun).1⟩
  removed name filter report hc h := by
    subst hc
    obtain ⟨count, hrun, hreport⟩ := reporting_eq_ok.mp (Prod.ext h rfl)
    exact ⟨count, hreport, (report_of_deleteMany hs hrun).1⟩

open scoped Classical in
/-- The count of writes goes up by one exactly where a successful call changed the documents. -/
theorem Accounts.writes_eq {e : Event} (h : e.Accounts) :
    e.after.writes = e.before.writes + if e.Changes then 1 else 0 := by
  cases houtcome : e.outcome with
  | error error =>
    have hchanges : ¬ e.Changes := fun hchanges => by
      obtain ⟨⟨report, hreport⟩, -⟩ := hchanges
      cases houtcome.symm.trans hreport
    rw [h.failed error houtcome, if_neg hchanges, Nat.add_zero]
  | ok report =>
    have hcounted := h.counted report houtcome
    by_cases hsame : e.before.SameDocuments e.after
    · rw [hcounted.unchanged hsame, if_neg fun hchanges => hchanges.2 hsame, Nat.add_zero]
    · rw [hcounted.changed hsame, if_pos ⟨⟨report, houtcome⟩, hsame⟩]

end Event

open scoped Classical in
/-- **The count of writes counts real changes.** In every run of calls on a store, a call that
succeeds raises the count by one if it changed the documents, up to the order of keys, and leaves it
alone if it did not. An update of many documents reports how many matched before the call and how
many have another content after it; a removal reports how many documents it removed, and keeps the
others as they are and in their order. So the count has gone up by the number of successful calls
that changed something. -/
theorem writes_count_changes {calls : List Call} (hs : s.Distinct)
    (hcalls : ∀ c ∈ calls, c.distinctKeys = true) :
    (∀ e ∈ s.history calls, e.Accounts) ∧
      (s.final calls).writes =
        s.writes + (s.history calls).countP fun e => decide e.Changes := by
  induction calls generalizing s with
  | nil => exact ⟨fun e he => absurd he List.not_mem_nil, rfl⟩
  | cons c calls ih =>
    obtain ⟨hc, hcalls⟩ := List.forall_mem_cons.mp hcalls
    have hfirst := Event.accounts_perform hs c
    obtain ⟨hrest, hwrites⟩ := ih (distinct_perform hc hs) hcalls
    refine ⟨List.forall_mem_cons.mpr ⟨hfirst, hrest⟩, ?_⟩
    have hstep : (c.perform s).2.writes = s.writes + _ := hfirst.writes_eq
    rw [history, List.countP_cons, final, List.foldl_cons, Nat.add_comm (List.countP _ _),
      ← Nat.add_assoc]
    simp only [decide_eq_true_eq]
    rw [← hstep]
    exact hwrites

end Store

/-! ## Some lockers -/

namespace LockerSample

open Store

def store : Store where ids := ⟨fun n => ⟨.ofNat 128 n⟩, 0⟩

def second : Json := .single "number" (.int 2)

/-- Sets a field that is removed again. -/
def touch : Json := .object [
  ("$set", .single "state.touched" (.bool true)), ("$unset", .single "state" (.string ""))]

def rent : Json := .single "$set" (.single "rented" (.bool true))

def calls : List Call :=
  [.write (.insertMany "lockers" [[("number", .int 1)], [("number", .int 2)]]),
    .write (.updateMany "lockers" second touch),
    .write (.updateMany "lockers" second rent),
    .write (.deleteMany "lockers" (.single "number" (.int 3))),
    .aggregate "lockers" []]

open scoped Classical in
/-- Of five calls on an empty store, two change something: the batch and the second update. -/
theorem lockers_count_changes :
    store.Distinct ∧ (∀ c ∈ calls, c.distinctKeys = true) ∧
    (∀ e ∈ store.history calls, e.Accounts) ∧ (store.final calls).writes = 2 ∧
    (store.history calls).countP (fun e => decide e.Changes) = 2 := by
  have hs : store.Distinct := forall_documents (by decide)
  have hcalls : ∀ c ∈ calls, c.distinctKeys = true := by decide
  have hfinal : (store.final calls).writes = 2 := by decide +kernel
  obtain ⟨haccounts, hwrites⟩ := writes_count_changes hs hcalls
  refine ⟨hs, hcalls, haccounts, hfinal, ?_⟩
  have hstart : store.writes = 0 := rfl
  omega

end LockerSample

end DocMapper
