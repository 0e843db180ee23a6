import DocMapper.Proofs.Keys

/-! # Inserting all or nothing

A document that is to be stored takes an identifier: its own one, in whatever form it comes, or the
next one of the supply. Preparing documents reads the collection and draws on the supply, and does
nothing else to the store (`prepare_cases`, `prepareAll_cases`), so wherever an insert or an upsert
fails, nothing is left behind that could be read; only the identifiers that were drawn by then are
gone. A batch that succeeds is appended as a whole, one document after the other. -/

namespace DocMapper.Store

/-! ## Taking identifiers -/

/-- The identifier that a document takes, and the supply after it. -/
inductive Takes (source : IdSource) (d : Document) : DocumentId → IdSource → Prop
  | own {v : Json} {id : DocumentId} : d.get? "_id" = some v → DocumentId.ofJson v = .ok id →
      Takes source d id source
  | drawn : d.get? "_id" = none → Takes source d source.draw.1 source.draw.2

/-- The identifiers that documents take one after the other, and the supply after them. -/
inductive TakesAll : IdSource → List Document → List DocumentId → IdSource → Prop
  | nil {source : IdSource} : TakesAll source [] [] source
  | cons {source between rest : IdSource} {d : Document} {docs : List Document} {id : DocumentId}
      {ids : List DocumentId} : Takes source d id between → TakesAll between docs ids rest →
      TakesAll source (d :: docs) (id :: ids) rest

/-- The documents as they are stored under identifiers. -/
def storedUnder (docs : List Document) (ids : List DocumentId) : List Document :=
  List.zipWith (fun d id => d.insert "_id" id.toJson) docs ids

variable {source rest : IdSource} {docs : List Document} {ids : List DocumentId}

theorem TakesAll.length_eq (h : TakesAll source docs ids rest) : ids.length = docs.length := by
  induction h with
  | nil => rfl
  | cons _ _ ih => rw [List.length_cons, List.length_cons, ih]

theorem length_storedUnder (h : ids.length = docs.length) :
    (storedUnder docs ids).length = docs.length := by
  rw [storedUnder, List.length_zipWith, h, Nat.min_self]

/-- Documents are stored with the identifiers that they are stored under. -/
theorem keys_storedUnder (h : ids.length = docs.length) :
    (storedUnder docs ids).map (·.get? "_id") = ids.map (some ·.toJson) := by
  induction docs generalizing ids with
  | nil =>
    rw [List.length_eq_zero_iff.mp h]
    rfl
  | cons d docs ih =>
    cases ids with
    | nil => cases h
    | cons id ids =>
      have hrest := ih (Nat.succ.inj h)
      rw [storedUnder] at hrest ⊢
      rw [List.zipWith_cons_cons, List.map_cons, List.map_cons, Document.get?_insert_self, hrest]

/-! ## Preparing documents -/

/-- Preparing a document only draws on the supply, whether it succeeds or fails. -/
theorem prepare_cases (d : Document) (beside : List Document) (s : Store) :
    ∃ ids, (prepare d beside s).2 = { s with ids } ∧
      ∀ id e, (prepare d beside s).1 = .ok (id, e) →
        Takes s.ids d id ids ∧ e = d.insert "_id" id.toJson := by
  -- With an identifier at hand, the supply is not touched any more.
  have hprepared : ∀ (id : DocumentId) (ids : IdSource), Takes s.ids d id ids →
      let after : Except Error (DocumentId × Document) × Store :=
        if beside.any (hasId id) then (.error (.database (.duplicateId id.canonical)), { s with ids })
        else (.ok (id, d.insert "_id" id.toJson), { s with ids })
      after.2 = { s with ids } ∧ ∀ id e, after.1 = .ok (id, e) →
        Takes s.ids d id ids ∧ e = d.insert "_id" id.toJson := by
    intro id ids htakes
    cases beside.any (hasId id) with
    | true => exact ⟨rfl, nofun⟩
    | false =>
      refine ⟨rfl, ?_⟩
      rintro _ _ ⟨⟩
      exact ⟨htakes, rfl⟩
  unfold prepare
  cases hkey : d.get? "_id" with
  | none => exact ⟨s.ids.draw.2, hprepared s.ids.draw.1 s.ids.draw.2 (.drawn hkey)⟩
  | some v =>
    refine ⟨s.ids, ?_⟩
    dsimp only
    cases hid : DocumentId.ofJson v with
    | error e => exact ⟨rfl, nofun⟩
    | ok id => exact hprepared id s.ids (.own hkey hid)

/-- Preparing several documents only draws on the supply, wherever it fails. -/
theorem prepareAll_cases (docs beside : List Document) (s : Store) :
    ∃ ids, (prepareAll beside docs s).2 = { s with ids } ∧
      ∀ prepared, (prepareAll beside docs s).1 = .ok prepared →
        TakesAll s.ids docs (prepared.map (·.1)) ids ∧
          prepared.map (·.2) = storedUnder docs (prepared.map (·.1)) := by
  induction docs generalizing beside s with
  | nil =>
    refine ⟨s.ids, rfl, ?_⟩
    rintro _ ⟨⟩
    exact ⟨.nil, rfl⟩
  | cons d docs ih =>
    obtain ⟨between, hstore, hfirst⟩ := prepare_cases d beside s
    rw [prepareAll_cons]
    cases hrun : prepare d beside s with
    | mk outcome t =>
      rw [hrun] at hstore hfirst
      obtain rfl : t = { s with ids := between } := hstore
      cases outcome with
      | error e => exact ⟨between, rfl, nofun⟩
      | ok first =>
        obtain ⟨id, e⟩ := first
        obtain ⟨htakes, rfl⟩ := hfirst id e rfl
        obtain ⟨rest, hstore', hothers⟩ :=
          ih (beside ++ [d.insert "_id" id.toJson]) { s with ids := between }
        dsimp only
        cases hrun' : prepareAll (beside ++ [d.insert "_id" id.toJson]) docs
            { s with ids := between } with
        | mk outcome t' =>
          rw [hrun'] at hstore' hothers
          obtain rfl : t' = { s with ids := rest } := hstore'
          cases outcome with
          | error e => exact ⟨rest, rfl, nofun⟩
          | ok others =>
            obtain ⟨htakesAll, hdocs⟩ := hothers others rfl
            refine ⟨rest, rfl, ?_⟩
            rintro _ ⟨⟩
            refine ⟨.cons htakes htakesAll, ?_⟩
            rw [List.map_cons, List.map_cons, hdocs]
            rfl

/-! ## Failing -/

variable {s t : Store} {name : String} {d : Document} {filter update : Json} {e : Error}

/-- What can be read of a store does not depend on its supply of identifiers. -/
theorem agrees_ids (s : Store) (ids : IdSource) : Agrees s { s with ids } := ⟨fun _ => rfl, rfl⟩

theorem agrees_of_insertOne_error (h : insertOne name d s = (.error e, t)) : Agrees s t := by
  obtain ⟨ids, hstore, -⟩ := prepare_cases d (s.documents name) s
  rw [insertOne] at h
  cases hrun : prepare d (s.documents name) s with
  | mk outcome s' =>
    rw [hrun] at h hstore
    obtain rfl : s' = { s with ids } := hstore
    cases outcome with
    | error e' =>
      cases h
      exact agrees_ids s ids
    | ok prepared => cases h

theorem agrees_of_insertMany_error (h : insertMany name docs s = (.error e, t)) : Agrees s t := by
  obtain ⟨ids, hstore, -⟩ := prepareAll_cases docs (s.documents name) s
  rw [insertMany] at h
  cases hrun : prepareAll (s.documents name) docs s with
  | mk outcome s' =>
    rw [hrun] at h hstore
    obtain rfl : s' = { s with ids } := hstore
    cases outcome with
    | error e' =>
      cases h
      exact agrees_ids s ids
    | ok prepared =>
      dsimp only at h
      split at h <;> cases h

/-- An upsert can fail while its update is read, while a document is looked for, and while the one
that is to be inserted is prepared. -/
theorem agrees_of_upsertOne_error (h : upsertOne name filter update s = (.error e, t)) :
    Agrees s t := by
  rw [upsertOne] at h
  cases hupdate : Update.ofJson update with
  | error fault =>
    rw [hupdate] at h
    cases h
    exact ⟨fun _ => rfl, rfl⟩
  | ok u =>
    simp only [hupdate] at h
    cases hfind : findMatch filter (s.documents name) with
    | error fault =>
      rw [hfind] at h
      cases h
      exact ⟨fun _ => rfl, rfl⟩
    | ok found =>
      cases found with
      | some i =>
        rw [hfind] at h
        cases h
      | none =>
        obtain ⟨ids, hstore, -⟩ := prepare_cases (u.inserted filter) (s.documents name) s
        simp only [hfind] at h
        cases hrun : prepare (u.inserted filter) (s.documents name) s with
        | mk outcome s' =>
          rw [hrun] at h hstore
          obtain rfl : s' = { s with ids } := hstore
          cases outcome with
          | error e' =>
            cases h
            exact agrees_ids s ids
          | ok prepared => cases h

/-! ## Succeeding -/

/-- A batch is appended to a collection: the documents take identifiers one after the other and are
put at the end in their order, nothing else is changed, and one write is counted. -/
structure Appends (s : Store) (name : String) (docs : List Document) (ids : List DocumentId)
    (t : Store) : Prop where
  taken : TakesAll s.ids docs ids t.ids
  documents : t.documents name = s.documents name ++ storedUnder docs ids
  others : ∀ other, other ≠ name → t.documents other = s.documents other
  writes : t.writes = s.writes + 1

/-- A document that was prepared is appended. -/
theorem appends_of_prepare {id : DocumentId} {stored : Document} {s' : Store}
    (h : prepare d (s.documents name) s = (.ok (id, stored), s')) :
    Appends s name [d] [id] ((s'.put name (s.documents name ++ [stored])).counted) := by
  obtain ⟨rest, hstore, hok⟩ := prepare_cases d (s.documents name) s
  rw [h] at hstore hok
  obtain rfl : s' = { s with ids := rest } := hstore
  obtain ⟨htaken, rfl⟩ := hok _ _ rfl
  refine ⟨.cons htaken .nil, ?_, fun other hne => ?_, rfl⟩
  · rw [documents_counted, documents_put_self]
    rfl
  · rw [documents_counted, documents_put_of_ne hne]
    rfl

theorem appends_of_insertOne {id : DocumentId} (h : insertOne name d s = (.ok id, t)) :
    Appends s name [d] [id] t := by
  obtain ⟨hdocs, -⟩ := prepare_spec d (s.documents name) s
  rw [insertOne] at h
  cases hrun : prepare d (s.documents name) s with
  | mk outcome s' =>
    rw [hrun] at h hdocs
    cases outcome with
    | error e' => cases h
    | ok prepared =>
      cases h
      rw [hdocs]
      exact appends_of_prepare hrun

/-- An upsert that finds no document appends the one that the filter and the update describe. -/
theorem appends_of_upsertOne {u : Update} (hu : Update.ofJson update = .ok u)
    (hnone : findMatch filter (s.documents name) = .ok none) {outcome : UpdateOutcome}
    (h : upsertOne name filter update s = (.ok outcome, t)) :
    ∃ id, Appends s name [u.inserted filter] [id] t := by
  simp only [upsertOne, hu, hnone] at h
  cases hrun : prepare (u.inserted filter) (s.documents name) s with
  | mk prepared s' =>
    rw [hrun] at h
    cases prepared with
    | error e => cases h
    | ok prepared =>
      cases h
      exact ⟨prepared.1, appends_of_prepare hrun⟩

/-- A document is inserted under an identifier that is not in use. -/
theorem unused_of_insertOne {id : DocumentId} (h : insertOne name d s = (.ok id, t)) :
    ∀ b ∈ s.documents name, hasId id b = false := by
  obtain ⟨-, hprepared⟩ := prepare_spec d (s.documents name) s
  rw [insertOne] at h
  cases hrun : prepare d (s.documents name) s with
  | mk outcome s' =>
    rw [hrun] at h hprepared
    cases outcome with
    | error e' => cases h
    | ok prepared =>
      cases h
      exact (hprepared _ _ rfl).2

theorem appends_of_insertMany (hdocs : docs ≠ [])
    (h : insertMany name docs s = (.ok ids, t)) : Appends s name docs ids t := by
  obtain ⟨rest, hstore, hok⟩ := prepareAll_cases docs (s.documents name) s
  rw [insertMany] at h
  cases hrun : prepareAll (s.documents name) docs s with
  | mk outcome s' =>
    rw [hrun] at h hstore hok
    obtain rfl : s' = { s with ids := rest } := hstore
    cases outcome with
    | error e' => cases h
    | ok prepared =>
      obtain ⟨htaken, hstored⟩ := hok prepared rfl
      cases prepared with
      | nil => exact absurd (List.length_eq_zero_iff.mp htaken.length_eq.symm) hdocs
      | cons first others =>
        cases h
        refine ⟨htaken, ?_, fun other hne => ?_, rfl⟩
        · rw [documents_counted, documents_put_self, hstored]
          rfl
        · rw [documents_counted, documents_put_of_ne hne]
          rfl

/-- A failing insert or upsert leaves every collection and the count of writes as they were. A batch
that is inserted is appended in its order, whether its documents bring their identifiers or not; the
identifiers that are given back are those under which they are stored, in the same order. -/
theorem inserts_all_or_nothing (s : Store) (name : String) :
    (∀ d e, (insertOne name d s).1 = .error e → Agrees s (insertOne name d s).2) ∧
    (∀ docs e, (insertMany name docs s).1 = .error e → Agrees s (insertMany name docs s).2) ∧
    (∀ filter update e, (upsertOne name filter update s).1 = .error e →
      Agrees s (upsertOne name filter update s).2) ∧
    ∀ docs ids, docs ≠ [] → (insertMany name docs s).1 = .ok ids →
      Appends s name docs ids (insertMany name docs s).2 ∧
        (storedUnder docs ids).length = docs.length ∧
        (storedUnder docs ids).map (·.get? "_id") = ids.map (some ·.toJson) := by
  refine ⟨fun d e h => agrees_of_insertOne_error (Prod.ext h rfl),
    fun docs e h => agrees_of_insertMany_error (Prod.ext h rfl),
    fun filter update e h => agrees_of_upsertOne_error (Prod.ext h rfl), ?_⟩
  intro docs ids hdocs h
  have happends := appends_of_insertMany hdocs (Prod.ext h rfl)
  have hlength := happends.taken.length_eq
  exact ⟨happends, length_storedUnder hlength, keys_storedUnder hlength⟩

end DocMapper.Store

/-! ## Some letters -/

namespace DocMapper.LetterSample

open Store

def source : IdSource := ⟨fun n => ⟨.ofNat 128 n⟩, 4⟩

/-- One letter is stored, under an identifier that the supply will never give. -/
def store : Store where
  collections := [("letters", [
    [("_id", .string "00000000-0000-4000-8000-000000000001"), ("to", .string "Ada")]])]
  ids := source

/-- The first letter brings an identifier in capitals without hyphens, the second one none, the
third one an identifier in an object. -/
def batch : List Document :=
  [[("_id", .string "ABCDEF00000040008000000000000001"), ("to", .string "Bea")],
    [("to", .string "Cyd")],
    [("_id", .single "$oid" (.string "00000000-0000-4000-8000-000000000002"))]]

/-- A batch that clashes with itself after an identifier has been drawn. -/
def clashing : List Document :=
  [[("to", .string "Dot")], [("_id", .string "00000000-0000-0000-0000-000000000004")]]

def batchIds : List DocumentId :=
  [⟨.ofNat 128 0xabcdef00000040008000000000000001⟩, ⟨.ofNat 128 4⟩,
    ⟨.ofNat 128 0x00000000000040008000000000000002⟩]

/-- A letter under the identifier of the one that is stored. -/
def taken : Document := [("_id", .string "00000000-0000-4000-8000-000000000001")]

/-- An update that would insert a letter under a malformed identifier. -/
def malformed : Json := .single "$setOnInsert" (.single "_id" (.string "no identifier"))

/-- The stored letter is not stored again, a batch that clashes with itself leaves nothing behind,
nor does an upsert whose document would come under a malformed identifier; a mixed batch is appended
as a whole. -/
theorem letters_all_or_nothing :
    Agrees store (insertOne "letters" taken store).2 ∧
      Agrees store (insertMany "letters" clashing store).2 ∧
      Agrees store (upsertOne "letters" (.single "to" (.string "Eve")) malformed store).2 ∧
      Appends store "letters" batch batchIds (insertMany "letters" batch store).2 := by
  obtain ⟨hone, hmany, hupsert, happend⟩ := inserts_all_or_nothing store "letters"
  have hrefused : (insertOne "letters" taken store).1.toOption = none := by decide +kernel
  have hclash : (insertMany "letters" clashing store).1.toOption = none := by decide +kernel
  have hmalformed : (upsertOne "letters" (.single "to" (.string "Eve")) malformed
      store).1.toOption.map (·.matched) = none := by decide +kernel
  have hstored : (insertMany "letters" batch store).1.toOption = some batchIds := by
    decide +kernel
  obtain ⟨e₁, he₁⟩ := toOption_eq_none.mp hrefused
  obtain ⟨e₂, he₂⟩ := toOption_eq_none.mp hclash
  obtain ⟨e₃, he₃⟩ := toOption_eq_none.mp (Option.map_eq_none_iff.mp hmalformed)
  have hok := toOption_eq_some.mp hstored
  exact ⟨hone taken e₁ he₁, hmany clashing e₂ he₂, hupsert _ malformed e₃ he₃,
    (happend batch batchIds (by decide) hok).1⟩

end DocMapper.LetterSample
