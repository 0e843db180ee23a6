import DocMapper.Proofs.Exclusion
import DocMapper.Proofs.Revision

/-! # Updates that are made again

Setting and removing paths may overlap in any way, replace one kind of value by another and empty
what was just made. Place by place all this is simple: an update **decides** what stands at some
places, whatever the document is, and leaves the others alone (`Update.exists_decides`). Changes of
this kind can follow each other (`Document.Decides.comp`), and making one again changes nothing,
since what it decides is there already (`Document.Decides.again`).

So an update that is made twice gives what it gave at first, and an upsert whose update keeps off the
fields of its filter finds, when it is repeated, the document that it left, and has nothing more to
do (`Store.upsertOne_again`). -/

namespace DocMapper

open Json (Place Node)

/-! ## Changes that decide what stands at some places -/

namespace Document

/-- A change of documents that puts at each place what it has decided to stand there, or leaves the
place alone. -/
structure Decides (what : Place → Option (Option Node)) (f : Document → Document) : Prop where
  distinct : ∀ d, (Json.object d).distinctKeys = true → (Json.object (f d)).distinctKeys = true
  nodes : ∀ d, (Json.object d).distinctKeys = true → ∀ s,
    (Json.object (f d)).nodeAt? s = (what s).getD ((Json.object d).nodeAt? s)

namespace Decides

variable {what what' : Place → Option (Option Node)} {f g : Document → Document} {d e : Document}

theorem id : Decides (fun _ => none) fun d => d := ⟨fun _ hd => hd, fun _ _ _ => rfl⟩

/-- Of two changes in a row, the later one decides first. -/
theorem comp (hg : Decides what' g) (hf : Decides what f) :
    Decides (fun s => (what' s).or (what s)) fun d => g (f d) where
  distinct d hd := hg.distinct _ (hf.distinct d hd)
  nodes d hd s := by
    rw [hg.nodes _ (hf.distinct d hd), hf.nodes d hd]
    cases what' s <;> rfl

theorem set (path : String) {v : Json} (hv : v.distinctKeys = true) :
    Decides (Path.decides (.ofString path) v) fun d => d.set path v where
  distinct _ hd := distinctKeys_setAt hd _ hv
  nodes d _ := nodeAt?_setAt d (Path.ofString_ne_nil path) v

theorem remove (path : String) :
    Decides (fun s => if Path.leadsTo (.ofString path) s.keys then some none else none)
      fun d => d.remove path where
  distinct d hd := Json.distinctKeys_removeAt (.object d) _ hd
  nodes d hd s := by
    have hremove := Json.nodeAt?_removeAt hd (Path.ofString_ne_nil path) s
    refine hremove.trans ?_
    split <;> rfl

/-- Where a document holds what a change made of some document, making the change leaves it. -/
theorem again (h : Decides what f) (hd : (Json.object d).distinctKeys = true)
    (he : (Json.object e).distinctKeys = true) {s : Place}
    (hs : (Json.object e).nodeAt? s = (Json.object (f d)).nodeAt? s) :
    (Json.object (f e)).nodeAt? s = (Json.object e).nodeAt? s := by
  rw [h.nodes e he, hs, h.nodes d hd]
  cases what s <;> rfl

end Decides

end Document

/-! ## Updates -/

namespace Update

variable {u : Update} {d : Document}

theorem exists_decides_setAll {values : Document} (h : ∀ e ∈ values, e.2.distinctKeys = true) :
    ∃ what, Document.Decides what fun d => setAll d values := by
  induction values with
  | nil => exact ⟨_, .id⟩
  | cons e values ih =>
    obtain ⟨he, hvalues⟩ := List.forall_mem_cons.mp h
    obtain ⟨what, hwhat⟩ := ih hvalues
    exact ⟨_, hwhat.comp (.set e.1 he)⟩

theorem exists_decides_removeAll (paths : List String) :
    ∃ what, Document.Decides what fun d => removeAll d paths := by
  induction paths with
  | nil => exact ⟨_, .id⟩
  | cons path paths ih =>
    obtain ⟨what, hwhat⟩ := ih
    exact ⟨_, hwhat.comp (.remove path)⟩

/-- **An update decides what stands at some places and leaves the others alone.** -/
theorem exists_decides (hset : (Json.object u.set).distinctKeys = true) :
    ∃ what, Document.Decides what u.apply := by
  obtain ⟨-, hvalues⟩ := Json.distinctKeys_object.mp hset
  obtain ⟨whatSet, hwhatSet⟩ := exists_decides_setAll hvalues
  obtain ⟨whatRemoved, hwhatRemoved⟩ := exists_decides_removeAll u.unset
  exact ⟨_, hwhatRemoved.comp hwhatSet⟩

/-- What an update made of a document, it leaves as it is, place by place. -/
theorem nodeAt?_apply_apply (hset : (Json.object u.set).distinctKeys = true)
    (hd : (Json.object d).distinctKeys = true) (s : Place) :
    (Json.object (u.apply (u.apply d))).nodeAt? s = (Json.object (u.apply d)).nodeAt? s := by
  obtain ⟨what, hwhat⟩ := exists_decides hset
  exact hwhat.again hd (hwhat.distinct d hd) rfl

theorem distinctKeys_apply (hset : (Json.object u.set).distinctKeys = true)
    (hd : (Json.object d).distinctKeys = true) :
    (Json.object (u.apply d)).distinctKeys = true := by
  obtain ⟨what, hwhat⟩ := exists_decides hset
  exact hwhat.distinct d hd

/-- An update that keeps off a field leaves what it made of a document, even if that field was given
another value in the meantime. -/
theorem same_apply_insert (hset : (Json.object u.set).distinctKeys = true)
    (hd : (Json.object d).distinctKeys = true) {f : String} {v : Json}
    (hv : v.distinctKeys = true) (hpaths : ∀ path ∈ u.set.keys ++ u.unset, Path.head path ≠ f) :
    ((u.apply d).insert f v).same (u.apply ((u.apply d).insert f v)) = true := by
  obtain ⟨what, hwhat⟩ := exists_decides hset
  obtain ⟨hsets, hunsets⟩ := List.forall_mem_append.mp hpaths
  have hmade := Json.distinctKeys_insert (hwhat.distinct d hd) f hv
  have hunique := (Json.distinctKeys_object.mp hmade).1
  refine Json.same_of_nodeAt? (.object _) hmade (hwhat.distinct _ hmade) fun s => Eq.symm ?_
  -- The field is none of those that the update decides, and elsewhere its own result stands.
  match s with
  | [] => rfl
  | .item _ :: _ => rfl
  | .key name :: s =>
    by_cases hname : f = name
    · subst hname
      rw [Json.nodeAt?_key, Json.nodeAt?_key, get?_apply_of_head_ne hunique hsets hunsets]
    · refine hwhat.again hd hmade ?_
      rw [Json.nodeAt?_key, Json.nodeAt?_key, Document.get?_insert_of_ne hname]

/-- All paths that an update may set or remove. -/
def paths (u : Update) : List String := u.set.keys ++ u.unset ++ u.setOnInsert.keys

/-- The values of an update without repeated keys have none. -/
theorem distinctKeys_of_ofJson {update : Json} (hupdate : update.distinctKeys = true)
    (hu : ofJson update = .ok u) : (Json.object u.set).distinctKeys = true ∧
      (Json.object u.setOnInsert).distinctKeys = true := by
  have hpart : ∀ {fields entries : Document} {operator : String},
      (∀ e ∈ fields, e.2.distinctKeys = true) → part fields operator = .ok entries →
      (Json.object entries).distinctKeys = true := by
    intro fields entries operator hfields h
    rw [part] at h
    split at h
    · cases h
      rfl
    · next found hget =>
      cases h
      exact hfields _ (Document.mem_of_get? hget)
    · cases h
  cases update with
  | object fields =>
    obtain ⟨-, hfields⟩ := Json.distinctKeys_object.mp hupdate
    rw [ofJson] at hu
    split at hu
    · cases hu
    · obtain ⟨set, hset, hu⟩ := bind_eq_ok.mp hu
      obtain ⟨unset, -, hu⟩ := bind_eq_ok.mp hu
      obtain ⟨setOnInsert, hsetOnInsert, hu⟩ := bind_eq_ok.mp hu
      cases hu
      exact ⟨hpart hfields hset, hpart hfields hsetOnInsert⟩
  | _ => cases hu

theorem distinctKeys_fixedValue? {v w : Json} (hv : v.distinctKeys = true)
    (h : fixedValue? v = some w) : w.distinctKeys = true := by
  cases v with
  | object fields =>
    rw [fixedValue?] at h
    split at h
    · exact (Json.distinctKeys_object.mp hv).2 _ (Document.mem_of_get? h)
    · cases h
      exact hv
  | _ =>
    cases h
    exact hv

theorem distinctKeys_seedEntry {e : String × Json} (hd : (Json.object d).distinctKeys = true)
    (he : e.2.distinctKeys = true) : (Json.object (seedEntry d e)).distinctKeys = true := by
  rw [seedEntry]
  split
  · exact hd
  · split
    · next v hv => exact Document.distinctKeys_setAt hd _ (distinctKeys_fixedValue? he hv)
    · exact hd

/-- A filter without repeated keys describes a document without any. -/
theorem distinctKeys_seed {filter : Json} (h : filter.distinctKeys = true) :
    (Json.object (seed filter)).distinctKeys = true := by
  cases filter with
  | object entries =>
    obtain ⟨-, hentries⟩ := Json.distinctKeys_object.mp h
    exact List.foldlRecOn (motive := fun d => (Json.object d).distinctKeys = true) entries seedEntry
      rfl fun d hd e he => distinctKeys_seedEntry hd (hentries e he)
  | _ => rfl

/-- What is inserted has no repeated keys if neither the filter nor the update has any. -/
theorem distinctKeys_inserted {filter update : Json} (hfilter : filter.distinctKeys = true)
    (hupdate : update.distinctKeys = true) (hu : ofJson update = .ok u) :
    (Json.object (u.inserted filter)).distinctKeys = true := by
  obtain ⟨hset, hinsert⟩ := distinctKeys_of_ofJson hupdate hu
  obtain ⟨what, hwhat⟩ := exists_decides_setAll (Json.distinctKeys_object.mp hinsert).2
  exact distinctKeys_apply hset (hwhat.distinct _ (distinctKeys_seed hfilter))

end Update

/-! ## Filters of fields -/

/-- A filter that asks plain fields other than the identifier for scalar values. -/
structure AsksFields (entries : Document) : Prop where
  unique : entries.Unique
  plain : ∀ key ∈ entries.keys, IsPlain key
  notId : "_id" ∉ entries.keys
  scalar : ∀ e ∈ entries, e.2.isScalar = true

namespace AsksFields

variable {entries d e : Document} {u : Update}

theorem accepts (h : AsksFields entries) (d : Document) :
    Filter.accepts d (.object entries) =
      .ok (entries.all fun e => Filter.equals d e.1 e.2) := by
  refine Filter.accepts_of_conditions (fun e he => ?_) fun e he => ?_
  · exact (h.plain _ (Document.mem_keys_of_mem he)).noDollar
  · exact Filter.conditionHolds_of_scalar (h.scalar e he) d e.1

/-- Whether a document matches depends on what it holds in the fields of the filter. -/
theorem accepts_congr (h : AsksFields entries)
    (hget : ∀ key ∈ entries.keys, e.get? key = d.get? key) :
    Filter.accepts e (.object entries) = Filter.accepts d (.object entries) := by
  rw [h.accepts, h.accepts, Except.ok.injEq, Bool.eq_iff_iff, List.all_eq_true, List.all_eq_true]
  refine forall₂_congr fun entry hentry => ?_
  have hkey := Document.mem_keys_of_mem hentry
  rw [Filter.equals_of_get?_eq (h.plain _ hkey).field (hget _ hkey)]

/-- A document that holds what the filter asks for matches it. -/
theorem accepts_of_get? (h : AsksFields entries)
    (hget : ∀ entry ∈ entries, d.get? entry.1 = some entry.2) :
    Filter.accepts d (.object entries) = .ok true := by
  rw [h.accepts, Except.ok.injEq, List.all_eq_true]
  intro entry hentry
  have hfield := (h.plain _ (Document.mem_keys_of_mem hentry)).field
  exact Filter.equals_of_get?_equals hfield (hget entry hentry) (Json.equals_self entry.2)

theorem distinctKeys (h : AsksFields entries) : (Json.object entries).distinctKeys = true := by
  refine Json.distinctKeys_object.mpr ⟨h.unique, fun e he => ?_⟩
  have hscalar := h.scalar e he
  cases hv : e.2 <;> first | rfl | rw [hv] at hscalar; cases hscalar

end AsksFields

/-! ## Upserts -/

namespace Store

variable {name : String} {filter update : Json} {s t : Store} {u : Update} {entries d : Document}
  {before after : List Document}

/-- An upsert that succeeds either updates the first document that matches, or appends the one that
the filter and the update describe because none does. -/
theorem upsertOne_cases (hu : Update.ofJson update = .ok u) {outcome : UpdateOutcome}
    (h : upsertOne name filter update s = (.ok outcome, t)) :
    (∃ before d after, s.documents name = before ++ d :: after ∧
      (∀ b ∈ before, Filter.accepts b filter = .ok false) ∧
      Filter.accepts d filter = .ok true ∧
      t.documents = (s.put name (before ++ u.apply d :: after)).documents) ∨
    (∀ d ∈ s.documents name, Filter.accepts d filter = .ok false) ∧
      ∃ id : DocumentId, t.documents = (s.put name
        (s.documents name ++ [(u.inserted filter).insert "_id" id.toJson])).documents := by
  cases hfind : findMatch filter (s.documents name) with
  | error fault => simp [upsertOne, hu, hfind] at h
  | ok found =>
    cases found with
    | some i =>
      obtain ⟨before, d, after, hdocs, -, hbefore, hd⟩ := exists_split_of_findMatch hfind
      rw [upsertOne_first hu hdocs hbefore hd] at h
      cases h
      exact .inl ⟨before, d, after, hdocs, hbefore, hd, documents_countedIf _ _⟩
    | none =>
      have hnone := accepts_of_findMatch hfind
      obtain ⟨id, -, hdocs⟩ := upsertOne_appends hu hnone h
      exact .inr ⟨hnone, id, hdocs⟩

/-- A store with one document in the place of another one that is the same has the same contents. -/
theorem SameContents.of_same {e : Document}
    (hs : ∀ name, ∀ d ∈ s.documents name, d.same d = true)
    (hdocs : s.documents name = before ++ d :: after) (h : d.same e = true) :
    s.SameContents (s.put name (before ++ e :: after)) := by
  refine ⟨(sameDocuments_put_iff hs (documents_put_documents s name).symm rfl).mpr ?_, rfl⟩
  rw [hdocs]
  exact (forall₂_replace_iff (hdocs ▸ hs name)).mpr h

/-- **An upsert that finds what it left has nothing to do.** -/
theorem upsertOne_again (hu : Update.ofJson update = .ok u)
    (hs : ∀ name, ∀ d ∈ s.documents name, d.same d = true)
    (hdocs : s.documents name = before ++ d :: after)
    (hbefore : ∀ b ∈ before, Filter.accepts b filter = .ok false)
    (hd : Filter.accepts d filter = .ok true) (hsame : d.same (u.apply d) = true) :
    ∃ t, upsertOne name filter update s = (.ok { matched := 1 }, t) ∧ s.SameContents t ∧
      t.ids = s.ids := by
  have hchanges : u.changes d = false := by rw [Update.changes, hsame, Bool.not_true]
  refine ⟨s.put name (before ++ u.apply d :: after), ?_, .of_same hs hdocs hsame, rfl⟩
  rw [upsertOne_first hu hdocs hbefore hd, hchanges]
  rfl

/-- No document of a store has a key twice, at any depth. -/
def Distinct (s : Store) : Prop :=
  ∀ name, ∀ d ∈ s.documents name, (Json.object d).distinctKeys = true

theorem Distinct.same (h : s.Distinct) : ∀ name, ∀ d ∈ s.documents name, d.same d = true :=
  fun name d hd => Json.same_self (.object d) (h name d hd)

theorem Distinct.of_documents (h : s.Distinct) (ht : t.documents = s.documents) : t.Distinct :=
  fun name => congrFun ht name ▸ h name

theorem Distinct.of_put {docs : List Document} (h : s.Distinct)
    (hdocs : ∀ d ∈ docs, (Json.object d).distinctKeys = true)
    (ht : t.documents = (s.put name docs).documents) : t.Distinct := by
  intro other
  rw [ht]
  by_cases hother : other = name
  · subst hother
    rw [documents_put_self]
    exact hdocs
  · rw [documents_put_of_ne hother]
    exact h other

/-- A store in which an upsert finds a document that its update would leave as it is. -/
structure Settled (s : Store) (name : String) (filter : Json) (u : Update) : Prop where
  distinct : s.Distinct
  found : ∃ before d after, s.documents name = before ++ d :: after ∧
    (∀ b ∈ before, Filter.accepts b filter = .ok false) ∧
    Filter.accepts d filter = .ok true ∧ d.same (u.apply d) = true

end Store

/-- No path of an update starts with the identifier or with a field of a filter. -/
def Update.KeepsOff (u : Update) (entries : Document) : Prop :=
  ∀ path ∈ u.paths, Path.head path ≠ "_id" ∧ Path.head path ∉ entries.keys

instance (u : Update) (entries : Document) : Decidable (u.KeepsOff entries) :=
  inferInstanceAs
    (Decidable (∀ path ∈ u.paths, Path.head path ≠ "_id" ∧ Path.head path ∉ entries.keys))

namespace Update.KeepsOff

variable {u : Update} {entries d : Document}

theorem head_ne_id (h : u.KeepsOff entries) :
    ∀ path ∈ u.set.keys ++ u.unset, Path.head path ≠ "_id" :=
  fun path hpath => (h path (List.mem_append_left _ hpath)).1

theorem get?_apply (h : u.KeepsOff entries) (hd : d.Unique) {key : String}
    (hkey : key ∈ entries.keys) : (u.apply d).get? key = d.get? key := by
  have hne : ∀ path ∈ u.set.keys ++ u.unset, Path.head path ≠ key :=
    fun path hpath heq => (h path (List.mem_append_left _ hpath)).2 (heq ▸ hkey)
  obtain ⟨hsets, hunsets⟩ := List.forall_mem_append.mp hne
  exact get?_apply_of_head_ne hd hsets hunsets

theorem get?_setOnInsert (h : u.KeepsOff entries) {key : String} (hkey : key ∈ entries.keys)
    (d : Document) : (setAll d u.setOnInsert).get? key = d.get? key :=
  get?_setAll_of_head_ne
    (fun path hpath heq => (h path (List.mem_append_right _ hpath)).2 (heq ▸ hkey)) d

end Update.KeepsOff

namespace Store

variable {name : String} {s t : Store} {u : Update} {entries d : Document}
  {before after : List Document}

/-- An upsert that updates a document settles. -/
theorem settled_of_found (hfilter : AsksFields entries) (hpaths : u.KeepsOff entries)
    (hset : (Json.object u.set).distinctKeys = true) (hs : s.Distinct)
    (hdocs : s.documents name = before ++ d :: after)
    (hbefore : ∀ b ∈ before, Filter.accepts b (.object entries) = .ok false)
    (hd : Filter.accepts d (.object entries) = .ok true)
    (ht : t.documents = (s.put name (before ++ u.apply d :: after)).documents) :
    t.Settled name (.object entries) u := by
  obtain ⟨hbeforeDistinct, hrest⟩ := List.forall_mem_append.mp (hdocs ▸ hs name)
  obtain ⟨hdistinct, hafter⟩ := List.forall_mem_cons.mp hrest
  have hunique := (Json.distinctKeys_object.mp hdistinct).1
  have happly := Update.distinctKeys_apply hset hdistinct
  refine ⟨hs.of_put ?_ ht, before, u.apply d, after, ?_, hbefore, ?_, ?_⟩
  · exact List.forall_mem_append.mpr ⟨hbeforeDistinct, List.forall_mem_cons.mpr ⟨happly, hafter⟩⟩
  · rw [ht, documents_put_self]
  · rw [hfilter.accepts_congr fun key hkey => hpaths.get?_apply hunique hkey, hd]
  · refine Json.same_of_nodeAt? (.object _) happly (Update.distinctKeys_apply hset happly) ?_
    exact fun place => (Update.nodeAt?_apply_apply hset hdistinct place).symm

/-- An upsert that inserts a document settles. -/
theorem settled_of_inserted (hfilter : AsksFields entries) (hpaths : u.KeepsOff entries)
    (hset : (Json.object u.set).distinctKeys = true)
    (hinsert : (Json.object u.setOnInsert).distinctKeys = true) (hs : s.Distinct)
    (hnone : ∀ d ∈ s.documents name, Filter.accepts d (.object entries) = .ok false)
    (id : DocumentId)
    (ht : t.documents = (s.put name
      (s.documents name ++ [(u.inserted (.object entries)).insert "_id" id.toJson])).documents) :
    t.Settled name (.object entries) u := by
  have hinserted : u.inserted (.object entries) =
      u.apply (Update.setAll entries u.setOnInsert) := by
    rw [Update.inserted, Update.seed_eq hfilter.plain hfilter.scalar hfilter.unique]
  rw [hinserted] at ht
  obtain ⟨what, hwhat⟩ :=
    Update.exists_decides_setAll (Json.distinctKeys_object.mp hinsert).2
  have hbase := hwhat.distinct entries hfilter.distinctKeys
  have hid : id.toJson.distinctKeys = true := rfl
  have hdistinct := Json.distinctKeys_insert (Update.distinctKeys_apply hset hbase) "_id" hid
  refine ⟨hs.of_put ?_ ht, _, _, [], ?_, hnone, ?_,
    Update.same_apply_insert hset hbase hid hpaths.head_ne_id⟩
  · exact List.forall_mem_append.mpr ⟨hs name, List.forall_mem_singleton.mpr hdistinct⟩
  · rw [ht, documents_put_self]
  · refine hfilter.accepts_of_get? fun entry hentry => ?_
    have hkey := Document.mem_keys_of_mem hentry
    have hne : "_id" ≠ entry.1 := fun heq => hfilter.notId (heq ▸ hkey)
    rw [Document.get?_insert_of_ne hne,
      hpaths.get?_apply (Json.distinctKeys_object.mp hbase).1 hkey,
      hpaths.get?_setOnInsert hkey, Document.get?_eq_some_iff hfilter.unique]
    exact hentry

/-- **Updates are idempotent.** Making an update twice gives what making it once gives, up to the
order of keys, and the second time reports no change. So an upsert on plain fields whose update
keeps off these fields and the identifier, once it has succeeded, can be repeated: it then finds one
document, changes none, inserts none, counts no write and leaves the store as it is. -/
theorem updates_idempotent :
    (∀ (u : Update) (d : Document), (Json.object u.set).distinctKeys = true →
      (Json.object d).distinctKeys = true →
      (u.apply (u.apply d)).same (u.apply d) = true ∧ u.changes (u.apply d) = false) ∧
    ∀ (s t : Store) (name : String) (entries : Document) (update : Json) (u : Update)
      (outcome : UpdateOutcome), s.Distinct → AsksFields entries → update.distinctKeys = true →
      Update.ofJson update = .ok u → u.KeepsOff entries →
      upsertOne name (.object entries) update s = (.ok outcome, t) →
      ∃ t', upsertOne name (.object entries) update t =
          (.ok { matched := 1, modified := 0, upserted := none }, t') ∧
        t.SameContents t' ∧ t'.ids = t.ids := by
  constructor
  · intro u d hset hd
    have happly := Update.distinctKeys_apply hset hd
    have hagain := Update.distinctKeys_apply hset happly
    have hnodes := Update.nodeAt?_apply_apply hset hd
    refine ⟨Json.same_of_nodeAt? (.object _) hagain happly hnodes, ?_⟩
    have hsame : (u.apply d).same (u.apply (u.apply d)) = true :=
      Json.same_of_nodeAt? (.object _) happly hagain fun s => (hnodes s).symm
    rw [Update.changes, hsame, Bool.not_true]
  · intro s t name entries update u outcome hs hfilter hupdate hu hpaths h
    obtain ⟨hset, hinsert⟩ := Update.distinctKeys_of_ofJson hupdate hu
    have hsettled : t.Settled name (.object entries) u := by
      -- The update changes no field of the filter, and the seed of a new document has them all.
      rcases upsertOne_cases hu h with ⟨before, d, after, hdocs, hbefore, hd, ht⟩ | ⟨hnone, id, ht⟩
      · exact settled_of_found hfilter hpaths hset hs hdocs hbefore hd ht
      · exact settled_of_inserted hfilter hpaths hset hinsert hs hnone id ht
    obtain ⟨ht, before, d, after, hdocs, hbefore, hd, hsame⟩ := hsettled
    exact upsertOne_again hu ht.same hdocs hbefore hd hsame

end Store

namespace SeatSample

open Store

def store : Store where ids := ⟨fun _ => ⟨0⟩, 0⟩

def seat : Document := [("room", .string "blue"), ("seat", .int 7)]

/-- Takes a seat. The paths overlap, and one of them is removed again. -/
def take : Json := .object [
  ("$set", .object [("guest.name", .string "Ann"), ("guest", .array [.object [("age", .int 3)]]),
    ("guest.age", .int 30), ("guest.code", .string "x")]),
  ("$unset", .object [("guest.code", .string "")]),
  ("$setOnInsert", .object [("visits", .int 1)])]

def taking : Update where
  set := [("guest.name", .string "Ann"), ("guest", .array [.object [("age", .int 3)]]),
    ("guest.age", .int 30), ("guest.code", .string "x")]
  unset := ["guest.code"]
  setOnInsert := [("visits", .int 1)]

def taken : Document :=
  [("room", .string "blue"), ("seat", .int 7), ("visits", .int 1),
    ("guest", .object [("age", .int 30)]),
    ("_id", .string "00000000-0000-0000-0000-000000000000")]

def after : Store where
  collections := [("seats", [taken])]
  writes := 1
  ids := ⟨fun _ => ⟨0⟩, 1⟩

theorem asksFields_seat : AsksFields seat := by
  refine ⟨by decide, ?_, by decide, by decide⟩
  intro key hkey
  have hplain : ∀ key ∈ seat.keys, IsField key ∧ startsDollar key = false := by decide +kernel
  exact ⟨(hplain key hkey).1, (hplain key hkey).2⟩

theorem seat_taken_once :
    ((Json.object taking.set).distinctKeys = true ∧ (Json.object taken).distinctKeys = true ∧
      (taking.apply (taking.apply taken)).same (taking.apply taken) = true ∧
      taking.changes (taking.apply taken) = false) ∧
    store.Distinct ∧ AsksFields seat ∧ take.distinctKeys = true ∧
      Update.ofJson take = .ok taking ∧ taking.KeepsOff seat ∧
      upsertOne "seats" (.object seat) take store = (.ok { upserted := some ⟨0⟩ }, after) ∧
      ∃ t', upsertOne "seats" (.object seat) take after = (.ok { matched := 1 }, t') ∧
        after.SameContents t' ∧ t'.ids = after.ids := by
  have hset : (Json.object taking.set).distinctKeys = true := by decide
  have htaken : (Json.object taken).distinctKeys = true := by decide
  have hs : store.Distinct := forall_documents (by decide)
  have htake : take.distinctKeys = true := by decide
  have hu : Update.ofJson take = .ok taking := rfl
  have hpaths : taking.KeepsOff seat := by decide +kernel
  have hrun : upsertOne "seats" (.object seat) take store =
      (.ok { upserted := some ⟨0⟩ }, after) := by
    have hdocs : store.documents "seats" = [] := rfl
    have hid : (taking.inserted (.object seat)).get? "_id" = none := by cbv
    have hnew : (taking.inserted (.object seat)).insert "_id" (DocumentId.toJson ⟨0⟩) = taken := by
      cbv
    have hprepare : prepare (taking.inserted (.object seat)) [] store =
        (.ok (⟨0⟩, taken), { store with ids := after.ids }) := by
      rw [prepare_drawn hid (fun _ he => absurd he List.not_mem_nil), ← hnew]
      rfl
    rw [upsertOne]
    simp only [hu, hdocs, findMatch, hprepare]
    rfl
  obtain ⟨htwice, hagain⟩ := updates_idempotent
  exact ⟨⟨hset, htaken, htwice taking taken hset htaken⟩, hs, asksFields_seat, htake, hu, hpaths,
    hrun, hagain store after "seats" seat take taking _ hs asksFields_seat htake hu hpaths hrun⟩

end SeatSample

end DocMapper
