import DocMapper.Entity.Basic
import DocMapper.Proofs.Pipeline
import DocMapper.Proofs.Upsert

/-! # What setting a path leaves alone

Two paths are **apart** if neither leads to a place on the way to the other. After a path was set,
reading it gives the value that was set, and paths apart from it read as before, with one exception:
setting knows no arrays. An array on the way that both paths have in common is replaced by an object,
and what reading found in its items is gone (`Document.at?_setAt_eq_iff`).

What holds of one path holds of several that are set one after the other
(`Update.setAll_keeps`): setting puts no array above a path apart from it
(`Document.ArrayAbove.of_setAt`). So it holds of the updates and stages that set paths. -/

namespace DocMapper

/-! ## Paths that are apart -/

namespace Path

/-- Neither of two paths leads to a place on the way to the other. -/
def Apart (p q : Path) : Prop := leadsTo p q = false ∧ leadsTo q p = false

instance (p q : Path) : Decidable (Apart p q) :=
  inferInstanceAs (Decidable (leadsTo p q = false ∧ leadsTo q p = false))

variable {p q : Path} {key other : String}

theorem leadsTo_cons (key other : String) (p q : Path) :
    leadsTo (key :: p) (other :: q) = (key == other && leadsTo p q) := rfl

theorem leadsTo_cons_self (key : String) (p q : Path) :
    leadsTo (key :: p) (key :: q) = leadsTo p q := by
  rw [leadsTo_cons, beq_self_eq_true, Bool.true_and]

theorem leadsTo_trans {p q r : Path} (hpq : leadsTo p q = true) (hqr : leadsTo q r = true) :
    leadsTo p r = true :=
  List.isPrefixOf_iff_prefix.mpr
    ((List.isPrefixOf_iff_prefix.mp hpq).trans (List.isPrefixOf_iff_prefix.mp hqr))

theorem not_apart_nil_left : ¬ Apart [] q := by
  rintro ⟨h, -⟩
  cases h

theorem not_apart_nil_right : ¬ Apart p [] := by
  rintro ⟨-, h⟩
  cases h

theorem apart_cons_self : Apart (key :: p) (key :: q) ↔ Apart p q := by
  rw [Apart, leadsTo_cons_self, leadsTo_cons_self, Apart]

end Path

open Entity (follow)

theorem Entity.follow_cons (d : Document) (key : String) (rest : Path) :
    follow (.object d) (key :: rest) = (d.get? key).bind (follow · rest) := rfl

namespace Document

variable {d : Document} {p q r : Path} {key : String} {v : Json} {items : List Json}

/-! ## Arrays on the way -/

/-- An array stands on the way that two paths have in common: the keys of both lead to it, through
objects only. -/
def ArrayAbove (d : Document) (p q : Path) : Prop :=
  ∃ r items, Path.leadsTo r p = true ∧ Path.leadsTo r q = true ∧
    follow (.object d) r = some (.array items)

theorem not_arrayAbove_nil : ¬ ArrayAbove [] p q := by
  rintro ⟨r, items, -, -, hr⟩
  cases r <;> cases hr

/-- Nothing stands above paths that part at once. -/
theorem not_arrayAbove_of_ne {other : String} (h : key ≠ other) :
    ¬ d.ArrayAbove (key :: p) (other :: q) := by
  rintro ⟨r, items, hp, hq, hr⟩
  cases r with
  | nil => cases hr
  | cons k r =>
    rw [Path.leadsTo_cons, Bool.and_eq_true, beq_iff_eq] at hp hq
    exact h (hp.1.symm.trans hq.1)

/-- What stands above two paths that start with the same key stands under this key. -/
theorem arrayAbove_cons_self : d.ArrayAbove (key :: p) (key :: q) ↔
    ∃ v, d.get? key = some v ∧ ∃ r items, Path.leadsTo r p = true ∧ Path.leadsTo r q = true ∧
      follow v r = some (.array items) := by
  constructor
  · rintro ⟨r, items, hp, hq, hr⟩
    cases r with
    | nil => cases hr
    | cons k r =>
      rw [Path.leadsTo_cons, Bool.and_eq_true, beq_iff_eq] at hp hq
      obtain ⟨rfl, hp⟩ := hp
      rw [Entity.follow_cons] at hr
      obtain ⟨v, hv, hr⟩ := Option.bind_eq_some_iff.mp hr
      exact ⟨v, hv, r, items, hp, hq.2, hr⟩
  · rintro ⟨v, hv, r, items, hp, hq, hr⟩
    refine ⟨key :: r, items, ?_, ?_, ?_⟩
    · rw [Path.leadsTo_cons_self, hp]
    · rw [Path.leadsTo_cons_self, hq]
    · rw [Entity.follow_cons, hv, Option.bind_some, hr]

theorem arrayAbove_under {fields : Document} (h : d.get? key = some (.object fields)) :
    d.ArrayAbove (key :: p) (key :: q) ↔ fields.ArrayAbove p q := by
  rw [arrayAbove_cons_self]
  constructor
  · rintro ⟨v, hv, hr⟩
    cases h.symm.trans hv
    exact hr
  · exact fun hr => ⟨.object fields, h, hr⟩

/-! ## Setting one path -/

/-- Under its first key, a path that is set leaves the value if it ends there, and else an object
in which the rest of it was set. -/
theorem get?_setAt_cons (d : Document) (key : String) (rest : Path) (v : Json) :
    (d.setAt (key :: rest) v).get? key =
      some (if rest = [] then v else .object ((d.child key).setAt rest v)) := by
  cases rest with
  | nil => exact get?_insert_self d key v
  | cons next rest => exact get?_insert_self d key _

theorem get?_setAt_of_ne {other : String} (h : key ≠ other) (d : Document) (rest : Path)
    (v : Json) : (d.setAt (key :: rest) v).get? other = d.get? other := by
  cases rest with
  | nil => exact get?_insert_of_ne h d v
  | cons next rest => exact get?_insert_of_ne h d _

theorem get?_object_cons (d : Document) (key : String) (rest : Path) :
    (Json.object d).get? (key :: rest) = (d.get? key).bind (·.get? rest) := by
  rw [Json.get?, getEntry?_eq]

/-- A path that was set reads as the value that was set. -/
theorem get?_setAt_self (d : Document) (hp : p ≠ []) (v : Json) :
    (Json.object (d.setAt p v)).get? p = some v := by
  induction p generalizing d with
  | nil => exact absurd rfl hp
  | cons key rest ih =>
    rw [get?_object_cons, get?_setAt_cons, Option.bind_some]
    by_cases hrest : rest = []
    · rw [if_pos hrest, hrest, Json.get?_nil]
    · rw [if_neg hrest, ih (d.child key) hrest]

/-- **Setting a path keeps what is apart from it, but for what is in arrays on the way.** -/
theorem get?_setAt_eq_iff (d : Document) (h : Path.Apart p q) (v : Json) :
    (Json.object (d.setAt p v)).get? q = (Json.object d).get? q ↔ ¬ d.ArrayAbove p q := by
  induction p generalizing d q with
  | nil => exact absurd h Path.not_apart_nil_left
  | cons key rest ih =>
    cases q with
    | nil => exact absurd h Path.not_apart_nil_right
    | cons other rest' =>
      rw [get?_object_cons, get?_object_cons]
      by_cases hkey : key = other
      · subst hkey
        have happart := Path.apart_cons_self.mp h
        have hrest : rest ≠ [] := by
          rintro rfl
          exact Path.not_apart_nil_left happart
        obtain ⟨next, more, rfl⟩ : ∃ next more, rest' = next :: more :=
          List.exists_cons_of_ne_nil (by rintro rfl; exact Path.not_apart_nil_right happart)
        -- What was no object under the key is an empty one before the rest is set in it.
        have hempty : (Json.object (setAt [] rest v)).get? (next :: more) = none := by
          rw [(ih [] happart).mpr not_arrayAbove_nil, get?_object_cons]
          rfl
        rw [get?_setAt_cons, if_neg hrest, Option.bind_some, child]
        cases hget : d.get? key with
        | none =>
          rw [arrayAbove_cons_self]
          refine iff_of_true hempty ?_
          rintro ⟨w, hw, -⟩
          cases hget.symm.trans hw
        | some found =>
          cases found with
          | object fields =>
            rw [Option.bind_some, arrayAbove_under hget]
            exact ih fields happart
          | array items =>
            have hitems : (Json.array items).get? (next :: more) =
                some (.array (Json.collect items next more)) := by rw [Json.get?]
            rw [Option.bind_some, hitems, arrayAbove_cons_self]
            refine iff_of_false (fun heq => ?_) (not_not_intro ?_)
            · cases hempty.symm.trans heq
            · exact ⟨.array items, hget, [], items, rfl, rfl, rfl⟩
          | _ =>
            rw [arrayAbove_cons_self]
            refine iff_of_true hempty ?_
            rintro ⟨w, hw, r, items, -, -, hr⟩
            cases hget.symm.trans hw
            cases r <;> cases hr
      · rw [get?_setAt_of_ne hkey]
        exact iff_of_true rfl (not_arrayAbove_of_ne hkey)

/-- Setting a path makes no array but below it. -/
theorem follow_of_setAt (h : Path.leadsTo p r = false)
    (hr : follow (.object (d.setAt p v)) r = some (.array items)) :
    follow (.object d) r = some (.array items) := by
  induction p generalizing d r with
  | nil => cases h
  | cons key rest ih =>
    cases r with
    | nil => cases hr
    | cons other r =>
      rw [Entity.follow_cons] at hr ⊢
      by_cases hkey : key = other
      · subst hkey
        rw [Path.leadsTo_cons_self] at h
        have hrest : rest ≠ [] := by
          rintro rfl
          cases h
        rw [get?_setAt_cons, if_neg hrest, Option.bind_some] at hr
        have hchild := ih h hr
        rw [child] at hchild
        split at hchild
        next fields hget =>
          rw [hget, Option.bind_some]
          exact hchild
        next =>
          cases r <;> cases hchild
      · rw [get?_setAt_of_ne hkey] at hr
        exact hr

/-- Setting a path puts no array above a path apart from it. -/
theorem ArrayAbove.of_setAt {other : Path} (happart : Path.Apart other q)
    (h : (d.setAt other v).ArrayAbove p q) : d.ArrayAbove p q := by
  obtain ⟨r, items, hp, hq, hr⟩ := h
  refine ⟨r, items, hp, hq, follow_of_setAt ?_ hr⟩
  apply Bool.eq_false_iff.mpr
  intro hother
  exact Bool.noConfusion (happart.1.symm.trans (Path.leadsTo_trans hother hq))

/-! ## Setting several paths -/

/-- One document holds what another one held wherever none of some paths reach: at every path that
is apart from all of them and has no array on a way in common with them. -/
def KeepsApart (paths : List String) (d e : Document) : Prop :=
  ∀ other, (∀ path ∈ paths, Path.Apart (.ofString path) (.ofString other) ∧
    ¬ d.ArrayAbove (.ofString path) (.ofString other)) → e.at? other = d.at? other

theorem at?_set_self (d : Document) (path : String) (v : Json) :
    (d.set path v).at? path = some v :=
  get?_setAt_self d (Path.ofString_ne_nil path) v

theorem keepsApart_refl (paths : List String) (d : Document) : d.KeepsApart paths d :=
  fun _ _ => rfl

theorem keepsApart_set (d : Document) (path : String) (v : Json) :
    d.KeepsApart [path] (d.set path v) := by
  intro other h
  obtain ⟨happart, hnone⟩ := h path List.mem_cons_self
  exact (get?_setAt_eq_iff d happart v).mpr hnone

/-- After one path was set, further changes keep what is apart from all paths. -/
theorem KeepsApart.set {path : String} {paths : List String} {e : Document}
    (h : KeepsApart paths (d.set path v) e) : d.KeepsApart (path :: paths) e := by
  intro other hother
  obtain ⟨⟨happart, hnone⟩, hrest⟩ := List.forall_mem_cons.mp hother
  have hset := (get?_setAt_eq_iff d happart v).mpr hnone
  refine (h other fun path' hpath' => ?_).trans hset
  refine ⟨(hrest path' hpath').1, fun habove => ?_⟩
  exact (hrest path' hpath').2 (.of_setAt happart habove)

end Document

/-! ## What sets paths -/

/-- An update sets its paths and keeps what is apart from them. -/
theorem Update.keepsApart_setAll (d values : Document) :
    d.KeepsApart values.keys (setAll d values) := by
  induction values generalizing d with
  | nil => exact Document.keepsApart_refl [] d
  | cons e values ih => exact .set (ih (d.set e.1 e.2))

namespace Stage

variable {db : Collections} {docs out : List Document}

/-- Sets the paths for which there is a value. -/
theorem keepsApart_setFound (values : List (String × Option Json)) (d : Document) :
    d.KeepsApart (values.map Prod.fst) (values.foldl (fun d (path, found) =>
      match found with
      | some v => d.set path v
      | none => d) d) := by
  induction values generalizing d with
  | nil => exact Document.keepsApart_refl [] d
  | cons e values ih =>
    obtain ⟨path, found⟩ := e
    cases found with
    | some v => exact .set (ih (d.set path v))
    | none => exact fun other h => ih d other (List.forall_mem_cons.mp h).2

theorem keepsApart_extended {spec d e : Document} (h : extended spec d = .ok e) :
    d.KeepsApart spec.keys e := by
  obtain ⟨values, hvalues, h⟩ := bind_eq_ok.mp h
  cases h
  have hpaths : List.Forall₂ Eq spec.keys (values.map Prod.fst) := by
    rw [Document.keys, List.forall₂_map_left_iff, List.forall₂_map_right_iff]
    refine (forall₂_mapM hvalues).imp ?_
    rintro ⟨path, expression⟩ value h
    obtain ⟨found, -, h⟩ := bind_eq_ok.mp h
    cases h
    rfl
  rw [List.forall₂_eq_eq_eq] at hpaths
  rw [hpaths]
  exact keepsApart_setFound values d

theorem keepsApart_addFields {spec : Document} (h : run db (.addFields spec) docs = .ok out) :
    List.Forall₂ (Document.KeepsApart spec.keys) docs out := by
  rw [run] at h
  exact (forall₂_mapM h).imp fun _ _ => keepsApart_extended

theorem keepsApart_lookup {source target : String} {on : Option (String × String)}
    {pipeline : List Stage} (h : run db (.lookup source on target pipeline) docs = .ok out) :
    List.Forall₂ (Document.KeepsApart [target]) docs out := by
  rw [run] at h
  refine (forall₂_mapM h).imp fun d e hd => ?_
  obtain ⟨found, -, hd⟩ := bind_eq_ok.mp hd
  cases hd
  exact Document.keepsApart_set d target _

end Stage

/-! ## Paths apart from those that are set -/

/-- **Setting keeps what is apart.** A path that was set reads as the value that was set, and a path
apart from it reads as before exactly if no array stands on the way that they have in common. So an
update that only sets, a stage that adds fields and a lookup keep what can be read at every path
that is apart from the paths they set and has no array on a common way. -/
theorem setting_keeps_apart :
    (∀ (d : Document) (path : String) (v : Json), (d.set path v).at? path = some v ∧
      ∀ other, Path.Apart (.ofString path) (.ofString other) →
        ((d.set path v).at? other = d.at? other ↔
          ¬ d.ArrayAbove (.ofString path) (.ofString other))) ∧
    (∀ (u : Update) (d : Document), u.unset = [] → d.KeepsApart u.set.keys (u.apply d)) ∧
    (∀ (db : Collections) (spec : Document) (docs out : List Document),
      Stage.run db (.addFields spec) docs = .ok out →
        List.Forall₂ (Document.KeepsApart spec.keys) docs out) ∧
    ∀ (db : Collections) (source target : String) (on : Option (String × String))
      (pipeline : List Stage) (docs out : List Document),
      Stage.run db (.lookup source on target pipeline) docs = .ok out →
        List.Forall₂ (Document.KeepsApart [target]) docs out := by
  refine ⟨fun d path v => ⟨Document.at?_set_self d path v, fun other happart => ?_⟩,
    fun u d hunset => ?_, fun db spec docs out h => Stage.keepsApart_addFields h,
    fun db source target on pipeline docs out h => Stage.keepsApart_lookup h⟩
  · exact Document.get?_setAt_eq_iff d happart v
  · rw [Update.apply, hunset]
    exact Update.keepsApart_setAll d u.set

namespace ParcelSample

/-- The place and the notes stand together in one object. -/
def parcel : Document :=
  [("to", .object [("city", .string "Bern"), ("notes", .array [.string "fragile"])])]

def moved : Document :=
  [("to", .object [("city", .string "Rome"), ("notes", .array [.string "fragile"])])]

def db : Collections := fun name => if name = "stops" then [[("city", .string "Genoa")]] else []

def routed : Document :=
  [("to", .object [("city", .array [.object [("city", .string "Genoa")]]),
    ("notes", .array [.string "fragile"])])]

theorem not_arrayAbove_notes : ¬ parcel.ArrayAbove ["to", "city"] ["to", "notes"] := by
  rw [Document.arrayAbove_under rfl]
  exact Document.not_arrayAbove_of_ne (by decide)

theorem parcel_keeps_notes :
    (Path.Apart (.ofString "to.city") (.ofString "to.notes") ∧
      (parcel.set "to.city" (.string "Rome")).at? "to.city" = some (.string "Rome") ∧
      (parcel.set "to.city" (.string "Rome")).at? "to.notes" = parcel.at? "to.notes") ∧
    parcel.KeepsApart ["to.city"] (Update.apply { set := [("to.city", .string "Rome")] } parcel) ∧
    (Stage.run db (.addFields [("to.city", .string "Rome")]) [parcel] = .ok [moved] ∧
      List.Forall₂ (Document.KeepsApart ["to.city"]) [parcel] [moved]) ∧
    Stage.run db (.lookup "stops" none "to.city" []) [parcel] = .ok [routed] ∧
      List.Forall₂ (Document.KeepsApart ["to.city"]) [parcel] [routed] := by
  have happart : Path.Apart (.ofString "to.city") (.ofString "to.notes") := by decide +kernel
  have hnone : ¬ parcel.ArrayAbove (.ofString "to.city") (.ofString "to.notes") := by
    have hcity : Path.ofString "to.city" = ["to", "city"] := by decide +kernel
    have hnotes : Path.ofString "to.notes" = ["to", "notes"] := by decide +kernel
    rw [hcity, hnotes]
    exact not_arrayAbove_notes
  have hadded : Stage.run db (.addFields [("to.city", .string "Rome")]) [parcel] = .ok [moved] := by
    cbv
  have hjoined : Stage.run db (.lookup "stops" none "to.city" []) [parcel] = .ok [routed] := by
    cbv
  obtain ⟨hset, hupdate, hadd, hlookup⟩ := setting_keeps_apart
  obtain ⟨hself, hother⟩ := hset parcel "to.city" (.string "Rome")
  exact ⟨⟨happart, hself, (hother "to.notes" happart).mpr hnone⟩,
    hupdate { set := [("to.city", .string "Rome")] } parcel rfl,
    ⟨hadded, hadd db [("to.city", .string "Rome")] [parcel] [moved] hadded⟩,
    hjoined, hlookup db "stops" "to.city" none [] [parcel] [routed] hjoined⟩

/-- The lines of an order, each with its price and count. -/
def order : Document :=
  [("lines", .array [.object [("price", .int 1), ("count", .int 2)]])]

/-- Setting below an array puts an object in its place, and all else in the array is gone. -/
theorem setting_price_loses_counts : ¬ ∀ (d : Document) (path : String) (v : Json),
    (d.set path v).at? path = some v ∧
      ∀ other, Path.Apart (.ofString path) (.ofString other) →
        (d.set path v).at? other = d.at? other := by
  intro h
  have hcount := (h order "lines.price" (.int 5)).2 "lines.count" (by decide +kernel)
  have hbefore : order.at? "lines.count" = some (.array [.int 2]) := by cbv
  have hafter : (order.set "lines.price" (.int 5)).at? "lines.count" = none := by cbv
  cases hafter.symm.trans (hcount.trans hbefore)

end ParcelSample

end DocMapper
