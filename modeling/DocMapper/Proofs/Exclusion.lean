import DocMapper.Proofs.Pipeline
import DocMapper.Proofs.Places

/-! # What an exclusion leaves

Removing a path takes away whatever it leads to and nothing else. That holds of the places of a
value (`Json.nodeAt?_removeAt`), and so it holds of what can be read: at the path itself there is
nothing any more (`Json.hides_of_nodeAt?`), and a path apart from it reads as before
(`Json.get?_removeAt`), although reading looks only into the objects of an array, while removing
goes through arrays of arrays too.

A projection that excludes fields removes one path after the other from each document. What it
leaves of a document (`Document.Excludes`) depends on which paths there are, not on their order. -/

namespace DocMapper

open Json (Place)

/-! ## Reading what is gone -/

namespace Json

variable {v w : Json} {p q : Path}

/-- Reading a path finds nothing, or nothing but an empty array. -/
def Hides (v : Json) (p : Path) : Prop := ∀ found, v.get? p = some found → found = .array []

theorem get?_array (items : List Json) (key : String) (rest : Path) :
    (array items).get? (key :: rest) = some (.array (collect items key rest)) := by
  rw [get?]

theorem collect_cons (item : Json) (items : List Json) (key : String) (rest : Path) :
    collect (item :: items) key rest = collect [item] key rest ++ collect items key rest := by
  cases item <;> simp [collect]

/-- Of an object in an array, what is collected depends on what is read there. -/
theorem collect_object (d : Document) (key : String) (rest : Path) :
    collect [object d] key rest =
      match (object d).get? (key :: rest) with
      | some (.array found) => if rest.isEmpty then [.array found] else found
      | some found => [found]
      | none => [] := by
  have hget : (object d).get? (key :: rest) = Document.getEntry? d key rest := by rw [get?]
  rw [hget]
  cases hentry : Document.getEntry? d key rest with
  | none => simp [collect, hentry]
  | some found => cases found <;> simp [collect, hentry]

/-- Where nothing stands, nothing is read. -/
theorem hides_of_nodeAt? (h : ∀ s : Place, s.keys = p → v.nodeAt? s = none) : v.Hides p := by
  induction p generalizing v with
  | nil => cases h [] rfl
  | cons key rest ih =>
    -- Under the first key of an object, nothing stands where the rest of the path leads to.
    have hobject : ∀ d : Document,
        (∀ s : Place, s.keys = key :: rest → (object d).nodeAt? s = none) →
        (object d).Hides (key :: rest) ∧ (rest = [] → d.get? key = none) := by
      intro d hd
      refine ⟨fun found hfound => ?_, fun hrest => ?_⟩
      · rw [Document.get?_object_cons] at hfound
        obtain ⟨w, hw, hfound⟩ := Option.bind_eq_some_iff.mp hfound
        refine ih (fun s hs => ?_) found hfound
        have hplace := hd (.key key :: s) (congrArg (key :: ·) hs)
        rwa [nodeAt?_key, hw] at hplace
      · have hplace := hd [.key key] (by rw [hrest]; rfl)
        rw [nodeAt?_key] at hplace
        cases hget : d.get? key with
        | none => rfl
        | some w =>
          rw [hget] at hplace
          cases hplace
    cases v with
    | object d => exact (hobject d h).1
    | array items =>
      intro found hfound
      rw [get?_array] at hfound
      cases hfound
      congr 1
      induction items with
      | nil => rw [collect]
      | cons item items ihItems =>
        have hitem : ∀ s : Place, s.keys = key :: rest → item.nodeAt? s = none :=
          fun s hs => h (.item 0 :: s) hs
        have hitems : collect items key rest = [] := by
          refine ihItems fun s hs => ?_
          cases s with
          | nil => cases hs
          | cons step s =>
            cases step with
            | key => rfl
            | item i => exact h (.item (i + 1) :: s) hs
        rw [collect_cons, hitems, List.append_nil]
        cases item with
        | object d =>
          obtain ⟨hides, hnone⟩ := hobject d hitem
          rw [collect_object]
          cases hget : (object d).get? (key :: rest) with
          | none => rfl
          | some found =>
            obtain rfl := hides found hget
            cases rest with
            | nil => simp [Document.get?_object_cons, hnone rfl] at hget
            | cons => rfl
        | _ => rfl
    | _ => exact fun found hfound => by cases hfound

/-- A path that was removed reads as nothing. -/
theorem hides_removeAt (hv : v.distinctKeys = true) (hp : p ≠ []) : (v.removeAt p).Hides p := by
  refine hides_of_nodeAt? fun s hs => ?_
  have hself : Path.leadsTo p s.keys = true := by
    rw [hs]
    exact List.isPrefixOf_iff_prefix.mpr (List.prefix_refl p)
  rw [nodeAt?_removeAt hv hp, if_pos hself]

/-- **A path apart from one that is removed reads as before.** -/
theorem get?_removeAt (hv : v.distinctKeys = true) (h : Path.Apart p q) :
    (v.removeAt p).get? q = v.get? q := by
  induction p generalizing v q with
  | nil => exact absurd h Path.not_apart_nil_left
  | cons key rest ih =>
    obtain ⟨other, more, rfl⟩ : ∃ other more, q = other :: more :=
      List.exists_cons_of_ne_nil (by rintro rfl; exact Path.not_apart_nil_right h)
    have hobject : ∀ d : Document, (object d).distinctKeys = true →
        ((object d).removeAt (key :: rest)).get? (other :: more) =
          (object d).get? (other :: more) := by
      intro d hd
      obtain ⟨hunique, hvalues⟩ := distinctKeys_object.mp hd
      rw [removeAt, Document.get?_object_cons, Document.get?_object_cons]
      by_cases hkey : key = other
      · subst hkey
        have happart := Path.apart_cons_self.mp h
        have hrest : rest ≠ [] := by
          rintro rfl
          exact Path.not_apart_nil_left happart
        rw [Document.get?_removeEntry_under d key hrest, if_pos rfl]
        cases hget : d.get? key with
        | none => rfl
        | some w => exact ih (hvalues _ (Document.mem_of_get? hget)) happart
      · have hget : Document.get? (Document.removeEntry d (key :: rest)) other = d.get? other := by
          cases rest with
          | nil =>
            rw [Document.removeEntry]
            exact Document.get?_erase_of_ne hunique (Ne.symm hkey)
          | cons next rest =>
            rw [Document.get?_removeEntry_under d key (List.cons_ne_nil next rest), if_neg hkey]
        rw [hget]
    cases v with
    | object d => exact hobject d hv
    | array items =>
      rw [removeAt, removeEach_eq_map, get?_array, get?_array]
      congr 2
      rw [distinctKeys] at hv
      induction items with
      | nil => rfl
      | cons item items ihItems =>
        rw [distinctKeysItems, Bool.and_eq_true] at hv
        rw [List.map_cons, collect_cons, collect_cons item, ihItems hv.2]
        congr 1
        cases item with
        | object d =>
          have hsame := hobject d hv.1
          rw [removeAt] at hsame ⊢
          rw [collect_object, collect_object, hsame]
        | array inner =>
          rw [removeAt]
          rfl
        | _ => rfl
    | _ => rfl

end Json

/-! ## Removing several paths -/

namespace Document

/-- What is left of a document `d` when paths are taken out of it: nothing at the places to which
they lead, and all else as it was. -/
structure Excludes (paths : List String) (d e : Document) : Prop where
  gone : ∀ path ∈ paths, ∀ s : Place, Path.leadsTo (.ofString path) s.keys = true →
    (Json.object e).nodeAt? s = none
  hidden : ∀ path ∈ paths, (Json.object e).Hides (.ofString path)
  rest : ∀ s : Place, (∀ path ∈ paths, Path.leadsTo (.ofString path) s.keys = false) →
    (Json.object e).nodeAt? s = (Json.object d).nodeAt? s
  kept : ∀ other, (∀ path ∈ paths, Path.Apart (.ofString path) (.ofString other)) →
    e.at? other = d.at? other

theorem Excludes.congr {paths paths' : List String} (h : ∀ path, path ∈ paths ↔ path ∈ paths')
    {d e : Document} (hd : d.Excludes paths e) : d.Excludes paths' e where
  gone path hpath := hd.gone path ((h path).mpr hpath)
  hidden path hpath := hd.hidden path ((h path).mpr hpath)
  rest s hs := hd.rest s fun path hpath => hs path ((h path).mp hpath)
  kept other hother := hd.kept other fun path hpath => hother path ((h path).mp hpath)

end Document

namespace Update

variable {d : Document} {paths : List String}

/-- What stands at a place after several paths were removed. -/
theorem nodeAt?_removeAll (hd : (Json.object d).distinctKeys = true) (s : Place) :
    (Json.object (removeAll d paths)).nodeAt? s =
      if paths.any fun path => Path.leadsTo (.ofString path) s.keys then none
      else (Json.object d).nodeAt? s := by
  induction paths generalizing d with
  | nil => rfl
  | cons path paths ih =>
    have hremove := Json.nodeAt?_removeAt hd (Path.ofString_ne_nil path) s
    have hrest := ih (Json.distinctKeys_removeAt (.object d) (.ofString path) hd)
    rw [List.any_cons]
    refine hrest.trans ?_
    cases hany : paths.any fun path => Path.leadsTo (.ofString path) s.keys with
    | true => simp
    | false =>
      rw [Bool.or_false]
      exact hremove

theorem at?_removeAll (hd : (Json.object d).distinctKeys = true) {other : String}
    (h : ∀ path ∈ paths, Path.Apart (.ofString path) (.ofString other)) :
    (removeAll d paths).at? other = d.at? other := by
  induction paths generalizing d with
  | nil => rfl
  | cons path paths ih =>
    obtain ⟨hpath, hrest⟩ := List.forall_mem_cons.mp h
    exact (ih (Json.distinctKeys_removeAt (.object d) (.ofString path) hd) hrest).trans
      (Json.get?_removeAt hd hpath)

/-- Removing paths takes out what they lead to. -/
theorem excludes_removeAll (hd : (Json.object d).distinctKeys = true) (paths : List String) :
    d.Excludes paths (removeAll d paths) := by
  have hgone : ∀ path ∈ paths, ∀ s : Place, Path.leadsTo (.ofString path) s.keys = true →
      (Json.object (removeAll d paths)).nodeAt? s = none := by
    intro path hpath s hs
    rw [nodeAt?_removeAll hd, if_pos (List.any_eq_true.mpr ⟨path, hpath, hs⟩)]
  refine ⟨hgone, fun path hpath => ?_, fun s hs => ?_, fun other => at?_removeAll hd⟩
  · refine Json.hides_of_nodeAt? fun s hs => hgone path hpath s ?_
    rw [hs]
    exact List.isPrefixOf_iff_prefix.mpr (List.prefix_refl _)
  · rw [nodeAt?_removeAll hd, if_neg]
    rw [Bool.not_eq_true, List.any_eq_false]
    exact fun path hpath => Bool.eq_false_iff.mp (hs path hpath)

end Update

/-! ## The stage -/

namespace Stage

variable {spec : Document} {docs : List Document}

/-- A projection that excludes fields keeps every document, less what its paths lead to. -/
theorem run_exclusion (hspec : Projection.isExclusion spec = true)
    (hdocs : ∀ d ∈ docs, (Json.object d).distinctKeys = true) (db : Collections) :
    ∃ out, run db (.project spec) docs = .ok out ∧
      List.Forall₂ (Document.Excludes spec.keys) docs out := by
  refine ⟨docs.map fun d => Update.removeAll d spec.keys, ?_, ?_⟩
  · rw [run, Projection.ofSpec, if_pos hspec, ok_bind]
    exact mapM_ok fun d _ => rfl
  · rw [List.forall₂_map_right_iff, List.forall₂_same]
    exact fun d hd => Update.excludes_removeAll (hdocs d hd) spec.keys

/-- **An exclusion removes what its paths lead to and nothing else.** After a path was removed from a
value, nothing stands at any place to which it leads, through any nesting of objects and arrays; so
it reads as nothing, or as an empty array. What stands at all other places is as it was, and a path
apart from the one that was removed reads as before. Hence a projection that excludes paths keeps
all documents in their order, and does the same to each of them with all its paths. -/
theorem exclusion_is_exact :
    (∀ (v : Json) (path : String), v.distinctKeys = true →
      let left := v.removeAt (.ofString path)
      left.Hides (.ofString path) ∧
        (∀ s : Place, left.nodeAt? s =
          if Path.leadsTo (.ofString path) s.keys then none else v.nodeAt? s) ∧
        ∀ q, Path.Apart (.ofString path) q → left.get? q = v.get? q) ∧
    (∀ (db : Collections) (spec : Document) (docs : List Document),
      Projection.isExclusion spec = true → (∀ d ∈ docs, (Json.object d).distinctKeys = true) →
      ∃ out, run db (.project spec) docs = .ok out ∧
        List.Forall₂ (Document.Excludes spec.keys) docs out) ∧
    ∀ (db : Collections) (paths : List String) (docs : List Document), paths ≠ [] →
      (∀ d ∈ docs, (Json.object d).distinctKeys = true) →
      ∃ out, run db (.exclude paths) docs = .ok out ∧
        List.Forall₂ (Document.Excludes paths) docs out := by
  refine ⟨fun v path hv => ?_, fun db spec docs hspec hdocs => run_exclusion hspec hdocs db,
    fun db paths docs hpaths hdocs => ?_⟩
  · have hpath := Path.ofString_ne_nil path
    exact ⟨Json.hides_removeAt hv hpath, Json.nodeAt?_removeAt hv hpath,
      fun q hq => Json.get?_removeAt hv hq⟩
  · obtain ⟨out, hout, hexcludes⟩ := run_exclusion (isExclusion_off hpaths) hdocs db
    exact ⟨out, hout, hexcludes.imp fun d e hde => hde.congr fun path => mem_keys_entries⟩

end Stage

namespace TeamSample

/-- The members of a team stand in an array, and those of a group in an array of their own. -/
def team : Document :=
  [("password", .string "t"), ("members", .array [
    .object [("password", .string "a"), ("name", .string "Ann")],
    .array [.object [("name", .string "Bob"), ("password", .string "b")]]])]

def shown : Document :=
  [("password", .string "t"), ("members", .array [
    .object [("name", .string "Ann")],
    .array [.object [("name", .string "Bob")]]])]

theorem team_distinct : ∀ d ∈ [team], (Json.object d).distinctKeys = true := by decide

theorem team_hides_members_passwords :
    ((Json.object team).distinctKeys = true ∧
      Path.Apart (.ofString "members.password") ["members", "name"] ∧
      ((Json.object team).removeAt (.ofString "members.password")).Hides
        (.ofString "members.password") ∧
      ((Json.object team).removeAt (.ofString "members.password")).get? ["members", "name"] =
        (Json.object team).get? ["members", "name"]) ∧
    (Projection.isExclusion [("members.password", .bool false)] = true ∧
      ∃ out, Stage.run (fun _ => []) (.project [("members.password", .bool false)]) [team] =
          .ok out ∧
        List.Forall₂ (Document.Excludes ["members.password"]) [team] out) ∧
    Stage.run (fun _ => []) (.exclude ["members.password"]) [team] = .ok [shown] ∧
      List.Forall₂ (Document.Excludes ["members.password"]) [team] [shown] := by
  have hdistinct : (Json.object team).distinctKeys = true := team_distinct team (by simp)
  have happart : Path.Apart (.ofString "members.password") ["members", "name"] := by
    decide +kernel
  have hspec : Projection.isExclusion [("members.password", .bool false)] = true := by decide
  have hrun : Stage.run (fun _ => []) (.exclude ["members.password"]) [team] = .ok [shown] := by
    cbv
  obtain ⟨hvalue, hproject, hexclude⟩ := Stage.exclusion_is_exact
  obtain ⟨hides, -, hkept⟩ := hvalue (.object team) "members.password" hdistinct
  obtain ⟨out, hout, hexcludes⟩ :=
    hexclude (fun _ => []) ["members.password"] [team] (by decide) team_distinct
  cases hrun.symm.trans hout
  exact ⟨⟨hdistinct, happart, hides, hkept _ happart⟩,
    ⟨hspec, hproject (fun _ => []) _ [team] hspec team_distinct⟩, hrun, hexcludes⟩

end TeamSample

end DocMapper
