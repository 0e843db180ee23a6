import DocMapper.Proofs.Outcome
import DocMapper.Proofs.Path
import DocMapper.Query.Basic
import Mathlib.Data.List.Nodup

/-! # The tree of the relations to load

Requests are merged into a tree one after the other. Merging a path follows its names from the top
of the tree, adds what is not there and lays the options over those of the last name: it changes the
tree at one place only (`EagerLoad.changeAt`, `mergeAll_chain`). What a tree holds after several
requests comes of this by induction on the requests (`isSome_below?_requested`,
`optionsAt_requested`, `Distinct.requested`). Requests nested under a path are merged as if each was
a path of its own, since merging is associative (`overlay_changeAt`). -/

namespace DocMapper

/-! ## Options laid over options -/

namespace RelationOptions

theorem mergedWith_assoc (a b c : RelationOptions) :
    (a.mergedWith b).mergedWith c = a.mergedWith (b.mergedWith c) := by
  simp [mergedWith, Option.or_assoc]

end RelationOptions

namespace EagerLoad

@[simp]
theorem mergeOptions_none (options : Option RelationOptions) :
    mergeOptions none options = options := by
  cases options <;> rfl

theorem mergeOptions_assoc (a b c : Option RelationOptions) :
    mergeOptions (mergeOptions a b) c = mergeOptions a (mergeOptions b c) := by
  cases a <;> cases b <;> cases c <;> try rfl
  exact congrArg some (RelationOptions.mergedWith_assoc ..)

/-- All of a list of options, each laid over those before it. -/
def overlaid : List RelationOptions → Option RelationOptions
  | [] => none
  | options :: rest => some (rest.foldl RelationOptions.mergedWith options)

/-! ## Paths of names -/

/-- The names on a path, without the blanks around them. -/
def names (path : String) : List String := (Text.split '.' path).map Text.trim

/-- A path can be read if no name on it is empty. -/
def WellFormed (path : String) : Prop := "" ∉ names path

instance (path : String) : Decidable (WellFormed path) :=
  inferInstanceAs (Decidable ("" ∉ names path))

theorem names_ne_nil (path : String) : names path ≠ [] := by
  rw [names, Text.split, List.map_map, ne_eq, List.map_eq_nil_iff]
  exact Text.splitChars_ne_nil '.' path.toList

theorem names_under (path nested : String) :
    names (path ++ "." ++ nested) = names path ++ names nested := by
  have hlist : (path ++ "." ++ nested).toList = path.toList ++ '.' :: nested.toList := by simp
  rw [names, Text.split, hlist, Text.splitChars_join, List.map_append, List.map_append]
  rfl

variable {path nested : String} {options : Option RelationOptions}

theorem WellFormed.under (hpath : WellFormed path) (hnested : WellFormed nested) :
    WellFormed (path ++ "." ++ nested) := by
  rw [WellFormed, names_under, List.mem_append, not_or]
  exact ⟨hpath, hnested⟩

theorem segments_eq_ok (h : WellFormed path) : segments path = .ok (names path) := by
  refine if_neg fun hany => h ?_
  obtain ⟨name, hname, hempty⟩ := List.any_eq_true.mp hany
  rwa [String.isEmpty_iff.mp hempty] at hname

theorem ofPath_eq_ok (h : WellFormed path) :
    ofPath path options = .ok (chain options [] (names path)) := by
  rw [ofPath, segments_eq_ok h]
  rfl

/-! ## Changing a list of requests at a name -/

variable {name other : String} {change step : EagerLoad → EagerLoad} {new : EagerLoad}
  {load found : EagerLoad} {tree : List EagerLoad}

/-- A request before anything is asked of it. -/
def blank (name : String) : EagerLoad := ⟨name, none, []⟩

/-- A change that leaves the name as it is. -/
def KeepsName (change : EagerLoad → EagerLoad) : Prop := ∀ load, (change load).name = load.name

theorem names_upsert (hchange : KeepsName change) (hnew : new.name = name) :
    (upsert name change new tree).map (·.name) =
      if name ∈ tree.map (·.name) then tree.map (·.name) else tree.map (·.name) ++ [name] := by
  induction tree with
  | nil => simp [upsert, hnew]
  | cons load tree ih =>
    rw [upsert]
    split
    · next h => simp [hchange load, h]
    · next h =>
      rw [List.map_cons, ih, List.map_cons]
      simp only [List.mem_cons, Ne.symm h, false_or]
      split <;> rfl

theorem find?_upsert (hchange : KeepsName change) (hnew : new.name = name) (other : String) :
    (upsert name change new tree).find? (·.name == other) =
      if other = name then some (((tree.find? (·.name == name)).map change).getD new)
      else tree.find? (·.name == other) := by
  induction tree with
  | nil => grind [upsert]
  | cons load tree ih =>
    have hname := hchange load
    grind [upsert]

/-- Two changes at a name are one. -/
theorem upsert_upsert {extra : EagerLoad} (hchange : KeepsName change) (hnew : new.name = name) :
    upsert name step extra (upsert name change new tree) =
      upsert name (fun load => step (change load)) (step new) tree := by
  induction tree with
  | nil => exact if_pos hnew
  | cons load tree ih =>
    have hname := hchange load
    grind [upsert]

/-- Changes at different names can be made in either order, if the first is of something there. -/
theorem upsert_comm {extra : EagerLoad} (hne : name ≠ other) (hmem : name ∈ tree.map (·.name))
    (hchange : KeepsName change) (hstep : KeepsName step) :
    upsert other step extra (upsert name change new tree) =
      upsert name change new (upsert other step extra tree) := by
  induction tree with
  | nil => exact absurd hmem List.not_mem_nil
  | cons load tree ih =>
    have hname := hchange load
    have hother := hstep load
    grind [upsert]

/-! ## What one request changes -/

/-- A request after more options and relations under it were asked for. -/
def extended (options : Option RelationOptions) (children : List EagerLoad) (load : EagerLoad) :
    EagerLoad :=
  ⟨load.name, mergeOptions load.options options, mergeAll load.children children⟩

/-- A request with another of the same name laid over it. -/
def overlay (load request : EagerLoad) : EagerLoad :=
  load.extended request.options request.children

theorem extended_none (load : EagerLoad) : load.extended none [] = load := by
  cases load
  rw [extended, mergeAll]
  rfl

theorem overlay_blank (load : EagerLoad) (name : String) : load.overlay (blank name) = load :=
  load.extended_none

theorem mergeInto_eq (tree : List EagerLoad) (request : EagerLoad) :
    mergeInto tree request = upsert request.name (·.overlay request) request tree := by
  cases request
  rw [mergeInto]
  rfl

/-- Changes what stands under a path of names, and adds what is missing on the way. -/
def changeAt (change : EagerLoad → EagerLoad) : List String → EagerLoad → EagerLoad
  | [], load => change load
  | name :: rest, load =>
    { load with
      children := upsert name (changeAt change rest) (changeAt change rest (blank name))
        load.children }

theorem keepsName_extended (options : Option RelationOptions) (children : List EagerLoad) :
    KeepsName (extended options children) := fun _ => rfl

theorem keepsName_overlay (request : EagerLoad) : KeepsName (overlay · request) := fun _ => rfl

theorem KeepsName.changeAt (h : KeepsName change) (names : List String) :
    KeepsName (changeAt change names) := by
  cases names with
  | nil => exact h
  | cons name rest => exact fun _ => rfl

theorem changeAt_append (change : EagerLoad → EagerLoad) (names rest : List String) :
    changeAt change (names ++ rest) = changeAt (changeAt change rest) names := by
  induction names with
  | nil => rfl
  | cons name names ih =>
    funext load
    rw [List.cons_append, changeAt, changeAt, ih]

theorem changeAt_changeAt (hchange : KeepsName change) (names : List String) (load : EagerLoad) :
    (load.changeAt change names).changeAt step names =
      load.changeAt (fun load => step (change load)) names := by
  induction names generalizing load with
  | nil => rfl
  | cons name names ih =>
    have hkeeps := hchange.changeAt names
    have hboth : changeAt (fun load => step (change load)) names =
        fun load => changeAt step names (changeAt change names load) :=
      (funext ih).symm
    have hname : (changeAt change names (blank name)).name = name := hkeeps (blank name)
    rw [changeAt, changeAt, changeAt, hboth, upsert_upsert hkeeps hname]

theorem mergeAll_nil_chain {children : List EagerLoad} (hchildren : mergeAll [] children = children)
    (names : List String) :
    mergeAll [] (chain options children names) = chain options children names := by
  match names with
  | [] => exact hchildren
  | [name] => rfl
  | name :: next :: rest => rfl

/-- Merging the request for a path changes the last relation on it. -/
theorem mergeAll_chain {children : List EagerLoad} (hchildren : mergeAll [] children = children)
    {names : List String} (hnames : names ≠ []) (load : EagerLoad) :
    mergeAll load.children (chain options children names) =
      (load.changeAt (extended options children) names).children := by
  induction names generalizing load with
  | nil => exact absurd rfl hnames
  | cons name rest ih =>
    match rest with
    | [] =>
      show mergeInto load.children _ = upsert name _ ⟨name, _, _⟩ _
      rw [mergeInto_eq, blank, mergeOptions_none, hchildren]
      rfl
    | next :: rest =>
      have hover : (·.overlay ⟨name, none, chain options children (next :: rest)⟩) =
          changeAt (extended options children) (next :: rest) := by
        funext load
        exact congrArg (EagerLoad.mk load.name load.options) (ih (List.cons_ne_nil _ _) load)
      have hnew : changeAt (extended options children) (next :: rest) (blank name) =
          ⟨name, none, chain options children (next :: rest)⟩ := by
        rw [← hover]
        exact congrArg (EagerLoad.mk name none) (mergeAll_nil_chain hchildren (next :: rest))
      show mergeInto load.children _ = upsert name _ _ _
      rw [mergeInto_eq, hnew, ← hover]

/-! ## Distinct siblings -/

/-- No two requests of a list have the same name, and so on for the relations under each. -/
inductive Distinct : List EagerLoad → Prop
  | intro {tree : List EagerLoad} (siblings : (tree.map (·.name)).Nodup)
      (below : ∀ load ∈ tree, Distinct load.children) : Distinct tree

theorem Distinct.siblings (h : Distinct tree) : (tree.map (·.name)).Nodup := by
  cases h; assumption

theorem Distinct.children (h : Distinct tree) : ∀ load ∈ tree, Distinct load.children := by
  cases h; assumption

theorem Distinct.nil : Distinct [] := .intro List.nodup_nil (List.forall_mem_nil _)

theorem mem_upsert (h : load ∈ upsert name change new tree) :
    load ∈ tree ∨ load = new ∨ ∃ old ∈ tree, load = change old := by
  induction tree with
  | nil => exact .inr (.inl (List.mem_singleton.mp h))
  | cons first tree ih => grind [upsert]

theorem Distinct.upsert (h : Distinct tree) (hchange : KeepsName change) (hname : new.name = name)
    (hnew : Distinct new.children)
    (hbelow : ∀ load ∈ tree, Distinct (change load).children) :
    Distinct (upsert name change new tree) := by
  refine .intro ?_ fun load hload => ?_
  · rw [names_upsert hchange hname]
    split
    · exact h.siblings
    · next hnot => exact List.nodup_append.mpr ⟨h.siblings, List.nodup_singleton name,
        fun a ha b hb => ne_of_mem_of_not_mem ha (List.mem_singleton.mp hb ▸ hnot)⟩
  · rcases mem_upsert hload with hold | rfl | ⟨old, hold, rfl⟩
    · exact h.children _ hold
    · exact hnew
    · exact hbelow old hold

theorem Distinct.changeAt (names : List String) (h : Distinct load.children) :
    Distinct (load.changeAt (extended options []) names).children := by
  induction names generalizing load with
  | nil => exact h
  | cons name rest ih =>
    have hkeeps := (keepsName_extended options []).changeAt rest
    exact h.upsert hkeeps (hkeeps (blank name)) (ih .nil) fun load hload =>
      ih (h.children load hload)

/-! ## Merging one after the other or all at once -/

theorem mem_names_mergeInto {request : EagerLoad} (h : name ∈ tree.map (·.name)) :
    name ∈ (mergeInto tree request).map (·.name) := by
  rw [mergeInto_eq, names_upsert (keepsName_overlay request) rfl]
  split
  · exact h
  · exact List.mem_append_left _ h

/-- A change at a name can be made before requests with other names are merged. -/
theorem mergeAll_upsert_of_notMem {requests : List EagerLoad} (hchange : KeepsName change)
    (hmem : name ∈ tree.map (·.name)) (hnot : name ∉ requests.map (·.name)) :
    mergeAll (upsert name change new tree) requests =
      upsert name change new (mergeAll tree requests) := by
  induction requests generalizing tree with
  | nil => rfl
  | cons request requests ih =>
    rw [List.map_cons, List.mem_cons, not_or] at hnot
    rw [mergeAll, mergeAll, ← ih (mem_names_mergeInto hmem) hnot.2, mergeInto_eq, mergeInto_eq,
      upsert_comm hnot.1 hmem hchange (keepsName_overlay request)]

/-- Changing a request and merging it is merging it and changing what comes of it. -/
theorem mergeAll_upsert (tree : List EagerLoad) (name : String) {requests : List EagerLoad}
    (hchange : KeepsName change)
    (hnodup : (requests.map (·.name)).Nodup)
    (hover : ∀ load request : EagerLoad, request ∈ requests ∨ request = blank name →
      load.overlay (change request) = change (load.overlay request)) :
    mergeAll tree (upsert name change (change (blank name)) requests) =
      upsert name change (change (blank name)) (mergeAll tree requests) := by
  induction requests generalizing tree with
  | nil =>
    have hblank : (overlay · (change (blank name))) = change := by
      funext load
      exact (hover load (blank name) (.inr rfl)).trans (congrArg change (overlay_blank load name))
    show mergeInto tree (change (blank name)) = _
    rw [mergeInto_eq, hblank, hchange]
    rfl
  | cons request requests ih =>
    rw [List.map_cons, List.nodup_cons] at hnodup
    rw [upsert]
    split
    · next hname =>
      have hrequest : (overlay · (change request)) = fun load => change (load.overlay request) := by
        funext load
        exact hover load request (.inl List.mem_cons_self)
      have hmerged : mergeInto tree (change request) =
          upsert name change (change (blank name)) (mergeInto tree request) := by
        rw [mergeInto_eq, mergeInto_eq, hrequest, hchange, hname,
          upsert_upsert (keepsName_overlay request) hname]
      have hthere : name ∈ (mergeInto tree request).map (·.name) := by
        rw [mergeInto_eq, names_upsert (keepsName_overlay request) rfl, hname]
        split
        · assumption
        · exact List.mem_append_right _ List.mem_cons_self
      rw [mergeAll, mergeAll, hmerged, mergeAll_upsert_of_notMem hchange hthere (hname ▸ hnodup.1)]
    · rw [mergeAll, mergeAll]
      exact ih _ hnodup.2 fun load other hother => hover load other (hother.imp_left
        (List.mem_cons_of_mem request))

/-- Laying a request over another commutes with asking more of it. -/
theorem overlay_changeAt (names : List String) {request : EagerLoad}
    (h : Distinct request.children) (load : EagerLoad) :
    load.overlay (request.changeAt (extended options []) names) =
      (load.overlay request).changeAt (extended options []) names := by
  induction names generalizing load request with
  | nil =>
    have hoptions := mergeOptions_assoc load.options request.options options
    exact congrArg (EagerLoad.mk load.name · _) hoptions.symm
  | cons name rest ih =>
    have hkeeps := (keepsName_extended options []).changeAt rest
    have hchildren := mergeAll_upsert load.children name hkeeps h.siblings
      fun load other hother => ih (hother.elim (h.children other) (· ▸ Distinct.nil)) load
    exact congrArg (EagerLoad.mk load.name _) hchildren

/-! ## What stands at a path of names -/

/-- What is found under a path of names in a list of requests. -/
inductive Holds : List EagerLoad → List String → EagerLoad → Prop
  | here {tree : List EagerLoad} {load : EagerLoad} : load ∈ tree → Holds tree [load.name] load
  | under {tree : List EagerLoad} {load found : EagerLoad} {path : List String} :
    load ∈ tree → Holds load.children path found → Holds tree (load.name :: path) found

/-- The first request found under a path of names. -/
def below? : EagerLoad → List String → Option EagerLoad
  | load, [] => some load
  | load, name :: rest => (load.child? name).bind (·.below? rest)

/-- The options of what is found under a path of names. -/
def optionsAt (load : EagerLoad) (path : List String) : Option RelationOptions :=
  (load.below? path).bind (·.options)

theorem child?_blank (name other : String) : (blank name).child? other = none := rfl

theorem child?_eq_some (h : Distinct load.children) (hmem : found ∈ load.children) :
    load.child? found.name = some found := by
  have hsiblings := h.siblings
  rw [child?]
  generalize load.children = tree at hmem hsiblings
  induction tree with
  | nil => exact absurd hmem List.not_mem_nil
  | cons first tree ih =>
    rw [List.map_cons, List.nodup_cons] at hsiblings
    rcases List.mem_cons.mp hmem with rfl | htail
    · exact List.find?_cons_of_pos (beq_self_eq_true _)
    · have hne : first.name ≠ found.name := fun heq =>
        hsiblings.1 (heq ▸ List.mem_map_of_mem htail)
      rw [List.find?_cons_of_neg (by simpa using hne), ih htail hsiblings.2]

/-- With distinct siblings, the first request under a path is the only one. -/
theorem holds_iff (h : Distinct load.children) {path : List String} :
    Holds load.children path found ↔ path ≠ [] ∧ load.below? path = some found := by
  constructor
  · intro hholds
    generalize htree : load.children = tree at hholds
    induction hholds generalizing load with
    | here hmem =>
      subst htree
      exact ⟨List.cons_ne_nil _ _, by rw [below?, child?_eq_some h hmem]; rfl⟩
    | @under tree child found path hmem _ ih =>
      subst htree
      have hbelow := ih (h.children child hmem) rfl
      exact ⟨List.cons_ne_nil _ _, by rw [below?, child?_eq_some h hmem]; exact hbelow.2⟩
  · rintro ⟨hne, hbelow⟩
    induction path generalizing load with
    | nil => exact absurd rfl hne
    | cons name rest ih =>
      obtain ⟨child, hchild, hrest⟩ := Option.bind_eq_some_iff.mp hbelow
      have hmem := List.mem_of_find?_eq_some hchild
      have hname : child.name = name := by simpa using List.find?_some hchild
      subst hname
      match rest with
      | [] =>
        cases hrest
        exact .here hmem
      | next :: rest => exact .under hmem (ih (h.children child hmem) (List.cons_ne_nil _ _) hrest)

theorem child?_changeAt (hchange : KeepsName change) (rest : List String) :
    (load.changeAt change (name :: rest)).child? other =
      if other = name then some (changeAt change rest ((load.child? name).getD (blank name)))
      else load.child? other := by
  have hkeeps := hchange.changeAt rest
  have hname : (changeAt change rest (blank name)).name = name := hkeeps (blank name)
  rw [child?, changeAt, find?_upsert hkeeps hname, Option.getD_map]
  rfl

/-- A request for a path leads to every name on it. -/
theorem isSome_below?_changeAt (names path : List String) :
    ((load.changeAt (extended options []) names).below? path).isSome ↔
      (load.below? path).isSome ∨ path <+: names := by
  induction names generalizing load path with
  | nil => cases path <;> simp [below?, changeAt, extended, child?, mergeAll]
  | cons name rest ih =>
    cases path with
    | nil => simp [below?]
    | cons first path =>
      rw [below?, child?_changeAt (keepsName_extended options [])]
      split
      · next heq =>
        subst heq
        rw [Option.bind_some, ih, below?, List.cons_prefix_cons]
        cases path <;> cases load.child? first <;> simp [below?, child?_blank]
      · next hne => simp [below?, List.cons_prefix_cons, hne]

/-- A request for a path lays its options over those of the last name and leaves all others. -/
theorem optionsAt_changeAt (load : EagerLoad) (options : Option RelationOptions)
    (names path : List String) :
    (load.changeAt (extended options []) names).optionsAt path =
      if path = names then mergeOptions (load.optionsAt path) options
      else load.optionsAt path := by
  induction names generalizing load path with
  | nil => cases path <;> simp [optionsAt, below?, changeAt, extended, child?, mergeAll]
  | cons name rest ih =>
    cases path with
    | nil => simp [optionsAt, below?, changeAt]
    | cons first path =>
      rw [optionsAt, below?, child?_changeAt (keepsName_extended options [])]
      split
      · next heq =>
        subst heq
        have hat : ((load.child? first).getD (blank first)).optionsAt path =
            load.optionsAt (first :: path) := by
          cases hchild : load.child? first with
          | none =>
            cases path with
            | nil => simp [optionsAt, below?, hchild, blank]
            | cons next path => simp [optionsAt, below?, hchild, child?_blank]
          | some child => simp [optionsAt, below?, hchild]
        rw [Option.bind_some, ← optionsAt, ih, hat]
        simp
      · next hne => simp [optionsAt, below?, hne]

theorem upsert_of_find? (new : EagerLoad) (hfound : tree.find? (·.name == name) = some load)
    (hchange : change load = load) : upsert name change new tree = tree := by
  induction tree with
  | nil => exact absurd hfound nofun
  | cons first tree ih => grind [upsert]

/-- Asking for what is there already, without options, changes nothing. -/
theorem changeAt_of_below? (names : List String) (h : (load.below? names).isSome) :
    load.changeAt (extended none []) names = load := by
  induction names generalizing load with
  | nil => exact load.extended_none
  | cons name rest ih =>
    obtain ⟨found, hfound⟩ := Option.isSome_iff_exists.mp h
    obtain ⟨child, hchild, hrest⟩ := Option.bind_eq_some_iff.mp hfound
    have hsame := upsert_of_find? (changeAt (extended none []) rest (blank name)) hchild
      (ih (Option.isSome_of_mem hrest))
    cases load
    exact congrArg (EagerLoad.mk _ _) hsame

/-! ## Several requests -/

/-- A request after paths, each with or without options, were asked for under it. -/
def requested (load : EagerLoad) (requests : List (String × Option RelationOptions)) : EagerLoad :=
  requests.foldl (fun load request => load.changeAt (extended request.2 []) (names request.1)) load

/-- Merges requests for paths one after the other into a list of requests. -/
def mergeRequests (tree : List EagerLoad) :
    List (String × Option RelationOptions) → Except QueryFault (List EagerLoad)
  | [] => .ok tree
  | (path, options) :: rest => do mergeRequests (mergeAll tree (← ofPath path options)) rest

/-- The options requested for exactly one path. -/
def requestedAt (path : List String) (requests : List (String × Option RelationOptions)) :
    List RelationOptions :=
  requests.filterMap fun request => if names request.1 = path then request.2 else none

variable {requests : List (String × Option RelationOptions)}

theorem mergeRequests_eq_ok (h : ∀ request ∈ requests, WellFormed request.1) (load : EagerLoad) :
    mergeRequests load.children requests = .ok (load.requested requests).children := by
  induction requests generalizing load with
  | nil => rfl
  | cons request requests ih =>
    obtain ⟨hpath, hrest⟩ := List.forall_mem_cons.mp h
    rw [mergeRequests, ofPath_eq_ok hpath]
    show mergeRequests (mergeAll _ _) _ = _
    rw [mergeAll_chain rfl (names_ne_nil _)]
    exact ih hrest _

theorem Distinct.requested (h : Distinct load.children)
    (requests : List (String × Option RelationOptions)) :
    Distinct (load.requested requests).children := by
  induction requests generalizing load with
  | nil => exact h
  | cons request requests ih => exact ih (h.changeAt (names request.1))

theorem isSome_below?_requested (load : EagerLoad) (path : List String) :
    ((load.requested requests).below? path).isSome ↔
      (load.below? path).isSome ∨ ∃ request ∈ requests, path <+: names request.1 := by
  induction requests generalizing load with
  | nil => simp [requested]
  | cons request requests ih =>
    rw [List.exists_mem_cons_iff, ← or_assoc, ← isSome_below?_changeAt]
    exact ih _

theorem optionsAt_requested (load : EagerLoad)
    (requests : List (String × Option RelationOptions)) (path : List String) :
    (load.requested requests).optionsAt path =
      (requestedAt path requests).foldl (fun options request => mergeOptions options (some request))
        (load.optionsAt path) := by
  induction requests generalizing load with
  | nil => rfl
  | cons request requests ih =>
    have hstep := optionsAt_changeAt load request.2 (names request.1) path
    refine (ih _).trans ?_
    rw [hstep, requestedAt, requestedAt, List.filterMap_cons]
    split
    · next heq =>
      rw [if_pos heq.symm]
      cases request.2 <;> rfl
    · next hne => rw [if_neg (Ne.symm hne)]

theorem foldl_mergeOptions (options : List RelationOptions) :
    options.foldl (fun options request => mergeOptions options (some request)) none =
      overlaid options := by
  cases options with
  | nil => rfl
  | cons first rest =>
    show rest.foldl _ (some first) = some _
    induction rest generalizing first with
    | nil => rfl
    | cons next rest ih => exact ih (first.mergedWith next)

theorem overlay_requested (h : Distinct found.children) (load : EagerLoad)
    (requests : List (String × Option RelationOptions)) :
    load.overlay (found.requested requests) = (load.overlay found).requested requests := by
  induction requests generalizing found with
  | nil => rfl
  | cons request requests ih =>
    refine (ih (h.changeAt (names request.1))).trans ?_
    rw [overlay_changeAt _ h]
    rfl

/-! ## Requests nested under a path -/

/-- Requests for paths without options. -/
def plain (paths : List String) : List (String × Option RelationOptions) := paths.map (·, none)

theorem wellFormed_plain {paths : List String} (h : ∀ path ∈ paths, WellFormed path) :
    ∀ request ∈ plain paths, WellFormed request.1 :=
  List.forall_mem_map.mpr h

theorem mergePaths_eq (tree : List EagerLoad) (paths : List String) :
    mergePaths tree paths = mergeRequests tree (plain paths) := by
  induction paths generalizing tree with
  | nil => rfl
  | cons path paths ih =>
    rw [mergePaths, plain, List.map_cons, mergeRequests]
    simp only [ih, plain]

/-- Requests for paths that all start with one path change what stands there. -/
theorem requested_under {paths : List String} (hne : paths ≠ []) (load : EagerLoad) :
    load.requested (plain (paths.map fun nested => path ++ "." ++ nested)) =
      load.changeAt (requested · (plain paths)) (names path) := by
  induction paths generalizing load with
  | nil => exact absurd rfl hne
  | cons nested paths ih =>
    have hfirst : load.changeAt (extended none []) (names (path ++ "." ++ nested)) =
        load.changeAt (changeAt (extended none []) (names nested)) (names path) := by
      rw [names_under, changeAt_append]
    rw [List.map_cons, plain, List.map_cons, requested, List.foldl_cons, hfirst, ← requested,
      ← plain]
    cases paths with
    | nil => rfl
    | cons next paths =>
      rw [ih (List.cons_ne_nil next paths),
        changeAt_changeAt ((keepsName_extended none []).changeAt _)]
      rfl

theorem options_requested_plain (paths : List String) (load : EagerLoad) :
    (load.requested (plain paths)).options = load.options := by
  induction paths generalizing load with
  | nil => rfl
  | cons path paths ih =>
    refine (ih _).trans ?_
    cases hnames : names path with
    | nil => exact absurd hnames (names_ne_nil path)
    | cons name rest => simp only [hnames, changeAt]

theorem ofEntry_eq_ok {paths : List String} (hpath : WellFormed path)
    (hpaths : ∀ nested ∈ paths, WellFormed nested) :
    ofEntry path (.strings paths) =
      .ok (chain none ((blank "").requested (plain paths)).children (names path)) := by
  have hnested : nestedPaths path (.strings paths) = .ok paths := by
    rw [Json.strings, nestedPaths, List.filterMap_map]
    exact congrArg Except.ok List.filterMap_some
  have hmerged : mergePaths [] paths = .ok ((blank "").requested (plain paths)).children :=
    (mergePaths_eq [] paths).trans (mergeRequests_eq_ok (wellFormed_plain hpaths) (blank ""))
  rw [ofEntry, segments_eq_ok hpath, hnested]
  show (do return chain none (← mergePaths [] paths) (names path)) = _
  rw [hmerged]
  rfl

end EagerLoad

namespace Query

open EagerLoad

theorem foldl_withPath {paths : List String} {tree : List EagerLoad} (q : Query)
    (h : mergeRequests q.eager (plain paths) = .ok tree) :
    paths.foldl withPath q = { q with eager := tree } := by
  induction paths generalizing q with
  | nil =>
    cases h
    rfl
  | cons path paths ih =>
    obtain ⟨loads, hloads, hrest⟩ := bind_eq_ok.mp h
    rw [List.foldl_cons, withPath, hloads]
    exact ih _ hrest

/-- Loading relations nested under a path is loading the path of each. -/
theorem withNested_eq {relation : String} {nested : List String} (hrelation : WellFormed relation)
    (hnested : ∀ path ∈ nested, WellFormed path) (hne : nested ≠ []) (q : Query) :
    q.withNested relation nested =
      nested.foldl (fun q path => q.withPath (relation ++ "." ++ path)) q := by
  obtain ⟨below, hbelow⟩ : ∃ below, (blank "").requested (plain nested) = below := ⟨_, rfl⟩
  have hoptions : below.options = none := hbelow ▸ options_requested_plain nested (blank "")
  have hover : ∀ load : EagerLoad,
      load.extended none below.children = load.requested (plain nested) := by
    intro load
    have hnil : Distinct (blank "").children := .nil
    have h := overlay_requested hnil load (plain nested)
    rwa [hbelow, overlay, hoptions, overlay_blank] at h
  have hchildren : mergeAll [] below.children = below.children :=
    congrArg EagerLoad.children ((hover (blank "")).trans hbelow)
  -- The requests are merged under a name that stands for the whole tree.
  obtain ⟨root, hroot⟩ : ∃ root : EagerLoad, root.children = q.eager := ⟨⟨"", none, q.eager⟩, rfl⟩
  have hunder : ∀ path ∈ nested.map fun path => relation ++ "." ++ path, WellFormed path :=
    List.forall_mem_map.mpr fun path hpath => hrelation.under (hnested path hpath)
  have hpaths := mergeRequests_eq_ok (wellFormed_plain hunder) root
  rw [hroot, requested_under hne] at hpaths
  rw [withNested, ofEntry_eq_ok hrelation hnested, hbelow, withLoads, ← hroot,
    mergeAll_chain hchildren (names_ne_nil relation), funext hover]
  exact (List.foldl_map ..).symm.trans (foldl_withPath q hpaths) |>.symm

end Query

/-- Requests for paths that can be read build one tree. Sibling names are distinct at every level of
it, the paths in it are the prefixes of the requested ones, each relation has the options requested
for exactly its path, laid over each other in the order of the requests, and a path that is covered
already adds nothing. Whatever was asked for before, relations nested under a path are loaded as
the path of each. -/
theorem EagerLoad.tree_of_requests (requests : List (String × Option RelationOptions))
    (h : ∀ request ∈ requests, WellFormed request.1) :
    (∃ tree, mergeRequests [] requests = .ok tree ∧ Distinct tree ∧
      (∀ path, (∃ load, Holds tree path load) ↔
        path ≠ [] ∧ ∃ request ∈ requests, path <+: names request.1) ∧
      (∀ path load, Holds tree path load → load.options = overlaid (requestedAt path requests)) ∧
      ∀ path, WellFormed path → (∃ request ∈ requests, names path <+: names request.1) →
        mergeRequests tree [(path, none)] = .ok tree) ∧
    ∀ (q : Query) (relation : String) (nested : List String), WellFormed relation →
      (∀ path ∈ nested, WellFormed path) → nested ≠ [] →
      q.withNested relation nested =
        nested.foldl (fun q path => q.withPath (relation ++ "." ++ path)) q := by
  have hnil : Distinct (blank "").children := .nil
  have hdistinct := hnil.requested requests
  have hbelow : ∀ path, path ≠ [] → ((((blank "").requested requests).below? path).isSome ↔
      ∃ request ∈ requests, path <+: names request.1) := by
    intro path hne
    have hblank : (blank "").below? path = none := by
      cases path with
      | nil => exact absurd rfl hne
      | cons name rest => rfl
    rw [isSome_below?_requested, hblank, Option.isSome_none, Bool.false_eq_true, false_or]
  refine ⟨⟨_, mergeRequests_eq_ok h (blank ""), hdistinct, fun path => ?_,
    fun path load hload => ?_, fun path hpath hcovered => ?_⟩,
    fun q relation nested hrelation hnested hne => q.withNested_eq hrelation hnested hne⟩
  · simp only [holds_iff hdistinct, exists_and_left, ← Option.isSome_iff_exists]
    exact and_congr_right (hbelow path)
  · obtain ⟨hne, hfound⟩ := (holds_iff hdistinct).mp hload
    have hnone : (blank "").optionsAt path = none := by
      cases path with
      | nil => exact absurd rfl hne
      | cons name rest => rfl
    have hoptions := optionsAt_requested (blank "") requests path
    rwa [optionsAt, hfound, Option.bind_some, hnone, foldl_mergeOptions] at hoptions
  · have hthere := (hbelow (names path) (names_ne_nil path)).mpr hcovered
    rw [mergeRequests_eq_ok (by simpa using hpath)]
    exact congrArg (Except.ok ∘ EagerLoad.children) (changeAt_of_below? _ hthere)

namespace EagerSample

open EagerLoad

def asked : List (String × Option RelationOptions) :=
  [("posts. comments", none), ("posts", some { limit := some 5 }),
    ("posts.comments.author", none), (" posts", some { exclude := ["body"] })]

def tree : List EagerLoad :=
  [⟨"posts", some { limit := some 5, exclude := ["body"] },
    [⟨"comments", none, [⟨"author", none, []⟩]⟩]⟩]

theorem posts_tree :
    (∀ request ∈ asked, WellFormed request.1) ∧ mergeRequests [] asked = .ok tree ∧
      Distinct tree ∧ (∃ load, Holds tree ["posts", "comments"] load) ∧
      mergeRequests tree [("posts.comments", none)] = .ok tree ∧
      ∀ q : Query, q.withNested "posts" ["comments.author", "tags"] =
        (q.withPath "posts.comments.author").withPath "posts.tags" := by
  have hasked : ∀ request ∈ asked, WellFormed request.1 := by decide +kernel
  have hcomments : names "posts. comments" = ["posts", "comments"] := by decide +kernel
  have hposts : names "posts" = ["posts"] ∧ names " posts" = ["posts"] := by decide +kernel
  have hauthor : names "posts.comments.author" = ["posts", "comments", "author"] := by
    decide +kernel
  have hrun : mergeRequests [] asked = .ok tree := by
    simpa [requested, asked, tree, hcomments, hposts, hauthor, changeAt, upsert, extended, mergeAll,
      mergeOptions, blank, RelationOptions.mergedWith] using mergeRequests_eq_ok hasked (blank "")
  obtain ⟨⟨built, hbuilt, hdistinct, hpaths, -, hcovered⟩, hnested⟩ := tree_of_requests asked hasked
  obtain rfl : tree = built := Except.ok.inj (hrun.symm.trans hbuilt)
  exact ⟨hasked, hrun, hdistinct, (hpaths _).mpr ⟨List.cons_ne_nil _ _, by decide +kernel⟩,
    hcovered _ (by decide +kernel) (by decide +kernel), fun q => hnested q "posts"
      ["comments.author", "tags"] (by decide +kernel) (by decide +kernel) (List.cons_ne_nil _ _)⟩

end EagerSample

end DocMapper
