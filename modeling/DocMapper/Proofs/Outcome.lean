import DocMapper.Expression
import Mathlib.Data.List.Forall2

/-! # Outcomes

Laws of computations that end in a result or in an error: when a computation that goes on after
another one succeeds, and what a list of computations comes to when it is run from the front.

  * `bind_eq_ok` and `map_eq_ok` take a successful computation apart;
  * `mapM_ok`, `filterM_ok`, `allOutcomes_ok` and `anyOutcome_ok` say that a list whose members all
    succeed behaves as the plain list operation does, and `mapM_eq_ok_iff` takes a successful map
    apart;
  * `filterM_eq_error` and `filterM_succeeds_iff` say when filtering a list fails. -/

namespace DocMapper

variable {ε α β γ : Type}

/-! ## One computation after another -/

theorem bind_eq_ok {x : Except ε α} {f : α → Except ε β} {b : β} :
    (x >>= f) = .ok b ↔ ∃ a, x = .ok a ∧ f a = .ok b := by
  cases x with
  | error e => simp [bind, Except.bind]
  | ok a => simp [bind, Except.bind]

theorem map_eq_ok {x : Except ε α} {f : α → β} {b : β} :
    x.map f = .ok b ↔ ∃ a, x = .ok a ∧ f a = b := by
  cases x with
  | error e => simp [Except.map]
  | ok a => simp [Except.map]

theorem toOption_map_eq_some {x : Except ε α} {f : α → β} {b : β} :
    x.toOption.map f = some b ↔ ∃ a, x = .ok a ∧ f a = b := by
  cases x with
  | error e => simp [Except.toOption]
  | ok a => simp [Except.toOption]

theorem toOption_eq_some {x : Except ε α} {a : α} : x.toOption = some a ↔ x = .ok a := by
  cases x with
  | error e => simp [Except.toOption]
  | ok b => simp [Except.toOption]

theorem toOption_eq_none {x : Except ε α} : x.toOption = none ↔ ∃ e, x = .error e := by
  cases x with
  | error e => simp [Except.toOption]
  | ok a => simp [Except.toOption]

theorem mapError_eq_ok {x : Except ε α} {f : ε → γ} {a : α} :
    x.mapError f = .ok a ↔ x = .ok a := by
  cases x with
  | error e => exact ⟨nofun, nofun⟩
  | ok b => exact ⟨fun h => congrArg _ (Except.ok.inj h), fun h => congrArg _ (Except.ok.inj h)⟩

@[simp] theorem ok_bind (a : α) (f : α → Except ε β) : (Except.ok a >>= f) = f a := rfl

@[simp] theorem error_bind (e : ε) (f : α → Except ε β) : (Except.error e >>= f) = .error e := rfl

@[simp] theorem map_ok (a : α) (f : α → β) : (Except.ok a : Except ε α).map f = .ok (f a) := rfl

@[simp] theorem map_error (e : ε) (f : α → β) : (Except.error e).map f = .error e := rfl

@[simp] theorem mapError_ok (a : α) (f : ε → γ) : (Except.ok a).mapError f = .ok a := rfl

@[simp] theorem mapError_error (e : ε) (f : ε → γ) :
    (Except.error e : Except ε α).mapError f = .error (f e) := rfl

/-! ## Mapping a list -/

/-- If the computation succeeds on every member, it is a plain map. -/
theorem mapM_ok {f : α → Except ε β} {g : α → β} {l : List α} (h : ∀ a ∈ l, f a = .ok (g a)) :
    l.mapM f = .ok (l.map g) := by
  induction l with
  | nil => rfl
  | cons a l ih =>
    have ha : f a = .ok (g a) := h a List.mem_cons_self
    have hl : l.mapM f = .ok (l.map g) := ih fun b hb => h b (List.mem_cons_of_mem a hb)
    rw [List.mapM_cons, ha, hl]
    rfl

/-- If the computation succeeds on every member, the map does. -/
theorem exists_mapM {f : α → Except ε β} {l : List α} (h : ∀ a ∈ l, ∃ b, f a = .ok b) :
    ∃ r, l.mapM f = .ok r := by
  induction l with
  | nil => exact ⟨[], rfl⟩
  | cons a l ih =>
    obtain ⟨b, hb⟩ := h a List.mem_cons_self
    obtain ⟨rest, hrest⟩ := ih fun a' ha' => h a' (List.mem_cons_of_mem a ha')
    rw [List.mapM_cons, hb, hrest]
    exact ⟨b :: rest, rfl⟩

/-- The results of a successful map are those of the members, in their order. -/
theorem forall₂_mapM {f : α → Except ε β} {l : List α} {r : List β} (h : l.mapM f = .ok r) :
    List.Forall₂ (fun a b => f a = .ok b) l r := by
  induction l generalizing r with
  | nil =>
    cases h
    exact .nil
  | cons a l ih =>
    rw [List.mapM_cons] at h
    obtain ⟨b, hb, h⟩ := bind_eq_ok.mp h
    obtain ⟨rest, hrest, h⟩ := bind_eq_ok.mp h
    cases h
    exact .cons hb (ih hrest)

/-- A map succeeds with the results of the members. -/
theorem mapM_eq_ok_iff {f : α → Except ε β} {l : List α} {r : List β} :
    l.mapM f = .ok r ↔ List.Forall₂ (fun a b => f a = .ok b) l r := by
  refine ⟨forall₂_mapM, fun h => ?_⟩
  induction h with
  | nil => rfl
  | cons hab _ ih =>
    rw [List.mapM_cons, hab, ih]
    rfl

/-- Each member of the second list is related to one of the first. -/
theorem exists_of_mem_forall₂ {R : α → β → Prop} {l : List α} {r : List β}
    (h : List.Forall₂ R l r) {b : β} (hb : b ∈ r) : ∃ a ∈ l, R a b := by
  induction h with
  | nil => cases hb
  | cons hab _ ih =>
    rcases List.mem_cons.mp hb with rfl | hb
    · exact ⟨_, List.mem_cons_self, hab⟩
    · obtain ⟨a', ha', hab'⟩ := ih hb
      exact ⟨a', List.mem_cons_of_mem _ ha', hab'⟩

/-- Members that are related because they show the same show the same in their order. -/
theorem map_eq_of_forall₂ {f : α → γ} {l r : List α}
    (h : List.Forall₂ (fun a b => f b = f a) l r) : r.map f = l.map f := by
  induction h with
  | nil => rfl
  | cons hfirst _ ih => rw [List.map_cons, List.map_cons, hfirst, ih]

theorem forall₂_singleton {R : α → β → Prop} {a : α} {r : List β} :
    List.Forall₂ R [a] r ↔ ∃ b, R a b ∧ r = [b] := by
  rw [List.forall₂_cons_left_iff]
  constructor
  · rintro ⟨b, rest, hab, hrest, rfl⟩
    cases hrest
    exact ⟨b, hab, rfl⟩
  · rintro ⟨b, hab, rfl⟩
    exact ⟨b, [], hab, .nil, rfl⟩

theorem forall₂_trans {R : α → β → Prop} {S : β → γ → Prop} {l : List α} {m : List β}
    {r : List γ} (h : List.Forall₂ R l m) (h' : List.Forall₂ S m r) :
    List.Forall₂ (fun a c => ∃ b, R a b ∧ S b c) l r := by
  induction h generalizing r with
  | nil =>
    cases h'
    exact .nil
  | cons hab _ ih =>
    cases h' with
    | cons hbc h' => exact .cons ⟨_, hab, hbc⟩ (ih h')

/-- Beside a member of one list stands one of the other list, and those before and after it are
related too. -/
theorem exists_split_of_forall₂ {R : α → β → Prop} {before after : List α} {a : α} {r : List β}
    (h : List.Forall₂ R (before ++ a :: after) r) :
    ∃ before' b after', r = before' ++ b :: after' ∧ List.Forall₂ R before before' ∧ R a b ∧
      List.Forall₂ R after after' := by
  induction before generalizing r with
  | nil =>
    cases h with
    | cons hab hafter => exact ⟨[], _, _, rfl, .nil, hab, hafter⟩
  | cons first before ih =>
    cases h with
    | cons hfirst hrest =>
      obtain ⟨before', b, after', rfl, hbefore, hab, hafter⟩ := ih hrest
      exact ⟨_ :: before', b, after', rfl, .cons hfirst hbefore, hab, hafter⟩

/-- Where each member is related to itself, replacing one of them is a matter of that one alone. -/
theorem forall₂_replace_iff {R : α → α → Prop} {before after : List α} {a b : α}
    (hrefl : ∀ c ∈ before ++ a :: after, R c c) :
    List.Forall₂ R (before ++ a :: after) (before ++ b :: after) ↔ R a b := by
  constructor
  · intro h
    obtain ⟨before', c, after', heq, hbefore, hab, -⟩ := exists_split_of_forall₂ h
    obtain ⟨rfl, hrest⟩ := List.append_inj heq hbefore.length_eq
    cases hrest
    exact hab
  · intro hab
    obtain ⟨hbefore, hothers⟩ := List.forall_mem_append.mp hrefl
    obtain ⟨-, hafter⟩ := List.forall_mem_cons.mp hothers
    exact List.rel_append (List.forall₂_same.mpr hbefore) (.cons hab (List.forall₂_same.mpr hafter))

/-- What lies between the members of two lists makes a list of its own. -/
theorem exists_forall₂_between {R : α → β → Prop} {S : β → γ → Prop} {l : List α} {r : List γ}
    (h : List.Forall₂ (fun a c => ∃ b, R a b ∧ S b c) l r) :
    ∃ m, List.Forall₂ R l m ∧ List.Forall₂ S m r := by
  induction h with
  | nil => exact ⟨[], .nil, .nil⟩
  | cons hac _ ih =>
    obtain ⟨b, hab, hbc⟩ := hac
    obtain ⟨m, hm, hm'⟩ := ih
    exact ⟨b :: m, .cons hab hm, .cons hbc hm'⟩

/-- Every result of a successful map comes from a member. -/
theorem exists_of_mem_mapM {f : α → Except ε β} {l : List α} {r : List β} (h : l.mapM f = .ok r)
    {b : β} (hb : b ∈ r) : ∃ a ∈ l, f a = .ok b :=
  exists_of_mem_forall₂ (forall₂_mapM h) hb

/-- What a map makes of some members of a list are some of what it makes of the list. -/
theorem sublist_of_mapM {f : α → Except ε β} {l l' : List α} {r r' : List β}
    (h : l.Sublist l') (hl : l.mapM f = .ok r) (hl' : l'.mapM f = .ok r') : r.Sublist r' := by
  induction h generalizing r r' with
  | slnil =>
    cases hl
    exact List.nil_sublist _
  | cons a _ ih =>
    rw [List.mapM_cons] at hl'
    obtain ⟨b, -, hl'⟩ := bind_eq_ok.mp hl'
    obtain ⟨rest, hrest, hl'⟩ := bind_eq_ok.mp hl'
    cases hl'
    exact (ih hl hrest).cons b
  | cons_cons a _ ih =>
    rw [List.mapM_cons] at hl hl'
    obtain ⟨b, hb, hl⟩ := bind_eq_ok.mp hl
    obtain ⟨rest, hrest, hl⟩ := bind_eq_ok.mp hl
    obtain ⟨b', hb', hl'⟩ := bind_eq_ok.mp hl'
    obtain ⟨rest', hrest', hl'⟩ := bind_eq_ok.mp hl'
    cases hl
    cases hl'
    obtain rfl : b' = b := Except.ok.inj (hb'.symm.trans hb)
    exact (ih hrest hrest').cons_cons b'

/-! ## Filtering a list -/

theorem filterAuxM_eq (p : α → Except ε Bool) (l acc : List α) :
    l.filterAuxM p acc = (l.filterAuxM p []).map (· ++ acc) := by
  -- What is kept already stays at the end of the result, whatever the tests say.
  induction l generalizing acc with
  | nil => rfl
  | cons a l ih =>
    rw [List.filterAuxM, List.filterAuxM]
    cases p a with
    | error e => rfl
    | ok b =>
      rw [ok_bind, ok_bind, ih, ih (bif b then [a] else [])]
      cases l.filterAuxM p [] with
      | error e => rfl
      | ok r => cases b <;> simp

theorem filterM_cons (p : α → Except ε Bool) (a : α) (l : List α) :
    (a :: l).filterM p = do
      let keep ← p a
      let rest ← l.filterM p
      return if keep then a :: rest else rest := by
  rw [List.filterM, List.filterAuxM]
  cases p a with
  | error e => rfl
  | ok b =>
    rw [ok_bind, ok_bind, filterAuxM_eq, List.filterM]
    cases l.filterAuxM p [] with
    | error e => rfl
    | ok r => cases b <;> simp [pure, Except.pure]

/-- If the test succeeds on every member, it is a plain filter. -/
theorem filterM_ok {p : α → Except ε Bool} {q : α → Bool} {l : List α}
    (h : ∀ a ∈ l, p a = .ok (q a)) : l.filterM p = .ok (l.filter q) := by
  induction l with
  | nil => rfl
  | cons a l ih =>
    have ha : p a = .ok (q a) := h a List.mem_cons_self
    have hl : l.filterM p = .ok (l.filter q) := ih fun b hb => h b (List.mem_cons_of_mem a hb)
    rw [filterM_cons, ha, hl, ok_bind, ok_bind, List.filter_cons]
    rfl

/-- A successful filter keeps some members of the list, in their order. -/
theorem sublist_of_filterM {p : α → Except ε Bool} {l r : List α} (h : l.filterM p = .ok r) :
    r.Sublist l := by
  induction l generalizing r with
  | nil =>
    cases h
    exact List.Sublist.refl []
  | cons b l ih =>
    rw [filterM_cons] at h
    obtain ⟨keep, -, h⟩ := bind_eq_ok.mp h
    obtain ⟨rest, hrest, h⟩ := bind_eq_ok.mp h
    cases h
    cases keep with
    | false => exact (ih hrest).cons b
    | true => exact (ih hrest).cons_cons b

/-- A failed filter fails with the error of one of the tests. -/
theorem filterM_eq_error {p : α → Except ε Bool} {l : List α} {e : ε}
    (h : l.filterM p = .error e) : ∃ a ∈ l, p a = .error e := by
  induction l with
  | nil => cases h
  | cons a l ih =>
    rw [filterM_cons] at h
    cases ha : p a with
    | error e' =>
      rw [ha, error_bind] at h
      cases h
      exact ⟨a, List.mem_cons_self, ha⟩
    | ok keep =>
      cases hl : l.filterM p with
      | error e' =>
        rw [ha, hl] at h
        cases h
        obtain ⟨b, hb, hpb⟩ := ih hl
        exact ⟨b, List.mem_cons_of_mem a hb, hpb⟩
      | ok rest =>
        rw [ha, hl] at h
        cases h

/-- Filtering succeeds exactly if every test does. -/
theorem filterM_succeeds_iff {p : α → Except ε Bool} {l : List α} :
    (∃ r, l.filterM p = .ok r) ↔ ∀ a ∈ l, ∃ b, p a = .ok b := by
  constructor
  · rintro ⟨r, hr⟩ a ha
    induction l generalizing r with
    | nil => cases ha
    | cons c l ih =>
      rw [filterM_cons] at hr
      obtain ⟨keep, hkeep, hr⟩ := bind_eq_ok.mp hr
      obtain ⟨rest, hrest, -⟩ := bind_eq_ok.mp hr
      rcases List.mem_cons.mp ha with rfl | ha
      · exact ⟨keep, hkeep⟩
      · exact ih rest hrest ha
  · intro h
    refine ⟨l.filter fun a => (p a).toOption.getD false, filterM_ok ?_⟩
    intro a ha
    obtain ⟨b, hb⟩ := h a ha
    rw [hb]
    rfl

/-! ## Lists of truth values -/

theorem allOutcomes_singleton (r : Except QueryFault Bool) : allOutcomes [r] = r := by
  cases r with
  | error fault => rfl
  | ok b => cases b <;> rfl

theorem allOutcomes_ok (l : List Bool) : allOutcomes (l.map Except.ok) = .ok (l.all id) := by
  induction l with
  | nil => rfl
  | cons b l ih =>
    rw [List.map_cons, allOutcomes, ok_bind]
    cases b with
    | false => rfl
    | true => exact ih

theorem anyOutcome_ok (l : List Bool) : anyOutcome (l.map Except.ok) = .ok (l.any id) := by
  induction l with
  | nil => rfl
  | cons b l ih =>
    rw [List.map_cons, anyOutcome, ok_bind]
    cases b with
    | false => exact ih
    | true => rfl

end DocMapper
