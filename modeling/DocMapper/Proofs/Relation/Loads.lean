import DocMapper.Proofs.Relation.Join

/-! # Trees of loads

What it says of a tree of loads that it can be put into stages: the first relation is valid and its
alias is free, and what is nested under it and what follows it can be put into stages as well
(`Relation.loadAll_cons_eq_ok`). Proofs about trees of loads go by `Relation.loadAll.induct` and take
the first relation apart by this lemma. -/

namespace DocMapper

namespace Relation

variable {schema : Schema}

@[simp] theorem loadAll_nil (schema : Schema) (owner : Model) (seen : List (String × String)) :
    loadAll schema owner seen [] = .ok {} := by
  rw [loadAll]

/-- A tree of loads that begins with a relation: it is valid, its alias is free, and what is nested
and what follows can be loaded too. -/
theorem loadAll_cons_eq_ok {owner : Model} {seen : List (String × String)} {name : String}
    {options : Option RelationOptions} {children rest : List EagerLoad} {loaded : Loaded}
    (h : loadAll schema owner seen (⟨name, options, children⟩ :: rest) = .ok loaded) :
    ∃ r nested others, requested schema owner name options = .ok r ∧
      seen.lookup r.aliasName = none ∧ r.validate = .ok () ∧
      loadAll schema r.related [] children = .ok nested ∧
      loadAll schema owner ((r.aliasName, name) :: seen) rest = .ok others ∧
      loaded = ⟨r.loadWith nested ++ others.stages, r.aliasWith nested :: others.aliases⟩ := by
  rw [loadAll] at h
  obtain ⟨r, hr, h⟩ := bind_eq_ok.mp h
  cases hfree : seen.lookup r.aliasName with
  | some first =>
    rw [hfree] at h
    cases h
  | none =>
    rw [hfree] at h
    obtain ⟨⟨⟩, hvalid, h⟩ := bind_eq_ok.mp h
    obtain ⟨nested, hnested, h⟩ := bind_eq_ok.mp h
    obtain ⟨others, hothers, h⟩ := bind_eq_ok.mp h
    cases h
    exact ⟨r, nested, others, hr, hfree, mapError_eq_ok.mp hvalid, hnested, hothers, rfl⟩

/-- All that is loaded is put under single keys. -/
theorem isField_of_loadAll {owner : Model} {seen : List (String × String)} {loads : List EagerLoad}
    {loaded : Loaded} (h : loadAll schema owner seen loads = .ok loaded) :
    ∀ a ∈ loaded.aliases, IsField a.name := by
  induction owner, seen, loads using loadAll.induct generalizing loaded with
  | case1 owner seen =>
    rw [loadAll] at h
    cases h
    exact fun a ha => absurd ha List.not_mem_nil
  | case2 owner seen name options children rest ihChildren ihRest =>
    obtain ⟨r, nested, others, -, -, hvalid, -, hothers, rfl⟩ := loadAll_cons_eq_ok h
    intro a ha
    rcases List.mem_cons.mp ha with rfl | ha
    · exact (validate_eq_ok hvalid).2
    · exact ihRest r hothers a ha

/-- Where nothing is put under an alias, nothing is loaded. -/
theorem eq_nil_of_loadAll {owner : Model} {seen : List (String × String)} {loads : List EagerLoad}
    {loaded : Loaded} (h : loadAll schema owner seen loads = .ok loaded)
    (haliases : loaded.aliases = []) : loaded = {} := by
  cases loads with
  | nil =>
    rw [loadAll] at h
    cases h
    rfl
  | cons load rest =>
    obtain ⟨name, options, children⟩ := load
    obtain ⟨r, nested, others, -, -, -, -, -, rfl⟩ := loadAll_cons_eq_ok h
    cases haliases

end Relation

end DocMapper
