import DocMapper.Store.Program
import Mathlib.Logic.Function.Basic

/-! # Programs side by side

Several programs use one store at the same time. Each of their calls is atomic, and the calls of
different programs come in any order: a **schedule** says whose turn it is next. What holds after
every schedule holds at any time, since the calls made by then are a schedule too.

  * `Pool.after_induction` is the principle: what one call preserves holds after every schedule.
  * A program **keeps** a property of the store if each call that it can ever make preserves it. If
    all programs of a pool keep a property, it holds at any time (`Pool.after_keeps`), whatever the
    programs have learned from what others wrote. -/

namespace DocMapper

/-- Programs that use one store. -/
structure Pool (ι α : Type) where
  programs : ι → Program α
  store : Store

namespace Pool

variable {ι α : Type} [DecidableEq ι]

/-- Lets one of the programs make its next call; if it has ended, nothing happens. -/
def advance (p : Pool ι α) (i : ι) : Pool ι α where
  programs := Function.update p.programs i ((p.programs i).step p.store).1
  store := ((p.programs i).step p.store).2

/-- What becomes of a pool when its programs make their calls in a given order. -/
def after (p : Pool ι α) (schedule : List ι) : Pool ι α := schedule.foldl advance p

@[simp] theorem after_nil (p : Pool ι α) : p.after [] = p := rfl

@[simp] theorem after_cons (p : Pool ι α) (i : ι) (schedule : List ι) :
    p.after (i :: schedule) = (p.advance i).after schedule := rfl

/-- What a call of any program preserves holds after every schedule. -/
theorem after_induction {P : Pool ι α → Prop} (hstep : ∀ p i, P p → P (p.advance i))
    (schedule : List ι) {p : Pool ι α} (h : P p) : P (p.after schedule) := by
  induction schedule generalizing p with
  | nil => exact h
  | cons i schedule ih => exact ih (hstep p i h)

end Pool

namespace Program

variable {α β : Type} {I : Store → Prop}

/-- Whether a program has no calls left to make. -/
def hasEnded : Program α → Bool
  | .done _ => true
  | .call _ _ => false

theorem hasEnded_iff {p : Program α} : p.hasEnded = true ↔ ∃ outcome, p = .done outcome := by
  cases p with
  | done outcome => exact ⟨fun _ => ⟨outcome, rfl⟩, fun _ => rfl⟩
  | call action next => exact ⟨nofun, nofun⟩

/-- Every call that a program can make preserves a property of the store, whether the call succeeds
or fails. -/
def Keeps (I : Store → Prop) : Program α → Prop
  | .done _ => True
  | .call action next => (∀ s, I s → I (action s).2) ∧ ∀ b, (next b).Keeps I

theorem keeps_call {action : Action β} {next : β → Program α} (haction : ∀ s, I s → I (action s).2)
    (hnext : ∀ b, (next b).Keeps I) : (call action next).Keeps I := ⟨haction, hnext⟩

/-- A program that only goes on with a value keeps what it keeps with that value. -/
theorem keeps_given {value : Except Error β} {next : β → Program α}
    (h : ∀ b, value = .ok b → (next b).Keeps I) : (given value next).Keeps I := by
  cases value with
  | error e => trivial
  | ok b => exact h b rfl

theorem Keeps.step {p : Program α} (h : p.Keeps I) {s : Store} (hs : I s) :
    (p.step s).1.Keeps I ∧ I (p.step s).2 := by
  cases p with
  | done outcome => exact ⟨h, hs⟩
  | call action next =>
    obtain ⟨haction, hnext⟩ := h
    have hafter := haction s hs
    simp only [Program.step]
    cases hrun : action s with
    | mk outcome t =>
      rw [hrun] at hafter
      cases outcome with
      | error e => exact ⟨trivial, hafter⟩
      | ok b => exact ⟨hnext b, hafter⟩

end Program

namespace Pool

variable {ι α : Type} [DecidableEq ι] {I : Store → Prop}

/-- What all programs of a pool keep holds of its store at any time. -/
theorem after_keeps {p : Pool ι α} (hp : ∀ i, (p.programs i).Keeps I) (hs : I p.store)
    (schedule : List ι) : I (p.after schedule).store := by
  -- The programs that are left keep the property too, so it goes with them.
  have hall : (∀ i, ((p.after schedule).programs i).Keeps I) ∧ I (p.after schedule).store := by
    apply after_induction (P := fun p => (∀ i, (p.programs i).Keeps I) ∧ I p.store)
    · intro q i ⟨hq, hs⟩
      obtain ⟨hprogram, hstore⟩ := (hq i).step hs
      refine ⟨fun j => ?_, hstore⟩
      by_cases hj : j = i
      · subst hj
        simpa [advance] using hprogram
      · simpa [advance, hj] using hq j
    · exact ⟨hp, hs⟩
  exact hall.2

end Pool

end DocMapper
