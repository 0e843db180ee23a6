import DocMapper.Store.Basic

/-! # Programs of store calls

A program makes calls to a store, one after the other, where each may depend on what the earlier
ones found. A single call is atomic; between two calls of one program others may run. So a program
is kept as a value that can be advanced one call at a time, and `run` is what it does when it is
alone. A failing call ends the program. -/

namespace DocMapper

/-- A program that makes calls to a store. -/
inductive Program (α : Type) : Type 1 where
  /-- The program has ended. -/
  | done (outcome : Except Error α)
  /-- The program makes a call and goes on with what it found. -/
  | call {β : Type} (action : Action β) (next : β → Program α)

namespace Program

/-- The program that goes on with a value, or ends at once if there is none. -/
def given (value : Except Error α) (next : α → Program β) : Program β :=
  match value with
  | .ok a => next a
  | .error e => .done (.error e)

def step : Program α → Store → Program α × Store
  | .done outcome, s => (.done outcome, s)
  | .call action next, s =>
    match action s with
    | (.ok b, s) => (next b, s)
    | (.error e, s) => (.done (.error e), s)

def run : Program α → Action α
  | .done outcome, s => (outcome, s)
  | .call action next, s =>
    match action s with
    | (.ok b, s) => (next b).run s
    | (.error e, s) => (.error e, s)

/-- Running a program is advancing it by one call and running what is left. -/
theorem run_step (p : Program α) (s : Store) : (p.step s).1.run (p.step s).2 = p.run s := by
  cases p with
  | done outcome => rfl
  | call action next =>
    simp only [step, run]
    cases h : action s with
    | mk result s' => cases result <;> rfl

end Program

end DocMapper
