import StackAsm.Machine.Step

set_option autoImplicit false

/-!
# Running a program

A run executes instructions until the program counter leaves the program, an instruction fails, or
the budget is used up. Every run has the whole budget. A run need not end; `Machine.run` looks at no
more than a given number of states, and answers with nothing if the run is not over by then.

## Main definitions

* `StackAsm.Machine.runFrom` — a run, some steps of which are taken already.
* `StackAsm.Machine.run` — a run from its beginning.

## Main results

* `StackAsm.Machine.runFrom_mono` — a run that is over stays as it is if more states are allowed.
-/

namespace StackAsm.Machine

/-- The limit of a run after `taken` steps, if its budget is used up. -/
def spent? (m : Machine) (taken : Nat) : Option Nat := m.budget.filter (· ≤ taken)

/-- Goes on with a run of which `taken` steps are taken, looking at `fuel` states at most. -/
def runFrom : (fuel taken : Nat) → Machine → Option Outcome
  | 0, _, _ => none
  | fuel + 1, taken, m =>
    if m.isRunning then
      match m.spent? taken with
      | some limit => some (.failed (.stepLimitExceeded limit) m)
      | none =>
        match m.step with
        | .done m => runFrom fuel (taken + 1) m
        | .failed e m => some (.failed e m)
    else some (.done m)

/-- Runs a machine until its program counter leaves the program, looking at `fuel` states at
most. -/
def run (fuel : Nat) (m : Machine) : Option Outcome := runFrom fuel 0 m

/-- An outcome reached with some fuel is reached with more fuel as well. -/
theorem runFrom_mono {fuel taken : Nat} {m : Machine} {o : Outcome}
    (h : runFrom fuel taken m = some o) (more : Nat) : runFrom (fuel + more) taken m = some o := by
  induction fuel generalizing taken m with
  | zero => simp [runFrom] at h
  | succ fuel ih =>
    rw [Nat.add_right_comm]
    unfold runFrom at h ⊢
    split at h
    · rename_i hr
      rw [if_pos hr]
      split at h
      · exact h
      · split at h
        · exact ih h
        · exact h
    · rename_i hr
      rw [if_neg hr]
      exact h

end StackAsm.Machine
