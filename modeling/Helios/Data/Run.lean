import Mathlib.Tactic

namespace Helios.Data

/-! Finite runs of a machine whose step may fail.

`Along` states a side condition of every step that a run takes, in the state
the step is taken from.  An invariant that one step preserves under that
condition holds after the whole run.
-/

section

variable {σ ι : Type*} {step : σ → ι → Option σ} {ok other : σ → ι → Prop}
variable {state final : σ} {input : ι} {inputs more : List ι}

def run (step : σ → ι → Option σ) : σ → List ι → Option σ
  | state, [] => some state
  | state, input :: rest => (step state input).bind fun next => run step next rest

def Along (step : σ → ι → Option σ) (ok : σ → ι → Prop) : σ → List ι → Prop
  | _, [] => True
  | state, input :: rest =>
      ok state input ∧ ∀ next, step state input = some next → Along step ok next rest

theorem run_cons {next : σ} (taken : step state input = some next) :
    run step state (input :: inputs) = run step next inputs := by
  rw [run, taken, Option.bind_some]

theorem run_cons_eq_some : run step state (input :: inputs) = some final ↔
    ∃ next, step state input = some next ∧ run step next inputs = some final :=
  Option.bind_eq_some_iff

theorem run_append : run step state (inputs ++ more) =
    (run step state inputs).bind fun middle => run step middle more := by
  induction inputs generalizing state with
  | nil => rfl
  | cons input rest ih =>
      rw [List.cons_append, run, run, Option.bind_assoc]
      exact congrArg _ (funext fun next => ih)

theorem along_append (along : Along step ok state (inputs ++ more))
    (reached : run step state inputs = some final) :
    Along step ok state inputs ∧ Along step ok final more := by
  induction inputs generalizing state with
  | nil =>
      have same : state = final := Option.some.inj reached
      subst same
      exact ⟨trivial, along⟩
  | cons input rest ih =>
      obtain ⟨here, later⟩ := along
      obtain ⟨next, taken, rest⟩ := run_cons_eq_some.mp reached
      obtain ⟨front, back⟩ := ih (later next taken) rest
      refine ⟨⟨here, fun other same => ?_⟩, back⟩
      rw [taken] at same
      exact Option.some.inj same ▸ front

theorem Along.and (along : Along step ok state inputs) (also : Along step other state inputs) :
    Along step (fun state input => ok state input ∧ other state input) state inputs := by
  induction inputs generalizing state with
  | nil => trivial
  | cons input rest ih =>
      obtain ⟨here, later⟩ := along
      obtain ⟨alsoHere, alsoLater⟩ := also
      exact ⟨⟨here, alsoHere⟩, fun next taken => ih (later next taken) (alsoLater next taken)⟩

theorem Along.of_forall (all : ∀ input ∈ inputs, ∀ state, ok state input) :
    Along step ok state inputs := by
  induction inputs generalizing state with
  | nil => trivial
  | cons input rest ih =>
      exact ⟨all input (by simp) state, fun next _ =>
        ih (fun other member => all other (by simp [member]))⟩

theorem Along.imp_of_invariant (invariant : σ → Prop) (along : Along step ok state inputs) (initial : invariant state)
    (preserved : ∀ state input next, invariant state → ok state input →
      step state input = some next → invariant next)
    (implied : ∀ state input, invariant state → ok state input → other state input) :
    Along step other state inputs := by
  induction inputs generalizing state with
  | nil => trivial
  | cons input rest ih =>
      obtain ⟨here, later⟩ := along
      exact ⟨implied state input initial here, fun next taken =>
        ih (later next taken) (preserved state input next initial here taken)⟩

theorem run_invariant (invariant : σ → Prop) (along : Along step ok state inputs) (initial : invariant state)
    (preserved : ∀ state input next, invariant state → ok state input →
      step state input = some next → invariant next)
    (reached : run step state inputs = some final) : invariant final := by
  induction inputs generalizing state with
  | nil => exact Option.some.inj reached ▸ initial
  | cons input rest ih =>
      obtain ⟨here, later⟩ := along
      obtain ⟨next, taken, rest⟩ := run_cons_eq_some.mp reached
      exact ih (later next taken) (preserved state input next initial here taken) rest

/-- A run whose every step succeeds under the invariant does not fail. -/
theorem run_total (invariant : σ → Prop) (along : Along step ok state inputs) (initial : invariant state)
    (progress : ∀ state input, invariant state → ok state input →
      ∃ next, step state input = some next ∧ invariant next) :
    ∃ final, run step state inputs = some final ∧ invariant final := by
  induction inputs generalizing state with
  | nil => exact ⟨state, rfl, initial⟩
  | cons input rest ih =>
      obtain ⟨here, later⟩ := along
      obtain ⟨next, taken, kept⟩ := progress state input initial here
      obtain ⟨final, reached, holds⟩ := ih (later next taken) kept
      exact ⟨final, run_cons_eq_some.mpr ⟨next, taken, reached⟩, holds⟩

end

end Helios.Data
