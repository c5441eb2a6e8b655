import Mathlib.Data.List.Basic

/-!
# Runs of a state machine

A run folds a step function over the inputs it receives. `visits` lists every step of a
run with the state it was taken in, so that a property of each step of every run is a
property of the members of that list; an invariant of the step gives both.
-/

namespace CorazaApache.Base

variable {σ ι : Type}

/-- Every step of the run, as the state before it and its input. -/
def visits (step : σ → ι → σ) : σ → List ι → List (σ × ι)
  | _, [] => []
  | s, i :: is => (s, i) :: visits step (step s i) is

/-- No step is visited. -/
@[simp] theorem visits_nil (step : σ → ι → σ) (s : σ) : visits step s [] = [] := rfl

/-- The first step is visited in the first state. -/
@[simp] theorem visits_cons (step : σ → ι → σ) (s : σ) (i : ι) (is : List ι) :
    visits step s (i :: is) = (s, i) :: visits step (step s i) is := rfl

/-- The steps of two runs, the second from where the first ends. -/
theorem visits_append (step : σ → ι → σ) (s : σ) (is js : List ι) :
    visits step s (is ++ js) = visits step s is ++ visits step (is.foldl step s) js := by
  induction is generalizing s with
  | nil => rfl
  | cons i is ih => exact congrArg ((s, i) :: ·) (ih (step s i))

/-- What a step keeps whenever its condition holds is kept by a run all of whose steps meet
the condition, and holds in the state before each of its steps. -/
theorem visits_invariant {step : σ → ι → σ} {I : σ → Prop} {C : σ → ι → Prop}
    (hstep : ∀ s i, I s → C s i → I (step s i)) {s : σ} {is : List ι} (h : I s)
    (hc : ∀ v ∈ visits step s is, C v.1 v.2) :
    I (is.foldl step s) ∧ ∀ v ∈ visits step s is, I v.1 := by
  induction is generalizing s with
  | nil => exact ⟨h, by simp⟩
  | cons i is ih =>
    rw [visits_cons] at hc
    obtain ⟨hi, hr⟩ := List.forall_mem_cons.mp hc
    obtain ⟨hl, hv⟩ := ih (hstep s i h hi) hr
    exact ⟨hl, List.forall_mem_cons.mpr ⟨h, hv⟩⟩

end CorazaApache.Base
