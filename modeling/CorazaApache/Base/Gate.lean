import Mathlib.Data.List.TakeWhile
import CorazaApache.Base.Run

/-!
# A run behind a gate

A machine writes events, and what is put out of them comes through while a gate is open. One
kind of event shuts the gate. If the step it happens in puts out nothing, what comes through is
what the events before it put out.
-/

namespace CorazaApache.Base

variable {σ ι ε β : Type}

/-- The events of a run, step by step. -/
def eventsOf (step : σ → ι → σ) (events : σ → ι → List ε) (s : σ) (is : List ι) : List ε :=
  (visits step s is).flatMap fun v ↦ events v.1 v.2

/-- What comes through the gate in a run. -/
def throughGate (step : σ → ι → σ) (events : σ → ι → List ε) (shut : σ → Bool) (out : ε → List β)
    (s : σ) (is : List ι) : List β :=
  (visits step s is).flatMap fun v ↦ if shut v.1 then [] else (events v.1 v.2).flatMap out

section

variable {step : σ → ι → σ} {events : σ → ι → List ε} {shut : σ → Bool} {out : ε → List β}
  {cut : ε → Bool} {s : σ} {i : ι}

/-- The events of the first step come first. -/
@[simp] theorem eventsOf_cons (is : List ι) : eventsOf step events s (i :: is) =
    events s i ++ eventsOf step events (step s i) is := List.flatMap_cons

/-- A shut gate lets nothing of the first step through. -/
@[simp] theorem throughGate_cons (is : List ι) : throughGate step events shut out s (i :: is) =
    (if shut s then [] else (events s i).flatMap out) ++
      throughGate step events shut out (step s i) is := List.flatMap_cons

/-- What a step does to the gate. -/
inductive GateStep (step : σ → ι → σ) (events : σ → ι → List ε) (shut : σ → Bool)
    (out : ε → List β) (cut : ε → Bool) (s : σ) (i : ι) : Prop
  | uncut (none : ∀ x ∈ events s i, cut x = false) (same : shut (step s i) = shut s)
  | cut (some : ∃ x ∈ events s i, cut x = true) (shut : shut (step s i) = true)
      (silent : ∀ x ∈ events s i, out x = [])

private theorem GateStep.stays (h : GateStep step events shut out cut s i) (hs : shut s = true) :
    shut (step s i) = true := by
  cases h with
  | uncut _ same => exact same.trans hs
  | cut _ shut _ => exact shut

/-- What comes behind the first such event does not count. -/
theorem takeWhile_append_of_cut {l : List ε} (h : ∃ x ∈ l, cut x = true) (l' : List ε) :
    ((l ++ l').takeWhile fun x ↦ !cut x) = l.takeWhile fun x ↦ !cut x := by
  rw [List.takeWhile_append, if_neg]
  intro hall
  obtain ⟨x, hx, hcut⟩ := h
  have htake := (List.takeWhile_prefix fun x ↦ !cut x).eq_of_length hall
  have hneg := List.takeWhile_eq_self_iff.mp htake x hx
  rw [hcut] at hneg
  cases hneg

/-- A part of what puts nothing out puts nothing out. -/
theorem flatMap_takeWhile_of_silent {l : List ε} (h : ∀ x ∈ l, out x = []) :
    (l.takeWhile fun x ↦ !cut x).flatMap out = [] :=
  List.flatMap_eq_nil_iff.mpr fun x hx ↦ h x ((List.takeWhile_sublist _).mem hx)

variable (I : σ → Prop)

/-- Nothing comes through a shut gate. -/
theorem throughGate_shut (hstep : ∀ s i, I s → I (step s i) ∧
    GateStep step events shut out cut s i) (hs : I s) (hshut : shut s = true) (is : List ι) :
    throughGate step events shut out s is = [] := by
  induction is generalizing s with
  | nil => rfl
  | cons i is ih =>
    obtain ⟨hi, hgate⟩ := hstep s i hs
    rw [throughGate_cons, if_pos hshut, ih hi (hgate.stays hshut)]
    rfl

/-- What comes through a gate that is open is what is put out before the first such event. -/
theorem throughGate_eq (hstep : ∀ s i, I s → I (step s i) ∧
    GateStep step events shut out cut s i) (hs : I s) (hopen : shut s = false) (is : List ι) :
    throughGate step events shut out s is =
      ((eventsOf step events s is).takeWhile fun x ↦ !cut x).flatMap out := by
  induction is generalizing s with
  | nil => rfl
  | cons i is ih =>
    obtain ⟨hi, hgate⟩ := hstep s i hs
    rw [throughGate_cons, if_neg (Bool.eq_false_iff.mp hopen), eventsOf_cons]
    cases hgate with
    | uncut none same =>
      have hpos : ∀ x ∈ events s i, (!cut x) = true := by
        intro x hx
        rw [none x hx, Bool.not_false]
      rw [List.takeWhile_append_of_pos hpos, List.flatMap_append, ih hi (same.trans hopen)]
    | cut some shut silent =>
      have hsilent : (events s i).flatMap out = [] := List.flatMap_eq_nil_iff.mpr silent
      rw [takeWhile_append_of_cut some, flatMap_takeWhile_of_silent silent, hsilent,
        throughGate_shut I hstep hi shut]
      rfl

end

end CorazaApache.Base
