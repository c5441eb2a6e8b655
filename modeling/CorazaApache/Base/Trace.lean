import Mathlib.Data.List.Basic

/-!
# Properties of an event with its past

A safety property of a trace is one of each event together with the events before it.
-/

namespace CorazaApache.Base

variable {α : Type} {P : List α → α → Prop}

/-- Every event of `l`, which happened after `past`, satisfies `P` with all that was before. -/
def AlongFrom (P : List α → α → Prop) (past l : List α) : Prop :=
  ∀ pre x post, l = pre ++ x :: post → P (past ++ pre) x

/-- Every event of a trace satisfies `P` with the events before it. -/
def Along (P : List α → α → Prop) (l : List α) : Prop := AlongFrom P [] l

/-- There is nothing to check. -/
theorem alongFrom_nil (past : List α) : AlongFrom P past [] := by
  intro pre x post h
  exact absurd h (by simp)

/-- The first event is checked against the past, the others against one more. -/
theorem alongFrom_cons {past l : List α} {x : α} :
    AlongFrom P past (x :: l) ↔ P past x ∧ AlongFrom P (past ++ [x]) l := by
  constructor
  · intro h
    refine ⟨by simpa using h [] x l rfl, fun pre y post hl ↦ ?_⟩
    have hy := h (x :: pre) y post (by rw [hl, List.cons_append])
    rwa [List.append_assoc]
  · rintro ⟨hx, hl⟩ pre y post h
    cases pre with
    | nil =>
      obtain ⟨rfl, rfl⟩ := List.cons.inj h
      rwa [List.append_nil]
    | cons z pre =>
      obtain ⟨rfl, rfl⟩ := List.cons.inj h
      have hy := hl pre y post rfl
      rwa [List.append_assoc] at hy

/-- A trace is checked piece by piece. -/
theorem alongFrom_append {past l l' : List α} :
    AlongFrom P past (l ++ l') ↔ AlongFrom P past l ∧ AlongFrom P (past ++ l) l' := by
  induction l generalizing past with
  | nil =>
    rw [List.append_nil, List.nil_append]
    exact ⟨fun h ↦ ⟨alongFrom_nil past, h⟩, fun h ↦ h.2⟩
  | cons x l ih =>
    rw [List.cons_append, alongFrom_cons, alongFrom_cons, ih, List.append_assoc, and_assoc]
    rfl

/-- The second part is checked with the first as its past. -/
theorem along_append {l l' : List α} : Along P (l ++ l') ↔ Along P l ∧ AlongFrom P l l' :=
  alongFrom_append

/-- Events that satisfy `P` with any past. -/
theorem alongFrom_of_forall {past l : List α} (h : ∀ x ∈ l, ∀ pre, P pre x) :
    AlongFrom P past l := by
  intro pre x post hl
  exact h x (by rw [hl]; exact List.mem_append_right _ List.mem_cons_self) _

end CorazaApache.Base
