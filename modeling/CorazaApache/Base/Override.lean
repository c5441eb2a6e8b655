import Mathlib.Data.List.Basic

/-!
# Settings that override each other

A setting has one value, `unset`, that stands for not having been made. Of two settings the
inner one counts if it was made. Over nested scopes the innermost setting counts, however the
scopes are grouped.
-/

namespace CorazaApache.Base

variable {α : Type} [DecidableEq α]

/-- The inner setting, or the outer one where the inner was not made. -/
def override (unset outer inner : α) : α := if inner ≠ unset then inner else outer

/-- An inner setting that is not made leaves the outer one. -/
theorem override_unset_right (unset outer : α) : override unset outer unset = outer :=
  if_neg fun h ↦ h rfl

/-- Without an outer setting the inner one stands. -/
theorem override_unset_left (unset inner : α) : override unset unset inner = inner := by
  unfold override
  split
  · rfl
  · next h => exact (not_not.mp h).symm

/-- Three levels may be merged from either side. -/
theorem override_assoc (unset a b c : α) :
    override unset (override unset a b) c = override unset a (override unset b c) := by
  by_cases hc : c = unset
  · rw [hc, override_unset_right, override_unset_right]
  · have hset (outer : α) : override unset outer c = c := if_pos hc
    rw [hset, hset, hset]

/-- The innermost setting that was made, for scopes from the outermost to the innermost. -/
def innermost (unset : α) (settings : List α) : α :=
  (settings.reverse.find? fun s ↦ decide (s ≠ unset)).getD unset

/-- The only setting is the innermost. -/
@[simp] theorem innermost_singleton (unset s : α) : innermost unset [s] = s := by
  by_cases hs : s = unset <;> simp [innermost, hs]

/-- Scopes can be grouped. -/
theorem innermost_append (unset : α) (outer inner : List α) :
    innermost unset (outer ++ inner) =
      override unset (innermost unset outer) (innermost unset inner) := by
  unfold innermost
  rw [List.reverse_append, List.find?_append]
  cases hf : inner.reverse.find? fun s ↦ decide (s ≠ unset) with
  | none =>
    rw [Option.none_or]
    exact (override_unset_right unset _).symm
  | some s =>
    have hs := List.find?_some hf
    rw [decide_eq_true_iff] at hs
    exact (if_pos hs).symm

/-- A chain of settings is merged from the outside in. -/
theorem innermost_cons (unset s : α) (inner : List α) :
    innermost unset (s :: inner) = override unset s (innermost unset inner) := by
  rw [← List.singleton_append, innermost_append, innermost_singleton]

end CorazaApache.Base
