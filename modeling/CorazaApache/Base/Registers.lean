/-!
# Registers written in rounds

Each round has a register as its target. One that every round overwrites holds what the last
round with something to write wrote; one that is only written while it is unset holds the first
value it was given.
-/

namespace CorazaApache.Base

variable {ρ α : Type} [DecidableEq ρ] {target : Nat → Option ρ} {unset : α} {r : ρ}

/-- A register after `n` rounds that overwrite it, where a round may have nothing to write. -/
def lastWrite (target : Nat → Option ρ) (write : Nat → Option α) (unset : α) (r : ρ) : Nat → α
  | 0 => unset
  | n + 1 =>
    if target n = some r then (write n).getD (lastWrite target write unset r n)
    else lastWrite target write unset r n

/-- A register after `n` rounds that write it while it is unset. -/
def firstWrite [DecidableEq α] (target : Nat → Option ρ) (value : Nat → α) (unset : α) (r : ρ) :
    Nat → α
  | 0 => unset
  | n + 1 =>
    if target n = some r ∧ firstWrite target value unset r n = unset then value n
    else firstWrite target value unset r n

/-- A value stays until another is written. -/
theorem lastWrite_eq_of_last {write : Nat → Option α} {k n : Nat} (hk : k < n) {a : α}
    (ht : target k = some r) (hw : write k = some a)
    (hlast : ∀ j, k < j → j < n → target j = some r → write j = none) :
    lastWrite target write unset r n = a := by
  induction n with
  | zero => exact absurd hk (Nat.not_lt_zero k)
  | succ n ih =>
    rw [lastWrite]
    by_cases hkn : k = n
    · subst hkn
      rw [if_pos ht, hw, Option.getD_some]
    · have hlt : k < n := by omega
      have hrest := ih hlt fun j hkj hj ↦ hlast j hkj (Nat.lt_succ_of_lt hj)
      split
      · next hn => rw [hlast n hlt (Nat.lt_succ_self n) hn, Option.getD_none, hrest]
      · exact hrest

/-- A register that is set was set by some round. -/
theorem exists_of_lastWrite_ne {write : Nat → Option α} {n : Nat}
    (h : lastWrite target write unset r n ≠ unset) :
    ∃ k < n, target k = some r ∧ write k = some (lastWrite target write unset r n) := by
  induction n with
  | zero => exact absurd rfl h
  | succ n ih =>
    rw [lastWrite] at h ⊢
    have hearlier (h : lastWrite target write unset r n ≠ unset) :
        ∃ k < n + 1, target k = some r ∧ write k = some (lastWrite target write unset r n) := by
      obtain ⟨k, hk, hw⟩ := ih h
      exact ⟨k, Nat.lt_succ_of_lt hk, hw⟩
    split at h
    · next hn =>
      rw [if_pos hn]
      cases hw : write n with
      | none =>
        rw [hw, Option.getD_none] at h
        exact hearlier h
      | some a => exact ⟨n, Nat.lt_succ_self n, hn, hw⟩
    · next hn =>
      rw [if_neg hn]
      exact hearlier h

variable [DecidableEq α] {value : Nat → α}

private theorem firstWrite_eq_unset {n : Nat} (h : ∀ k < n, target k = some r → value k = unset) :
    firstWrite target value unset r n = unset := by
  induction n with
  | zero => rfl
  | succ n ih =>
    have hn := ih fun k hk ↦ h k (Nat.lt_succ_of_lt hk)
    rw [firstWrite]
    split
    · next ht => exact h n (Nat.lt_succ_self n) ht.1
    · exact hn

/-- The first value stays. -/
theorem firstWrite_eq_of_first {k n : Nat} (hk : k < n) (ht : target k = some r)
    (hv : value k ≠ unset) (hfirst : ∀ i < k, target i = some r → value i = unset) :
    firstWrite target value unset r n = value k := by
  induction n with
  | zero => exact absurd hk (Nat.not_lt_zero k)
  | succ n ih =>
    rw [firstWrite]
    by_cases hkn : k = n
    · subst hkn
      exact if_pos ⟨ht, firstWrite_eq_unset hfirst⟩
    · have hn := ih (by omega)
      rw [hn]
      exact if_neg fun h ↦ hv h.2

end CorazaApache.Base
