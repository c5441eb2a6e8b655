import Mathlib.Algebra.Group.Nat.Defs

/-!
# Arithmetic that records its operations

Machine arithmetic wraps silently, so a program that guards against it cannot be judged by its
result alone. Here a computation carries the additions and subtractions it makes, in order and
with the operands it makes them on; what it does not get to evaluate is not recorded. The rule
for a sequence reduces the exactness of all of them to that of its parts.
-/

namespace CorazaApache.Base

/-- An operation on unsigned numbers up to `bound`. -/
inductive MachineOp where
  | add (bound a b : Nat)
  | sub (bound a b : Nat)
  deriving DecidableEq, Repr

namespace MachineOp

/-- The result does not wrap. -/
def Exact : MachineOp → Prop
  | add bound a b => a + b ≤ bound
  | sub _ a b => b ≤ a

instance : (o : MachineOp) → Decidable o.Exact
  | add bound a b => inferInstanceAs (Decidable (a + b ≤ bound))
  | sub _ a b => inferInstanceAs (Decidable (b ≤ a))

end MachineOp

/-- A value and the operations made for it. -/
structure Recorded (α : Type) where
  value : α
  ops : List MachineOp

namespace Recorded

variable {α β : Type}

instance : Monad Recorded where
  pure a := ⟨a, []⟩
  bind x f := ⟨(f x.value).value, x.ops ++ (f x.value).ops⟩

/-- `a + b` on unsigned numbers of `w` bits. -/
def add (w a b : Nat) : Recorded Nat := ⟨(a + b) % 2 ^ w, [.add (2 ^ w - 1) a b]⟩

/-- `a - b` on unsigned numbers of `w` bits. -/
def sub (w a b : Nat) : Recorded Nat := ⟨(a + 2 ^ w - b % 2 ^ w) % 2 ^ w, [.sub (2 ^ w - 1) a b]⟩

/-- `i + 1` on a counter up to `bound`. -/
def increment (bound i : Nat) : Recorded Nat := ⟨i + 1, [.add bound i 1]⟩

/-- `x || y`: the second is evaluated only if the first does not hold. -/
def orElse (x y : Recorded Bool) : Recorded Bool := do
  if ← x then pure true else y

/-- A value is its own value. -/
@[simp] theorem value_pure (a : α) : (pure a : Recorded α).value = a := rfl

/-- It takes no operation. -/
@[simp] theorem ops_pure (a : α) : (pure a : Recorded α).ops = [] := rfl

/-- The second step works on the value of the first. -/
@[simp] theorem value_bind (x : Recorded α) (f : α → Recorded β) :
    (x >>= f).value = (f x.value).value := rfl

/-- The operations of the two steps, in order. -/
@[simp] theorem ops_bind (x : Recorded α) (f : α → Recorded β) :
    (x >>= f).ops = x.ops ++ (f x.value).ops := rfl

/-- The value of a short-circuit disjunction is that of the disjunction. -/
theorem value_orElse (x y : Recorded Bool) : (orElse x y).value = (x.value || y.value) := by
  rw [orElse, value_bind]
  cases x.value <;> rfl

/-- The computation gives `a`, and no operation on the way wraps. -/
structure Exactly (x : Recorded α) (a : α) : Prop where
  value : x.value = a
  exact : ∀ o ∈ x.ops, o.Exact

namespace Exactly

variable {x : Recorded α} {a : α}

/-- A value is computed exactly. -/
theorem pure (a : α) : Exactly (Pure.pure a : Recorded α) a := ⟨rfl, by simp⟩

/-- A sequence is exact if its parts are. -/
theorem bind {f : α → Recorded β} {b : β} (hx : Exactly x a) (hf : Exactly (f a) b) :
    Exactly (x >>= f) b := by
  constructor
  · rw [value_bind, hx.value]
    exact hf.value
  · rw [ops_bind, hx.value]
    exact List.forall_mem_append.mpr ⟨hx.exact, hf.exact⟩

/-- A sum that fits is computed exactly. -/
theorem add {w a b : Nat} (h : a + b < 2 ^ w) : Exactly (Recorded.add w a b) (a + b) := by
  constructor
  · exact Nat.mod_eq_of_lt h
  · intro o ho
    rw [Recorded.add, List.mem_singleton] at ho
    rw [ho]
    show a + b ≤ 2 ^ w - 1
    omega

/-- So is a difference that does not go below zero. -/
theorem sub {w a b : Nat} (h : b ≤ a) (ha : a < 2 ^ w) :
    Exactly (Recorded.sub w a b) (a - b) := by
  constructor
  · have hb : b % 2 ^ w = b := Nat.mod_eq_of_lt (Nat.lt_of_le_of_lt h ha)
    have hsub : a + 2 ^ w - b = a - b + 2 ^ w := by omega
    rw [Recorded.sub, hb, hsub, Nat.add_mod_right]
    apply Nat.mod_eq_of_lt
    omega
  · intro o ho
    rw [Recorded.sub, List.mem_singleton] at ho
    rw [ho]
    exact h

/-- So is a counter below its bound. -/
theorem increment {bound i : Nat} (h : i < bound) :
    Exactly (Recorded.increment bound i) (i + 1) := by
  constructor
  · rfl
  · intro o ho
    rw [Recorded.increment, List.mem_singleton] at ho
    rw [ho]
    exact h

/-- If the first holds, the second is not evaluated. -/
theorem orElse_left {y : Recorded Bool} {x : Recorded Bool} (hx : Exactly x true) :
    Exactly (Recorded.orElse x y) true := hx.bind (pure true)

/-- A disjunction whose first side is false goes on to its second. -/
theorem orElse_right {x y : Recorded Bool} {b : Bool} (hx : Exactly x false) (hy : Exactly y b) :
    Exactly (Recorded.orElse x y) b := hx.bind hy

end Exactly
end Recorded
end CorazaApache.Base
