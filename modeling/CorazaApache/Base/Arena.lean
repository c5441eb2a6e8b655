import Mathlib.Data.List.GetD

/-!
# Pool-allocated objects

Objects allocated from a pool that outlives them: `alloc` never reuses an address, an
address is the allocation's position, and an object is read and overwritten in place.
Reading an address that was never allocated gives the default object, so every
operation is total.
-/

namespace CorazaApache.Base

/-- Objects in allocation order. -/
structure Arena (α : Type) where
  cells : List α
  deriving DecidableEq, Repr

namespace Arena

variable {α : Type} [Inhabited α]

/-- A pool with no object in it. -/
def empty : Arena α := ⟨[]⟩

/-- Number of objects allocated so far, which is the next address. -/
def size (a : Arena α) : Nat := a.cells.length

/-- The object at an address. -/
def get (a : Arena α) (i : Nat) : α := a.cells.getD i default

/-- Allocate an object; its address is the old `size`. -/
def alloc (a : Arena α) (x : α) : Arena α := ⟨a.cells ++ [x]⟩

/-- Overwrite the object at an address. -/
def set (a : Arena α) (i : Nat) (x : α) : Arena α := ⟨a.cells.set i x⟩

omit [Inhabited α] in
omit [Inhabited α] in
/-- An allocation adds one object. -/
@[simp] theorem size_alloc (a : Arena α) (x : α) : (a.alloc x).size = a.size + 1 := by
  simp [alloc, size]

omit [Inhabited α] in
/-- A store adds none. -/
@[simp] theorem size_set (a : Arena α) (i : Nat) (x : α) : (a.set i x).size = a.size := by
  simp [set, size]

/-- An address that was never allocated reads the default object. -/
theorem get_of_size_le (a : Arena α) (i : Nat) (h : a.size ≤ i) : a.get i = default :=
  List.getD_eq_default _ _ h

/-- What is not the default object was allocated. -/
theorem lt_size_of_ne (a : Arena α) {i : Nat} (h : a.get i ≠ default) : i < a.size := by
  refine Nat.lt_of_not_le fun hle ↦ ?_
  exact h (a.get_of_size_le i hle)

/-- The new object is found at the old size. -/
@[simp] theorem get_alloc_self (a : Arena α) (x : α) : (a.alloc x).get a.size = x := by
  simp [get, alloc, size, List.getD_eq_getElem?_getD]

/-- Allocation leaves every earlier object alone. -/
theorem get_alloc_of_lt (a : Arena α) (x : α) (i : Nat) (h : i < a.size) :
    (a.alloc x).get i = a.get i := by
  simp only [get, alloc, List.getD_eq_getElem?_getD]
  rw [List.getElem?_append_left h]

/-- Every address reads the new object or what it read before. -/
theorem get_alloc (a : Arena α) (x : α) (i : Nat) :
    (a.alloc x).get i = if i = a.size then x else a.get i := by
  split
  · next h => rw [h, get_alloc_self]
  · next h =>
    by_cases hi : i < a.size
    · exact get_alloc_of_lt a x i hi
    · rw [get_of_size_le _ _ (by rw [size_alloc]; omega), get_of_size_le _ _ (by omega)]

/-- An overwritten object reads back. -/
theorem get_set_self (a : Arena α) (i : Nat) (x : α) (h : i < a.size) :
    (a.set i x).get i = x := by
  simp only [get, set, List.getD_eq_getElem?_getD]
  rw [List.getElem?_set_self h, Option.getD_some]

/-- Overwriting one object leaves the others alone. -/
theorem get_set_ne (a : Arena α) (i j : Nat) (x : α) (h : i ≠ j) :
    (a.set i x).get j = a.get j := by
  simp only [get, set, List.getD_eq_getElem?_getD]
  rw [List.getElem?_set_ne h]

/-- After an overwrite an address reads the new object only if it is that address. -/
theorem get_set (a : Arena α) (i j : Nat) (x : α) :
    (a.set i x).get j = if i = j ∧ j < a.size then x else a.get j := by
  split
  · next h => rw [h.1, get_set_self a j x h.2]
  · next h =>
    by_cases hi : i = j
    · subst hi
      have hs : a.size ≤ i := by omega
      rw [get_of_size_le _ _ (by rw [size_set]; exact hs), get_of_size_le _ _ hs]
    · exact get_set_ne a i j x hi

omit [Inhabited α] in
/-- Overwriting an object and allocating another one commute. -/
theorem set_alloc_of_lt (a : Arena α) (x y : α) (i : Nat) (h : i < a.size) :
    (a.alloc x).set i y = (a.set i y).alloc x := by
  simp only [set, alloc]
  rw [List.set_append_left _ _ h]

end Arena
end CorazaApache.Base
