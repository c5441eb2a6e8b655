import Mathlib.Algebra.Group.Nat.Defs

/-!
# Length-prefixed fields

A field is written behind its length, and the length as a big-endian number of fixed width. A
reader of such a format takes bytes from the front and says what is left, so readers compose;
what they read back is what was written, whatever stands behind it.
-/

namespace CorazaApache.Base

/-- A reader of `α`: what stands in front, and what is left. -/
abbrev Reader (α : Type) := List UInt8 → Option (α × List UInt8)

/-- The number that big-endian bytes stand for. -/
def bigEndian (bytes : List UInt8) : Nat := bytes.foldl (fun n b ↦ 256 * n + b.toNat) 0

/-- The lowest `k` bytes of `n`, the highest of them first. -/
def bigEndianBytes : Nat → Nat → List UInt8
  | 0, _ => []
  | k + 1, n => bigEndianBytes k (n / 256) ++ [UInt8.ofNat n]

/-- Take `k` bytes. -/
def takeBytes (k : Nat) : Reader (List UInt8) := fun bytes ↦
  if k ≤ bytes.length then some (bytes.take k, bytes.drop k) else none

/-- Take a field that stands behind its length in `k` bytes. -/
def takeField (k : Nat) : Reader (List UInt8) := fun bytes ↦ do
  let (len, rest) ← takeBytes k bytes
  takeBytes (bigEndian len) rest

/-- Take `n` items. -/
def takeItems {α : Type} (item : Reader α) : Nat → Reader (List α)
  | 0 => fun bytes ↦ some ([], bytes)
  | n + 1 => fun bytes ↦ do
    let (a, rest) ← item bytes
    let (as, rest) ← takeItems item n rest
    pure (a :: as, rest)

/-- The field has the width it is written with. -/
@[simp] theorem length_bigEndianBytes (k n : Nat) : (bigEndianBytes k n).length = k := by
  induction k generalizing n with
  | zero => rfl
  | succ k ih => rw [bigEndianBytes, List.length_append, ih, List.length_singleton]

/-- A number that fits is read back. -/
theorem bigEndian_bigEndianBytes {k n : Nat} (h : n < 256 ^ k) :
    bigEndian (bigEndianBytes k n) = n := by
  induction k generalizing n with
  | zero =>
    rw [pow_zero] at h
    exact (Nat.lt_one_iff.mp h).symm
  | succ k ih =>
    have hhigh : n / 256 < 256 ^ k := by
      rw [pow_succ] at h
      exact Nat.div_lt_of_lt_mul (by rwa [Nat.mul_comm])
    have hlow : (UInt8.ofNat n).toNat = n % 256 := UInt8.toNat_ofNat'
    have hjoin : bigEndian (bigEndianBytes k (n / 256) ++ [UInt8.ofNat n]) =
        256 * bigEndian (bigEndianBytes k (n / 256)) + (UInt8.ofNat n).toNat := by
      rw [bigEndian, List.foldl_append]
      rfl
    rw [bigEndianBytes, hjoin, ih hhigh, hlow]
    omega

private theorem takeBytes_append (bytes rest : List UInt8) :
    takeBytes bytes.length (bytes ++ rest) = some (bytes, rest) := by
  rw [takeBytes, if_pos (by rw [List.length_append]; omega), List.take_left, List.drop_left]

/-- A field is read back. -/
theorem takeField_append {k : Nat} {field : List UInt8} (h : field.length < 256 ^ k)
    (rest : List UInt8) :
    takeField k (bigEndianBytes k field.length ++ (field ++ rest)) = some (field, rest) := by
  have hlen := takeBytes_append (bigEndianBytes k field.length) (field ++ rest)
  rw [length_bigEndianBytes] at hlen
  show (takeBytes k _).bind _ = _
  rw [hlen, Option.bind_some]
  show takeBytes (bigEndian (bigEndianBytes k field.length)) (field ++ rest) = _
  rw [bigEndian_bigEndianBytes h]
  exact takeBytes_append field rest

/-- Items are read back if each of them is. -/
theorem takeItems_flatMap {α : Type} {item : Reader α} {write : α → List UInt8} {as : List α}
    (h : ∀ a ∈ as, ∀ rest, item (write a ++ rest) = some (a, rest)) (rest : List UInt8) :
    takeItems item as.length (as.flatMap write ++ rest) = some (as, rest) := by
  induction as with
  | nil => rfl
  | cons a as ih =>
    obtain ⟨ha, has⟩ := List.forall_mem_cons.mp h
    rw [List.flatMap_cons, List.append_assoc]
    show (item _).bind _ = _
    rw [ha, Option.bind_some]
    show (takeItems item as.length _).bind _ = _
    rw [ih has]
    rfl

end CorazaApache.Base
