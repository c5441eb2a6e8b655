import Mathlib.Data.List.TakeWhile

/-!
# NUL-terminated strings

A C string is the bytes before its terminator, so it carries no NUL byte. `strcmp`
equality is equality of these bytes and `strlen` is their number.
-/

namespace CorazaApache.Base

/-- The bytes of a C string, without the terminator. -/
structure CString where
  bytes : List UInt8
  noNul : (0 : UInt8) ∉ bytes
  deriving DecidableEq

namespace CString

/-- The C string a buffer holds: its bytes up to the first NUL. -/
def ofBytes (bs : List UInt8) : CString where
  bytes := bs.takeWhile (· ≠ 0)
  noNul := fun h ↦ by simpa using List.mem_takeWhile_imp h

/-- A string literal of the C source; these are all ASCII. -/
def ofString (s : String) : CString := ofBytes (s.toList.map (fun c ↦ UInt8.ofNat c.toNat))

instance : Inhabited CString := ⟨⟨[], by simp⟩⟩

/-- `strlen`. -/
def length (s : CString) : Nat := s.bytes.length

/-- C strings with the same bytes are equal. -/
@[ext] theorem ext {a b : CString} (h : a.bytes = b.bytes) : a = b := by
  cases a
  cases b
  congr 1

end CString

/-- `tolower` in the C locale. -/
def asciiLower (b : UInt8) : UInt8 := if 65 ≤ b ∧ b ≤ 90 then b + 32 else b

/-- `strncasecmp(a, b, n) == 0` over buffers of at least `n` bytes or shorter C strings. -/
def strncaseeq (a b : List UInt8) (n : Nat) : Bool :=
  (a.take n).map asciiLower == (b.take n).map asciiLower

end CorazaApache.Base
