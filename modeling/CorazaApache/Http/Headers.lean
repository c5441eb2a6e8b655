import Mathlib.Algebra.Group.Nat.Defs
import CorazaApache.Base.CString

/-!
# Header tables and their packed form

An `apr_table_t` is its list of entries in order. The module hands the engine all headers in
one packed buffer, `src/mod_coraza.c:162–222`: for each header a two-byte name length, the
name, a four-byte value length and the value, lengths big-endian. Sizes are computed in
`size_t`, so the guard is written with that type's wrap-around and its width as a parameter.
The functions of APR that look an entry up and set one are parameters, `TableOps`, with their
documented behaviour as `TableOps.Documented`.
-/

namespace CorazaApache.Http
open CorazaApache.Base

/-- The entries of an `apr_table_t`; either pointer may be `NULL`. -/
abbrev Table := List (Option CString × Option CString)

/-- `coraza_header_pair_t`: a name and a value with their lengths. -/
structure HeaderPair where
  name : List UInt8
  value : List UInt8
  deriving DecidableEq, Repr

/-- `INT_MAX`. -/
def intMax : Nat := 2147483647

/-- Collect the entries with a key; a `NULL` value counts as the empty string. The loop is the
same for requests and responses: `src/mod_coraza_phase1.c:247–256`,
`src/mod_coraza_filter_out.c:197–206,215–224`. -/
def collectPairs (t : Table) : List HeaderPair :=
  t.filterMap fun e ↦ e.1.map fun key ↦ ⟨key.bytes, (e.2.map CString.bytes).getD []⟩

/-! ### What a table says -/

/-- The header set of a table: the entries with a key, in table order and each once, with all
bytes of name and value. An entry without a key says nothing, a `NULL` value is the empty
string. -/
inductive HeaderSet : Table → List HeaderPair → Prop
  | nil : HeaderSet [] []
  | unkeyed {value : Option CString} {t : Table} {pairs : List HeaderPair}
      (rest : HeaderSet t pairs) : HeaderSet ((none, value) :: t) pairs
  | valued {key value : CString} {t : Table} {pairs : List HeaderPair} (rest : HeaderSet t pairs) :
      HeaderSet ((some key, some value) :: t) (⟨key.bytes, value.bytes⟩ :: pairs)
  | valueless {key : CString} {t : Table} {pairs : List HeaderPair} (rest : HeaderSet t pairs) :
      HeaderSet ((some key, none) :: t) (⟨key.bytes, []⟩ :: pairs)

/-- The loop collects the header set of the table, and a table has no other. -/
theorem headerSet_iff {t : Table} {pairs : List HeaderPair} :
    HeaderSet t pairs ↔ pairs = collectPairs t := by
  constructor
  · intro h
    induction h with
    | nil => rfl
    | unkeyed _ ih => exact ih
    | valued _ ih => exact congrArg (_ :: ·) ih
    | valueless _ ih => exact congrArg (_ :: ·) ih
  · rintro rfl
    induction t with
    | nil => exact .nil
    | cons e t ih =>
      obtain ⟨key, value⟩ := e
      cases key with
      | none => exact .unkeyed ih
      | some key =>
        cases value with
        | none => exact .valueless ih
        | some value => exact .valued ih

/-! ### Setting an entry -/

/-- The functions of APR on a table that decide what the module leaves in `headers_out`. -/
structure TableOps where
  get : Table → CString → Option CString
  set : Table → CString → CString → Table

/-- What APR documents of these functions: behind `apr_table_set`, `apr_table_get` finds the new
value under the key. -/
structure TableOps.Documented (ops : TableOps) : Prop where
  get_set : ∀ t key value, ops.get (ops.set t key value) key = some value

/-- Keys match without regard to ASCII case. -/
def keyMatches (key : CString) (e : Option CString × Option CString) : Bool :=
  match e.1 with
  | none => false
  | some k => k.bytes.map asciiLower == key.bytes.map asciiLower

/-- The functions on lists: the first entry with the key counts, and setting it drops the others
with that key, or appends one where there is none. -/
def listTables : TableOps where
  get t key := (t.find? (keyMatches key)).bind Prod.snd
  set t key value :=
    match t.dropWhile (fun e ↦ !keyMatches key e) with
    | [] => t ++ [(some key, some value)]
    | e :: after =>
      t.takeWhile (fun e ↦ !keyMatches key e) ++
        (e.1, some value) :: after.filter (fun e ↦ !keyMatches key e)

/-- They behave as documented. -/
theorem documented_listTables : listTables.Documented where
  get_set t key value := by
    have hskip (before after : Table) (h : ∀ e ∈ before, keyMatches key e = false) :
        (before ++ after).find? (keyMatches key) = after.find? (keyMatches key) := by
      rw [List.find?_append, List.find?_eq_none.mpr fun e he ↦ Bool.eq_false_iff.mp (h e he),
        Option.none_or]
    have hhit (e : Option CString × Option CString) (after : Table)
        (h : keyMatches key e = true) : ((e.1, some value) :: after).find? (keyMatches key) =
          some (e.1, some value) := List.find?_cons_of_pos h
    simp only [listTables]
    split
    · next hnone =>
      rw [hskip t, hhit (some key, none) []]
      · rfl
      · exact beq_self_eq_true _
      · intro e he
        simpa using List.dropWhile_eq_nil_iff.mp hnone e he
    · next e after hdrop =>
      have he : keyMatches key e = true := by
        have hhead := List.head_dropWhile_not (fun e ↦ !keyMatches key e) (l := t)
          (by rw [hdrop]; exact List.cons_ne_nil _ _)
        simpa [hdrop] using hhead
      rw [hskip, hhit e _ he]
      · rfl
      · intro e he
        simpa using List.mem_takeWhile_imp he

/-! ### The packed form -/

/-- `a + b` in a `size_t` of `w` bits. -/
def sizeAdd (w a b : Nat) : Nat := (a + b) % 2 ^ w

/-- `a - b` in a `size_t` of `w` bits. -/
def sizeSub (w a b : Nat) : Nat := (a + 2 ^ w - b % 2 ^ w) % 2 ^ w

/-- The guard loop of `coraza_pack_headers` over the lengths: the packed total, or `none` where
it returns `NULL`; `src/mod_coraza.c:176–194`. -/
def packTotal (w : Nat) : Nat → List (Nat × Nat) → Option Nat
  | total, [] => some total
  | total, (nlen, vlen) :: rest =>
    if 0xffff < nlen ∨ intMax < vlen then none
    else if sizeSub w intMax 6 < total ∨ sizeSub w (sizeSub w intMax 6) total < nlen ∨
        sizeSub w (sizeSub w (sizeSub w intMax 6) total) nlen < vlen then none
    else packTotal w (sizeAdd w total (sizeAdd w (sizeAdd w 6 nlen) vlen)) rest

/-- The low byte of `n >> shift`. -/
def byteAt (n shift : Nat) : UInt8 := UInt8.ofNat (n >>> shift)

/-- One header in the wire format; `src/mod_coraza.c:201–219`. -/
def packPair (p : HeaderPair) : List UInt8 :=
  [byteAt p.name.length 8, byteAt p.name.length 0] ++ p.name ++
    [byteAt p.value.length 24, byteAt p.value.length 16, byteAt p.value.length 8,
      byteAt p.value.length 0] ++ p.value

/-- `coraza_pack_headers`: the buffer and the length handed to the engine, or `none` for
`NULL`; `src/mod_coraza.c:168–222`. -/
def corazaPackHeaders (pairs : List HeaderPair) : Option (List UInt8 × Nat) :=
  match packTotal 64 0 (pairs.map fun p ↦ (p.name.length, p.value.length)) with
  | none => none
  | some total => if total = 0 then none else some (pairs.flatMap packPair, total)

end CorazaApache.Http
