import Mathlib.Algebra.Order.BigOperators.Group.List
import Mathlib.Algebra.Order.Ring.Nat
import CorazaApache.Base.Framing
import CorazaApache.Base.Recorded
import CorazaApache.Http.Headers

/-!
# Packing a header set and reading it back

`src/mod_coraza.c:162–222`. The guards of `coraza_pack_headers` subtract what is already taken
from the largest `int`, each relying on the one before it; they let through exactly the sets
whose packed size is one, without a wrap on the way. What is then written is read back as it was,
since each field stands behind its length.
-/

namespace CorazaApache.Http
open CorazaApache.Base CorazaApache.Base.Recorded

/-! ### The guards -/

/-- The checks of one entry, `true` where `NULL` is returned; `src/mod_coraza.c:183–189`. -/
def packRefused (w total nlen vlen : Nat) : Recorded Bool :=
  if 0xffff < nlen ∨ intMax < vlen then pure true
  else
    orElse (do pure (decide ((← sub w intMax 6) < total)))
      (orElse (do pure (decide ((← sub w (← sub w intMax 6) total) < nlen)))
        (do pure (decide ((← sub w (← sub w (← sub w intMax 6) total) nlen) < vlen))))

/-- The guard loop over the lengths, from entry `i` on: the total, or `none` where it returns
`NULL`; `src/mod_coraza.c:176–190`. -/
def packGuard (w : Nat) : Nat → Nat → List (Nat × Nat) → Recorded (Option Nat)
  | _, total, [] => pure (some total)
  | i, total, (nlen, vlen) :: rest => do
    if ← packRefused w total nlen vlen then pure none
    else
      let total ← add w total (← add w (← add w 6 nlen) vlen)
      let i ← increment intMax i
      packGuard w i total rest

/-- The bytes entries with these lengths take. -/
def packedSize (lens : List (Nat × Nat)) : Nat := (lens.map fun e ↦ 6 + e.1 + e.2).sum

/-- The entries can be added to `total` bytes: the names fit their length field, and all of it an
`int`. -/
def PackFits (total : Nat) (lens : List (Nat × Nat)) : Prop :=
  (∀ e ∈ lens, e.1 ≤ 0xffff) ∧ total + packedSize lens ≤ intMax

instance (total : Nat) (lens : List (Nat × Nat)) : Decidable (PackFits total lens) :=
  inferInstanceAs (Decidable ((∀ e ∈ lens, e.1 ≤ 0xffff) ∧ _))

private theorem packFits_cons {total nlen vlen : Nat} {rest : List (Nat × Nat)} :
    PackFits total ((nlen, vlen) :: rest) ↔
      nlen ≤ 0xffff ∧ PackFits (total + (6 + nlen + vlen)) rest := by
  simp only [PackFits, packedSize, List.forall_mem_cons, List.map_cons, List.sum_cons, and_assoc,
    Nat.add_assoc]

private theorem intMax_lt {w : Nat} (hw : 32 ≤ w) : intMax < 2 ^ w :=
  Nat.lt_of_lt_of_le (by decide) (Nat.pow_le_pow_right (by decide) hw)

/-- An entry is refused if its name is too long or the total would be. Each subtraction is
evaluated only where the comparison before it has shown that it does not wrap. -/
theorem packRefused_exactly {w : Nat} (total nlen vlen : Nat) (hw : 32 ≤ w) :
    Exactly (packRefused w total nlen vlen)
      (decide (0xffff < nlen ∨ intMax < total + (6 + nlen + vlen))) := by
  have hwide := intMax_lt hw
  have hsix : 6 ≤ intMax := by decide
  have hroom : Exactly (sub w intMax 6) (intMax - 6) := .sub hsix hwide
  unfold packRefused
  split
  · next hlong =>
    rw [decide_eq_true (by omega)]
    exact .pure true
  · next hlong =>
    by_cases htotal : intMax - 6 < total
    · rw [decide_eq_true (by omega)]
      apply Exactly.orElse_left
      rw [← decide_eq_true htotal]
      exact hroom.bind (.pure _)
    · have hleft : Exactly (sub w (intMax - 6) total) (intMax - 6 - total) :=
        .sub (by omega) (by omega)
      have hfirst : Exactly (do pure (decide ((← sub w intMax 6) < total))) false := by
        rw [← decide_eq_false htotal]
        exact hroom.bind (.pure _)
      apply Exactly.orElse_right hfirst
      by_cases hname : intMax - 6 - total < nlen
      · rw [decide_eq_true (by omega)]
        apply Exactly.orElse_left
        rw [← decide_eq_true hname]
        exact hroom.bind (hleft.bind (.pure _))
      · have hrest : Exactly (sub w (intMax - 6 - total) nlen) (intMax - 6 - total - nlen) :=
          .sub (by omega) (by omega)
        have hsecond : Exactly (do pure (decide ((← sub w (← sub w intMax 6) total) < nlen)))
            false := by
          rw [← decide_eq_false hname]
          exact hroom.bind (hleft.bind (.pure _))
        apply Exactly.orElse_right hsecond
        have hvalue : decide (0xffff < nlen ∨ intMax < total + (6 + nlen + vlen)) =
            decide (intMax - 6 - total - nlen < vlen) := by
          apply decide_eq_decide.mpr
          omega
        rw [hvalue]
        exact hroom.bind (hleft.bind (hrest.bind (.pure _)))

/-- The loop accepts what fits. Six bytes an entry keep the counter below the total. -/
theorem packGuard_exactly {w : Nat} (hw : 32 ≤ w) {i total : Nat} (lens : List (Nat × Nat))
    (hi : 6 * i ≤ total) (htotal : total ≤ intMax) :
    Exactly (packGuard w i total lens)
      (if PackFits total lens then some (total + packedSize lens) else none) := by
  have hwide := intMax_lt hw
  induction lens generalizing i total with
  | nil =>
    rw [if_pos ⟨by simp, htotal⟩]
    exact .pure _
  | cons e rest ih =>
    obtain ⟨nlen, vlen⟩ := e
    have hrefused := packRefused_exactly total nlen vlen hw
    rw [packGuard]
    by_cases hr : 0xffff < nlen ∨ intMax < total + (6 + nlen + vlen)
    · rw [decide_eq_true hr] at hrefused
      rw [if_neg]
      · exact hrefused.bind (.pure none)
      · rw [packFits_cons]
        rintro ⟨hname, -, hsum⟩
        omega
    · rw [decide_eq_false hr] at hrefused
      have hfits : PackFits total ((nlen, vlen) :: rest) ↔
          PackFits (total + (6 + nlen + vlen)) rest := by
        rw [packFits_cons]
        exact and_iff_right (by omega)
      have hsize : total + packedSize ((nlen, vlen) :: rest) =
          total + (6 + nlen + vlen) + packedSize rest := by
        rw [packedSize, List.map_cons, List.sum_cons, ← Nat.add_assoc]
        rfl
      have hnext : Exactly (packGuard w (i + 1) (total + (6 + nlen + vlen)) rest) _ :=
        ih (by omega) (by omega)
      rw [hsize, if_congr hfits rfl rfl]
      apply hrefused.bind
      apply Exactly.bind (.add (by omega))
      apply Exactly.bind (.add (by omega))
      apply Exactly.bind (.add (by omega))
      apply Exactly.bind (.increment (by omega))
      exact hnext

/-- The checks as they stand in the loop of `packTotal`. -/
theorem value_packRefused (w total nlen vlen : Nat) :
    (packRefused w total nlen vlen).value = true ↔ (0xffff < nlen ∨ intMax < vlen) ∨
      sizeSub w intMax 6 < total ∨ sizeSub w (sizeSub w intMax 6) total < nlen ∨
        sizeSub w (sizeSub w (sizeSub w intMax 6) total) nlen < vlen := by
  unfold packRefused
  split
  · next hlong => simp [hlong]
  · next hlong =>
    rw [value_orElse, value_orElse, Bool.or_eq_true, Bool.or_eq_true, or_iff_right hlong]
    simp only [value_bind, value_pure, decide_eq_true_eq]
    rfl

/-- The loop computes the total of the packed call. -/
theorem value_packGuard (w i total : Nat) (lens : List (Nat × Nat)) :
    (packGuard w i total lens).value = packTotal w total lens := by
  induction lens generalizing i total with
  | nil => rfl
  | cons e rest ih =>
    obtain ⟨nlen, vlen⟩ := e
    have hiff := value_packRefused w total nlen vlen
    rw [packGuard, packTotal, value_bind]
    cases hr : (packRefused w total nlen vlen).value with
    | true =>
      rcases hiff.mp hr with hlong | hwide
      · rw [if_pos hlong]
        rfl
      · rw [if_pos rfl]
        by_cases hlong : 0xffff < nlen ∨ intMax < vlen
        · rw [if_pos hlong]
          rfl
        · rw [if_neg hlong, if_pos hwide]
          rfl
    | false =>
      have hno := mt hiff.mpr (by rw [hr]; exact Bool.false_ne_true)
      rw [not_or] at hno
      rw [if_neg hno.1, if_neg hno.2]
      exact ih _ _

/-- The total is computed for what fits, and it is the packed size. -/
theorem packTotal_eq {w : Nat} (hw : 32 ≤ w) (lens : List (Nat × Nat)) :
    packTotal w 0 lens = if PackFits 0 lens then some (packedSize lens) else none := by
  rw [← value_packGuard w 0, (packGuard_exactly hw lens (Nat.zero_le _) (Nat.zero_le _)).value,
    Nat.zero_add]

private theorem packedSize_eq_zero_iff (lens : List (Nat × Nat)) :
    packedSize lens = 0 ↔ lens = [] := by
  cases lens with
  | nil => simp [packedSize]
  | cons e rest =>
    rw [packedSize, List.map_cons, List.sum_cons]
    simp

/-! ### The packed call -/

/-- The lengths of the headers of a set. -/
def headerLens (pairs : List HeaderPair) : List (Nat × Nat) :=
  pairs.map fun p ↦ (p.name.length, p.value.length)

/-- A pair with its lengths in the wire format is that long. -/
theorem length_packPair (p : HeaderPair) :
    (packPair p).length = 6 + p.name.length + p.value.length := by
  simp only [packPair, List.length_append, List.length_cons, List.length_nil]
  omega

private theorem length_flatMap_packPair (pairs : List HeaderPair) :
    (pairs.flatMap packPair).length = packedSize (headerLens pairs) := by
  induction pairs with
  | nil => rfl
  | cons p pairs ih =>
    rw [List.flatMap_cons, List.length_append, length_packPair, ih]
    rfl

/-- A set is packed exactly if there is a header in it and it fits. -/
theorem corazaPackHeaders_eq (pairs : List HeaderPair) :
    corazaPackHeaders pairs =
      if pairs ≠ [] ∧ PackFits 0 (headerLens pairs) then
        some (pairs.flatMap packPair, packedSize (headerLens pairs))
      else none := by
  have htotal := packTotal_eq (w := 64) (by decide) (headerLens pairs)
  have hempty : packedSize (headerLens pairs) = 0 ↔ pairs = [] := by
    rw [packedSize_eq_zero_iff, headerLens, List.map_eq_nil_iff]
  unfold corazaPackHeaders
  rw [← headerLens, htotal]
  by_cases hfits : PackFits 0 (headerLens pairs)
  · rw [if_pos hfits]
    by_cases hp : pairs = []
    · rw [if_neg (by simp [hp])]
      exact if_pos (hempty.mpr hp)
    · rw [if_pos ⟨hp, hfits⟩]
      exact if_neg (mt hempty.mp hp)
  · rw [if_neg hfits, if_neg (fun h ↦ hfits h.2)]

/-! ### Reading it back -/

/-- One header in the wire format, as the engine reads it. -/
def unpackHeader : Reader HeaderPair := fun bytes ↦ do
  let (name, rest) ← takeField 2 bytes
  let (value, rest) ← takeField 4 rest
  pure (⟨name, value⟩, rest)

/-- A packed buffer of `len` bytes, as the engine reads it: `count` headers that fill it, or
nothing if the framing does not add up. -/
def unpackHeaders (packed : List UInt8) (len count : Nat) : Option (List HeaderPair) :=
  match takeItems unpackHeader count (packed.take len) with
  | some (pairs, []) => some pairs
  | _ => none

/-- A header whose lengths fit is read back. -/
theorem unpackHeader_packPair {p : HeaderPair} (hname : p.name.length < 256 ^ 2)
    (hvalue : p.value.length < 256 ^ 4) (rest : List UInt8) :
    unpackHeader (packPair p ++ rest) = some (p, rest) := by
  have hpack : packPair p ++ rest = bigEndianBytes 2 p.name.length ++ (p.name ++
      (bigEndianBytes 4 p.value.length ++ (p.value ++ rest))) := by
    simp [packPair, byteAt, bigEndianBytes, Nat.shiftRight_eq_div_pow, Nat.div_div_eq_div_mul]
  rw [hpack]
  show (takeField 2 _).bind _ = _
  rw [takeField_append hname, Option.bind_some]
  show (takeField 4 _).bind _ = _
  rw [takeField_append hvalue, Option.bind_some]
  rfl

/-- In a set that fits, each length fits its field. -/
theorem PackFits.lengths {total : Nat} {pairs : List HeaderPair}
    (h : PackFits total (headerLens pairs)) :
    ∀ p ∈ pairs, p.name.length < 256 ^ 2 ∧ p.value.length < 256 ^ 4 := by
  have hint : intMax < 256 ^ 4 := by decide
  intro p hp
  have hmem : (p.name.length, p.value.length) ∈ headerLens pairs :=
    List.mem_map.mpr ⟨p, hp, rfl⟩
  have hname := h.1 _ hmem
  have hsum : 6 + p.name.length + p.value.length ≤ packedSize (headerLens pairs) :=
    List.single_le_sum (fun n _ ↦ Nat.zero_le n) _ (List.mem_map.mpr ⟨_, hmem, rfl⟩)
  have hfits := h.2
  dsimp only at hname
  omega

/-- What `coraza_pack_headers` packs is read back as it was, its length is the buffer's, and
fits an `int`. -/
theorem unpackHeaders_corazaPackHeaders {pairs : List HeaderPair} {packed : List UInt8} {len : Nat}
    (h : corazaPackHeaders pairs = some (packed, len)) :
    len = packed.length ∧ len ≤ intMax ∧ unpackHeaders packed len pairs.length = some pairs := by
  rw [corazaPackHeaders_eq] at h
  split at h
  · next hfits =>
    cases h
    have hlen := length_flatMap_packPair pairs
    have hread := takeItems_flatMap (fun p hp ↦
      unpackHeader_packPair (hfits.2.lengths p hp).1 (hfits.2.lengths p hp).2) []
    have hint := hfits.2.2
    rw [Nat.zero_add] at hint
    rw [List.append_nil] at hread
    apply And.intro hlen.symm
    apply And.intro hint
    rw [unpackHeaders, ← hlen, List.take_length, hread]
  · cases h

/-- Packing keeps all there is: `packed_len` is the sum over the entries and the number of bytes
written, the reader gets the list back that was packed, and no other list of as many headers is
packed to the same bytes. -/
theorem packHeaders_round_trip {pairs : List HeaderPair} {packed : List UInt8} {len : Nat}
    (h : corazaPackHeaders pairs = some (packed, len)) :
    len = (pairs.map fun p ↦ 6 + p.name.length + p.value.length).sum ∧ len = packed.length ∧
      unpackHeaders packed len pairs.length = some pairs ∧
      ∀ pairs' len', corazaPackHeaders pairs' = some (packed, len') →
        pairs'.length = pairs.length → pairs' = pairs := by
  obtain ⟨hlen, -, hread⟩ := unpackHeaders_corazaPackHeaders h
  have hsum : packedSize (headerLens pairs) =
      (pairs.map fun p ↦ 6 + p.name.length + p.value.length).sum := by
    rw [packedSize, headerLens, List.map_map]
    rfl
  apply And.intro
  · rw [corazaPackHeaders_eq] at h
    split at h
    · cases h
      exact hsum
    · cases h
  apply And.intro hlen
  apply And.intro hread
  intro pairs' len' h' hcount
  obtain ⟨hlen', -, hread'⟩ := unpackHeaders_corazaPackHeaders h'
  rw [hlen', ← hlen, hcount, hread] at hread'
  exact (Option.some.inj hread').symm

/-- A header without name and value, and one whose value looks like a whole entry. -/
theorem packHeaders_round_trip_framing :
    unpackHeaders [0, 0, 0, 0, 0, 0, 0, 1, 65, 0, 0, 0, 7, 0, 1, 65, 0, 0, 0, 0] 20 2 =
      some [⟨[], []⟩, ⟨[65], [0, 1, 65, 0, 0, 0, 0]⟩] := by
  have hpack : corazaPackHeaders [⟨[], []⟩, ⟨[65], [0, 1, 65, 0, 0, 0, 0]⟩] =
      some ([0, 0, 0, 0, 0, 0, 0, 1, 65, 0, 0, 0, 7, 0, 1, 65, 0, 0, 0, 0], 20) := by
    decide +kernel
  exact (packHeaders_round_trip hpack).2.2.1

/-! ### Any lengths the caller gives -/

/-- `coraza_header_pair_t` as a caller fills it: what stands behind the two pointers, and the
lengths, which are any values of a `size_t`; `src/mod_coraza.h:159–164`. -/
structure CorazaHeaderPair where
  name : Nat → UInt8
  nameLen : Nat
  value : Nat → UInt8
  valueLen : Nat

/-- `memcpy` of `len` bytes. -/
def memcpy (p : Nat → UInt8) (len : Nat) : List UInt8 := (List.range len).map p

/-- A number of `size_t` as an `int`. -/
def toInt (n : Nat) : Int := (n : Int).bmod (2 ^ 32)

namespace CorazaHeaderPair

/-- The two lengths. -/
def lens (p : CorazaHeaderPair) : Nat × Nat := (p.nameLen, p.valueLen)

/-- The bytes the lengths reach over. -/
def copied (p : CorazaHeaderPair) : HeaderPair :=
  ⟨memcpy p.name p.nameLen, memcpy p.value p.valueLen⟩

/-- A pair the caller fills from bytes it has. -/
def ofBytes (p : HeaderPair) : CorazaHeaderPair :=
  ⟨(p.name.getD · 0), p.name.length, (p.value.getD · 0), p.value.length⟩

end CorazaHeaderPair

/-- The entries behind the pointer `pairs`, as many as `count` says. -/
def givenPairs (pairs : Nat → CorazaHeaderPair) (count : Int) : List CorazaHeaderPair :=
  (List.range count.toNat).map pairs

/-- `coraza_pack_headers` with a `size_t` of `w` bits: the buffer and `*packed_len`, or `none` for
`NULL`, with the arithmetic of its guard loop; `src/mod_coraza.c:168–222`. -/
def corazaPackHeadersAt (w : Nat) (pairs : Nat → CorazaHeaderPair) (count : Int) :
    Recorded (Option (List UInt8 × Int)) := do
  let given := givenPairs pairs count
  match ← packGuard w 0 0 (given.map CorazaHeaderPair.lens) with
  | none => pure none
  | some total =>
    if total = 0 then pure none
    else pure (some (given.flatMap fun p ↦ packPair p.copied, toInt total))

private theorem toInt_of_le {n : Nat} (h : n ≤ intMax) : toInt n = n := by
  have hmax : intMax = 2147483647 := rfl
  rw [hmax] at h
  apply Int.bmod_eq_of_le <;> omega

/-- `memcpy` copies as many bytes as it is told to. -/
@[simp] theorem length_memcpy (p : Nat → UInt8) (len : Nat) : (memcpy p len).length = len := by
  rw [memcpy, List.length_map, List.length_range]

private theorem memcpy_getD (bytes : List UInt8) :
    memcpy (bytes.getD · 0) bytes.length = bytes := by
  apply List.ext_getElem
  · exact length_memcpy _ _
  · intro i hi hb
    simp [memcpy, hb]

private theorem headerLens_copied (given : List CorazaHeaderPair) :
    headerLens (given.map CorazaHeaderPair.copied) = given.map CorazaHeaderPair.lens := by
  rw [headerLens, List.map_map]
  apply List.map_congr_left
  intro p _
  simp [CorazaHeaderPair.copied, CorazaHeaderPair.lens]

/-- What the call gives, exactly, at any width that holds an `int`. -/
theorem corazaPackHeadersAt_exactly {w : Nat} (hw : 32 ≤ w) (pairs : Nat → CorazaHeaderPair)
    (count : Int) :
    Exactly (corazaPackHeadersAt w pairs count)
      (if 0 < count ∧ PackFits 0 ((givenPairs pairs count).map CorazaHeaderPair.lens) then
        some ((givenPairs pairs count).flatMap fun p ↦ packPair p.copied,
          (packedSize ((givenPairs pairs count).map CorazaHeaderPair.lens) : Int))
      else none) := by
  set given := givenPairs pairs count with hgiven
  have hguard := packGuard_exactly hw (given.map CorazaHeaderPair.lens) (i := 0)
    (Nat.le_refl 0) (Nat.zero_le intMax)
  rw [Nat.zero_add] at hguard
  have hcount : packedSize (given.map CorazaHeaderPair.lens) = 0 ↔ ¬ 0 < count := by
    rw [packedSize_eq_zero_iff, List.map_eq_nil_iff, hgiven, givenPairs, List.map_eq_nil_iff,
      List.range_eq_nil]
    omega
  unfold corazaPackHeadersAt
  rw [← hgiven]
  by_cases hfits : PackFits 0 (given.map CorazaHeaderPair.lens)
  · rw [if_pos hfits] at hguard
    apply hguard.bind
    dsimp only
    by_cases hc : 0 < count
    · rw [if_neg (fun h ↦ hcount.mp h hc), if_pos ⟨hc, hfits⟩, toInt_of_le]
      · exact .pure _
      · have hint := hfits.2
        rwa [Nat.zero_add] at hint
    · rw [if_pos (hcount.mpr hc), if_neg (fun h ↦ hc h.1)]
      exact .pure _
  · rw [if_neg hfits] at hguard
    rw [if_neg (fun h ↦ hfits h.2)]
    exact hguard.bind (.pure _)

/-- On pairs filled from bytes it is the call the hooks make. -/
theorem corazaPackHeadersAt_ofBytes (pairs : List HeaderPair) :
    (corazaPackHeadersAt 64 (fun i ↦ .ofBytes (pairs.getD i ⟨[], []⟩)) pairs.length).value =
      (corazaPackHeaders pairs).map fun x ↦ (x.1, (x.2 : Int)) := by
  have hgiven : givenPairs (fun i ↦ .ofBytes (pairs.getD i ⟨[], []⟩)) pairs.length =
      pairs.map CorazaHeaderPair.ofBytes := by
    apply List.ext_getElem
    · simp [givenPairs]
    · intro i hi hb
      rw [List.length_map] at hb
      simp [givenPairs, hb]
  have hcopied (p : HeaderPair) : (CorazaHeaderPair.ofBytes p).copied = p := by
    rw [CorazaHeaderPair.copied, CorazaHeaderPair.ofBytes, memcpy_getD, memcpy_getD]
  have hlens : (pairs.map CorazaHeaderPair.ofBytes).map CorazaHeaderPair.lens =
      headerLens pairs := by
    rw [List.map_map]
    rfl
  have hcount : 0 < (pairs.length : Int) ↔ pairs ≠ [] := by
    rw [← List.length_pos_iff]
    omega
  rw [(corazaPackHeadersAt_exactly (by decide) _ _).value, corazaPackHeaders_eq, hgiven, hlens]
  simp only [hcount, List.flatMap_map, hcopied]
  split <;> rfl

/-- Packing accepts exactly what fits: for any count and any lengths, a buffer is returned if
there is an entry, every name fits its length field and the whole fits an `int`; no addition or
subtraction on the way wraps, and neither does the length given back. -/
theorem packHeaders_accepts_iff {w : Nat} (hw : 32 ≤ w) (pairs : Nat → CorazaHeaderPair)
    (count : Int) :
    let size := ((List.range count.toNat).map fun i ↦
      6 + (pairs i).nameLen + (pairs i).valueLen).sum
    ((corazaPackHeadersAt w pairs count).value.isSome ↔
        0 < count ∧ (∀ i < count.toNat, (pairs i).nameLen ≤ 0xffff) ∧ size ≤ intMax) ∧
      (∀ o ∈ (corazaPackHeadersAt w pairs count).ops, o.Exact) ∧
      ∀ packed len, (corazaPackHeadersAt w pairs count).value = some (packed, len) →
        len = size ∧ packed.length = size := by
  intro size
  have hexact := corazaPackHeadersAt_exactly hw pairs count
  set given := givenPairs pairs count with hgiven
  have hsize : packedSize (given.map CorazaHeaderPair.lens) = size := by
    rw [packedSize, hgiven, givenPairs, List.map_map, List.map_map]
    rfl
  have hfits : PackFits 0 (given.map CorazaHeaderPair.lens) ↔
      (∀ i < count.toNat, (pairs i).nameLen ≤ 0xffff) ∧ size ≤ intMax := by
    rw [PackFits, hsize, Nat.zero_add]
    simp [hgiven, givenPairs, CorazaHeaderPair.lens]
  have hwritten : (given.flatMap fun p ↦ packPair p.copied).length = size := by
    rw [← hsize, ← headerLens_copied, ← length_flatMap_packPair, List.flatMap_map]
  rw [hsize] at hexact
  apply And.intro
  · rw [hexact.value, ← hfits]
    split
    · next h => simp [h]
    · next h => simp [h]
  apply And.intro hexact.exact
  intro packed len hsome
  rw [hexact.value] at hsome
  split at hsome
  · cases hsome
    exact ⟨rfl, hwritten⟩
  · cases hsome

/-- A set of exactly as many bytes as the largest `int`, one byte more, and lengths whose sum
wraps around. -/
theorem packHeaders_accepts_largest :
    let pair (nameLen valueLen : Nat) : CorazaHeaderPair :=
      ⟨fun _ ↦ 0, nameLen, fun _ ↦ 0, valueLen⟩
    (corazaPackHeadersAt 64 (fun _ ↦ pair 65535 2147418106) 1).value.isSome ∧
      ¬ (corazaPackHeadersAt 64 (fun _ ↦ pair 65535 2147418107) 1).value.isSome ∧
      ¬ (corazaPackHeadersAt 32 (fun _ ↦ pair 0 4294967290) 2).value.isSome := by
  intro pair
  have haccepts {w : Nat} (hw : 32 ≤ w) (p : CorazaHeaderPair) (count : Int) :=
    (packHeaders_accepts_iff hw (fun _ ↦ p) count).1
  rw [haccepts (by decide), haccepts (by decide), haccepts (by decide)]
  decide

end CorazaApache.Http
