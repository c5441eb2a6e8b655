import Mathlib.Data.List.Basic

/-!
# Bucket brigades

A brigade is a list of buckets. A data bucket is one readable piece: reading a bucket of
unknown length splits it in place, so a file or pipe bucket is the list of its pieces.
`Symbols` is the byte stream a reader sees, with its end-of-stream markers. The brigade
functions of APR-util that split and copy are parameters, `BrigadeOps`, with their documented
behaviour as `BrigadeOps.Documented`.
-/

namespace CorazaApache.Apr

/-- Where the bytes of a data bucket are kept. -/
inductive Storage where
  | heap
  | file
  | other
  deriving DecidableEq, Repr

/-- A bucket: readable data, data that cannot be read, end of stream, or other metadata. -/
inductive Bucket where
  | data (storage : Storage) (bytes : List UInt8)
  | unreadable (id : Nat)
  | eos
  | metadata (id : Nat)
  deriving DecidableEq, Repr

/-- An `apr_bucket_brigade`, first bucket first. -/
abbrev Brigade := List Bucket

/-- One unit of what a reader of a brigade sees. -/
inductive Symbol where
  | byte (b : UInt8)
  | eos
  deriving DecidableEq, Repr

namespace Bucket

/-- The bytes a bucket holds. -/
def bytes : Bucket → List UInt8
  | data _ bs => bs
  | _ => []

/-- What a reader sees of a bucket. -/
def symbols : Bucket → List Symbol
  | data _ bs => bs.map .byte
  | eos => [.eos]
  | _ => []

/-- The bytes a bucket holds in memory. -/
def heapBytes : Bucket → List UInt8
  | data .heap bs => bs
  | _ => []

/-- `APR_BUCKET_IS_EOS`. -/
def isEos : Bucket → Bool
  | eos => true
  | _ => false

/-- A blocking read of the bucket succeeds. -/
def readable : Bucket → Bool
  | unreadable _ => false
  | _ => true

end Bucket

/-- The data bytes of a brigade, in order. -/
def dataBytes (bb : Brigade) : List UInt8 := bb.flatMap Bucket.bytes

/-- What a reader of the brigade sees. -/
def symbols (bb : Brigade) : List Symbol := bb.flatMap Bucket.symbols

/-- Number of bytes a brigade holds in memory. -/
def heapLen (bb : Brigade) : Nat := (bb.flatMap Bucket.heapBytes).length

/-- Whether a brigade carries an end-of-stream bucket. -/
def hasEos (bb : Brigade) : Bool := bb.any Bucket.isEos

/-- An empty brigade has no data. -/
@[simp] theorem dataBytes_nil : dataBytes [] = [] := rfl

/-- The data of the first bucket comes first. -/
@[simp] theorem dataBytes_cons (b : Bucket) (bb : Brigade) :
    dataBytes (b :: bb) = b.bytes ++ dataBytes bb := rfl

/-- The data of two brigades, one after the other. -/
@[simp] theorem dataBytes_append (bb cc : Brigade) :
    dataBytes (bb ++ cc) = dataBytes bb ++ dataBytes cc := List.flatMap_append

/-- There is nothing to read in an empty brigade. -/
@[simp] theorem symbols_nil : symbols [] = [] := rfl

/-- What the first bucket holds is read first. -/
@[simp] theorem symbols_cons (b : Bucket) (bb : Brigade) :
    symbols (b :: bb) = b.symbols ++ symbols bb := rfl

/-- Two brigades are read one after the other. -/
@[simp] theorem symbols_append (bb cc : Brigade) :
    symbols (bb ++ cc) = symbols bb ++ symbols cc := List.flatMap_append

/-- The memory of two brigades adds up. -/
@[simp] theorem heapLen_append (bb cc : Brigade) :
    heapLen (bb ++ cc) = heapLen bb + heapLen cc := by
  simp [heapLen, List.flatMap_append]

/-- An empty brigade has no end of stream. -/
@[simp] theorem hasEos_nil : hasEos [] = false := rfl

/-- The end of stream is the first bucket or behind it. -/
@[simp] theorem hasEos_cons (b : Bucket) (bb : Brigade) :
    hasEos (b :: bb) = (b.isEos || hasEos bb) := rfl

/-- The end of stream of two brigades is in one of them. -/
@[simp] theorem hasEos_append (bb cc : Brigade) :
    hasEos (bb ++ cc) = (hasEos bb || hasEos cc) := List.any_append

/-- The bytes among the symbols of a stream. -/
def symbolBytes (s : List Symbol) : List UInt8 :=
  s.filterMap fun
    | .byte b => some b
    | .eos => none

/-- The bytes among two readings, one after the other. -/
@[simp] theorem symbolBytes_append (s t : List Symbol) :
    symbolBytes (s ++ t) = symbolBytes s ++ symbolBytes t := List.filterMap_append

/-- A reading of bytes alone is these bytes. -/
@[simp] theorem symbolBytes_map_byte (bs : List UInt8) : symbolBytes (bs.map .byte) = bs := by
  induction bs with
  | nil => rfl
  | cons b bs ih => simp_all [symbolBytes]

/-- A reader gets the data bytes of a brigade. -/
theorem symbolBytes_symbols (bb : Brigade) : symbolBytes (symbols bb) = dataBytes bb := by
  induction bb with
  | nil => rfl
  | cons b bb ih =>
    rw [symbols_cons, symbolBytes_append, dataBytes_cons, ih]
    congr 1
    cases b with
    | data storage bytes => exact symbolBytes_map_byte bytes
    | unreadable id => rfl
    | eos => rfl
    | metadata id => rfl

/-- How `apr_brigade_partition` returns; every other code is an error. -/
inductive PartitionStatus where
  | success
  | incomplete
  | error
  deriving DecidableEq, Repr

/-- The APR-util functions used on saved bodies. `partition` and `splitLine` return the two
parts the brigade is cut into. -/
structure BrigadeOps where
  brigadeWrite : Brigade → List UInt8 → Brigade
  partition : Brigade → Nat → PartitionStatus × Brigade × Brigade
  splitLine : Brigade → Nat → Brigade × Brigade
  copy : Bucket → Bucket

/-- What APR-util documents of these functions when no read or allocation fails:
`apr_brigade_write` adds the bytes in memory, `apr_brigade_partition` cuts at a byte offset or
finds the brigade shorter, `apr_brigade_split_line` takes at least something off a brigade that
is not empty, and a copied bucket reads like the original. Both cuts leave the buckets behind
the point as they are, in particular a last end-of-stream bucket. -/
structure BrigadeOps.Documented (ops : BrigadeOps) : Prop where
  write_symbols : ∀ bb bs, symbols (ops.brigadeWrite bb bs) = symbols bb ++ bs.map .byte
  write_heap : ∀ bb bs, heapLen (ops.brigadeWrite bb bs) = heapLen bb + bs.length
  partition_symbols : ∀ bb n,
    symbols (ops.partition bb n).2.1 ++ symbols (ops.partition bb n).2.2 = symbols bb
  partition_success : ∀ bb n, 0 < n → n ≤ (dataBytes bb).length →
    (ops.partition bb n).1 = .success ∧ (dataBytes (ops.partition bb n).2.1).length = n
  partition_incomplete : ∀ bb n, (dataBytes bb).length < n →
    (ops.partition bb n).1 = .incomplete ∧ (ops.partition bb n).2.2 = []
  partition_last : ∀ bb n, bb.getLast? = some .eos →
    ((ops.partition bb n).2.1 ++ (ops.partition bb n).2.2).getLast? = some .eos
  splitLine_symbols : ∀ bb n,
    symbols (ops.splitLine bb n).1 ++ symbols (ops.splitLine bb n).2 = symbols bb
  splitLine_progress : ∀ bb n, 0 < n → symbols bb ≠ [] → symbols (ops.splitLine bb n).1 ≠ []
  splitLine_last : ∀ bb n, bb.getLast? = some .eos → (ops.splitLine bb n).2 ≠ [] →
    (ops.splitLine bb n).2.getLast? = some .eos
  copy_symbols : ∀ b, (ops.copy b).symbols = b.symbols

/-! ### An implementation on lists -/

/-- `apr_brigade_partition` at a positive offset. -/
def listPartition : Brigade → Nat → PartitionStatus × Brigade × Brigade
  | [], _ => (.incomplete, [], [])
  | b :: bb, n =>
    match b with
    | .data storage bs =>
      if n < bs.length then
        (.success, [.data storage (bs.take n)], .data storage (bs.drop n) :: bb)
      else if n = bs.length then (.success, [b], bb)
      else
        let (st, before, after) := listPartition bb (n - bs.length)
        (st, b :: before, after)
    | _ =>
      let (st, before, after) := listPartition bb n
      (st, b :: before, after)

/-- The byte that ends a line. -/
def lineFeed : UInt8 := 10

/-- `apr_brigade_split_line` once `read` bytes have been taken without a line feed: cut behind
the first line feed, or behind the bucket with which `max` bytes are reached. -/
def listSplitLine (max : Nat) : Nat → Brigade → Brigade × Brigade
  | _, [] => ([], [])
  | read, b :: bb =>
    match b with
    | .data storage bs =>
      if lineFeed ∈ bs then
        let n := bs.idxOf lineFeed + 1
        ([.data storage (bs.take n)], .data storage (bs.drop n) :: bb)
      else if max ≤ read + bs.length then ([b], bb)
      else
        let (out, rest) := listSplitLine max (read + bs.length) bb
        (b :: out, rest)
    | _ =>
      let (out, rest) := listSplitLine max read bb
      (b :: out, rest)

/-- Brigades as lists. -/
def listOps : BrigadeOps where
  brigadeWrite bb bs := bb ++ [.data .heap bs]
  partition := listPartition
  splitLine bb max := listSplitLine max 0 bb
  copy b := b

/-- Cutting a data bucket in two keeps what a reader sees. -/
theorem symbols_cut (storage : Storage) (bs : List UInt8) (n : Nat) :
    (Bucket.data storage (bs.take n)).symbols ++ (Bucket.data storage (bs.drop n)).symbols =
      (Bucket.data storage bs).symbols := by
  simp only [Bucket.symbols]
  rw [← List.map_append, List.take_append_drop]

private theorem symbols_listPartition (bb : Brigade) (n : Nat) :
    symbols (listPartition bb n).2.1 ++ symbols (listPartition bb n).2.2 = symbols bb := by
  induction bb generalizing n with
  | nil => rfl
  | cons b bb ih =>
    cases b with
    | data storage bs =>
      rw [listPartition]
      split
      · simp only [symbols_cons, symbols_nil, List.append_nil]
        rw [← List.append_assoc, symbols_cut]
      · split
        · simp
        · simp only [symbols_cons, List.append_assoc, ih]
    | unreadable id => simp only [listPartition, symbols_cons, List.append_assoc, ih]
    | eos => simp only [listPartition, symbols_cons, List.append_assoc, ih]
    | metadata id => simp only [listPartition, symbols_cons, List.append_assoc, ih]

private theorem listPartition_success (bb : Brigade) (n : Nat) (h0 : 0 < n)
    (h : n ≤ (dataBytes bb).length) :
    (listPartition bb n).1 = .success ∧ (dataBytes (listPartition bb n).2.1).length = n := by
  induction bb generalizing n with
  | nil =>
    rw [dataBytes_nil, List.length_nil] at h
    omega
  | cons b bb ih =>
    rw [dataBytes_cons, List.length_append] at h
    cases b with
    | data storage bs =>
      rw [listPartition]
      simp only [Bucket.bytes] at h
      split
      · next hlt => simp [Bucket.bytes, Nat.le_of_lt hlt]
      · split
        · next he => simp [Bucket.bytes, he]
        · obtain ⟨hs, hl⟩ := ih (n - bs.length) (by omega) (by omega)
          refine ⟨hs, ?_⟩
          rw [dataBytes_cons, List.length_append, hl, Bucket.bytes]
          omega
    | unreadable id => exact ih n h0 (by simpa [Bucket.bytes] using h)
    | eos => exact ih n h0 (by simpa [Bucket.bytes] using h)
    | metadata id => exact ih n h0 (by simpa [Bucket.bytes] using h)

private theorem listPartition_incomplete (bb : Brigade) (n : Nat) (h : (dataBytes bb).length < n) :
    (listPartition bb n).1 = .incomplete ∧ (listPartition bb n).2.2 = [] := by
  induction bb generalizing n with
  | nil => exact ⟨rfl, rfl⟩
  | cons b bb ih =>
    rw [dataBytes_cons, List.length_append] at h
    cases b with
    | data storage bs =>
      simp only [Bucket.bytes] at h
      rw [listPartition, if_neg (by omega), if_neg (by omega)]
      exact ih (n - bs.length) (by omega)
    | unreadable id => exact ih n (by simpa [Bucket.bytes] using h)
    | eos => exact ih n (by simpa [Bucket.bytes] using h)
    | metadata id => exact ih n (by simpa [Bucket.bytes] using h)

/-- The last bucket behind a taken bucket is the last one of the rest, unless there is none. -/
private theorem getLast?_take {b : Bucket} {bb cc : Brigade}
    (h : (b :: bb).getLast? = some .eos) (hcons : bb.getLast? = some .eos → cc.getLast? = some .eos)
    (hnil : bb = [] → cc = []) : (b :: cc).getLast? = some .eos := by
  rw [List.getLast?_cons] at h ⊢
  cases hl : bb.getLast? with
  | none =>
    rw [hnil (List.getLast?_eq_none_iff.mp hl)]
    rw [hl] at h
    exact h
  | some x =>
    rw [hl] at h
    rw [hcons (hl.trans h)]
    rfl

private theorem listPartition_last (bb : Brigade) (n : Nat) (h : bb.getLast? = some .eos) :
    ((listPartition bb n).2.1 ++ (listPartition bb n).2.2).getLast? = some .eos := by
  induction bb generalizing n with
  | nil => cases h
  | cons b bb ih =>
    have hrec (m : Nat) : (b :: ((listPartition bb m).2.1 ++
        (listPartition bb m).2.2)).getLast? = some .eos :=
      getLast?_take h (ih m) (by rintro rfl; rfl)
    cases b with
    | data storage bs =>
      rw [listPartition]
      split
      · cases bb with
        | nil => cases h
        | cons c cc =>
          rw [List.getLast?_cons_cons] at h
          rw [List.singleton_append, List.getLast?_cons_cons, List.getLast?_cons_cons]
          exact h
      · split
        · exact h
        · exact hrec _
    | unreadable id => exact hrec _
    | eos => exact hrec _
    | metadata id => exact hrec _

private theorem symbols_listSplitLine (max read : Nat) (bb : Brigade) :
    symbols (listSplitLine max read bb).1 ++ symbols (listSplitLine max read bb).2 =
      symbols bb := by
  induction bb generalizing read with
  | nil => rfl
  | cons b bb ih =>
    cases b with
    | data storage bs =>
      rw [listSplitLine]
      split
      · simp only [symbols_cons, symbols_nil, List.append_nil]
        rw [← List.append_assoc, symbols_cut]
      · split
        · simp
        · simp only [symbols_cons, List.append_assoc, ih]
    | unreadable id => simp only [listSplitLine, symbols_cons, List.append_assoc, ih]
    | eos => simp only [listSplitLine, symbols_cons, List.append_assoc, ih]
    | metadata id => simp only [listSplitLine, symbols_cons, List.append_assoc, ih]

private theorem listSplitLine_last (max read : Nat) (bb : Brigade) (h : bb.getLast? = some .eos)
    (hne : (listSplitLine max read bb).2 ≠ []) :
    (listSplitLine max read bb).2.getLast? = some .eos := by
  induction bb generalizing read with
  | nil => cases h
  | cons b bb ih =>
    have htail (hbb : bb ≠ []) : bb.getLast? = some .eos := by
      rw [List.getLast?_cons_of_ne_nil hbb] at h
      exact h
    have hrec (m : Nat) (hm : (listSplitLine max m bb).2 ≠ []) :
        (listSplitLine max m bb).2.getLast? = some .eos := by
      refine ih m (htail ?_) hm
      rintro rfl
      exact hm rfl
    cases b with
    | data storage bs =>
      rw [listSplitLine] at hne ⊢
      split
      · cases bb with
        | nil => cases h
        | cons c cc =>
          rw [List.getLast?_cons_cons] at h ⊢
          exact h
      · next hlf =>
        rw [if_neg hlf] at hne
        split
        · next hmax =>
          rw [if_pos hmax] at hne
          exact htail hne
        · next hmax =>
          rw [if_neg hmax] at hne
          exact hrec _ hne
    | unreadable id => exact hrec _ hne
    | eos => exact hrec _ hne
    | metadata id => exact hrec _ hne

private theorem listSplitLine_progress (max read : Nat) (hm : read < max) (bb : Brigade)
    (h : symbols bb ≠ []) : symbols (listSplitLine max read bb).1 ≠ [] := by
  induction bb with
  | nil => exact absurd rfl h
  | cons b bb ih =>
    cases b with
    | data storage bs =>
      rw [listSplitLine]
      split
      · next hlf =>
        have hne : bs ≠ [] := List.ne_nil_of_mem hlf
        simp [Bucket.symbols, hne]
      · cases bs with
        | nil =>
          rw [if_neg (by simpa using hm)]
          exact ih h
        | cons x xs => split <;> simp [Bucket.symbols]
    | unreadable id => exact ih h
    | eos => simp [listSplitLine, Bucket.symbols]
    | metadata id => exact ih h

/-- The list implementation behaves as documented. -/
theorem documented_listOps : listOps.Documented where
  write_symbols bb bs := by simp [listOps, Bucket.symbols]
  write_heap bb bs := by simp [listOps, heapLen, Bucket.heapBytes]
  partition_symbols := symbols_listPartition
  partition_success := listPartition_success
  partition_incomplete := listPartition_incomplete
  partition_last := listPartition_last
  splitLine_symbols bb max := symbols_listSplitLine max 0 bb
  splitLine_progress bb max hm := listSplitLine_progress max 0 hm bb
  splitLine_last bb max := listSplitLine_last max 0 bb
  copy_symbols _ := rfl

end CorazaApache.Apr
