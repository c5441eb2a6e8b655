import Mathlib.Data.List.DropRight

/-!
# Words and trimmed lines

A text is a list over any alphabet with a set of blanks. A line is trimmed at both ends; the
first word of a text that does not begin with a blank is what stands before its first blank.
-/

namespace CorazaApache.Base

variable {α : Type} {blank : α → Bool}

/-- A line without the blanks at its ends. -/
def trim (blank : α → Bool) (l : List α) : List α := (l.dropWhile blank).rdropWhile blank

/-- The blanks at the end of a line that is not blank. -/
def trailing (blank : α → Bool) (l : List α) : List α := (l.dropWhile blank).rtakeWhile blank

/-- What stands before the first blank. -/
def firstWord (blank : α → Bool) (l : List α) : List α := l.takeWhile fun b ↦ !blank b

/-- Behind the leading blanks stand the trimmed text and the trailing blanks. -/
theorem trim_append_trailing (l : List α) :
    trim blank l ++ trailing blank l = l.dropWhile blank :=
  List.rdropWhile_append_rtakeWhile

/-- The trailing blanks are blank. -/
theorem blank_of_mem_trailing {l : List α} {b : α} (h : b ∈ trailing blank l) : blank b = true :=
  List.mem_rtakeWhile_imp h

/-- Trimming adds nothing. -/
theorem mem_of_mem_trim {l : List α} {b : α} (h : b ∈ trim blank l) : b ∈ l :=
  (List.dropWhile_suffix blank).subset ((List.rdropWhile_prefix blank _).subset h)

/-- A trimmed line is blank only if the line is. -/
theorem trim_eq_nil_iff {l : List α} : trim blank l = [] ↔ ∀ b ∈ l, blank b = true := by
  rw [trim, List.rdropWhile_eq_nil_iff]
  constructor
  · intro h
    rw [← List.dropWhile_eq_nil_iff]
    by_contra hne
    have hhead := List.head_dropWhile_not blank hne
    rw [h _ (List.head_mem hne)] at hhead
    cases hhead
  · intro h
    rw [List.dropWhile_eq_nil_iff.mpr h]
    intro b hb
    cases hb

/-- A trimmed line does not end in a blank. -/
theorem blank_getLast_trim {l : List α} (h : trim blank l ≠ []) :
    blank ((trim blank l).getLast h) = false :=
  Bool.eq_false_iff.mpr (List.rdropWhile_last_not blank _ h)

/-- A trimmed line does not begin with a blank. -/
theorem blank_head_trim {l : List α} (h : trim blank l ≠ []) :
    blank ((trim blank l).head h) = false := by
  have hpre : trim blank l <+: l.dropWhile blank := List.rdropWhile_prefix blank _
  have hne : l.dropWhile blank ≠ [] := by
    intro hnil
    rw [hnil] at hpre
    exact h (List.prefix_nil.mp hpre)
  rw [hpre.head h]
  exact List.head_dropWhile_not blank hne

/-! ### First words -/

/-- A text without blanks is its own first word. -/
theorem firstWord_eq_self_iff {t : List α} :
    firstWord blank t = t ↔ ∀ b ∈ t, blank b = false := by
  rw [firstWord, List.takeWhile_eq_self_iff]
  simp

/-- A text without blanks belongs to the first word as a whole. -/
theorem firstWord_append_of_forall {t : List α} (h : ∀ b ∈ t, blank b = false) (l : List α) :
    firstWord blank (t ++ l) = t ++ firstWord blank l := by
  apply List.takeWhile_append_of_pos
  intro b hb
  rw [h b hb]
  rfl

/-- Behind the first blank nothing changes the first word. -/
theorem firstWord_append_of_ne {t : List α} (h : firstWord blank t ≠ t) (l : List α) :
    firstWord blank (t ++ l) = firstWord blank t := by
  have hlen : (firstWord blank t).length ≠ t.length := by
    intro he
    exact h ((List.takeWhile_prefix _).eq_of_length he)
  rw [firstWord] at hlen
  rw [firstWord, List.takeWhile_append, if_neg hlen, firstWord]

/-- What follows does not remove a blank. -/
theorem firstWord_append_ne {t : List α} (h : firstWord blank t ≠ t) (l : List α) :
    firstWord blank (t ++ l) ≠ t ++ l := by
  intro he
  apply h
  rw [firstWord_eq_self_iff] at he ⊢
  intro b hb
  exact he b (List.mem_append_left l hb)

/-- The first word can only grow with the text. -/
theorem firstWord_prefix_append (t l : List α) :
    firstWord blank t <+: firstWord blank (t ++ l) := by
  by_cases h : firstWord blank t = t
  · rw [firstWord_append_of_forall (firstWord_eq_self_iff.mp h), h]
    exact List.prefix_append t _
  · have he := firstWord_append_of_ne h l
    exact he ▸ List.prefix_rfl

/-- A text that has a blank before its last element still has it without that element. -/
theorem firstWord_ne_of_append_singleton {t : List α} {b : α} (hb : blank b = false)
    (h : firstWord blank (t ++ [b]) ≠ t ++ [b]) : firstWord blank t ≠ t := by
  intro he
  apply h
  rw [firstWord_append_of_forall (firstWord_eq_self_iff.mp he), firstWord,
    List.takeWhile_cons_of_pos (by rw [hb]; rfl), List.takeWhile_nil]

/-- One more element makes the first word longer by one at most. -/
theorem length_firstWord_append_singleton (t : List α) (b : α) :
    (firstWord blank (t ++ [b])).length ≤ (firstWord blank t).length + 1 := by
  by_cases h : firstWord blank t = t
  · have hle := (List.takeWhile_prefix (l := t ++ [b]) fun b ↦ !blank b).length_le
    rw [List.length_append, List.length_singleton] at hle
    rw [h]
    exact hle
  · rw [firstWord_append_of_ne h]
    omega

end CorazaApache.Base
