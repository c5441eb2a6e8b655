import CorazaApache.Config.Records

/-!
# The scan follows the assembly

One line moves the scan as it moves the assembly of records. The scan remembers of a record
only its first word, in a buffer of 32 bytes; `Tracks` says what the buffer holds. It holds
the word itself, while it is being read and once it is complete, or the word cannot be that of
a refused record any more, neither for the scan nor for the record. The one place where they
part is a backslash inside the word with blanks behind it: there the scan takes the word to
have ended, and the record goes on.
-/

namespace CorazaApache.Config
open CorazaApache.Base

/-! ### The word buffer -/

/-- The refused directive a word stands for. -/
def unsupportedWord (w : List UInt8) : Option (List UInt8) :=
  corazaUnsupportedDirectives.find? fun d ↦ w.map asciiLower == d.map asciiLower

/-- The word of the scan is judged. -/
theorem corazaRulesScanWord_eq (s : CorazaRulesScan) :
    corazaRulesScanWord s = unsupportedWord s.word := by
  have hsame (d : List UInt8) : (s.word.length == d.length &&
      strncaseeq s.word d s.word.length) = (s.word.map asciiLower == d.map asciiLower) := by
    rw [Bool.eq_iff_iff, Bool.and_eq_true, beq_iff_eq, beq_iff_eq, strncaseeq, beq_iff_eq,
      List.take_length]
    constructor
    · rintro ⟨hl, hw⟩
      rwa [hl, List.take_length] at hw
    · intro hw
      have hl : s.word.length = d.length := by simpa using congrArg List.length hw
      rw [hl, List.take_length]
      exact ⟨rfl, hw⟩
  rw [corazaRulesScanWord, unsupportedWord]
  simp only [hsame]

/-- A word is unsupported because a directive of the list is, whatever the case. -/
theorem unsupportedWord_eq_some {w d : List UInt8} (h : unsupportedWord w = some d) :
    d ∈ corazaUnsupportedDirectives ∧ w.map asciiLower = d.map asciiLower :=
  ⟨List.mem_of_find?_eq_some h, by simpa using List.find?_some h⟩

/-- A word is let through if it is none of the list. -/
theorem unsupportedWord_eq_none_iff {w : List UInt8} :
    unsupportedWord w = none ↔
      ∀ d ∈ corazaUnsupportedDirectives, w.map asciiLower ≠ d.map asciiLower := by
  simp [unsupportedWord]

/-- A directive has neither backslash nor backtick, and fits into the buffer with room to
spare. -/
theorem unsupportedWord_of_foreign {w : List UInt8}
    (h : backslash ∈ w ∨ backtick ∈ w ∨ w = [] ∨ scanWordSize ≤ w.length) :
    unsupportedWord w = none := by
  rw [unsupportedWord_eq_none_iff]
  intro d hd he
  have hd : d = ascii "SecRemoteRules" := by simpa [corazaUnsupportedDirectives] using hd
  subst hd
  have hlen : w.length = 14 := by
    have hl := congrArg List.length he
    rwa [List.length_map] at hl
  have hmem (b : UInt8) (hb : b ∈ w) :
      asciiLower b ∈ (ascii "SecRemoteRules").map asciiLower := by
    rw [← he]
    exact List.mem_map_of_mem hb
  rcases h with hb | hb | hb | hb
  · exact absurd (hmem _ hb) (by decide)
  · exact absurd (hmem _ hb) (by decide)
  · rw [hb] at hlen
    cases hlen
  · rw [hlen] at hb
    exact absurd hb (by decide)

/-- The word and the mark that it is complete, after one byte of a line;
`src/mod_coraza.c:616–643`. -/
def collectByte (c : List UInt8 × Bool) (b : UInt8) : List UInt8 × Bool :=
  if isScanBlank b then if 0 < c.1.length then (c.1, true) else c
  else if c.2 then c
  else if c.1.length < scanWordSize then (c.1 ++ [b], false) else ([], true)

/-- The same after several bytes of a line. -/
def collect (c : List UInt8 × Bool) (l : List UInt8) : List UInt8 × Bool := l.foldl collectByte c

private theorem collect_append (c : List UInt8 × Bool) (l l' : List UInt8) :
    collect c (l ++ l') = collect (collect c l) l' := List.foldl_append

/-- A complete word stays. -/
theorem collect_done (w l : List UInt8) : collect (w, true) l = (w, true) := by
  induction l with
  | nil => rfl
  | cons b l ih =>
    have hb : collectByte (w, true) b = (w, true) := by
      unfold collectByte
      split
      · split <;> rfl
      · rfl
    rw [collect, List.foldl_cons, hb]
    exact ih

/-- A word that is being read goes on to its first blank; past the buffer it is given up. -/
theorem collect_live {t : List UInt8} (l : List UInt8) (ht : ∀ b ∈ t, isScanBlank b = false)
    (hlen : t.length ≤ scanWordSize) (hne : t ≠ [] ∨ ∀ b ∈ l.head?, isScanBlank b = false) :
    collect (t, false) l =
      if scanWordSize < (firstWord isScanBlank (t ++ l)).length then ([], true)
      else (firstWord isScanBlank (t ++ l), decide (firstWord isScanBlank (t ++ l) ≠ t ++ l)) := by
  induction l generalizing t with
  | nil =>
    have hself := firstWord_eq_self_iff.mpr ht
    rw [List.append_nil, hself, if_neg (Nat.not_lt.mpr hlen)]
    simp [collect]
  | cons b l ih =>
    rw [collect, List.foldl_cons]
    cases hb : isScanBlank b with
    | true =>
      -- The first blank: the word is what was read before it.
      have hpos : 0 < t.length := by
        apply List.length_pos_iff.mpr
        rcases hne with h | h
        · exact h
        · rw [h b rfl] at hb
          cases hb
      have hstep : collectByte (t, false) b = (t, true) := by
        rw [collectByte, if_pos hb, if_pos hpos]
      have hword : firstWord isScanBlank (t ++ b :: l) = t := by
        rw [firstWord_append_of_forall ht, firstWord,
          List.takeWhile_cons_of_neg (by rw [hb]; exact Bool.false_ne_true), List.append_nil]
      have hmore : t ≠ t ++ b :: l := by
        intro h
        simpa using congrArg List.length h
      rw [hstep, hword, if_neg (Nat.not_lt.mpr hlen), decide_eq_true hmore]
      exact collect_done t l
    | false =>
      by_cases hroom : t.length < scanWordSize
      · have hstep : collectByte (t, false) b = (t ++ [b], false) := by
          rw [collectByte, if_neg (by rw [hb]; exact Bool.false_ne_true),
            if_neg Bool.false_ne_true, if_pos hroom]
        have ht' : ∀ x ∈ t ++ [b], isScanBlank x = false := by
          intro x hx
          rcases List.mem_append.mp hx with hx | hx
          · exact ht x hx
          · rw [List.mem_singleton.mp hx]
            exact hb
        have hlen' : (t ++ [b]).length ≤ scanWordSize := by
          rw [List.length_append, List.length_singleton]
          omega
        have h := ih ht' hlen' (Or.inl (by simp))
        rw [List.append_assoc, List.singleton_append] at h
        rw [hstep]
        exact h
      · have hstep : collectByte (t, false) b = ([], true) := by
          rw [collectByte, if_neg (by rw [hb]; exact Bool.false_ne_true),
            if_neg Bool.false_ne_true, if_neg hroom]
        have hlong : scanWordSize < (firstWord isScanBlank (t ++ b :: l)).length := by
          rw [firstWord_append_of_forall ht, firstWord,
            List.takeWhile_cons_of_pos (by rw [hb]; rfl), List.length_append, List.length_cons]
          omega
        rw [hstep, if_pos hlong]
        exact collect_done [] l

/-- Blanks behind a word complete it. -/
theorem collect_blanks {w l : List UInt8} (hw : w ≠ []) (hl : ∀ b ∈ l, isScanBlank b = true) :
    collect (w, false) l = (w, decide (l ≠ [])) := by
  cases l with
  | nil => rfl
  | cons b l =>
    have hstep : collectByte (w, false) b = (w, true) := by
      rw [collectByte, if_pos (hl b List.mem_cons_self), if_pos (List.length_pos_iff.mpr hw)]
    rw [collect, List.foldl_cons, hstep, decide_eq_true (List.cons_ne_nil b l)]
    exact collect_done w l

/-! ### The bytes of a line -/

/-- Leading blanks do nothing. -/
theorem foldl_scanByte_blanks {s : CorazaRulesScan} (hs : s.first = 0) {l : List UInt8}
    (hl : ∀ b ∈ l, isScanBlank b = true) : l.foldl corazaRulesScanByte s = s := by
  induction l with
  | nil => rfl
  | cons b l ih =>
    rw [List.forall_mem_cons] at hl
    have hstep : corazaRulesScanByte s b = s := by
      rw [corazaRulesScanByte, if_pos hl.1, if_neg]
      intro h
      exact h.1 hs
    rw [List.foldl_cons, hstep]
    exact ih hl.2

/-- The last byte of a line so far that is not blank. -/
def lastByte (c : UInt8) (l : List UInt8) : UInt8 :=
  l.foldl (fun c b ↦ if isScanBlank b then c else b) c

/-- A comment leaves only its ends. -/
theorem foldl_scanByte_comment {s : CorazaRulesScan} (hs : s.first = hash) (l : List UInt8) :
    l.foldl corazaRulesScanByte s = { s with last := lastByte s.last l } := by
  induction l generalizing s with
  | nil => rfl
  | cons b l ih =>
    have hstep : corazaRulesScanByte s b =
        { s with last := if isScanBlank b then s.last else b } := by
      have hne : s.first ≠ 0 := by rw [hs]; decide
      have hhash : s.first = 35 := hs
      unfold corazaRulesScanByte
      split
      · rw [if_neg (fun h ↦ h.2.1 hhash)]
      · simp only [if_neg hne]
        rw [if_pos (Or.inl hhash)]
    rw [List.foldl_cons, hstep]
    exact ih hs

/-- Inside a line of a record the bytes go to the word. -/
theorem foldl_scanByte_record {s : CorazaRulesScan} (h0 : s.first ≠ 0) (hh : s.first ≠ hash)
    (l : List UInt8) :
    l.foldl corazaRulesScanByte s =
      { s with
        last := lastByte s.last l
        word := (collect (s.word, s.wordDone) l).1
        wordDone := (collect (s.word, s.wordDone) l).2 } := by
  induction l generalizing s with
  | nil => rfl
  | cons b l ih =>
    have hstep : corazaRulesScanByte s b =
        { s with
          last := if isScanBlank b then s.last else b
          word := (collectByte (s.word, s.wordDone) b).1
          wordDone := (collectByte (s.word, s.wordDone) b).2 } := by
      have hhash : s.first ≠ 35 := hh
      unfold corazaRulesScanByte collectByte
      split
      · split
        · next h => rw [if_pos h.2.2]
        · next h => rw [if_neg (fun hp ↦ h ⟨h0, hhash, hp⟩)]
      · simp only [if_neg h0, hhash, false_or]
        split
        · rfl
        · next hd =>
          rw [Bool.not_eq_true] at hd
          split
          · rw [hd]
          · rfl
    rw [List.foldl_cons, hstep]
    exact ih h0 hh

private theorem lastByte_append (c : UInt8) (l l' : List UInt8) :
    lastByte c (l ++ l') = lastByte (lastByte c l) l' := List.foldl_append

private theorem lastByte_blanks (c : UInt8) {l : List UInt8} (hl : ∀ b ∈ l, isScanBlank b = true) :
    lastByte c l = c := by
  induction l with
  | nil => rfl
  | cons b l ih =>
    rw [List.forall_mem_cons] at hl
    rw [lastByte, List.foldl_cons, if_pos hl.1]
    exact ih hl.2

private theorem lastByte_eq_getLast (c : UInt8) {l : List UInt8} (h : l ≠ [])
    (hb : isScanBlank (l.getLast h) = false) : lastByte c l = l.getLast h := by
  obtain ⟨front, b, rfl⟩ := (List.eq_nil_or_concat' l).resolve_left h
  rw [List.getLast_append_singleton] at hb ⊢
  rw [lastByte_append, lastByte, List.foldl_cons, List.foldl_nil,
    if_neg (by rw [hb]; exact Bool.false_ne_true)]

/-- The last byte of a line is that of the trimmed line. -/
theorem lastByte_trim (c : UInt8) {raw : List UInt8} (h : trim isScanBlank raw ≠ []) :
    lastByte c (trim isScanBlank raw ++ trailing isScanBlank raw) =
      (trim isScanBlank raw).getLast h := by
  rw [lastByte_append, lastByte_blanks _ fun b hb ↦ blank_of_mem_trailing hb]
  exact lastByte_eq_getLast c h (blank_getLast_trim h)

/-- A blank line does nothing. -/
theorem foldl_scanByte_blank_line {s : CorazaRulesScan} (hs : s.first = 0) {raw : List UInt8}
    (h : trim isScanBlank raw = []) : raw.foldl corazaRulesScanByte s = s :=
  foldl_scanByte_blanks hs (trim_eq_nil_iff.mp h)

/-- The bytes of a line from its first one that is not blank. -/
theorem foldl_scanByte_line {s : CorazaRulesScan} (hs : s.first = 0) (raw : List UInt8) :
    raw.foldl corazaRulesScanByte s =
      (trim isScanBlank raw ++ trailing isScanBlank raw).foldl corazaRulesScanByte s := by
  have hblanks : ∀ b ∈ raw.takeWhile isScanBlank, isScanBlank b = true := fun b hb ↦
    List.mem_takeWhile_imp hb
  rw [trim_append_trailing]
  conv_lhs => rw [← List.takeWhile_append_dropWhile (p := isScanBlank) (l := raw)]
  rw [List.foldl_append, foldl_scanByte_blanks hs hblanks]

/-- A comment line. -/
theorem foldl_scanByte_comment_line {s : CorazaRulesScan} (hs : s.first = 0)
    {raw : List UInt8} (h : (trim isScanBlank raw).head? = some hash) :
    ∃ last, raw.foldl corazaRulesScanByte s = { s with first := hash, last := last } := by
  obtain ⟨l, hl⟩ := List.head?_eq_some_iff.mp h
  have hstep : corazaRulesScanByte s hash = { s with first := hash, last := hash } := by
    have hblank : ¬ isScanBlank hash = true := by decide
    rw [corazaRulesScanByte, if_neg hblank]
    simp [hs, hash]
  rw [foldl_scanByte_line hs, hl, List.cons_append, List.foldl_cons, hstep,
    foldl_scanByte_comment rfl]
  exact ⟨_, rfl⟩

/-- A line of a record. -/
theorem foldl_scanByte_record_line {s : CorazaRulesScan} (hs : s.first = 0) {raw : List UInt8}
    (hnul : 0 ∉ raw) (hne : trim isScanBlank raw ≠ [])
    (hh : (trim isScanBlank raw).head? ≠ some hash) :
    raw.foldl corazaRulesScanByte s =
      { s with
        first := (trim isScanBlank raw).head hne
        last := (trim isScanBlank raw).getLast hne
        inRecord := true
        recLine := if s.inRecord then s.recLine else s.line
        word := (collect (s.word, s.wordDone)
          (trim isScanBlank raw ++ trailing isScanBlank raw)).1
        wordDone := (collect (s.word, s.wordDone)
          (trim isScanBlank raw ++ trailing isScanBlank raw)).2 } := by
  obtain ⟨b, l, hl⟩ := List.exists_cons_of_ne_nil hne
  have hblank := blank_head_trim hne
  have hlast := lastByte_trim s.last hne
  have hmem : b ∈ raw := by
    have htrim : b ∈ trim isScanBlank raw := by
      rw [hl]
      exact List.mem_cons_self
    exact mem_of_mem_trim htrim
  simp only [hl, List.head_cons, List.head?_cons, ne_eq, Option.some.injEq] at hblank hh
  have hb0 : b ≠ 0 := by
    rintro rfl
    exact hnul hmem
  have hhash : b ≠ 35 := hh
  -- The first byte opens the line; after that the state is that of a line of a record.
  have hstep : corazaRulesScanByte s b = corazaRulesScanByte { s with
      first := b, inRecord := true, recLine := if s.inRecord then s.recLine else s.line } b := by
    have hno : ¬ isScanBlank b = true := Bool.eq_false_iff.mp hblank
    unfold corazaRulesScanByte
    simp only [if_neg hno, if_pos hs, if_neg hb0]
    cases hr : s.inRecord with
    | false => simp [hhash]
    | true => simp [← hr]
  rw [foldl_scanByte_line hs]
  have hfold := foldl_scanByte_record (s := { s with
      first := b, inRecord := true, recLine := if s.inRecord then s.recLine else s.line }) hb0 hh
    (trim isScanBlank raw ++ trailing isScanBlank raw)
  rw [hlast] at hfold
  simp only [hl, List.cons_append, List.foldl_cons, List.head_cons] at hfold ⊢
  rw [hstep]
  exact hfold

/-! ### What the buffer holds of a record -/

namespace SecRecord

/-- What the scan reports of a record once it is complete. -/
def verdict (r : SecRecord) : Option (List UInt8) :=
  if r.severed then none else unsupportedWord r.directive

/-- The record cannot be reported any more, whatever follows. -/
def Hopeless (r : SecRecord) : Prop :=
  r.severed = true ∨ backtick ∈ r.directive ∨ scanWordSize ≤ r.directive.length

private theorem Hopeless.verdict_eq {r : SecRecord} (h : r.Hopeless) : r.verdict = none := by
  unfold verdict
  split
  · rfl
  · next hs =>
    apply unsupportedWord_of_foreign
    rcases h with h | h | h
    · exact absurd h hs
    · exact Or.inr (Or.inl h)
    · exact Or.inr (Or.inr (Or.inr h))

/-- More text does not help a hopeless record. -/
theorem Hopeless.append {r r' : SecRecord} (h : r.Hopeless) {l : List UInt8}
    (htext : r'.text = r.text ++ l) (hs : r.severed = true → r'.severed = true) :
    r'.Hopeless := by
  have hpre : r.directive <+: r'.directive := by
    rw [directive, directive, htext]
    exact firstWord_prefix_append _ _
  rcases h with h | h | h
  · exact Or.inl (hs h)
  · exact Or.inr (Or.inl (hpre.subset h))
  · exact Or.inr (Or.inr (h.trans hpre.length_le))

end SecRecord

/-- The scan will report nothing of this record. -/
def Lost (w : List UInt8) (done : Bool) : Prop :=
  (done = true ∧ unsupportedWord w = none) ∨ backtick ∈ w

private theorem Lost.word_eq {w : List UInt8} {done : Bool} (h : Lost w done) :
    unsupportedWord w = none := by
  rcases h with h | h
  · exact h.2
  · exact unsupportedWord_of_foreign (Or.inr (Or.inl h))

private theorem lost_collectByte {c : List UInt8 × Bool} (h : Lost c.1 c.2) (b : UInt8) :
    Lost (collectByte c b).1 (collectByte c b).2 := by
  unfold collectByte
  split
  · split
    · exact Or.inl ⟨rfl, h.word_eq⟩
    · exact h
  · split
    · exact h
    · next hd =>
      have hb : backtick ∈ c.1 := by
        rcases h with h | h
        · exact absurd h.1 hd
        · exact h
      split
      · exact Or.inr (List.mem_append_left _ hb)
      · exact Or.inl ⟨rfl, unsupportedWord_of_foreign (Or.inr (Or.inr (Or.inl rfl)))⟩

private theorem lost_collect {c : List UInt8 × Bool} (h : Lost c.1 c.2) (l : List UInt8) :
    Lost (collect c l).1 (collect c l).2 := by
  induction l generalizing c with
  | nil => exact h
  | cons b l ih => exact ih (lost_collectByte h b)

/-- What the buffer holds of a record between two of its lines. -/
inductive Tracks (r : SecRecord) : List UInt8 → Bool → Prop
  | live (whole : r.severed = false) (word : ∀ b ∈ r.text, isScanBlank b = false)
      (fits : r.text.length ≤ scanWordSize) : Tracks r r.text false
  | ended (whole : r.severed = false) (more : r.directive ≠ r.text) : Tracks r r.directive true
  | dead {w : List UInt8} {done : Bool} (lost : Lost w done) (hopeless : r.Hopeless) :
      Tracks r w done

/-- Inside an action list the word is behind. -/
def Behind (w : List UInt8) (done : Bool) : Prop := done = true ∨ backtick ∈ w

/-- The word collected for a record decides like its directive. -/
theorem Tracks.word_eq {r : SecRecord} {w : List UInt8} {done : Bool} (h : Tracks r w done) :
    unsupportedWord w = r.verdict := by
  cases h with
  | live whole word =>
    rw [SecRecord.verdict, if_neg (by rw [whole]; exact Bool.false_ne_true), SecRecord.directive,
      firstWord_eq_self_iff.mpr word]
  | ended whole => rw [SecRecord.verdict, if_neg (by rw [whole]; exact Bool.false_ne_true)]
  | dead lost hopeless => rw [lost.word_eq, hopeless.verdict_eq]

/-- A record that starts. -/
theorem tracks_start (line : Nat) : Tracks ⟨line, [], false⟩ [] false :=
  .live rfl (by simp) (by simp)

section

variable {r : SecRecord} {w : List UInt8} {done : Bool} {raw : List UInt8}

/-- The buffer after a line: what is held of the record with the line appended to it, before it
is known how the line ends. -/
inductive LineRead (r : SecRecord) (raw : List UInt8) : List UInt8 → Bool → Prop
  | live (whole : r.severed = false)
      (word : ∀ b ∈ r.text ++ trim isScanBlank raw, isScanBlank b = false)
      (fits : (r.text ++ trim isScanBlank raw).length ≤ scanWordSize) :
      LineRead r raw (r.text ++ trim isScanBlank raw) (decide (trailing isScanBlank raw ≠ []))
  | long (whole : r.severed = false) (exceeds : scanWordSize <
      (firstWord isScanBlank (r.text ++ trim isScanBlank raw)).length) : LineRead r raw [] true
  | ended (whole : r.severed = false) (more : firstWord isScanBlank (r.text ++
      trim isScanBlank raw) ≠ r.text ++ trim isScanBlank raw) :
      LineRead r raw (firstWord isScanBlank (r.text ++ trim isScanBlank raw)) true
  | dead {w : List UInt8} {done : Bool} (lost : Lost w done) (hopeless : r.Hopeless) :
      LineRead r raw w done

/-- One more line of a record is read. -/
theorem Tracks.lineRead (h : Tracks r w done) (hne : trim isScanBlank raw ≠ []) :
    LineRead r raw
      (collect (w, done) (trim isScanBlank raw ++ trailing isScanBlank raw)).1
      (collect (w, done) (trim isScanBlank raw ++ trailing isScanBlank raw)).2 := by
  cases h with
  | live whole word fits =>
    have hhead : ∀ b ∈ (trim isScanBlank raw).head?, isScanBlank b = false := by
      rw [List.head?_eq_some_head hne]
      rintro b ⟨⟩
      exact blank_head_trim hne
    rw [collect_append, collect_live _ word fits (Or.inr hhead)]
    split
    · next exceeds =>
      rw [collect_done]
      exact .long whole exceeds
    · next hfits =>
      by_cases hmore : firstWord isScanBlank (r.text ++ trim isScanBlank raw) =
          r.text ++ trim isScanBlank raw
      · have hno : r.text ++ trim isScanBlank raw ≠ [] := by simp [hne]
        rw [hmore] at hfits ⊢
        rw [decide_eq_false (fun h ↦ h rfl),
          collect_blanks hno fun b hb ↦ blank_of_mem_trailing hb]
        exact .live whole (firstWord_eq_self_iff.mp hmore) (Nat.not_lt.mp hfits)
      · rw [decide_eq_true hmore, collect_done]
        exact .ended whole hmore
  | ended whole more =>
    have hsame : r.directive = firstWord isScanBlank (r.text ++ trim isScanBlank raw) :=
      (firstWord_append_of_ne more _).symm
    rw [collect_done, hsame]
    exact .ended whole (firstWord_append_ne more _)
  | dead lost hopeless => exact .dead (lost_collect (c := (_, _)) lost _) hopeless

/-- The line ended the record. -/
theorem LineRead.verdict_ended (h : LineRead r raw w done) :
    unsupportedWord w = (r.ended (trim isScanBlank raw)).verdict := by
  have hverdict (whole : r.severed = false) : (r.ended (trim isScanBlank raw)).verdict =
      unsupportedWord (firstWord isScanBlank (r.text ++ trim isScanBlank raw)) :=
    if_neg (by rw [SecRecord.ended, whole]; exact Bool.false_ne_true)
  cases h with
  | live whole word => rw [hverdict whole, firstWord_eq_self_iff.mpr word]
  | long whole exceeds =>
    rw [hverdict whole, unsupportedWord_of_foreign (Or.inr (Or.inr (Or.inl rfl))),
      unsupportedWord_of_foreign (Or.inr (Or.inr (Or.inr exceeds.le)))]
  | ended whole => rw [hverdict whole]
  | dead lost hopeless =>
    have hended : (r.ended (trim isScanBlank raw)).Hopeless := hopeless.append rfl id
    rw [lost.word_eq, hended.verdict_eq]

/-- A line that opens an action list. -/
theorem LineRead.opens (h : LineRead r raw w done)
    (hlast : (trim isScanBlank raw).getLast? = some backtick) :
    Tracks (r.joined (trim isScanBlank raw)) w done ∧ Behind w done := by
  have htext : (r.joined (trim isScanBlank raw)).text =
      r.text ++ trim isScanBlank raw ++ [newline] := rfl
  have hpre : firstWord isScanBlank (r.text ++ trim isScanBlank raw) <+:
      (r.joined (trim isScanBlank raw)).directive := firstWord_prefix_append _ _
  cases h with
  | live whole word fits =>
    have hmem : backtick ∈ r.text ++ trim isScanBlank raw :=
      List.mem_append_right _ (List.mem_of_getLast? hlast)
    refine ⟨.dead (Or.inr hmem) (Or.inr (Or.inl (hpre.subset ?_))), Or.inr hmem⟩
    rwa [firstWord_eq_self_iff.mpr word]
  | long whole exceeds =>
    refine ⟨.dead (Or.inl ⟨rfl, ?_⟩) (Or.inr (Or.inr (exceeds.le.trans hpre.length_le))),
      Or.inl rfl⟩
    exact unsupportedWord_of_foreign (Or.inr (Or.inr (Or.inl rfl)))
  | ended whole more =>
    have hsame : (r.joined (trim isScanBlank raw)).directive =
        firstWord isScanBlank (r.text ++ trim isScanBlank raw) := firstWord_append_of_ne more _
    rw [← hsame]
    exact ⟨.ended whole (firstWord_append_ne more _), Or.inl rfl⟩
  | dead lost hopeless =>
    refine ⟨.dead lost (hopeless.append (l := trim isScanBlank raw ++ [newline]) ?_ id),
      lost.imp_left And.left⟩
    rw [htext, List.append_assoc]

/-- Once the word is behind, it stays so. -/
theorem Tracks.behind (h : Tracks r w done) (hb : Behind w done) {r' : SecRecord}
    {more : List UInt8} (htext : r'.text = r.text ++ more) (hs : r'.severed = r.severed)
    (l : List UInt8) :
    Tracks r' (collect (w, done) l).1 (collect (w, done) l).2 ∧
      Behind (collect (w, done) l).1 (collect (w, done) l).2 := by
  have hdead (lost : Lost w done) (hopeless : r.Hopeless) :
      Tracks r' (collect (w, done) l).1 (collect (w, done) l).2 ∧
        Behind (collect (w, done) l).1 (collect (w, done) l).2 := by
    have hl := lost_collect (c := (w, done)) lost l
    exact ⟨.dead hl (hopeless.append htext fun h ↦ hs.trans h), hl.imp_left And.left⟩
  cases h with
  | live whole word fits =>
    have hmem : backtick ∈ r.text := hb.resolve_left Bool.false_ne_true
    apply hdead (Or.inr hmem) (Or.inr (Or.inl ?_))
    rwa [SecRecord.directive, firstWord_eq_self_iff.mpr word]
  | ended whole hmore =>
    have hsame : r'.directive = r.directive := by
      rw [SecRecord.directive, htext]
      exact firstWord_append_of_ne hmore _
    rw [collect_done, ← hsame]
    refine ⟨.ended (hs.trans whole) ?_, Or.inl rfl⟩
    rw [SecRecord.directive, htext]
    exact firstWord_append_ne hmore _
  | dead lost hopeless => exact hdead lost hopeless

/-- The record goes on behind a backslash, which is taken out of a word that is not complete. -/
theorem LineRead.glued (h : LineRead r raw w done)
    (hlast : (trim isScanBlank raw).getLast? = some backslash) :
    Tracks (r.glued raw (trim isScanBlank raw))
      (if !done && w.getLast? == some backslash then w.dropLast else w) done := by
  have hline : trim isScanBlank raw = (trim isScanBlank raw).dropLast ++ [backslash] :=
    (List.dropLast_append_getLast? _ hlast).symm
  have hwhole : r.text ++ trim isScanBlank raw =
      r.text ++ (trim isScanBlank raw).dropLast ++ [backslash] := by
    rw [List.append_assoc, ← hline]
  have hblank : isScanBlank backslash = false := by decide
  cases h with
  | live whole word fits =>
    rw [hwhole] at word fits ⊢
    have hword : ∀ b ∈ r.text ++ (trim isScanBlank raw).dropLast, isScanBlank b = false :=
      fun b hb ↦ word b (List.mem_append_left _ hb)
    by_cases htrail : trailing isScanBlank raw = []
    · -- The backslash is the last byte of the word and goes.
      have hsev : (r.glued raw (trim isScanBlank raw)).severed = false := by
        simp [SecRecord.glued, whole, htrail]
      rw [decide_eq_false (fun h ↦ h htrail), if_pos (by simp), List.dropLast_concat]
      apply Tracks.live hsev hword
      rw [List.length_append, List.length_singleton] at fits
      show (r.text ++ (trim isScanBlank raw).dropLast).length ≤ scanWordSize
      omega
    · -- The blanks have completed the word with the backslash in it.
      have hsev : (r.glued raw (trim isScanBlank raw)).severed = true := by
        simp only [SecRecord.glued, whole, Bool.false_or, Bool.and_eq_true, decide_eq_true_eq,
          List.all_eq_true, Bool.not_eq_true']
        exact ⟨htrail, hword⟩
      rw [decide_eq_true htrail]
      apply Tracks.dead (Or.inl ⟨rfl, ?_⟩) (Or.inl hsev)
      apply unsupportedWord_of_foreign
      left
      simp
  | long whole exceeds =>
    apply Tracks.dead (Or.inl ⟨rfl, ?_⟩) (Or.inr (Or.inr ?_))
    · exact unsupportedWord_of_foreign (Or.inr (Or.inr (Or.inl rfl)))
    · have hle : (firstWord isScanBlank
          (r.text ++ (trim isScanBlank raw).dropLast ++ [backslash])).length ≤
          (firstWord isScanBlank (r.text ++ (trim isScanBlank raw).dropLast)).length + 1 :=
        length_firstWord_append_singleton _ backslash
      rw [← hwhole] at hle
      show scanWordSize ≤ (firstWord isScanBlank (r.text ++ (trim isScanBlank raw).dropLast)).length
      omega
  | ended whole more =>
    rw [hwhole] at more ⊢
    have hmore := firstWord_ne_of_append_singleton hblank more
    have hsame : firstWord isScanBlank
        (r.text ++ (trim isScanBlank raw).dropLast ++ [backslash]) =
        (r.glued raw (trim isScanBlank raw)).directive := firstWord_append_of_ne hmore _
    have hsev : (r.glued raw (trim isScanBlank raw)).severed = false := by
      have hall : ¬ ∀ b ∈ r.text ++ (trim isScanBlank raw).dropLast, isScanBlank b = false :=
        fun h ↦ hmore (firstWord_eq_self_iff.mpr h)
      simp only [SecRecord.glued, whole, Bool.false_or, Bool.and_eq_false_iff,
        decide_eq_false_iff_not, List.all_eq_false, Bool.not_eq_true', Bool.not_eq_false]
      right
      simpa using hall
    rw [hsame]
    exact .ended hsev hmore
  | dead lost hopeless =>
    have hop : (r.glued raw (trim isScanBlank raw)).Hopeless :=
      hopeless.append rfl fun h ↦ by simp [SecRecord.glued, h]
    apply Tracks.dead ?_ hop
    split
    · next h =>
      rw [Bool.and_eq_true, Bool.not_eq_true', beq_iff_eq] at h
      have hb : backtick ∈ w := by
        rcases lost with hl | hl
        · rw [h.1] at hl
          cases hl.1
        · exact hl
      rw [← List.dropLast_append_getLast? _ h.2] at hb
      rcases List.mem_append.mp hb with hb | hb
      · exact Or.inr hb
      · exact absurd (List.mem_singleton.mp hb) (by decide)
    · exact lost

end

end CorazaApache.Config
