import CorazaApache.Base.Feed
import CorazaApache.Config.ScanStep

/-!
# What the scan reports of a text

The scan of a whole text, however it is cut into chunks, reports the first record it can
report: `Follows` relates the two between lines, and the end of a line or of the text moves
both. From this follow exactly which refused records are missed, and which line is reported.
-/

namespace CorazaApache.Config
open CorazaApache.Base

/-- The state of the scan at the start of a line stands for the assembly. -/
structure Follows (a : Assembly) (s : CorazaRulesScan) : Prop where
  line : s.line = UInt32.ofNat a.line
  first : s.first = 0
  last : s.last = 0
  backticks : s.inBackticks = a.inActionList
  inRecord : s.inRecord = a.current.isSome
  word : ∀ r, a.current = some r → Tracks r s.word s.wordDone
  recLine : ∀ r, a.current = some r → s.recLine = UInt32.ofNat r.line
  idle : a.current = none → s.word = [] ∧ s.wordDone = false ∧ a.inActionList = false
  list : a.inActionList = true → Behind s.word s.wordDone

/-- Before the first line nothing has been read or scanned. -/
theorem follows_init : Follows .init corazaRulesScanInit where
  line := rfl
  first := rfl
  last := rfl
  backticks := rfl
  inRecord := rfl
  word r h := (by cases h)
  recLine r h := (by cases h)
  idle _ := ⟨rfl, rfl, rfl⟩
  list h := (by cases h)

section

variable {a : Assembly} {s : CorazaRulesScan} {raw : List UInt8}

/-- The buffer at the start of a line, for the record that line belongs to. -/
theorem Follows.tracks (h : Follows a s) : Tracks a.record s.word s.wordDone := by
  cases hc : a.current with
  | some r =>
    rw [Assembly.record, hc]
    exact h.word r hc
  | none =>
    obtain ⟨hw, hd, -⟩ := h.idle hc
    rw [Assembly.record, hc, hw, hd]
    exact tracks_start a.line

/-- The line that record starts on, as the scan has it. -/
theorem Follows.record_line (h : Follows a s) :
    (if s.inRecord then s.recLine else s.line) = UInt32.ofNat a.record.line := by
  rw [h.inRecord, Assembly.record]
  cases hc : a.current with
  | some r => exact h.recLine r hc
  | none => exact h.line

private theorem Follows.next_line (h : Follows a s) : s.line + 1 = UInt32.ofNat (a.line + 1) := by
  rw [h.line, UInt32.ofNat_add]
  rfl

/-- A line that belongs to no record. -/
theorem Follows.skip (h : Follows a s)
    (hskip : trim isScanBlank raw = [] ∨ (trim isScanBlank raw).head? = some hash) :
    corazaRulesScanEol (raw.foldl corazaRulesScanByte s) = (none, s) ∧
      Follows (a.readLine raw) { s with line := s.line + 1 } ∧
      (a.readLine raw).records = a.records := by
  have hread : a.readLine raw = { a with line := a.line + 1 } := if_pos hskip
  have hreset : { s with first := 0, last := 0 } = s := by
    have hfirst := h.first
    have hlast := h.last
    cases s
    subst hfirst hlast
    rfl
  refine ⟨?_, ?_, by rw [hread]⟩
  · rcases hskip with hblank | hcomment
    · rw [foldl_scanByte_blank_line h.first hblank, corazaRulesScanEol, if_pos (Or.inl h.first),
        hreset]
    · obtain ⟨last, hfold⟩ := foldl_scanByte_comment_line h.first hcomment
      rw [hfold]
      exact congrArg (Prod.mk none) hreset
  · rw [hread]
    exact ⟨h.next_line, h.first, h.last, h.backticks, h.inRecord, h.word, h.recLine, h.idle, h.list⟩

/-- The end of a line of a record, for a scan that follows the assembly. -/
theorem Follows.eol (h : Follows a s) (hnul : 0 ∉ raw) (hne : trim isScanBlank raw ≠ [])
    (hh : (trim isScanBlank raw).head? ≠ some hash) {w : List UInt8} {done : Bool}
    (hw : collect (s.word, s.wordDone) (trim isScanBlank raw ++ trailing isScanBlank raw) =
      (w, done)) :
    corazaRulesScanEol (raw.foldl corazaRulesScanByte s) =
      if a.listAfter (trim isScanBlank raw) then
        (none, { s with
          inBackticks := true, inRecord := true, recLine := UInt32.ofNat a.record.line
          word := w, wordDone := done, first := 0, last := 0 })
      else if (trim isScanBlank raw).getLast? = some backslash then
        (none, { s with
          inBackticks := false, inRecord := true, recLine := UInt32.ofNat a.record.line
          word := if !done && w.getLast? == some backslash then w.dropLast else w
          wordDone := done, first := 0, last := 0 })
      else
        (unsupportedWord w, { s with
          inBackticks := false, inRecord := false, recLine := UInt32.ofNat a.record.line
          word := [], wordDone := false, first := 0, last := 0 }) := by
  obtain ⟨hfirst0, hfirsth⟩ : ¬ (trim isScanBlank raw).head hne = 0 ∧
      ¬ (trim isScanBlank raw).head hne = 35 := by
    rw [List.head?_eq_some_head hne, ne_eq, Option.some.injEq] at hh
    refine ⟨fun h0 ↦ hnul ?_, hh⟩
    rw [← h0]
    exact mem_of_mem_trim (List.head_mem hne)
  have hlist : (if !s.inBackticks && (trim isScanBlank raw).getLast hne == 96 then true
      else if s.inBackticks && (trim isScanBlank raw).head hne == 96 then false
      else s.inBackticks) = a.listAfter (trim isScanBlank raw) := by
    rw [h.backticks, Assembly.listAfter, List.head?_eq_some_head hne,
      List.getLast?_eq_some_getLast hne]
    cases a.inActionList <;> simp [backtick]
  rw [foldl_scanByte_record_line h.first hnul hne hh, h.record_line, hw, corazaRulesScanEol,
    if_neg (fun hor ↦ hor.elim hfirst0 hfirsth), List.getLast?_eq_some_getLast hne]
  simp only [hlist, corazaRulesScanWord_eq]
  cases a.listAfter (trim isScanBlank raw) with
  | true => simp
  | false =>
    by_cases hb : (trim isScanBlank raw).getLast hne = backslash
    · simp [hb, backslash]
    · have hb' : ¬ (trim isScanBlank raw).getLast hne = 92 := hb
      simp [hb, hb']

/-- One line moves scan and assembly alike: the scan reports the record the line completes, or
goes on following. -/
theorem Follows.readLine (h : Follows a s) (hnul : 0 ∉ raw) :
    (∃ s', corazaRulesScanEol (raw.foldl corazaRulesScanByte s) = (none, s') ∧
      Follows (a.readLine raw) { s' with line := s'.line + 1 } ∧
      ((a.readLine raw).records = a.records ∨
        ∃ r, (a.readLine raw).records = a.records ++ [r] ∧ r.verdict = none)) ∨
    ∃ s' r d, corazaRulesScanEol (raw.foldl corazaRulesScanByte s) = (some d, s') ∧
      (a.readLine raw).records = a.records ++ [r] ∧ (a.readLine raw).inActionList = false ∧
      r.verdict = some d ∧ s'.recLine = UInt32.ofNat r.line := by
  by_cases hskip : trim isScanBlank raw = [] ∨ (trim isScanBlank raw).head? = some hash
  · obtain ⟨heol, hf, hrecords⟩ := h.skip hskip
    exact Or.inl ⟨s, heol, hf, Or.inl hrecords⟩
  have hne : trim isScanBlank raw ≠ [] := fun hn ↦ hskip (Or.inl hn)
  have hh : (trim isScanBlank raw).head? ≠ some hash := fun hn ↦ hskip (Or.inr hn)
  obtain ⟨w, done, hw⟩ : ∃ w done, collect (s.word, s.wordDone)
      (trim isScanBlank raw ++ trailing isScanBlank raw) = (w, done) := ⟨_, _, rfl⟩
  have hread := h.tracks.lineRead hne
  rw [hw] at hread
  have heol := h.eol hnul hne hh hw
  unfold Assembly.readLine
  dsimp only
  rw [if_neg hskip]
  by_cases hlist : a.listAfter (trim isScanBlank raw) = true
  · -- Inside an action list: opened by this line, or open since an earlier one.
    have hjoined : Tracks (a.record.joined (trim isScanBlank raw)) w done ∧ Behind w done := by
      cases ha : a.inActionList with
      | false =>
        rw [Assembly.listAfter, ha] at hlist
        exact hread.opens (of_decide_eq_true hlist)
      | true =>
        have htext : (a.record.joined (trim isScanBlank raw)).text =
            a.record.text ++ (trim isScanBlank raw ++ [newline]) := List.append_assoc _ _ _
        have hb := h.tracks.behind (h.list ha) htext rfl
          (trim isScanBlank raw ++ trailing isScanBlank raw)
        rw [hw] at hb
        exact hb
    rw [if_pos hlist] at heol ⊢
    refine Or.inl ⟨_, heol, ?_, Or.inl rfl⟩
    refine ⟨h.next_line, rfl, rfl, rfl, rfl, ?_, ?_, fun hn ↦ (by cases hn), fun _ ↦ hjoined.2⟩
    · rintro r ⟨⟩
      exact hjoined.1
    · rintro r ⟨⟩
      rfl
  rw [if_neg hlist] at heol ⊢
  by_cases hlast : (trim isScanBlank raw).getLast? = some backslash
  · rw [if_pos hlast] at heol ⊢
    refine Or.inl ⟨_, heol, ?_, Or.inl rfl⟩
    refine ⟨h.next_line, rfl, rfl, rfl, rfl, ?_, ?_, fun hn ↦ (by cases hn), fun hl ↦ (by cases hl)⟩
    · rintro r ⟨⟩
      exact hread.glued hlast
    · rintro r ⟨⟩
      rfl
  · rw [if_neg hlast, hread.verdict_ended] at heol
    rw [if_neg hlast]
    cases hv : (a.record.ended (trim isScanBlank raw)).verdict with
    | none =>
      rw [hv] at heol
      refine Or.inl ⟨_, heol, ?_, Or.inr ⟨_, rfl, hv⟩⟩
      exact ⟨h.next_line, rfl, rfl, rfl, rfl, fun r hr ↦ (by cases hr), fun r hr ↦ (by cases hr),
        fun _ ↦ ⟨rfl, rfl, rfl⟩, fun hl ↦ (by cases hl)⟩
    | some d =>
      rw [hv] at heol
      exact Or.inr ⟨_, _, d, heol, rfl, rfl, hv, rfl⟩

end

/-! ### Whole texts -/

/-- One byte; `src/mod_coraza.c:605–643`. -/
def scanStep (s : CorazaRulesScan) (b : UInt8) : Option (List UInt8) × CorazaRulesScan :=
  if b = 10 then
    match corazaRulesScanEol s with
    | (some bad, s') => (some bad, s')
    | (none, s') => (none, { s' with line := s'.line + 1 })
  else (none, corazaRulesScanByte s b)

/-- The scan is fed byte by byte. -/
theorem corazaRulesScan_eq_feed (s : CorazaRulesScan) (text : List UInt8) :
    corazaRulesScan s text = feed scanStep s text := by
  induction text generalizing s with
  | nil => rfl
  | cons b text ih =>
    rw [corazaRulesScan, feed, scanStep]
    by_cases hb : b = 10
    · rw [if_pos hb, if_pos hb]
      cases corazaRulesScanEol s with
      | mk bad s' =>
        cases bad with
        | some bad => rfl
        | none => exact ih _
    · rw [if_neg hb, if_neg hb]
      exact ih _

/-- A text is scanned piece by piece. -/
theorem corazaRulesScan_append (s : CorazaRulesScan) (text rest : List UInt8) :
    corazaRulesScan s (text ++ rest) =
      match corazaRulesScan s text with
      | (some bad, s') => (some bad, s')
      | (none, s') => corazaRulesScan s' rest := by
  simp only [corazaRulesScan_eq_feed, feed_append]
  cases feed scanStep s text with
  | mk bad s' => cases bad <;> rfl

/-- The chunks are fed until one is refused, and then the end of the input is judged. -/
theorem scanReads_eq_feedPieces (eof : Bool) (s : CorazaRulesScan) (reads : List (List UInt8)) :
    scanReads eof s reads =
      match feedPieces scanStep s reads with
      | (some bad, s') => (some bad, s')
      | (none, s') => if eof then corazaRulesScanDone s' else (none, s') := by
  induction reads generalizing s with
  | nil => rfl
  | cons chunk reads ih =>
    rw [scanReads, feedPieces, corazaRulesScan_eq_feed]
    cases feed scanStep s chunk with
    | mk bad s' =>
      cases bad with
      | some bad => rfl
      | none => exact ih s'

/-- Reading a file chunk by chunk is scanning the whole of it. -/
theorem scanReads_eq (eof : Bool) (s : CorazaRulesScan) (reads : List (List UInt8)) :
    scanReads eof s reads =
      match corazaRulesScan s reads.flatten with
      | (some bad, s') => (some bad, s')
      | (none, s') => if eof then corazaRulesScanDone s' else (none, s') := by
  rw [scanReads_eq_feedPieces, feedPieces_eq, corazaRulesScan_eq_feed]

/-- Inside a line the scan only reads. -/
theorem corazaRulesScan_line (s : CorazaRulesScan) {l : List UInt8} (hl : newline ∉ l) :
    corazaRulesScan s l = (none, l.foldl corazaRulesScanByte s) := by
  induction l generalizing s with
  | nil => rfl
  | cons b l ih =>
    have hb : b ≠ 10 := by
      rintro rfl
      exact hl List.mem_cons_self
    rw [corazaRulesScan, if_neg hb, List.foldl_cons]
    exact ih _ fun h ↦ hl (List.mem_cons_of_mem b h)

/-- A newline ends the line. -/
theorem corazaRulesScan_eol (s : CorazaRulesScan) {l : List UInt8} (hl : newline ∉ l)
    (rest : List UInt8) :
    corazaRulesScan s (l ++ [newline] ++ rest) =
      match corazaRulesScanEol (l.foldl corazaRulesScanByte s) with
      | (some bad, s') => (some bad, s')
      | (none, s') => corazaRulesScan { s' with line := s'.line + 1 } rest := by
  rw [List.append_assoc, corazaRulesScan_append, corazaRulesScan_line s hl]
  rfl

/-- Lines that are whole, and the last one that is not. -/
def textOf (lines : List (List UInt8)) (last : List UInt8) : List UInt8 :=
  lines.flatMap (· ++ [newline]) ++ last

/-- A record is reported at the end of some line, where the lines before it had nothing to
report; or no whole line has, and the scan follows to their end. -/
inductive Scanned (a : Assembly) (s : CorazaRulesScan) (lines : List (List UInt8)) : Prop
  | stopped (before : List (List UInt8)) (l : List UInt8) (after : List (List UInt8))
      {r : SecRecord} {d : List UInt8} {s' : CorazaRulesScan} (split : lines = before ++ l :: after)
      (quiet : (corazaRulesScan s (textOf before l)).1 = none)
      (none_before : ∃ new, (before.foldl Assembly.readLine a).records = a.records ++ new ∧
        ∀ r ∈ new, r.verdict = none)
      (complete : ((before ++ [l]).foldl Assembly.readLine a).records =
        (before.foldl Assembly.readLine a).records ++ [r])
      (reported : r.verdict = some d)
      (scan : ∀ rest, corazaRulesScan s (textOf before (l ++ newline :: rest)) = (some d, s'))
      (line : s'.recLine = UInt32.ofNat r.line)
  | through {t : CorazaRulesScan}
      (scan : ∀ last, newline ∉ last → corazaRulesScan s (textOf lines last) =
        (none, last.foldl corazaRulesScanByte t))
      (none_before : ∃ new, (lines.foldl Assembly.readLine a).records = a.records ++ new ∧
        ∀ r ∈ new, r.verdict = none)
      (follows : Follows (lines.foldl Assembly.readLine a) t)

/-- The first line ends with its newline. -/
theorem textOf_cons (l : List UInt8) (lines : List (List UInt8)) (last : List UInt8) :
    textOf (l :: lines) last = l ++ [newline] ++ textOf lines last := by
  rw [textOf, List.flatMap_cons, List.append_assoc, textOf]

/-- The scan of some lines, from a state that follows the records. -/
theorem scanned {a : Assembly} {s : CorazaRulesScan} (h : Follows a s)
    {lines : List (List UInt8)} (hlines : ∀ l ∈ lines, newline ∉ l ∧ 0 ∉ l) :
    Scanned a s lines := by
  induction lines generalizing a s with
  | nil =>
    refine .through (fun last hlast ↦ corazaRulesScan_line s hlast) ⟨[], ?_, by simp⟩ h
    rw [List.append_nil]
    rfl
  | cons l lines ih =>
    rw [List.forall_mem_cons] at hlines
    obtain ⟨⟨hnl, hnul⟩, hrest⟩ := hlines
    rcases h.readLine hnul with ⟨s', heol, hf, hnew⟩ | ⟨s', r, d, heol, hr, -, hv, hline⟩
    · -- The line reports nothing; what the other lines do is what the text does.
      have hstep (rest : List UInt8) : corazaRulesScan s (l ++ [newline] ++ rest) =
          corazaRulesScan { s' with line := s'.line + 1 } rest := by
        rw [corazaRulesScan_eol s hnl, heol]
      obtain ⟨first, hfirst, hquiet⟩ : ∃ first, (a.readLine l).records = a.records ++ first ∧
          ∀ r ∈ first, r.verdict = none := by
        rcases hnew with hsame | ⟨r, hr, hv⟩
        · exact ⟨[], by rw [hsame, List.append_nil], by simp⟩
        · exact ⟨[r], hr, by simpa using hv⟩
      have hadd {new : List SecRecord} {b : Assembly}
          (hb : b.records = (a.readLine l).records ++ new)
          (hn : ∀ r ∈ new, r.verdict = none) :
          ∃ new, b.records = a.records ++ new ∧ ∀ r ∈ new, r.verdict = none := by
        refine ⟨first ++ new, ?_, ?_⟩
        · rw [hb, hfirst, List.append_assoc]
        · exact List.forall_mem_append.mpr ⟨hquiet, hn⟩
      cases ih hf hrest with
      | stopped before l' after hsplit hq hnone hcomplete hrep hscan hline =>
        obtain ⟨new, hb, hn⟩ := hnone
        refine .stopped (l :: before) l' after (by rw [hsplit]; rfl) ?_ (hadd hb hn) hcomplete
          hrep (fun rest ↦ ?_) hline
        · rw [textOf_cons, hstep]
          exact hq
        · rw [textOf_cons, hstep]
          exact hscan rest
      | through hscan hnone hfollows =>
        obtain ⟨new, hb, hn⟩ := hnone
        refine .through (fun last hlast ↦ ?_) (hadd hb hn) hfollows
        rw [textOf_cons, hstep]
        exact hscan last hlast
    · refine .stopped [] l lines rfl (congrArg Prod.fst (corazaRulesScan_line s hnl))
        ⟨[], (List.append_nil _).symm, by simp⟩ hr hv (fun rest ↦ ?_) hline
      show corazaRulesScan s (l ++ newline :: rest) = _
      rw [← List.singleton_append, ← List.append_assoc, corazaRulesScan_eol s hnl, heol]

end CorazaApache.Config
