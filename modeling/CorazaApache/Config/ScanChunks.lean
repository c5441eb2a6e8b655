import CorazaApache.Config.ScanRun

/-!
# Read boundaries and the word buffer

`src/mod_coraza.c:512–661,728–742`. What the scan carries from one chunk to the next is all that a
boundary can cut through, so a text has one verdict, and one line for it, however it is read. The
word being collected stays within `word[32]` all the way.
-/

namespace CorazaApache.Config
open CorazaApache.Base

/-- The bytes collected fit `word[]`. -/
def WordFits (s : CorazaRulesScan) : Prop := s.word.length ≤ scanWordSize

private theorem wordFits_eol {s : CorazaRulesScan} (h : WordFits s) :
    WordFits (corazaRulesScanEol s).2 := by
  unfold corazaRulesScanEol
  split
  · exact h
  · extract_lets inBackticks cont word t
    have hword : word.length ≤ scanWordSize := by
      dsimp only [word]
      split
      · rw [List.length_dropLast]
        exact Nat.le_trans (Nat.sub_le _ _) h
      · exact h
    split
    · exact hword
    · exact Nat.zero_le _

private theorem wordFits_byte {s : CorazaRulesScan} (h : WordFits s) (b : UInt8) :
    WordFits (corazaRulesScanByte s b) := by
  have hblank : WordFits (if s.first ≠ 0 ∧ s.first ≠ 35 ∧ 0 < s.word.length then
      { s with wordDone := true } else s) := by
    split <;> exact h
  unfold corazaRulesScanByte
  split
  · exact hblank
  · -- The first byte of a line is remembered before it is collected.
    set t : CorazaRulesScan := if s.first = 0 then
      if b ≠ 35 ∧ !s.inRecord then { s with first := b, inRecord := true, recLine := s.line }
      else { s with first := b }
      else s with ht
    have hword : t.word = s.word := by
      rw [ht]
      split
      · split <;> rfl
      · rfl
    dsimp only
    split
    · unfold WordFits
      rw [hword]
      exact h
    · split
      · next hlt =>
        unfold WordFits
        rw [List.length_append, List.length_singleton]
        exact hlt
      · exact Nat.zero_le _

private theorem wordFits_step (s : CorazaRulesScan) (b : UInt8) (h : WordFits s) :
    WordFits (scanStep s b).2 := by
  have heol := wordFits_eol h
  unfold scanStep
  split
  · cases hs : corazaRulesScanEol s with
    | mk bad s' =>
      rw [hs] at heol
      cases bad with
      | some bad => exact heol
      | none => exact heol
  · exact wordFits_byte h b

private theorem wordFits_done {s : CorazaRulesScan} (h : WordFits s) :
    WordFits (corazaRulesScanDone s).2 := by
  have heol := wordFits_eol h
  unfold corazaRulesScanDone
  cases hs : corazaRulesScanEol s with
  | mk bad s' =>
    rw [hs] at heol
    cases bad with
    | some bad => exact heol
    | none => exact heol

/-- After any part of a text the word fits. -/
theorem wordFits_scan (text : List UInt8) :
    WordFits (corazaRulesScan corazaRulesScanInit text).2 := by
  rw [corazaRulesScan_eq_feed]
  exact feed_invariant wordFits_step (Nat.zero_le _) text

/-- After any chunks, and at the end of the input, the word fits. -/
theorem wordFits_reads (eof : Bool) (chunks : List (List UInt8)) :
    WordFits (scanReads eof corazaRulesScanInit chunks).2 := by
  have hscan := wordFits_scan chunks.flatten
  rw [scanReads_eq]
  cases hs : corazaRulesScan corazaRulesScanInit chunks.flatten with
  | mk bad s' =>
    rw [hs] at hscan
    cases bad with
    | some bad => exact hscan
    | none =>
      dsimp only
      split
      · exact wordFits_done hscan
      · exact hscan

/-- Cut into chunks in two ways, a text has the same verdict, reported for the same line, and the
word fits after every byte of it, after every chunk, and at its end. -/
theorem scan_same_in_any_chunks {chunks chunks' : List (List UInt8)}
    (h : chunks.flatten = chunks'.flatten) :
    (scanReads true corazaRulesScanInit chunks).1 =
        (scanReads true corazaRulesScanInit chunks').1 ∧
      ((scanReads true corazaRulesScanInit chunks).1 ≠ none →
        (scanReads true corazaRulesScanInit chunks).2.recLine =
          (scanReads true corazaRulesScanInit chunks').2.recLine) ∧
      (∀ part, part <+: chunks.flatten → WordFits (corazaRulesScan corazaRulesScanInit part).2) ∧
      (∀ read, read <+: chunks → WordFits (scanReads false corazaRulesScanInit read).2) ∧
      WordFits (scanReads true corazaRulesScanInit chunks).2 := by
  have hsame : scanReads true corazaRulesScanInit chunks =
      scanReads true corazaRulesScanInit chunks' := by
    rw [scanReads_eq, scanReads_eq, h]
  apply And.intro (congrArg Prod.fst hsame)
  apply And.intro
  · intro _
    rw [hsame]
  apply And.intro
  · intro part _
    exact wordFits_scan part
  apply And.intro
  · intro read _
    exact wordFits_reads false read
  · exact wordFits_reads true chunks

/-- Cut inside the word, behind the backslash and before a newline, with an empty chunk, or not
cut at all. -/
theorem scan_same_cut_in_word :
    let chunks := [ascii "\nSecRem\\", [], ascii "\noteRul", ascii "es key url", ascii "\n"]
    let whole := [ascii "\nSecRem\\\noteRules key url\n"]
    (scanReads true corazaRulesScanInit whole).1 = some (ascii "SecRemoteRules") ∧
      (scanReads true corazaRulesScanInit chunks).1 =
        (scanReads true corazaRulesScanInit whole).1 ∧
      (scanReads true corazaRulesScanInit whole).2.recLine = 2 := by
  intro chunks whole
  have hcut : chunks.flatten = whole.flatten := by decide
  have hsame := scan_same_in_any_chunks hcut
  exact ⟨by decide +kernel, hsame.1, by decide +kernel⟩

/-- A rules file and a directive with the same bytes are refused together, whatever reads the file
takes. -/
theorem checkRulesFile_iff_checkRulesText {env : ConfigEnv} {path full text : CString}
    {reads : List (List UInt8)} (hpath : env.serverRootRelative path = some full)
    (hopen : env.openFile full = some (reads, true)) (hreads : reads.flatten = text.bytes)
    (cmd : CmdParms) :
    (∃ err, corazaCheckRulesFile env path = .error err) ↔
      corazaCheckRulesText cmd text ≠ none := by
  have htext : (corazaCheckRulesText cmd text).isSome =
      (scanReads true corazaRulesScanInit reads).1.isSome := by
    rw [scanReads_eq, hreads]
    unfold corazaCheckRulesText
    cases corazaRulesScan corazaRulesScanInit text.bytes with
    | mk bad s =>
      cases bad with
      | some bad => rfl
      | none =>
        dsimp only
        rw [Option.isSome_map]
        rfl
  rw [← Option.isSome_iff_ne_none, htext]
  unfold corazaCheckRulesFile
  rw [hpath]
  dsimp only
  rw [hopen]
  dsimp only
  cases scanReads true corazaRulesScanInit reads with
  | mk bad s =>
    cases bad with
    | some bad => simp
    | none => simp

end CorazaApache.Config
