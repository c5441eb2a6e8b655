import Mathlib.Algebra.Group.Nat.Defs
import CorazaApache.Config.ScanRun

/-!
# Misses and false reports of the scan

The scan reports the first record that is refused and not severed, if there is one. So it
misses a refused text exactly when all its refused records are severed: a backslash cuts the
directive and blanks, such as the CR of a CRLF file, stand behind the backslash. What it
reports is always a refused record, and the line it gives is right unless the `unsigned`
counter has wrapped.
-/

namespace CorazaApache.Config
open CorazaApache.Base

/-- The first record that is refused and not severed. -/
def firstReported (text : List UInt8) : Option SecRecord :=
  (assemble text).judged.find? fun r ↦ decide (r.Refused ∧ r.severed = false)

/-- The record that is complete where the scan stops: at the end of a line, or at the end of the
text, where it may also be one left open inside an action list. -/
def StoppedAt (text : List UInt8) (r : SecRecord) : Prop :=
  (∃ pre post, text = pre ++ newline :: post ∧
    (corazaRulesScan corazaRulesScanInit pre).1 = none ∧
    (corazaRulesScan corazaRulesScanInit (pre ++ [newline])).1 ≠ none ∧
    (assemble pre).records.getLast? = some r) ∨
  ((corazaRulesScan corazaRulesScanInit text).1 = none ∧
    (assemble text).judged.getLast? = some r)

private theorem SecRecord.verdict_ne_none_iff (r : SecRecord) :
    r.verdict ≠ none ↔ r.Refused ∧ r.severed = false := by
  have hword : unsupportedWord r.directive ≠ none ↔ r.Refused := by
    rw [ne_eq, unsupportedWord_eq_none_iff, Refused]
    simp only [Names, not_forall, not_not, exists_prop]
  cases hs : r.severed with
  | true => simp [verdict, hs]
  | false => simp [verdict, hs, ← hword]

private theorem SecRecord.names_of_verdict {r : SecRecord} {d : List UInt8}
    (h : r.verdict = some d) :
    r.Names d := by
  unfold verdict at h
  split at h
  · cases h
  · exact (unsupportedWord_eq_some h).2

/-- Every text is some whole lines and a last one. -/
theorem exists_textOf (text : List UInt8) :
    ∃ lines last, text = textOf lines last ∧ (∀ l ∈ lines, newline ∉ l) ∧ newline ∉ last := by
  induction text with
  | nil => exact ⟨[], [], rfl, by simp, by simp⟩
  | cons b text ih =>
    obtain ⟨lines, last, rfl, hlines, hlast⟩ := ih
    by_cases hb : b = newline
    · refine ⟨[] :: lines, last, by rw [textOf_cons, hb]; rfl, ?_, hlast⟩
      exact List.forall_mem_cons.mpr ⟨by simp, hlines⟩
    · have hcons {l : List UInt8} (hl : newline ∉ l) : newline ∉ b :: l := by
        simp [Ne.symm hb, hl]
      cases lines with
      | nil => exact ⟨[], b :: last, rfl, by simp, hcons hlast⟩
      | cons l lines =>
        rw [List.forall_mem_cons] at hlines
        exact ⟨(b :: l) :: lines, last, by rw [textOf_cons, textOf_cons]; rfl,
          List.forall_mem_cons.mpr ⟨hcons hlines.1, hlines.2⟩, hlast⟩

private theorem textOf_append_cons (before : List (List UInt8)) (l : List UInt8)
    (after : List (List UInt8)) (last : List UInt8) :
    textOf (before ++ l :: after) last = textOf before (l ++ newline :: textOf after last) := by
  simp [textOf]

/-- The assembly of a text line by line. -/
theorem assemble_textOf {lines : List (List UInt8)} {last : List UInt8}
    (hlines : ∀ l ∈ lines, newline ∉ l) (hlast : newline ∉ last) :
    assemble (textOf lines last) = (lines.foldl Assembly.readLine .init).readLine last := by
  have hsplit : last.splitOn newline = [last] := by
    rw [List.splitOn_eq_splitOnP, List.splitOnP_eq_singleton]
    intro b hb
    apply beq_eq_false_iff_ne.mpr
    rintro rfl
    exact hlast hb
  rw [textOf, assemble_lines lines hlines, hsplit]
  rfl

/-- What the scan of a whole text comes to. -/
inductive Outcome (text : List UInt8) (result : Option (List UInt8) × CorazaRulesScan) : Prop
  | reports {r : SecRecord} {d : List UInt8} (found : firstReported text = some r)
      (reported : r.verdict = some d) (refused : result.1 = some d)
      (line : result.2.recLine = UInt32.ofNat r.line) (stopped : StoppedAt text r)
  | passes (found : firstReported text = none) (accepted : result.1 = none)

private theorem find?_of_split {records more : List SecRecord} {r : SecRecord} {d : List UInt8}
    (hquiet : ∀ x ∈ records, x.verdict = none) (hr : r.verdict = some d) :
    (records ++ r :: more).find? (fun r ↦ decide (r.Refused ∧ r.severed = false)) = some r := by
  have hno : ∀ x ∈ records, ¬ (decide (x.Refused ∧ x.severed = false)) = true := by
    intro x hx h
    exact (x.verdict_ne_none_iff.mpr (of_decide_eq_true h)) (hquiet x hx)
  have hyes : decide (r.Refused ∧ r.severed = false) = true := by
    apply decide_eq_true
    apply r.verdict_ne_none_iff.mp
    rw [hr]
    exact Option.some_ne_none d
  rw [List.find?_append, List.find?_eq_none.mpr hno, Option.none_or]
  exact List.find?_cons_of_pos hyes

private theorem find?_of_quiet {records : List SecRecord}
    (hquiet : ∀ x ∈ records, x.verdict = none) :
    records.find? (fun r ↦ decide (r.Refused ∧ r.severed = false)) = none := by
  apply List.find?_eq_none.mpr
  intro x hx h
  exact (x.verdict_ne_none_iff.mpr (of_decide_eq_true h)) (hquiet x hx)

/-- A line before the last one is where the scan stops. -/
theorem outcome_of_stopped {before after : List (List UInt8)} {l last d : List UInt8}
    {r : SecRecord} {s' : CorazaRulesScan}
    (hlines : ∀ x ∈ before ++ l :: after, newline ∉ x) (hlast : newline ∉ last)
    (hquiet : (corazaRulesScan corazaRulesScanInit (textOf before l)).1 = none)
    (hbefore : ∃ new, (before.foldl Assembly.readLine .init).records = new ∧
      ∀ x ∈ new, x.verdict = none)
    (hcomplete : ((before ++ [l]).foldl Assembly.readLine .init).records =
      (before.foldl Assembly.readLine .init).records ++ [r])
    (hr : r.verdict = some d)
    (hscan : ∀ rest, corazaRulesScan corazaRulesScanInit (textOf before (l ++ newline :: rest)) =
      (some d, s'))
    (hline : s'.recLine = UInt32.ofNat r.line) :
    Outcome (textOf (before ++ l :: after) last) (some d, s') := by
  obtain ⟨new, hnew, hnone⟩ := hbefore
  have hfound : firstReported (textOf (before ++ l :: after) last) = some r := by
    obtain ⟨more, hmore⟩ : new ++ [r] <+:
        (assemble (textOf (before ++ l :: after) last)).judged := by
      have hsplit : (before ++ l :: after).foldl Assembly.readLine .init =
          after.foldl Assembly.readLine ((before ++ [l]).foldl Assembly.readLine .init) := by
        rw [List.append_cons, List.foldl_append]
      rw [assemble_textOf hlines hlast, ← hnew, ← hcomplete, hsplit, Assembly.judged]
      apply List.IsPrefix.trans (Assembly.records_foldl _ after)
      exact (Assembly.records_readLine _ last).trans (List.prefix_append _ _)
    rw [firstReported, ← hmore, List.append_assoc]
    exact find?_of_split hnone hr
  refine .reports hfound hr rfl hline (Or.inl ⟨textOf before l, textOf after last, ?_, hquiet,
    ?_, ?_⟩)
  · rw [textOf_append_cons]
    exact (List.append_assoc _ _ _).symm
  · rw [textOf, List.append_assoc, ← textOf, hscan []]
    exact Option.some_ne_none d
  · rw [List.forall_mem_append, List.forall_mem_cons] at hlines
    have hrecords := hcomplete
    rw [List.foldl_append] at hrecords
    rw [assemble_textOf hlines.1 hlines.2.1]
    exact (congrArg List.getLast? hrecords).trans List.getLast?_concat

/-- The scan reaches the last line. -/
theorem outcome_of_through {lines : List (List UInt8)} {last : List UInt8} {t : CorazaRulesScan}
    (hlines : ∀ x ∈ lines, newline ∉ x) (hlast : newline ∉ last) (hnul : 0 ∉ last)
    (hscan : corazaRulesScan corazaRulesScanInit (textOf lines last) =
      (none, last.foldl corazaRulesScanByte t))
    (hbefore : ∃ new, (lines.foldl Assembly.readLine .init).records = new ∧
      ∀ x ∈ new, x.verdict = none)
    (hfollows : Follows (lines.foldl Assembly.readLine .init) t) :
    Outcome (textOf lines last) (corazaRulesScanDone (last.foldl corazaRulesScanByte t)) := by
  obtain ⟨new, hnew, hnone⟩ := hbefore
  have hquiet : (corazaRulesScan corazaRulesScanInit (textOf lines last)).1 = none := by rw [hscan]
  have hassemble := assemble_textOf hlines hlast
  have hreports {more : List SecRecord} {r : SecRecord} {d : List UInt8} {s' : CorazaRulesScan}
      (hmore : ∀ x ∈ more, x.verdict = none)
      (hjudged : (assemble (textOf lines last)).judged = more ++ [r])
      (hr : r.verdict = some d) (hline : s'.recLine = UInt32.ofNat r.line) :
      Outcome (textOf lines last) (some d, s') := by
    refine .reports ?_ hr rfl hline (Or.inr ⟨hquiet, ?_⟩)
    · rw [firstReported, hjudged]
      exact find?_of_split hmore hr
    · rw [hjudged]
      exact List.getLast?_concat
  rcases hfollows.readLine hnul with ⟨s', heol, hf, hrecords⟩ |
    ⟨s', r, d, heol, hr, hlist, hv, hline⟩
  · -- The last line reports nothing; an action list it leaves open is judged.
    rw [corazaRulesScanDone, heol]
    dsimp only
    have hquiet' : ∀ x ∈ (assemble (textOf lines last)).records, x.verdict = none := by
      rw [hassemble]
      rcases hrecords with hsame | ⟨r, hr, hv⟩
      · rw [hsame, hnew]
        exact hnone
      · rw [hr, hnew]
        exact List.forall_mem_append.mpr ⟨hnone, by simpa using hv⟩
    rw [← hassemble] at hf
    have hback : s'.inBackticks = (assemble (textOf lines last)).inActionList := hf.backticks
    cases hlist : (assemble (textOf lines last)).inActionList with
    | false =>
      refine .passes ?_ (by rw [hback, hlist]; rfl)
      rw [firstReported, Assembly.judged, hlist, if_neg Bool.false_ne_true, List.append_nil]
      exact find?_of_quiet hquiet'
    | true =>
      cases hc : (assemble (textOf lines last)).current with
      | none =>
        rw [(hf.idle hc).2.2] at hlist
        cases hlist
      | some r =>
        have hjudged : (assemble (textOf lines last)).judged =
            (assemble (textOf lines last)).records ++ [r] := by
          rw [Assembly.judged, hlist, hc]
          rfl
        have hword : corazaRulesScanWord s' = r.verdict := by
          rw [corazaRulesScanWord_eq]
          exact (hf.word r hc).word_eq
        rw [hback, hlist, if_pos rfl, hword]
        cases hv : r.verdict with
        | some d => exact hreports hquiet' hjudged hv (hf.recLine r hc)
        | none =>
          refine .passes ?_ rfl
          rw [firstReported, hjudged]
          exact find?_of_quiet (List.forall_mem_append.mpr ⟨hquiet', by simpa using hv⟩)
  · rw [corazaRulesScanDone, heol]
    apply hreports (fun x hx ↦ hnone x hx) _ hv hline
    rw [hassemble, Assembly.judged, hlist, hr, hnew]
    exact List.append_nil _

/-- However a text is cut into chunks, the scan reports the first record that is refused and not
severed. -/
theorem outcome (chunks : List (List UInt8)) (hnul : 0 ∉ chunks.flatten) :
    Outcome chunks.flatten (scanReads true corazaRulesScanInit chunks) := by
  obtain ⟨lines, last, htext, hlines, hlast⟩ := exists_textOf chunks.flatten
  rw [scanReads_eq, htext]
  rw [htext, textOf, List.mem_append, List.mem_flatMap, not_or] at hnul
  have hwhole : ∀ l ∈ lines, newline ∉ l ∧ 0 ∉ l := by
    intro l hl
    refine ⟨hlines l hl, fun h0 ↦ hnul.1 ⟨l, hl, List.mem_append_left _ h0⟩⟩
  cases scanned follows_init hwhole with
  | stopped before l after hsplit hquiet hbefore hcomplete hr hscan hline =>
    subst hsplit
    rw [textOf_append_cons, hscan, ← textOf_append_cons]
    exact outcome_of_stopped hlines hlast hquiet hbefore hcomplete hr hscan hline
  | through hscan hbefore hfollows =>
    rw [hscan last hlast]
    exact outcome_of_through hlines hlast hnul.2 (hscan last hlast) hbefore hfollows

/-! ### Missed directives -/

/-- A text with a refused record is refused, read in these chunks. -/
def RefusesText (chunks : List (List UInt8)) : Prop :=
  (∃ r ∈ (assemble chunks.flatten).judged, r.Refused) →
    (scanReads true corazaRulesScanInit chunks).1 ≠ none

private theorem scanReads_ne_none_iff (chunks : List (List UInt8)) (hnul : 0 ∉ chunks.flatten) :
    (scanReads true corazaRulesScanInit chunks).1 ≠ none ↔
      ∃ r ∈ (assemble chunks.flatten).judged, r.Refused ∧ r.severed = false := by
  have hsome : (∃ r ∈ (assemble chunks.flatten).judged, r.Refused ∧ r.severed = false) ↔
      firstReported chunks.flatten ≠ none := by
    simp [firstReported, List.find?_eq_none]
  rw [hsome]
  cases outcome chunks hnul with
  | reports found reported refused line stopped =>
    rw [found, refused]
    simp
  | passes found accepted => simp [found, accepted]

/-- The scan refuses a text with a refused record exactly when one of its refused records is not
severed. -/
theorem refusesText_iff (chunks : List (List UInt8)) (hnul : 0 ∉ chunks.flatten) :
    RefusesText chunks ↔
      ((∃ r ∈ (assemble chunks.flatten).judged, r.Refused) →
        ∃ r ∈ (assemble chunks.flatten).judged, r.Refused ∧ r.severed = false) := by
  rw [RefusesText, scanReads_ne_none_iff chunks hnul]

/-- A directive cut by a backslash at the end of a line, and cut once more by the chunks. -/
theorem refusesText_continued :
    (scanReads true corazaRulesScanInit
      [ascii "Sec\\\n  Rem", ascii "oteRules key url\r\n"]).1 ≠ none :=
  (refusesText_iff [ascii "Sec\\\n  Rem", ascii "oteRules key url\r\n"] (by decide)).mpr
    (by decide +kernel) (by decide +kernel)

/-- The same in a file with CRLF line ends: the CR behind the backslash ends the word. -/
theorem not_refusesText_crlf : ¬ RefusesText [ascii "Sec\\\r\nRemoteRules key url\r\n"] := by
  intro h
  exact absurd (h (by decide +kernel)) (by decide +kernel)

/-! ### The line of a report -/

/-- What the scan reports is the record that is complete where it stops, with its line. -/
def ReportsRecord (chunks : List (List UInt8)) : Prop :=
  ∀ d s', scanReads true corazaRulesScanInit chunks = (some d, s') →
    ∃ r, StoppedAt chunks.flatten r ∧ r.Names d ∧ s'.recLine.toNat = r.line

/-- A scan that has stopped inside a text does not reach beyond. -/
theorem scan_ne_none_of_prefix {s : CorazaRulesScan} {text rest : List UInt8}
    (h : (corazaRulesScan s text).1 ≠ none) : (corazaRulesScan s (text ++ rest)).1 ≠ none := by
  rw [corazaRulesScan_append]
  cases hs : corazaRulesScan s text with
  | mk bad s' =>
    rw [hs] at h
    cases bad with
    | some bad => exact h
    | none => exact absurd rfl h

/-- The scan stops at one place only. -/
theorem StoppedAt.unique {text : List UInt8} {r r' : SecRecord} (h : StoppedAt text r)
    (h' : StoppedAt text r') : r = r' := by
  have hmid {pre post : List UInt8} (htext : text = pre ++ newline :: post)
      (hstop : (corazaRulesScan corazaRulesScanInit (pre ++ [newline])).1 ≠ none) :
      (corazaRulesScan corazaRulesScanInit text).1 ≠ none := by
    rw [htext, List.append_cons]
    exact scan_ne_none_of_prefix hstop
  have hpre {pre pre' post post' : List UInt8} (htext : text = pre ++ newline :: post)
      (htext' : text = pre' ++ newline :: post')
      (hstop : (corazaRulesScan corazaRulesScanInit (pre ++ [newline])).1 ≠ none)
      (hquiet : (corazaRulesScan corazaRulesScanInit pre').1 = none) :
      pre'.length ≤ pre.length := by
    by_contra hlt
    have hshort : pre ++ [newline] <+: text := by
      rw [htext, List.append_cons pre newline post]
      exact List.prefix_append _ _
    have hlong : pre' <+: text := by
      rw [htext']
      exact List.prefix_append _ _
    have hp : pre ++ [newline] <+: pre' := by
      apply List.prefix_of_prefix_length_le hshort hlong
      rw [List.length_append, List.length_singleton]
      omega
    obtain ⟨more, rfl⟩ := hp
    exact scan_ne_none_of_prefix hstop hquiet
  rcases h with ⟨pre, post, htext, hquiet, hstop, hr⟩ | ⟨hquiet, hr⟩ <;>
    rcases h' with ⟨pre', post', htext', hquiet', hstop', hr'⟩ | ⟨hquiet', hr'⟩
  · have hlen : pre.length = pre'.length :=
      Nat.le_antisymm (hpre htext' htext hstop' hquiet) (hpre htext htext' hstop hquiet')
    have heq := (List.append_inj (htext.symm.trans htext') hlen).1
    subst heq
    exact Option.some.inj (hr.symm.trans hr')
  · exact absurd hquiet' (hmid htext hstop)
  · exact absurd hquiet (hmid htext' hstop')
  · exact Option.some.inj (hr.symm.trans hr')

/-- A record whose line was reported right has a line the counter holds. -/
theorem line_lt_of_reportsRecord {chunks : List (List UInt8)} (hnul : 0 ∉ chunks.flatten)
    (h : ReportsRecord chunks) {r : SecRecord} (hr : firstReported chunks.flatten = some r) :
    r.line < 2 ^ 32 := by
  cases outcome chunks hnul with
  | reports found reported refused line stopped =>
    rw [hr, Option.some.injEq] at found
    subst found
    obtain ⟨r', hr', -, hline⟩ := h _ _ (Prod.ext refused rfl)
    rw [stopped.unique hr', ← hline]
    exact UInt32.toNat_lt _
  | passes found accepted =>
    rw [hr] at found
    cases found

/-- Every report is of a refused record complete at that point, and gives its line exactly when
the line fits the counter. -/
theorem reportsRecord_iff (chunks : List (List UInt8)) (hnul : 0 ∉ chunks.flatten) :
    ReportsRecord chunks ↔
      ∀ r, firstReported chunks.flatten = some r → r.line < 2 ^ 32 := by
  constructor
  · intro h r hr
    exact line_lt_of_reportsRecord hnul h hr
  · intro h d s' hs
    cases outcome chunks hnul with
    | reports found reported refused line stopped =>
      rw [hs] at refused line
      obtain rfl := Option.some.inj refused
      refine ⟨_, stopped, SecRecord.names_of_verdict reported, ?_⟩
      rw [line]
      exact UInt32.toNat_ofNat_of_lt' (h _ found)
    | passes found accepted =>
      rw [hs] at accepted
      cases accepted

/-- A directive on the second line, cut by the chunks. -/
theorem reportsRecord_second_line :
    ReportsRecord [ascii "# note\nSecRemote", ascii "Rules key url\n"] := by
  apply (reportsRecord_iff [ascii "# note\nSecRemote", ascii "Rules key url\n"] (by decide)).mpr
  intro r hr
  have hfound : firstReported [ascii "# note\nSecRemote", ascii "Rules key url\n"].flatten =
      some ⟨2, ascii "SecRemoteRules key url", false⟩ := by decide +kernel
  obtain rfl := Option.some.inj (hr.symm.trans hfound)
  decide

/-- Empty lines only count. -/
theorem assemble_newlines (n : Nat) (rest : List UInt8) :
    assemble (List.replicate n newline ++ rest) =
      (rest.splitOn newline).foldl Assembly.readLine { Assembly.init with line := n + 1 } := by
  have htext : (List.replicate n ([] : List UInt8)).flatMap (· ++ [newline]) =
      List.replicate n newline := by
    induction n with
    | zero => rfl
    | succ n ih => exact congrArg (List.cons newline) ih
  have hread (a : Assembly) : (List.replicate n []).foldl Assembly.readLine a =
      { a with line := a.line + n } := by
    clear htext
    induction n generalizing a with
    | zero => rfl
    | succ n ih =>
      rw [List.replicate_succ, List.foldl_cons, ih]
      show { a with line := a.line + 1 + n } = { a with line := a.line + (n + 1) }
      rw [Nat.add_right_comm, Nat.add_assoc]
  have hlines : ∀ l ∈ List.replicate n ([] : List UInt8), newline ∉ l := by
    intro l hl
    rw [List.eq_of_mem_replicate hl]
    exact List.not_mem_nil
  rw [← htext, assemble_lines _ hlines, hread, Nat.add_comm n 1]
  rfl

private theorem firstReported_newlines (n : Nat) :
    firstReported (List.replicate n newline ++ ascii "SecRemoteRules") =
      some ⟨n + 1, ascii "SecRemoteRules", false⟩ := by
  rw [firstReported, assemble_newlines]
  rfl

/-- Behind 2³² empty lines the reported line is 1. -/
theorem not_reportsRecord_wrapped :
    ¬ ReportsRecord [List.replicate (2 ^ 32) newline, ascii "SecRemoteRules"] := by
  intro h
  have hnul (n : Nat) : 0 ∉ [List.replicate n newline, ascii "SecRemoteRules"].flatten := by
    rw [List.flatten_cons, List.mem_append, List.mem_replicate]
    rintro (⟨-, h0⟩ | h0)
    · exact absurd h0 (by decide)
    · exact absurd h0 (by decide)
  have hfound := firstReported_newlines (2 ^ 32)
  have hflat (n : Nat) : [List.replicate n newline, ascii "SecRemoteRules"].flatten =
      List.replicate n newline ++ ascii "SecRemoteRules" := by
    rw [List.flatten_cons, List.flatten_cons, List.flatten_nil, List.append_nil]
  rw [← hflat] at hfound
  have hlt := line_lt_of_reportsRecord (hnul _) h hfound
  exact absurd hlt (Nat.not_lt.mpr (Nat.le_succ _))

end CorazaApache.Config
