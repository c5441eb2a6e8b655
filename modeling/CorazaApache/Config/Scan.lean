import CorazaApache.Base.CString

/-!
# Streaming scan of rule text

`src/mod_coraza.c:488–661`. The directives the engine refuses are looked for at
configuration time, one byte at a time, in a state that remembers only the first word
of the record being assembled.
-/

namespace CorazaApache.Config
open CorazaApache.Base

/-- ASCII codes of a string literal of the source. -/
def ascii (s : String) : List UInt8 := s.toList.map (fun c ↦ UInt8.ofNat c.toNat)

/-- `coraza_unsupported_directives`; `src/mod_coraza.c:495–497`. -/
def corazaUnsupportedDirectives : List (List UInt8) := [ascii "SecRemoteRules"]

/-- `sizeof(s->word)`. -/
def scanWordSize : Nat := 32

/-- `coraza_rules_scan_t`; `src/mod_coraza.c:512–522`. `word` holds the `wlen` bytes
collected so far, and the line counters wrap like the source's `unsigned`. -/
structure CorazaRulesScan where
  line : UInt32
  recLine : UInt32
  inRecord : Bool
  inBackticks : Bool
  wordDone : Bool
  first : UInt8
  last : UInt8
  word : List UInt8
  deriving DecidableEq, Repr

/-- `coraza_rules_scan_init`; `src/mod_coraza.c:524–529`. -/
def corazaRulesScanInit : CorazaRulesScan :=
  { line := 1, recLine := 0, inRecord := false, inBackticks := false, wordDone := false,
    first := 0, last := 0, word := [] }

/-- `coraza_rules_scan_word`; `src/mod_coraza.c:531–548`. -/
def corazaRulesScanWord (s : CorazaRulesScan) : Option (List UInt8) :=
  corazaUnsupportedDirectives.find? fun d ↦
    s.word.length == d.length && strncaseeq s.word d s.word.length

/-- `coraza_rules_scan_eol`; `src/mod_coraza.c:550–595`. 96 is the backtick, 92 the
backslash and 35 the hash sign. -/
def corazaRulesScanEol (s : CorazaRulesScan) : Option (List UInt8) × CorazaRulesScan :=
  if s.first = 0 ∨ s.first = 35 then
    (none, { s with first := 0, last := 0 })
  else
    let inBackticks :=
      if !s.inBackticks && s.last == 96 then true
      else if s.inBackticks && s.first == 96 then false
      else s.inBackticks
    let cont := inBackticks || s.last == 92
    -- The dropped backslash was collected as a byte of the word.
    let word :=
      if !inBackticks && s.last == 92 && !s.wordDone && s.word.getLast? == some 92 then
        s.word.dropLast
      else s.word
    let s := { s with inBackticks := inBackticks, word := word, first := 0, last := 0 }
    if cont then (none, s)
    else
      (corazaRulesScanWord s, { s with inRecord := false, wordDone := false, word := [] })

/-- The blanks the scan trims: space, tab, CR, VT and FF. -/
def isScanBlank (b : UInt8) : Bool := b == 32 || b == 9 || b == 13 || b == 11 || b == 12

/-- A byte other than the newline; `src/mod_coraza.c:616–643`. -/
def corazaRulesScanByte (s : CorazaRulesScan) (b : UInt8) : CorazaRulesScan :=
  if isScanBlank b then
    if s.first ≠ 0 ∧ s.first ≠ 35 ∧ 0 < s.word.length then { s with wordDone := true } else s
  else
    let s :=
      if s.first = 0 then
        if b ≠ 35 ∧ !s.inRecord then
          { s with first := b, inRecord := true, recLine := s.line }
        else { s with first := b }
      else s
    let s := { s with last := b }
    if s.first = 35 ∨ s.wordDone then s
    else if s.word.length < scanWordSize then { s with word := s.word ++ [b] }
    else { s with word := [], wordDone := true }

/-- `coraza_rules_scan`; `src/mod_coraza.c:597–646`. -/
def corazaRulesScan (s : CorazaRulesScan) : List UInt8 → Option (List UInt8) × CorazaRulesScan
  | [] => (none, s)
  | b :: bs =>
    if b = 10 then
      match corazaRulesScanEol s with
      | (some bad, s') => (some bad, s')
      | (none, s') => corazaRulesScan { s' with line := s'.line + 1 } bs
    else corazaRulesScan (corazaRulesScanByte s b) bs

/-- `coraza_rules_scan_done`; `src/mod_coraza.c:648–661`. -/
def corazaRulesScanDone (s : CorazaRulesScan) : Option (List UInt8) × CorazaRulesScan :=
  match corazaRulesScanEol s with
  | (some bad, s') => (some bad, s')
  | (none, s') => (if s'.inBackticks then corazaRulesScanWord s' else none, s')

end CorazaApache.Config
