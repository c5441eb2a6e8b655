import CorazaApache.Base.Text
import CorazaApache.Config.DirConf

/-!
# How SecLang text is assembled into records

What the scan of `src/mod_coraza.c:499–661` stands for, as its comment describes the engine's
parser: the text is split into lines, each line is trimmed, blank and comment lines are
ignored, a line that ends in a backtick opens an action list that runs until a line that starts
with one, and outside of such a list a backslash at the end of a line glues the next one to it.
-/

namespace CorazaApache.Config
open CorazaApache.Base

/-- LF. -/
def newline : UInt8 := 10

/-- The character that starts a comment. -/
def hash : UInt8 := 35

/-- The character that continues a line. -/
def backslash : UInt8 := 92

/-- The character that opens and closes an action list. -/
def backtick : UInt8 := 96

/-- A record: the number of its first line and its text. `severed` says that a backslash inside
its first word was followed by blanks; the text does not depend on it. -/
structure SecRecord where
  line : Nat
  text : List UInt8
  severed : Bool
  deriving DecidableEq

namespace SecRecord

/-- The directive of a record, its first word. -/
def directive (r : SecRecord) : List UInt8 := firstWord isScanBlank r.text

/-- The directive is `d`, ignoring ASCII case. -/
def Names (r : SecRecord) (d : List UInt8) : Prop :=
  r.directive.map asciiLower = d.map asciiLower

instance (r : SecRecord) (d : List UInt8) : Decidable (r.Names d) :=
  inferInstanceAs (Decidable (_ = _))

/-- The engine refuses the directive. -/
def Refused (r : SecRecord) : Prop := ∃ d ∈ corazaUnsupportedDirectives, r.Names d

instance (r : SecRecord) : Decidable r.Refused :=
  inferInstanceAs (Decidable (∃ d ∈ corazaUnsupportedDirectives, r.Names d))

/-- The record goes on with a line inside its action list. -/
def joined (r : SecRecord) (l : List UInt8) : SecRecord :=
  { r with text := r.text ++ l ++ [newline] }

/-- The record goes on behind a line that ends in a backslash. `raw` is the line as it stands
and `l` the trimmed line. -/
def glued (r : SecRecord) (raw l : List UInt8) : SecRecord :=
  { r with
    text := r.text ++ l.dropLast
    severed := r.severed || (trailing isScanBlank raw ≠ [] &&
      (r.text ++ l.dropLast).all fun b ↦ !isScanBlank b) }

/-- The record ends with a line. -/
def ended (r : SecRecord) (l : List UInt8) : SecRecord := { r with text := r.text ++ l }

end SecRecord

/-- The assembly between two lines: the number of the next line, the records that are complete,
and the one that is not. -/
structure Assembly where
  line : Nat
  records : List SecRecord
  current : Option SecRecord
  inActionList : Bool
  deriving DecidableEq

namespace Assembly

/-- Before the first line. -/
def init : Assembly := { line := 1, records := [], current := none, inActionList := false }

/-- The record a line belongs to: the current one, or one that starts there. -/
def record (a : Assembly) : SecRecord := a.current.getD ⟨a.line, [], false⟩

/-- Whether the action list is open behind a trimmed line. -/
def listAfter (a : Assembly) (l : List UInt8) : Bool :=
  if a.inActionList then l.head? ≠ some backtick else l.getLast? = some backtick

/-- Read one line. -/
def readLine (a : Assembly) (raw : List UInt8) : Assembly :=
  let l := trim isScanBlank raw
  if l = [] ∨ l.head? = some hash then { a with line := a.line + 1 }
  else if a.listAfter l then
    { a with line := a.line + 1, current := some (a.record.joined l), inActionList := true }
  else if l.getLast? = some backslash then
    { a with line := a.line + 1, current := some (a.record.glued raw l), inActionList := false }
  else
    { line := a.line + 1, records := a.records ++ [a.record.ended l], current := none,
      inActionList := false }

/-- The records that are judged when the text ends here: the complete ones, and one left open
inside an action list. -/
def judged (a : Assembly) : List SecRecord :=
  a.records ++ if a.inActionList then a.current.toList else []

/-- Complete records stay. -/
theorem records_readLine (a : Assembly) (raw : List UInt8) :
    a.records <+: (a.readLine raw).records := by
  unfold readLine
  dsimp only
  split
  · exact List.prefix_rfl
  · split
    · exact List.prefix_rfl
    · split
      · exact List.prefix_rfl
      · exact List.prefix_append _ _

/-- Reading on only adds records. -/
theorem records_foldl (a : Assembly) (lines : List (List UInt8)) :
    a.records <+: (lines.foldl readLine a).records := by
  induction lines generalizing a with
  | nil => exact List.prefix_rfl
  | cons l lines ih => exact (records_readLine a l).trans (ih _)

end Assembly

/-- The assembly of a whole text. -/
def assemble (text : List UInt8) : Assembly :=
  (text.splitOn newline).foldl Assembly.readLine .init

/-- The assembly behind some lines, each with its newline, is not changed by what follows. -/
theorem assemble_lines (lines : List (List UInt8)) (hlines : ∀ l ∈ lines, newline ∉ l)
    (rest : List UInt8) :
    assemble (lines.flatMap (· ++ [newline]) ++ rest) =
      (rest.splitOn newline).foldl Assembly.readLine (lines.foldl Assembly.readLine .init) := by
  have hsplit : (lines.flatMap (· ++ [newline]) ++ rest).splitOn newline =
      lines ++ rest.splitOn newline := by
    induction lines with
    | nil => rfl
    | cons l lines ih =>
      rw [List.forall_mem_cons] at hlines
      rw [List.flatMap_cons, List.append_assoc, List.append_assoc, List.singleton_append,
        List.splitOn_eq_splitOnP, List.splitOnP_append_cons_of_forall_mem,
        ← List.splitOn_eq_splitOnP, ih hlines.2, List.cons_append]
      · intro b hb
        apply beq_eq_false_iff_ne.mpr
        rintro rfl
        exact hlines.1 hb
      · exact beq_self_eq_true newline
  rw [assemble, hsplit, List.foldl_append]

end CorazaApache.Config
