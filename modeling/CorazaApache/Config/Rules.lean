import CorazaApache.Base.CString

/-!
# Deferred rule lists

`src/mod_coraza.h:41–52` and `src/mod_coraza.c:72–105`. Rules are collected as typed
strings while the configuration is parsed and replayed into the engine after the fork.
The hash of a list does not separate its entries, so equal hashes prove nothing; the
ordered comparison decides.
-/

namespace CorazaApache.Config
open CorazaApache.Base

/-- `coraza_rule_type_e`. -/
inductive CorazaRuleType where
  | inline
  | file
  deriving DecidableEq, Repr

/-- The enumerator's value. -/
def CorazaRuleType.code : CorazaRuleType → UInt64
  | .inline => 0
  | .file => 1

/-- `coraza_rule_entry_t`. -/
structure CorazaRuleEntry where
  type : CorazaRuleType
  value : CString
  deriving DecidableEq

/-- The content of an `apr_array_header_t` of rule entries. -/
abbrev RuleList := List CorazaRuleEntry

/-- `rules_hash`: DJB2 in `unsigned long` over the type and the bytes of every entry;
`src/mod_coraza.c:72–87`. -/
def rulesHash (rules : RuleList) : UInt64 :=
  rules.foldl (fun h e ↦ e.value.bytes.foldl (fun h b ↦ h * 33 + b.toUInt64)
    (h * 33 + e.type.code)) 5381

/-- `rules_equal`: same number of entries, then type and `strcmp` one by one;
`src/mod_coraza.c:89–105`. -/
def rulesEqual (a b : RuleList) : Bool :=
  a.length == b.length &&
    (a.zip b).all fun e ↦ e.1.type == e.2.type && e.1.value == e.2.value

/-- The ordered comparison is equality of the lists. -/
theorem rulesEqual_iff (a b : RuleList) : rulesEqual a b = true ↔ a = b := by
  induction a generalizing b with
  | nil => cases b <;> simp [rulesEqual]
  | cons x xs ih =>
    cases b with
    | nil => simp [rulesEqual]
    | cons y ys =>
      have hi := ih ys
      simp only [rulesEqual, Bool.and_eq_true, beq_iff_eq, List.zip_cons_cons, List.all_cons,
        List.length_cons, Nat.add_right_cancel_iff, List.cons.injEq] at hi ⊢
      rw [← hi]
      constructor
      · rintro ⟨hl, ⟨ht, hv⟩, hr⟩
        refine ⟨?_, hl, hr⟩
        cases x
        cases y
        congr 1
      · rintro ⟨rfl, hl, hr⟩
        exact ⟨hl, ⟨rfl, rfl⟩, hr⟩

end CorazaApache.Config
