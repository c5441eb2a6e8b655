import CorazaApache.Base.Custody
import CorazaApache.Config.ChildInit

/-!
# What a build takes and gives back

`coraza_build_waf`, `src/mod_coraza.c:1083–1150`, and the build without rules of
`coraza_child_init`, `:1195–1207`. A build asks the engine for a configuration, hands it a copy of
each entry, and may be given the text of an error with the WAF or instead of it. Each way out gives
the configuration, the copy at hand and the text back, and keeps the WAF.
-/

namespace CorazaApache.Config
open CorazaApache.Base

/-- What the module gets from the engine and from `strdup`, and has to give back. -/
inductive Resource where
  | config (c : Nat)
  | copy (i : Nat)
  | error
  | waf (w : Nat)
  deriving DecidableEq

/-- The call of `coraza_new_waf` and what follows it, if `err` says that the engine hands back the
text of an error and `logged` that the module logs it; `src/mod_coraza.c:1134–1147,1199–1206`. -/
def newWafActs (b : WafBuild) (err logged : Bool) : List (Act Resource) :=
  [.use (.config b.config)] ++ (if b.waf = 0 then [] else [.acquire (.waf b.waf)]) ++
    (if err then [.acquire .error] else []) ++ [.release (.config b.config)] ++
    (if err then (if logged then [.use .error] else []) ++ [.release .error] else [])

/-- The loop over the entries and what is behind it; `src/mod_coraza.c:1104–1147`. -/
def addRulesActs (b : WafBuild) (err : Bool) : Nat → RuleList → List (Act Resource)
  | _, [] => newWafActs b err (b.waf == 0)
  | i, e :: es =>
    if !b.strdup i then [.release (.config b.config)]
    else if addRule b i e < 0 then
      [.acquire (.copy i), .use (.config b.config), .use (.copy i), .use (.copy i),
        .release (.copy i), .release (.config b.config)]
    else
      [.acquire (.copy i), .use (.config b.config), .use (.copy i), .release (.copy i)] ++
        addRulesActs b err (i + 1) es

/-- `coraza_build_waf`; `src/mod_coraza.c:1083–1150`. -/
def buildWafActs (b : WafBuild) (err : Bool) (rules : RuleList) : List (Act Resource) :=
  if rules.length = 0 then []
  else if b.config = 0 then []
  else .acquire (.config b.config) :: addRulesActs b err 0 rules

/-- The build without rules; `src/mod_coraza.c:1195–1207`. -/
def emptyWafActs (b : WafBuild) (err : Bool) : List (Act Resource) :=
  if b.config = 0 then [] else .acquire (.config b.config) :: newWafActs b err true

/-- Handles of WAFs. -/
def wafsIn (l : List (Nat × RuleList)) : Set Resource := {r | ∃ x ∈ l, r = .waf x.1}

section

variable {b : WafBuild} {l : List (Nat × RuleList)}

/-- A configuration is no WAF. -/
@[simp] theorem config_notMem (c : Nat) (l : List (Nat × RuleList)) : .config c ∉ wafsIn l := by
  simp [wafsIn]

/-- Neither is a copied text. -/
@[simp] theorem copy_notMem (i : Nat) (l : List (Nat × RuleList)) : .copy i ∉ wafsIn l := by
  simp [wafsIn]

/-- Neither is an error text. -/
@[simp] theorem error_notMem (l : List (Nat × RuleList)) : .error ∉ wafsIn l := by
  simp [wafsIn]

/-- The WAFs that are there were recorded. -/
theorem waf_mem {w : Nat} : .waf w ∈ wafsIn l ↔ ∃ x ∈ l, x.1 = w := by
  simp [wafsIn, eq_comm]

private theorem wafsIn_concat (x : Nat × RuleList) :
    wafsIn (l ++ [x]) = insert (.waf x.1) (wafsIn l) := by
  ext r
  simp [wafsIn, or_comm]

/-- The text of an error is given back, behind the configuration. -/
theorem runs_errorActs (c : Nat) (l : List (Nat × RuleList)) (err logged : Bool) :
    Custody.Runs (insert (.config c) (wafsIn l))
      ((if err then [.acquire .error] else []) ++ ([.release (.config c)] ++
        (if err then (if logged then [.use .error] else []) ++ [.release .error] else [])))
      (wafsIn l) := by
  cases err with
  | false => exact Custody.Runs.release (config_notMem c l)
  | true =>
    have hnew : Resource.error ∉ insert (Resource.config c) (wafsIn l) := by simp
    have hback : Resource.config c ∉ insert Resource.error (wafsIn l) := by simp
    apply (Custody.Runs.acquire hnew).append
    rw [Set.insert_comm]
    apply (Custody.Runs.release hback).append
    cases logged with
    | false => exact Custody.Runs.release (error_notMem l)
    | true =>
      apply (Custody.Runs.use (Set.mem_insert _ _)).append
      exact Custody.Runs.release (error_notMem l)

/-- The WAF is all that is left. -/
theorem runs_newWafActs (hw : b.waf ≠ 0 → .waf b.waf ∉ wafsIn l) (err logged : Bool)
    (rules : RuleList) :
    Custody.Runs (insert (.config b.config) (wafsIn l)) (newWafActs b err logged)
      (wafsIn (if b.waf = 0 then l else l ++ [(b.waf, rules)])) := by
  rw [newWafActs, List.append_assoc, List.append_assoc, List.append_assoc]
  apply (Custody.Runs.use (Set.mem_insert _ _)).append
  split
  · exact runs_errorActs b.config l err logged
  · next hz =>
    have hnew : Resource.waf b.waf ∉ insert (Resource.config b.config) (wafsIn l) := by
      rw [Set.mem_insert_iff, not_or]
      exact ⟨by simp, hw hz⟩
    apply (Custody.Runs.acquire hnew).append
    rw [Set.insert_comm, ← wafsIn_concat (b.waf, rules)]
    exact runs_errorActs b.config _ err logged

/-- An entry: its copy is used and given back. -/
theorem runs_entry (c i : Nat) (l : List (Nat × RuleList)) {acts : List (Act Resource)}
    {held : Set Resource}
    (h : Custody.Runs (insert (.config c) (wafsIn l)) acts held) :
    Custody.Runs (insert (.config c) (wafsIn l))
      ([.acquire (.copy i), .use (.config c), .use (.copy i), .release (.copy i)] ++ acts)
      held := by
  have hnew : Resource.copy i ∉ insert (Resource.config c) (wafsIn l) := by simp
  have hconfig := Custody.Runs.use (Set.mem_insert_of_mem (Resource.copy i)
    (Set.mem_insert (Resource.config c) (wafsIn l)))
  have hcopy := Custody.Runs.use (Set.mem_insert (Resource.copy i)
    (insert (Resource.config c) (wafsIn l)))
  exact (Custody.Runs.bracket hnew (hconfig.append hcopy)).append h

/-- The loop: the configuration is given back on each way out, and the WAF is kept if all entries
were accepted. -/
theorem runs_addRulesActs (hw : b.waf ≠ 0 → .waf b.waf ∉ wafsIn l) (err : Bool) (i : Nat)
    (es given rules : RuleList) :
    Custody.Runs (insert (.config b.config) (wafsIn l)) (addRulesActs b err i es)
      (wafsIn (if addRules b i given es = none ∨ b.waf = 0 then l else l ++ [(b.waf, rules)])) := by
  induction es generalizing i given with
  | nil =>
    have hall := runs_newWafActs hw err (b.waf == 0) rules
    simpa [addRulesActs, addRules] using hall
  | cons e es ih =>
    rw [addRulesActs, addRules]
    split
    · rw [if_pos (Or.inl rfl)]
      exact Custody.Runs.release (config_notMem _ _)
    · split
      · rw [if_pos (Or.inl rfl)]
        have hnew : Resource.copy i ∉ insert (Resource.config b.config) (wafsIn l) := by simp
        apply (Custody.Runs.acquire hnew).append
        apply (Custody.Runs.use (Set.mem_insert_of_mem _ (Set.mem_insert _ _))).append
        apply (Custody.Runs.use (Set.mem_insert _ _)).append
        apply (Custody.Runs.use (Set.mem_insert _ _)).append
        apply (Custody.Runs.release hnew).append
        exact Custody.Runs.release (config_notMem _ _)
      · exact runs_entry b.config i l (ih (i + 1) (given ++ [e]))

end

namespace Process

/-- A WAF the engine builds now is one it has not built before. -/
def FreshBuild (p : Process) (lib : WafLib) : Prop :=
  (lib.build p.builds).waf ≠ 0 → Resource.waf (lib.build p.builds).waf ∉ wafsIn p.wafs

private theorem wafs_recordWaf (p : Process) (w : Nat) (rules : RuleList) :
    (p.recordWaf w rules).wafs = if w = 0 then p.wafs else p.wafs ++ [(w, rules)] := by
  unfold recordWaf
  split <;> rfl

variable {p : Process} {lib : WafLib}

/-- A build leaves nothing behind but its WAF. -/
theorem runs_buildWaf (hf : p.FreshBuild lib) (err : Bool) (rules : RuleList) :
    Custody.Runs (wafsIn p.wafs) (buildWafActs (lib.build p.builds) err rules)
      (wafsIn (p.buildWaf lib rules).2.wafs) := by
  unfold buildWafActs buildWaf
  split
  · exact Custody.Runs.nil _
  · dsimp only
    obtain ⟨b, hb⟩ : ∃ b, lib.build p.builds = b := ⟨_, rfl⟩
    rw [FreshBuild, hb] at hf
    rw [hb]
    unfold newWafCall
    split
    · exact Custody.Runs.nil _
    · have hrun := runs_addRulesActs hf err 0 rules [] rules
      have hnew : Resource.config b.config ∉ wafsIn p.wafs := config_notMem _ _
      apply (Custody.Runs.acquire hnew).append
      cases hadd : addRules b 0 [] rules with
      | none =>
        rw [hadd, if_pos (Or.inl rfl)] at hrun
        exact hrun
      | some given =>
        obtain rfl : given = rules := by
          have hgiven := addRules_given b 0 [] rules given hadd
          rw [List.nil_append] at hgiven
          exact hgiven
        rw [Option.map_some, wafs_recordWaf]
        simpa [hadd] using hrun

/-- So does the build without rules. -/
theorem runs_buildEmptyWaf (hf : p.FreshBuild lib) (err : Bool) :
    Custody.Runs (wafsIn p.wafs) (emptyWafActs (lib.build p.builds) err)
      (wafsIn (p.buildEmptyWaf lib).2.wafs) := by
  unfold emptyWafActs buildEmptyWaf emptyWaf
  dsimp only
  split
  · exact Custody.Runs.nil _
  · have hnew : Resource.config (lib.build p.builds).config ∉ wafsIn p.wafs := config_notMem _ _
    apply (Custody.Runs.acquire hnew).append
    rw [wafs_recordWaf]
    exact runs_newWafActs hf err true []

end Process
end CorazaApache.Config
