import CorazaApache.Config.Startup

/-!
# Reading the directives

While directives are read, every configuration object has a rule array of its own, and the
rules at a server's own level are the same in its server conf and in its base `dir_conf`:
`src/mod_coraza.c:769–783,805–819` push to both.
-/

namespace CorazaApache.Config
open CorazaApache.Base

namespace Directive

/-- What the directive says about `enable`, if it is `Coraza`. -/
def flag : Directive → Option Bool
  | .coraza flag => some flag
  | _ => none

/-- The kind of rule the directive adds. -/
def ruleType : Directive → Option CorazaRuleType
  | .corazaRules _ | .sec _ _ => some .inline
  | .corazaRulesFile _ => some .file
  | _ => none

/-- A directive that adds a rule does not enable the module. -/
theorem flag_of_ruleType {d : Directive} (h : d.ruleType ≠ none) : d.flag = none := by
  cases d <;> first | rfl | exact absurd rfl h

end Directive

namespace Process

/-- Nothing has been built yet. -/
structure NoWafs (p : Process) : Prop where
  dir : ∀ d, p.wafOf d = 0
  server : ∀ c, p.serverWafOf c = 0
  wafs : p.wafs = []
  builds : p.builds = 0

/-- Every object has a rule array of its own. -/
structure Layout (p : Process) : Prop where
  dirArray : ∀ d < p.dirConfs.size, (p.dirConfs.get d).rules < p.arrays.size
  serverArray : ∀ c < p.serverConfs.size, (p.serverConfs.get c).rules < p.arrays.size
  dirDistinct : ∀ d < p.dirConfs.size, ∀ e < p.dirConfs.size,
    (p.dirConfs.get d).rules = (p.dirConfs.get e).rules → d = e
  serverDistinct : ∀ b < p.serverConfs.size, ∀ c < p.serverConfs.size,
    (p.serverConfs.get b).rules = (p.serverConfs.get c).rules → b = c
  apart : ∀ d < p.dirConfs.size, ∀ c < p.serverConfs.size,
    (p.dirConfs.get d).rules ≠ (p.serverConfs.get c).rules
  flag : ∀ d < p.dirConfs.size, p.rulesOf d ≠ [] → (p.dirConfs.get d).hasRules = true
  noWafs : p.NoWafs

/-! ### New objects -/

/-- The new object stands at the next address. -/
@[simp] theorem corazaCreateDirConf_fst (p : Process) :
    p.corazaCreateDirConf.1 = p.dirConfs.size := rfl

/-- So does the new server conf. -/
@[simp] theorem corazaCreateServerConf_fst (p : Process) :
    p.corazaCreateServerConf.1 = p.serverConfs.size := rfl

/-- A new `dir_conf` has no rules and leaves those of the others alone. -/
theorem rulesOf_createDirConf (p : Process) (h : p.Layout) (d : Nat)
    (hd : d < p.corazaCreateDirConf.2.dirConfs.size) :
    p.corazaCreateDirConf.2.rulesOf d = if d = p.dirConfs.size then [] else p.rulesOf d := by
  simp only [corazaCreateDirConf, Arena.size_alloc] at hd
  simp only [rulesOf, corazaCreateDirConf, Arena.get_alloc]
  by_cases he : d = p.dirConfs.size
  · simp only [if_pos he, if_true]
  · have hlt := h.dirArray d (by omega)
    rw [if_neg he, if_neg he, if_neg (by omega)]

private theorem serverRulesOf_createDirConf (p : Process) (h : p.Layout) (c : Nat)
    (hc : c < p.serverConfs.size) :
    p.corazaCreateDirConf.2.serverRulesOf c = p.serverRulesOf c := by
  have hlt := h.serverArray c hc
  simp only [serverRulesOf, corazaCreateDirConf, Arena.get_alloc]
  rw [if_neg (by omega)]

/-- A new server conf has no rules and leaves those of the others alone. -/
theorem serverRulesOf_createServerConf (p : Process) (h : p.Layout) (c : Nat)
    (hc : c < p.corazaCreateServerConf.2.serverConfs.size) :
    p.corazaCreateServerConf.2.serverRulesOf c =
      if c = p.serverConfs.size then [] else p.serverRulesOf c := by
  simp only [corazaCreateServerConf, Arena.size_alloc] at hc
  simp only [serverRulesOf, corazaCreateServerConf, Arena.get_alloc]
  by_cases he : c = p.serverConfs.size
  · simp only [if_pos he, if_true]
  · have hlt := h.serverArray c (by omega)
    rw [if_neg he, if_neg he, if_neg (by omega)]

private theorem rulesOf_createServerConf (p : Process) (h : p.Layout) (d : Nat)
    (hd : d < p.dirConfs.size) :
    p.corazaCreateServerConf.2.rulesOf d = p.rulesOf d := by
  have hlt := h.dirArray d hd
  simp only [rulesOf, corazaCreateServerConf, Arena.get_alloc]
  rw [if_neg (by omega)]

private theorem Layout.createDirConf {p : Process} (h : p.Layout) :
    p.corazaCreateDirConf.2.Layout where
  dirArray d hd := by
    simp only [corazaCreateDirConf, Arena.size_alloc, Arena.get_alloc] at hd ⊢
    split
    · exact Nat.lt_succ_self _
    · exact Nat.lt_succ_of_lt (h.dirArray d (by omega))
  serverArray c hc := by
    simp only [corazaCreateDirConf, Arena.size_alloc] at hc ⊢
    exact Nat.lt_succ_of_lt (h.serverArray c hc)
  dirDistinct d hd e he := by
    simp only [corazaCreateDirConf, Arena.size_alloc, Arena.get_alloc] at hd he ⊢
    split
    · next hds =>
      split
      · next hes => intro _; rw [hds, hes]
      · have := h.dirArray e (by omega)
        intro heq
        dsimp only at heq
        omega
    · split
      · have := h.dirArray d (by omega)
        intro heq
        dsimp only at heq
        omega
      · exact h.dirDistinct d (by omega) e (by omega)
  serverDistinct := h.serverDistinct
  apart d hd c hc := by
    simp only [corazaCreateDirConf, Arena.size_alloc, Arena.get_alloc] at hd hc ⊢
    have hlt := h.serverArray c hc
    split
    · dsimp only
      omega
    · exact h.apart d (by omega) c hc
  flag d hd hr := by
    rw [rulesOf_createDirConf p h d hd] at hr
    simp only [corazaCreateDirConf, Arena.size_alloc, Arena.get_alloc] at hd ⊢
    split
    · next hs => rw [if_pos hs] at hr; exact absurd rfl hr
    · next hs => rw [if_neg hs] at hr; exact h.flag d (by omega) hr
  noWafs := by
    refine ⟨fun d ↦ ?_, h.noWafs.server, h.noWafs.wafs, h.noWafs.builds⟩
    simp only [wafOf, corazaCreateDirConf, Arena.get_alloc]
    split
    · rfl
    · exact h.noWafs.dir d

private theorem Layout.createServerConf {p : Process} (h : p.Layout) :
    p.corazaCreateServerConf.2.Layout where
  dirArray d hd := by
    simp only [corazaCreateServerConf, Arena.size_alloc] at hd ⊢
    exact Nat.lt_succ_of_lt (h.dirArray d hd)
  serverArray c hc := by
    simp only [corazaCreateServerConf, Arena.size_alloc, Arena.get_alloc] at hc ⊢
    split
    · exact Nat.lt_succ_self _
    · exact Nat.lt_succ_of_lt (h.serverArray c (by omega))
  dirDistinct := h.dirDistinct
  serverDistinct b hb c hc := by
    simp only [corazaCreateServerConf, Arena.size_alloc, Arena.get_alloc] at hb hc ⊢
    split
    · next hbs =>
      split
      · next hcs => intro _; rw [hbs, hcs]
      · have := h.serverArray c (by omega)
        intro heq
        dsimp only at heq
        omega
    · split
      · have := h.serverArray b (by omega)
        intro heq
        dsimp only at heq
        omega
      · exact h.serverDistinct b (by omega) c (by omega)
  apart d hd c hc := by
    simp only [corazaCreateServerConf, Arena.size_alloc, Arena.get_alloc] at hd hc ⊢
    have hlt := h.dirArray d hd
    split
    · dsimp only
      omega
    · exact h.apart d hd c (by omega)
  flag d hd hr := by
    rw [rulesOf_createServerConf p h d hd] at hr
    exact h.flag d hd hr
  noWafs := by
    refine ⟨h.noWafs.dir, fun c ↦ ?_, h.noWafs.wafs, h.noWafs.builds⟩
    simp only [serverWafOf, corazaCreateServerConf, Arena.get_alloc]
    split
    · rfl
    · exact h.noWafs.server c

/-! ### Directives -/

/-- An assignment to a `dir_conf` that leaves its rules, flag and handle alone. -/
structure Benign (f : CorazaDirConf → CorazaDirConf) : Prop where
  rules : ∀ c, (f c).rules = c.rules
  hasRules : ∀ c, (f c).hasRules = c.hasRules
  waf : ∀ c, (f c).waf = c.waf

/-- An accepted directive stores one rule or assigns a setting, and only `Coraza` the flag. -/
theorem directive_run_cases {env : ConfigEnv} {p p' : Process} {path : Bool} {dcf scf : Nat}
    {dir : Directive} (h : dir.run env p path dcf scf = .ok p') :
    (∃ (cmd : CmdParms) (e : CorazaRuleEntry), cmd.path = path ∧ dir.ruleType = some e.type ∧
      p' = p.storeRule cmd dcf scf e) ∨
    ∃ f, Benign f ∧ dir.ruleType = none ∧
      (∀ c, (f c).enable = dir.flag.elim c.enable fun b ↦ if b then 1 else 0) ∧
      p' = p.updateDirConf dcf f := by
  have hrules {p p' : Process} {cmd : CmdParms} {arg : CString}
      (h : p.cmdCorazaRules cmd dcf scf arg = .ok p') :
      p' = p.storeRule cmd dcf scf ⟨.inline, arg⟩ := by
    unfold cmdCorazaRules at h
    split at h
    · cases h
    · cases h
      rfl
  have hbenign {g : CorazaDirConf → CorazaDirConf} (hg : ∀ c, (g c).rules = c.rules ∧
      (g c).hasRules = c.hasRules ∧ (g c).waf = c.waf) : Benign g :=
    ⟨fun c ↦ (hg c).1, fun c ↦ (hg c).2.1, fun c ↦ (hg c).2.2⟩
  cases dir with
  | coraza flag =>
    cases h
    refine Or.inr ⟨_, hbenign ?_, rfl, ?_, rfl⟩
    · exact fun _ ↦ ⟨rfl, rfl, rfl⟩
    · exact fun _ ↦ rfl
  | corazaRules arg => exact Or.inl ⟨_, _, rfl, rfl, hrules h⟩
  | corazaRulesFile arg =>
    simp only [Directive.run, cmdCorazaRulesFile] at h
    split at h
    · cases h
    · cases h
      exact Or.inl ⟨_, _, rfl, rfl, rfl⟩
  | corazaTransactionId arg =>
    cases h
    refine Or.inr ⟨_, hbenign ?_, rfl, ?_, rfl⟩
    · exact fun _ ↦ ⟨rfl, rfl, rfl⟩
    · exact fun _ ↦ rfl
  | corazaRequestBodyInMemoryLimit arg =>
    simp only [Directive.run, cmdCorazaBodyMemLimit] at h
    split at h
    · split at h
      · cases h
      · cases h
        refine Or.inr ⟨_, hbenign ?_, rfl, ?_, rfl⟩
        · exact fun _ ↦ ⟨rfl, rfl, rfl⟩
        · exact fun _ ↦ rfl
    · cases h
  | sec name args => exact Or.inl ⟨_, _, rfl, rfl, hrules h⟩

/-- After a benign assignment every object reads the same up to the assigned settings. -/
theorem get_updateDirConf_of_benign {f : CorazaDirConf → CorazaDirConf} (hf : Benign f)
    (p : Process) (dcf d : Nat) :
    ((p.updateDirConf dcf f).dirConfs.get d).rules = (p.dirConfs.get d).rules ∧
    ((p.updateDirConf dcf f).dirConfs.get d).hasRules = (p.dirConfs.get d).hasRules ∧
    (p.updateDirConf dcf f).wafOf d = p.wafOf d := by
  simp only [wafOf, updateDirConf, Arena.get_set]
  split
  · next h =>
    rw [h.1]
    exact ⟨hf.rules _, hf.hasRules _, hf.waf _⟩
  · exact ⟨rfl, rfl, rfl⟩

/-- An assignment that leaves the array pointer leaves the rules. -/
theorem rulesOf_updateDirConf_of_benign {f : CorazaDirConf → CorazaDirConf} (hf : Benign f)
    (p : Process) (dcf d : Nat) : (p.updateDirConf dcf f).rulesOf d = p.rulesOf d := by
  rw [rulesOf, (get_updateDirConf_of_benign hf p dcf d).1]
  rfl

private theorem Layout.updateDirConf {p : Process} (h : p.Layout)
    {f : CorazaDirConf → CorazaDirConf}
    (hf : Benign f) (dcf : Nat) : (p.updateDirConf dcf f).Layout := by
  have hs : (p.updateDirConf dcf f).dirConfs.size = p.dirConfs.size := Arena.size_set _ _ _
  have hr (d : Nat) := (get_updateDirConf_of_benign hf p dcf d).1
  refine ⟨fun d hd ↦ ?_, h.serverArray, fun d hd e he ↦ ?_, h.serverDistinct,
    fun d hd c hc ↦ ?_, fun d hd hne ↦ ?_, ⟨fun d ↦ ?_, h.noWafs.server, h.noWafs.wafs,
      h.noWafs.builds⟩⟩
  · rw [hr d]
    exact h.dirArray d (hs ▸ hd)
  · rw [hr d, hr e]
    exact h.dirDistinct d (hs ▸ hd) e (hs ▸ he)
  · rw [hr d]
    exact h.apart d (hs ▸ hd) c hc
  · rw [rulesOf_updateDirConf_of_benign hf] at hne
    rw [(get_updateDirConf_of_benign hf p dcf d).2.1]
    exact h.flag d (hs ▸ hd) hne
  · rw [(get_updateDirConf_of_benign hf p dcf d).2.2]
    exact h.noWafs.dir d

/-- Counting a rule leaves the array pointer of the server. -/
@[simp] theorem rules_countRule (sc : CorazaServerConf) (e : CorazaRuleEntry) :
    (countRule sc e).rules = sc.rules := by
  unfold countRule
  split <;> rfl

/-- It leaves the handle too. -/
@[simp] theorem waf_countRule (sc : CorazaServerConf) (e : CorazaRuleEntry) :
    (countRule sc e).waf = sc.waf := by
  unfold countRule
  split <;> rfl

variable (p : Process) (cmd : CmdParms) (dcf scf : Nat) (e : CorazaRuleEntry)

/-- Storing a rule: the flag, the counters, and the entry at the end of one or two arrays. -/
theorem storeRule_eq :
    p.storeRule cmd dcf scf e =
      { p with
        dirConfs := p.dirConfs.set dcf { p.dirConfs.get dcf with hasRules := true }
        serverConfs := p.serverConfs.set scf (countRule (p.serverConfs.get scf) e)
        arrays := if cmd.path
          then (p.pushRule (p.dirConfs.get dcf).rules e).arrays
          else ((p.pushRule (p.dirConfs.get dcf).rules e).pushRule
            (p.serverConfs.get scf).rules e).arrays } := by
  simp only [storeRule, pushRule, Process.updateDirConf, rules_countRule]
  split <;> rfl

/-- Storing a rule allocates no object. -/
theorem size_dirConfs_storeRule :
    (p.storeRule cmd dcf scf e).dirConfs.size = p.dirConfs.size := by
  rw [storeRule_eq]
  exact Arena.size_set _ _ _

/-- It allocates no server conf. -/
theorem size_serverConfs_storeRule :
    (p.storeRule cmd dcf scf e).serverConfs.size = p.serverConfs.size := by
  rw [storeRule_eq]
  exact Arena.size_set _ _ _

/-- It allocates no array. -/
theorem size_arrays_storeRule :
    (p.storeRule cmd dcf scf e).arrays.size = p.arrays.size := by
  rw [storeRule_eq]
  dsimp only
  split <;> simp [pushRule]

/-- Every object keeps its array pointer and its handle. -/
theorem dir_storeRule (d : Nat) :
    ((p.storeRule cmd dcf scf e).dirConfs.get d).rules = (p.dirConfs.get d).rules ∧
    (p.storeRule cmd dcf scf e).wafOf d = p.wafOf d := by
  rw [storeRule_eq]
  simp only [wafOf, Arena.get_set]
  split
  · next h => rw [h.1]; exact ⟨rfl, rfl⟩
  · exact ⟨rfl, rfl⟩

/-- So does every server conf. -/
theorem server_storeRule (c : Nat) :
    ((p.storeRule cmd dcf scf e).serverConfs.get c).rules = (p.serverConfs.get c).rules ∧
    (p.storeRule cmd dcf scf e).serverWafOf c = p.serverWafOf c := by
  rw [storeRule_eq]
  simp only [serverWafOf, Arena.get_set]
  split
  · next h => rw [h.1]; exact ⟨rules_countRule _ _, waf_countRule _ _⟩
  · exact ⟨rfl, rfl⟩

/-- The flag is set on the object the rule is stored for. -/
theorem hasRules_storeRule (d : Nat) (hd : d < p.dirConfs.size) :
    ((p.storeRule cmd dcf scf e).dirConfs.get d).hasRules =
      if d = dcf then true else (p.dirConfs.get d).hasRules := by
  rw [storeRule_eq]
  simp only [Arena.get_set]
  by_cases h : d = dcf
  · rw [if_pos ⟨h.symm, hd⟩, if_pos h]
  · rw [if_neg (fun hc ↦ h hc.1.symm), if_neg h]

variable {p} {dcf scf}

/-- The rule goes to the end of the array of its scope, for every object that has this array. -/
theorem rulesOf_storeRule_of_apart {d : Nat} (ha : (p.dirConfs.get d).rules < p.arrays.size)
    (hsc : (p.dirConfs.get d).rules ≠ (p.serverConfs.get scf).rules) :
    (p.storeRule cmd dcf scf e).rulesOf d =
      if (p.dirConfs.get dcf).rules = (p.dirConfs.get d).rules then p.rulesOf d ++ [e]
      else p.rulesOf d := by
  rw [rulesOf, (dir_storeRule p cmd dcf scf e d).1, storeRule_eq]
  have hpush : (p.pushRule (p.dirConfs.get dcf).rules e).arrays.get (p.dirConfs.get d).rules =
      if (p.dirConfs.get dcf).rules = (p.dirConfs.get d).rules then p.rulesOf d ++ [e]
      else p.rulesOf d := by
    simp only [pushRule, Arena.get_set]
    by_cases he : (p.dirConfs.get dcf).rules = (p.dirConfs.get d).rules
    · rw [if_pos ⟨he, ha⟩, if_pos he, he]
      rfl
    · rw [if_neg (fun hc ↦ he hc.1), if_neg he]
      rfl
  dsimp only
  split
  · exact hpush
  · rw [pushRule, Arena.get_set_ne _ _ _ _ hsc.symm]
    exact hpush

/-- With arrays of their own, the rule goes to the end of the list of its own scope. -/
theorem rulesOf_storeRule (h : p.Layout) (hdcf : dcf < p.dirConfs.size)
    (hscf : scf < p.serverConfs.size) (d : Nat) (hd : d < p.dirConfs.size) :
    (p.storeRule cmd dcf scf e).rulesOf d =
      if d = dcf then p.rulesOf d ++ [e] else p.rulesOf d := by
  rw [rulesOf_storeRule_of_apart cmd e (h.dirArray d hd) (h.apart d hd scf hscf)]
  have hiff : (p.dirConfs.get dcf).rules = (p.dirConfs.get d).rules ↔ d = dcf := by
    constructor
    · intro heq
      exact (h.dirDistinct dcf hdcf d hd heq).symm
    · rintro rfl
      rfl
  simp only [hiff]

/-- At server level it also goes to the end of the server's list. -/
theorem serverRulesOf_storeRule (h : p.Layout) (hdcf : dcf < p.dirConfs.size)
    (hscf : scf < p.serverConfs.size) (c : Nat) (hc : c < p.serverConfs.size) :
    (p.storeRule cmd dcf scf e).serverRulesOf c =
      if c = scf ∧ cmd.path = false then p.serverRulesOf c ++ [e] else p.serverRulesOf c := by
  have ha := h.serverArray c hc
  have hdc := h.apart dcf hdcf c hc
  have hss := h.serverDistinct scf hscf c hc
  rw [serverRulesOf, (server_storeRule p cmd dcf scf e c).1, storeRule_eq]
  have hpush : (p.pushRule (p.dirConfs.get dcf).rules e).arrays.get
      (p.serverConfs.get c).rules = p.serverRulesOf c := by
    simp only [pushRule, Arena.get_set_ne _ _ _ _ hdc]
    rfl
  dsimp only
  split
  · next hp => rw [if_neg (fun hn ↦ by simp [hn.2] at hp)]; exact hpush
  · next hp =>
    have hp' : cmd.path = false := by simpa using hp
    have hs : (p.pushRule (p.dirConfs.get dcf).rules e).arrays.size = p.arrays.size :=
      Arena.size_set _ _ _
    rw [pushRule, Arena.get_set, hs]
    by_cases he : c = scf
    · subst he
      rw [if_pos ⟨rfl, ha⟩, if_pos ⟨rfl, hp'⟩, hpush]
    · rw [if_neg (fun hn ↦ he (hss hn.1).symm), if_neg (fun hn ↦ he hn.1)]
      exact hpush

private theorem Layout.storeRule (h : p.Layout) (hdcf : dcf < p.dirConfs.size)
    (hscf : scf < p.serverConfs.size) : (p.storeRule cmd dcf scf e).Layout := by
  have hr (d : Nat) := (dir_storeRule p cmd dcf scf e d).1
  have hc (c : Nat) := (server_storeRule p cmd dcf scf e c).1
  have hds := size_dirConfs_storeRule p cmd dcf scf e
  have hss := size_serverConfs_storeRule p cmd dcf scf e
  have has := size_arrays_storeRule p cmd dcf scf e
  refine ⟨?_, ?_, ?_, ?_, ?_, ?_, ⟨fun d ↦ ?_, fun c ↦ ?_, ?_, ?_⟩⟩
  · simpa only [hr, hds, has] using h.dirArray
  · simpa only [hc, hss, has] using h.serverArray
  · simpa only [hr, hds] using h.dirDistinct
  · simpa only [hc, hss] using h.serverDistinct
  · simpa only [hr, hc, hds, hss] using h.apart
  · intro d hd hne
    rw [hds] at hd
    rw [hasRules_storeRule p cmd dcf scf e d hd]
    rw [rulesOf_storeRule cmd e h hdcf hscf d hd] at hne
    split
    · rfl
    · next hn => rw [if_neg hn] at hne; exact h.flag d hd hne
  · rw [(dir_storeRule p cmd dcf scf e d).2]
    exact h.noWafs.dir d
  · rw [(server_storeRule p cmd dcf scf e c).2]
    exact h.noWafs.server c
  · rw [storeRule_eq]
    exact h.noWafs.wafs
  · rw [storeRule_eq]
    exact h.noWafs.builds

end Process

namespace Startup

/-- The rules at the server level of server `i`, as its base `dir_conf` has them. -/
def baseRules (st : Startup) (i : Nat) : RuleList :=
  ((st.dirVector (i, none)).map st.process.rulesOf).getD []

/-- The same rules, as its server conf has them. -/
def ownRules (st : Startup) (i : Nat) : RuleList :=
  ((st.moduleConfig i).map st.process.serverRulesOf).getD []

/-- The invariant of reading directives. -/
structure Reading (st : Startup) : Prop where
  layout : st.process.Layout
  dirLt : ∀ slot d, st.dirVector slot = some d → d < st.process.dirConfs.size
  dirInj : ∀ slot slot' d, st.dirVector slot = some d → st.dirVector slot' = some d →
    slot = slot'
  confLt : ∀ i c, st.moduleConfig i = some c → c < st.process.serverConfs.size
  confInj : ∀ i j c, st.moduleConfig i = some c → st.moduleConfig j = some c → i = j
  level : ∀ i, st.baseRules i = st.ownRules i
  main : (st.moduleConfig 0).isSome ∧ (st.dirVector (0, none)).isSome
  tracker : st.process.trackedDirConfs = some []

/-- Nothing has been read yet. -/
theorem reading_init : Reading init where
  layout := by
    refine Process.Layout.createDirConf (Process.Layout.createServerConf ?_)
    refine ⟨?_, ?_, ?_, ?_, ?_, ?_, ⟨fun d ↦ ?_, fun c ↦ ?_, rfl, rfl⟩⟩
    all_goals first | (intro d hd; exact absurd hd (Nat.not_lt_zero d)) | skip
    · simp [Process.wafOf, Process.init, Arena.get, Arena.empty, default]
    · simp [Process.serverWafOf, Process.init, Arena.get, Arena.empty, default]
  dirLt slot d h := by
    simp only [init] at h
    split at h
    · cases h
      decide
    · cases h
  dirInj slot slot' d h h' := by
    simp only [init] at h h'
    split at h
    · next hs =>
      split at h'
      · next hs' => rw [hs, hs']
      · cases h'
    · cases h
  confLt i c h := by
    simp only [init] at h
    split at h
    · cases h
      decide
    · cases h
  confInj i j c h h' := by
    simp only [init] at h h'
    split at h
    · next hi =>
      split at h'
      · next hj => rw [hi, hj]
      · cases h'
    · cases h
  level i := by
    by_cases hi : i = 0
    · subst hi
      rfl
    · simp [baseRules, ownRules, init, hi]
  main := ⟨rfl, rfl⟩
  tracker := rfl

/-- The object found or created stands at its slot, and the invariant is kept. -/
theorem Reading.ensureDirConf {st : Startup} (h : Reading st) (slot : Nat × Option Nat) :
    Reading (st.ensureDirConf slot).2 ∧
      (st.ensureDirConf slot).2.dirVector slot = some (st.ensureDirConf slot).1 := by
  unfold Startup.ensureDirConf
  cases hs : st.dirVector slot with
  | some d => exact ⟨h, hs⟩
  | none =>
    refine ⟨⟨h.layout.createDirConf, fun s d hd ↦ ?_, fun s s' d hd hd' ↦ ?_, h.confLt,
      h.confInj, fun i ↦ ?_, ?_, h.tracker⟩, by simp⟩
    · simp only [Process.corazaCreateDirConf, Arena.size_alloc] at hd ⊢
      split at hd
      · cases hd
        exact Nat.lt_succ_self _
      · exact Nat.lt_succ_of_lt (h.dirLt s d hd)
    · simp only [Process.corazaCreateDirConf_fst] at hd hd'
      split at hd
      · next he =>
        split at hd'
        · next he' => rw [he, he']
        · cases hd
          exact absurd (h.dirLt s' _ hd') (Nat.lt_irrefl _)
      · split at hd'
        · cases hd'
          exact absurd (h.dirLt s _ hd) (Nat.lt_irrefl _)
        · exact h.dirInj s s' d hd hd'
    · have hown : ownRules { st with
          process := st.process.corazaCreateDirConf.2
          dirVector := fun s ↦ if s = slot then some st.process.corazaCreateDirConf.1
            else st.dirVector s } i = st.ownRules i := by
        simp only [ownRules]
        cases hc : st.moduleConfig i with
        | none => rfl
        | some c =>
          exact Process.serverRulesOf_createDirConf _ h.layout c (h.confLt i c hc)
      rw [hown, ← h.level i]
      simp only [baseRules, Process.corazaCreateDirConf_fst]
      have hsize : st.process.corazaCreateDirConf.2.dirConfs.size =
          st.process.dirConfs.size + 1 := Arena.size_alloc _ _
      by_cases hi : (i, none) = slot
      · rw [if_pos hi, hi, hs, Option.map_some, Option.getD_some,
          Process.rulesOf_createDirConf _ h.layout _ (by omega), if_pos rfl]
        rfl
      · rw [if_neg hi]
        cases hb : st.dirVector (i, none) with
        | none => rfl
        | some b =>
          have hlt := h.dirLt _ b hb
          rw [Option.map_some, Option.getD_some,
            Process.rulesOf_createDirConf _ h.layout b (by omega), if_neg (by omega)]
          rfl
    · refine ⟨h.main.1, ?_⟩
      dsimp only
      split
      · rfl
      · exact h.main.2

/-- The server has its conf from then on. -/
theorem Reading.ensureServerConf {st : Startup} (h : Reading st) (server : Nat) :
    Reading (st.ensureServerConf server).2 ∧
      (st.ensureServerConf server).2.moduleConfig server =
        some (st.ensureServerConf server).1 ∧
      (st.ensureServerConf server).2.dirVector = st.dirVector := by
  unfold Startup.ensureServerConf
  cases hs : st.moduleConfig server with
  | some c => exact ⟨h, hs, rfl⟩
  | none =>
    refine ⟨⟨h.layout.createServerConf, h.dirLt, h.dirInj, fun i c hc ↦ ?_,
      fun i j c hc hc' ↦ ?_, fun i ↦ ?_, ?_, rfl⟩, by simp, rfl⟩
    · simp only [Process.corazaCreateServerConf, Arena.size_alloc] at hc ⊢
      split at hc
      · cases hc
        exact Nat.lt_succ_self _
      · exact Nat.lt_succ_of_lt (h.confLt i c hc)
    · simp only [Process.corazaCreateServerConf_fst] at hc hc'
      split at hc
      · next he =>
        split at hc'
        · next he' => rw [he, he']
        · cases hc
          exact absurd (h.confLt j _ hc') (Nat.lt_irrefl _)
      · split at hc'
        · cases hc'
          exact absurd (h.confLt i _ hc) (Nat.lt_irrefl _)
        · exact h.confInj i j c hc hc'
    · have hbase : baseRules { st with
          process := st.process.corazaCreateServerConf.2
          moduleConfig := fun i ↦ if i = server then some st.process.corazaCreateServerConf.1
            else st.moduleConfig i } i = st.baseRules i := by
        simp only [baseRules]
        cases hb : st.dirVector (i, none) with
        | none => rfl
        | some b =>
          exact Process.rulesOf_createServerConf _ h.layout b (h.dirLt _ b hb)
      rw [hbase, h.level i]
      simp only [ownRules, Process.corazaCreateServerConf_fst]
      have hsize : st.process.corazaCreateServerConf.2.serverConfs.size =
          st.process.serverConfs.size + 1 := Arena.size_alloc _ _
      by_cases hi : i = server
      · rw [if_pos hi, hi, hs, Option.map_some, Option.getD_some,
          Process.serverRulesOf_createServerConf _ h.layout _ (by omega), if_pos rfl]
        rfl
      · rw [if_neg hi]
        cases hc : st.moduleConfig i with
        | none => rfl
        | some c =>
          have hlt := h.confLt i c hc
          simp only [Option.map_some, Option.getD_some]
          rw [Process.serverRulesOf_createServerConf _ h.layout c (by omega), if_neg (by omega)]
    · refine ⟨?_, h.main.2⟩
      dsimp only
      split
      · rfl
      · exact h.main.1

/-- An accepted directive keeps the invariant: at server level both lists grow by the same
entry, in a section neither list of any server changes. -/
theorem Reading.run {st : Startup} (h : Reading st) {server : Nat} {scope : Option Nat}
    {dcf scf : Nat} (hd : st.dirVector (server, scope) = some dcf)
    (hc : st.moduleConfig server = some scf) {env : ConfigEnv} {dir : Directive} {p : Process}
    (hrun : dir.run env st.process scope.isSome dcf scf = .ok p) :
    Reading { st with process := p } := by
  have hdcf := h.dirLt _ dcf hd
  have hscf := h.confLt _ scf hc
  rcases Process.directive_run_cases hrun with ⟨cmd, e, hcmd, -, rfl⟩ | ⟨f, hf, -, -, rfl⟩
  · have hds := Process.size_dirConfs_storeRule st.process cmd dcf scf e
    have hss := Process.size_serverConfs_storeRule st.process cmd dcf scf e
    refine ⟨h.layout.storeRule cmd e hdcf hscf, fun s d hsd ↦ ?_, h.dirInj, fun i c hic ↦ ?_,
      h.confInj, fun i ↦ ?_, h.main, by rw [Process.storeRule_eq]; exact h.tracker⟩
    · rw [hds]
      exact h.dirLt s d hsd
    · rw [hss]
      exact h.confLt i c hic
    · -- The entry reaches the base of server `i` exactly when it reaches its server conf.
      have hbase : baseRules { st with process := st.process.storeRule cmd dcf scf e } i =
          if i = server ∧ scope = none then st.baseRules i ++ [e] else st.baseRules i := by
        simp only [baseRules]
        cases hb : st.dirVector (i, none) with
        | none =>
          rw [if_neg]
          · rfl
          · rintro ⟨rfl, rfl⟩
            rw [hb] at hd
            cases hd
        | some b =>
          simp only [Option.map_some, Option.getD_some]
          rw [Process.rulesOf_storeRule cmd e h.layout hdcf hscf b (h.dirLt _ b hb)]
          refine if_congr ⟨?_, ?_⟩ rfl rfl
          · rintro rfl
            have := h.dirInj _ _ _ hb hd
            simp only [Prod.mk.injEq] at this
            exact ⟨this.1, this.2.symm⟩
          · rintro ⟨rfl, rfl⟩
            rw [hb] at hd
            exact Option.some.inj hd
      have hown : ownRules { st with process := st.process.storeRule cmd dcf scf e } i =
          if i = server ∧ scope = none then st.ownRules i ++ [e] else st.ownRules i := by
        simp only [ownRules]
        cases hi : st.moduleConfig i with
        | none =>
          rw [if_neg]
          · rfl
          · rintro ⟨rfl, -⟩
            rw [hi] at hc
            cases hc
        | some c =>
          simp only [Option.map_some, Option.getD_some]
          rw [Process.serverRulesOf_storeRule cmd e h.layout hdcf hscf c (h.confLt _ c hi), hcmd]
          refine if_congr ⟨?_, ?_⟩ rfl rfl
          · rintro ⟨rfl, hn⟩
            exact ⟨h.confInj _ _ _ hi hc, by simpa using hn⟩
          · rintro ⟨rfl, rfl⟩
            rw [hi] at hc
            exact ⟨Option.some.inj hc, rfl⟩
      rw [hbase, hown, h.level i]
  · have hds : (st.process.updateDirConf dcf f).dirConfs.size = st.process.dirConfs.size :=
      Arena.size_set _ _ _
    have hr (d : Nat) := Process.rulesOf_updateDirConf_of_benign hf st.process dcf d
    refine ⟨h.layout.updateDirConf hf dcf, fun s d hsd ↦ ?_, h.dirInj, h.confLt, h.confInj,
      fun i ↦ ?_, h.main, h.tracker⟩
    · rw [hds]
      exact h.dirLt s d hsd
    · have hb : baseRules { st with process := st.process.updateDirConf dcf f } i =
          st.baseRules i := by
        simp only [baseRules, funext hr]
      rw [hb]
      exact h.level i

/-- One directive is read. -/
theorem Reading.readDirective {st st' : Startup} (h : Reading st) {env : ConfigEnv}
    {d : PlacedDirective} (hr : st.readDirective env d = .ok st') : Reading st' := by
  unfold Startup.readDirective at hr
  dsimp only at hr
  obtain ⟨h1, hslot⟩ := h.ensureDirConf (d.server, d.scope)
  obtain ⟨h2, hconf, hvec⟩ := h1.ensureServerConf d.server
  split at hr
  · cases hr
  · next p hp =>
    cases hr
    exact h2.run (by rw [hvec]; exact hslot) hconf hp

/-- The invariant after all directives of a configuration that httpd accepts. -/
theorem Reading.readDirectives {st st' : Startup} (h : Reading st) {env : ConfigEnv}
    {ds : List PlacedDirective} (hr : st.readDirectives env ds = .ok st') : Reading st' := by
  induction ds generalizing st with
  | nil =>
    cases hr
    exact h
  | cons d ds ih =>
    rw [Startup.readDirectives] at hr
    split at hr
    · cases hr
    · next st1 h1 => exact ih (h.readDirective h1) hr

end Startup

end CorazaApache.Config
