import CorazaApache.Config.History

/-!
# Which rules a transaction runs

The two guarantees of `coraza_create_ctx` over whole histories: a `dir_conf` with rules is
served by a WAF built from exactly these rules, and when no such WAF can be had the request
fails closed. The first is broken by a section reached through two different policies, since
its handle outlives the parent it was built under. The second is broken by the same handle and
by the final fallback, `src/mod_coraza.c:439–440`, which asks whether there is a handle and
not whether there are rules.
-/

namespace CorazaApache.Config
open CorazaApache.Base

/-- No build fails, whatever non-empty list it is asked for. -/
def WafLib.BuildsSucceed (lib : WafLib) : Prop :=
  ∀ k rules, rules ≠ [] → corazaBuildWaf (lib.build k) rules ≠ 0

/-- An engine that accepts every rule and numbers its handles from 1. -/
def acceptingLib : WafLib where
  build k := { config := 1, strdup := fun _ ↦ true, rulesAdd := fun _ ↦ 0,
               rulesAddFile := fun _ ↦ 0, waf := k + 1 }
  newTransaction k := k + 1

/-- The accepting engine takes the whole list. -/
theorem addRules_acceptingLib (k i : Nat) (given rules : RuleList) :
    addRules (acceptingLib.build k) i given rules = some (given ++ rules) := by
  induction rules generalizing i given with
  | nil => simp [addRules]
  | cons e es ih =>
    have ha : addRule (acceptingLib.build k) i e = 0 := by
      unfold addRule
      split <;> rfl
    have hs : (acceptingLib.build k).strdup i = true := rfl
    simp [addRules, ha, hs, ih]

private theorem buildsSucceed_acceptingLib : acceptingLib.BuildsSucceed := by
  intro k rules hr
  have hl : rules.length ≠ 0 := fun h ↦ hr (List.length_eq_zero_iff.mp h)
  simp only [corazaBuildWaf, if_neg hl, newWafCall, addRules_acceptingLib]
  simp [acceptingLib]

/-- An inline rule, for concrete configurations. -/
def inlineRule (text : String) : CorazaRuleEntry := ⟨.inline, CString.ofString text⟩

namespace Process

/-- A child that has parsed sections with the given rules under one server without a WAF. -/
def ofSections (sections : List RuleList) : Process :=
  { init with
    arrays := ⟨sections⟩
    dirConfs := ⟨sections.mapIdx fun i rules ↦
      { (default : CorazaDirConf) with enable := 1, hasRules := !rules.isEmpty, rules := i }⟩
    serverConfs := ⟨[default]⟩
    wafCachePool := true }

/-- The section at an address has its own array and no handle. -/
theorem get_ofSections (sections : List RuleList) (d : Nat) (hd : d < sections.length) :
    (ofSections sections).dirConfs.get d =
      { (default : CorazaDirConf) with
        enable := 1, hasRules := !(sections.getD d []).isEmpty, rules := d } := by
  simp only [ofSections, Arena.get, List.getD_eq_getElem?_getD, List.getElem?_mapIdx,
    List.getElem?_eq_getElem hd, Option.map_some, Option.getD_some]

/-- Freshly parsed sections are a coherent start. -/
theorem coherent_ofSections (sections : List RuleList) :
    History.Coherent (ofSections sections) := by
  have hs : (ofSections sections).dirConfs.size = sections.length := by
    simp [ofSections, Arena.size]
  refine ⟨fun d hd ↦ ?_, fun d hd hr ↦ ?_, fun d hd hn ↦ ?_, fun e he ↦ by cases he⟩
  · rw [hs] at hd
    rw [get_ofSections sections d hd]
    exact hd
  · rw [hs] at hd
    rw [rulesOf, get_ofSections sections d hd] at hr
    rw [get_ofSections sections d hd]
    have hr' : sections.getD d [] ≠ [] := hr
    simpa using hr'
  · rw [hs] at hd
    rw [wafOf, get_ofSections sections d hd] at hn
    exact absurd rfl hn

/-- The `merge_child` re-check leaves `d` without a handle if neither object has one. -/
theorem wafOf_strategyMergeChild_eq_zero_iff (p : Process) {d : Nat} (hd : d < p.dirConfs.size) :
    (p.strategyMergeChild d).wafOf d = 0 ↔ ∀ o ∈ p.handleTargets d, p.wafOf o = 0 := by
  unfold strategyMergeChild handleTargets
  by_cases hz : p.wafOf d = 0
  · rw [if_pos hz]
    cases hc : (p.dirConfs.get d).mergeChild with
    | none => simp
    | some c =>
      dsimp only
      rw [wafOf_setWaf, if_pos ⟨rfl, hd⟩]
      simp [hz]
  · rw [if_neg hz]
    simp [hz]

/-- The cache lookup leaves `d` without a handle if it had none and the cache has none. -/
theorem wafOf_strategyCache_eq_zero_iff (p : Process) {d : Nat} (hd : d < p.dirConfs.size) :
    (p.strategyCache d).wafOf d = 0 ↔ p.wafOf d = 0 ∧
      wafCacheFind p.wafCache (rulesHash (p.rulesOf d)) (p.rulesOf d) = 0 := by
  unfold strategyCache
  by_cases hz : p.wafOf d = 0
  · rw [if_pos hz]
    dsimp only
    by_cases hcached : wafCacheFind p.wafCache (rulesHash (p.rulesOf d)) (p.rulesOf d) = 0
    · rw [if_neg (not_not.mpr hcached)]
      exact ⟨fun h ↦ ⟨h, hcached⟩, fun h ↦ h.1⟩
    · rw [if_pos hcached, wafOf_setChildWaf_self, wafOf_setWaf, if_pos ⟨rfl, hd⟩]
      exact ⟨fun h ↦ absurd h hcached, fun h ↦ h.2⟩
  · rw [if_neg hz]
    exact ⟨fun h ↦ absurd h hz, fun h ↦ h.1⟩

/-- The build leaves `d` without a handle if it had none and the build fails. -/
theorem wafOf_strategyBuild_eq_zero_iff (p : Process) (lib : WafLib) {d : Nat}
    (hd : d < p.dirConfs.size) (hr : p.rulesOf d ≠ []) :
    (p.strategyBuild lib d).wafOf d = 0 ↔
      p.wafOf d = 0 ∧ corazaBuildWaf (lib.build p.builds) (p.rulesOf d) = 0 := by
  unfold strategyBuild
  by_cases hz : p.wafOf d = 0
  · have hl : (p.rulesOf d).length ≠ 0 := fun h ↦ hr (List.length_eq_zero_iff.mp h)
    have hw : ((p.buildWaf lib (p.rulesOf d)).2.setWaf d
        (p.buildWaf lib (p.rulesOf d)).1).wafOf d =
          corazaBuildWaf (lib.build p.builds) (p.rulesOf d) := by
      have hs : (p.buildWaf lib (p.rulesOf d)).2.dirConfs.size = p.dirConfs.size := by
        rw [buildWaf_snd]
      rw [wafOf_setWaf, if_pos ⟨rfl, by rw [hs]; exact hd⟩, buildWaf, if_neg hl]
    rw [if_pos hz]
    dsimp only
    rw [wafOf_setChildWaf_self]
    split
    · rw [wafOf, dirConfs_wafCacheAdd]
      exact ⟨fun h ↦ ⟨hz, hw.symm.trans h⟩, fun h ↦ hw.trans h.2⟩
    · exact ⟨fun h ↦ ⟨hz, hw.symm.trans h⟩, fun h ↦ hw.trans h.2⟩
  · rw [if_neg hz]
    exact ⟨fun h ↦ absurd h hz, fun h ↦ h.1⟩

/-- The lookups leave the count of builds, the first one the cache too. -/
private theorem wafCache_builds_lookups (p : Process) (d : Nat) :
    (p.strategyMergeChild d).wafCache = p.wafCache ∧
      ((p.strategyMergeChild d).strategyCache d).builds = p.builds := by
  have hmerge : (p.strategyMergeChild d).wafCache = p.wafCache ∧
      (p.strategyMergeChild d).builds = p.builds := by
    unfold strategyMergeChild
    by_cases hz : p.wafOf d = 0
    · rw [if_pos hz]
      cases (p.dirConfs.get d).mergeChild with
      | none => exact ⟨rfl, rfl⟩
      | some c => exact ⟨rfl, rfl⟩
    · rw [if_neg hz]
      exact ⟨rfl, rfl⟩
  refine ⟨hmerge.1, Eq.trans ?_ hmerge.2⟩
  unfold strategyCache setChildWaf
  split
  · dsimp only
    split
    · split <;> rfl
    · rfl
  · rfl

/-- The lookups and the build leave `d` without a handle exactly if neither object has one, the
cache has none, and the build fails. -/
theorem wafOf_resolveWaf_eq_zero_iff (p : Process) (lib : WafLib) {d : Nat} (hs : p.CacheSound)
    (hd : d < p.dirConfs.size) (hf : (p.dirConfs.get d).hasRules = true) (hr : p.rulesOf d ≠ []) :
    (p.resolveWaf lib d).wafOf d = 0 ↔ (∀ o ∈ p.handleTargets d, p.wafOf o = 0) ∧
      wafCacheFind p.wafCache (rulesHash (p.rulesOf d)) (p.rulesOf d) = 0 ∧
      corazaBuildWaf (lib.build p.builds) (p.rulesOf d) = 0 := by
  by_cases hself : p.wafOf d = 0
  · have hmerged := (Resolving.start p d hs).strategyMergeChild
    have hcached := hmerged.strategyCache
    obtain ⟨hcache, hbuilds⟩ := p.wafCache_builds_lookups d
    rw [resolveWaf, if_pos ⟨hself, hf, List.length_pos_iff.mpr hr⟩,
      wafOf_strategyBuild_eq_zero_iff _ lib (hcached.only.size.symm ▸ hd)
        (by rw [hcached.only.rulesOf d]; exact hr),
      wafOf_strategyCache_eq_zero_iff _ (hmerged.only.size.symm ▸ hd),
      wafOf_strategyMergeChild_eq_zero_iff _ hd, hcached.only.rulesOf, hmerged.only.rulesOf,
      hcache, hbuilds, and_assoc]
  · have hsame : p.resolveWaf lib d = p := if_neg fun hc ↦ hself hc.1
    rw [hsame]
    exact ⟨fun h ↦ absurd h hself, fun h ↦ absurd (h.1 d (Resolving.mem_self p d)) hself⟩

/-- With builds that succeed, the lookup ends with a handle on an object that has rules. -/
theorem wafOf_resolveWaf_ne_zero (p : Process) (lib : WafLib) (hb : lib.BuildsSucceed) (d : Nat)
    (hs : p.CacheSound) (hd : d < p.dirConfs.size) (hf : (p.dirConfs.get d).hasRules = true)
    (hr : p.rulesOf d ≠ []) : (p.resolveWaf lib d).wafOf d ≠ 0 := by
  intro hz
  exact hb _ _ hr ((p.wafOf_resolveWaf_eq_zero_iff lib hs hd hf hr).mp hz).2.2

/-- The handle that stands on the object behind a call is the one the lookups and the build left
there. -/
theorem wafOf_corazaCreateCtx (p : Process) (lib : WafLib) (d scf o : Nat) :
    (p.corazaCreateCtx lib d scf).2.wafOf o = (p.resolveWaf lib d).wafOf o := by
  rw [corazaCreateCtx_snd]
  rfl

/-- How a call of `coraza_create_ctx` ends: with no handle on the object nor on the server, and no
transaction; or with a transaction on the handle of the object, or else on that of the server. -/
theorem corazaCreateCtx_cases (p : Process) (lib : WafLib) (d scf : Nat) (hs : p.CacheSound) :
    ((p.corazaCreateCtx lib d scf).2.wafOf d = 0 ∧ (p.serverConfs.get scf).waf = 0 ∧
      (p.corazaCreateCtx lib d scf).1 = none ∧
      (p.corazaCreateCtx lib d scf).2.transactions = p.transactions) ∨
    ∃ call : TransactionCall,
      (p.corazaCreateCtx lib d scf).2.transactions = p.transactions ++ [call] ∧
      ((p.corazaCreateCtx lib d scf).2.wafOf d ≠ 0 ∧
          call.waf = (p.corazaCreateCtx lib d scf).2.wafOf d ∨
        (p.corazaCreateCtx lib d scf).2.wafOf d = 0 ∧ (p.serverConfs.get scf).waf ≠ 0) := by
  have honly := (resolving_resolveWaf p lib d hs).only
  rw [wafOf_corazaCreateCtx, ← honly.serverConfs, ← honly.transactions]
  unfold corazaCreateCtx
  dsimp only
  by_cases hz : (p.resolveWaf lib d).wafOf d = 0
  · have hchosen : (p.resolveWaf lib d).chosenWaf d scf =
        ((p.resolveWaf lib d).serverConfs.get scf).waf := if_neg (not_not.mpr hz)
    rw [hchosen]
    split
    · next hserver => exact Or.inl ⟨hz, hserver, rfl, rfl⟩
    · next hserver => exact Or.inr ⟨_, rfl, Or.inr ⟨hz, hserver⟩⟩
  · have hchosen : (p.resolveWaf lib d).chosenWaf d scf = (p.resolveWaf lib d).wafOf d := if_pos hz
    rw [hchosen, if_neg hz]
    exact Or.inr ⟨_, rfl, Or.inl ⟨hz, rfl⟩⟩

end Process

/-- The transaction of a `dir_conf` with rules is created on a WAF built from these rules. -/
def RunsOwnRules (lib : WafLib) (p : Process) : ConfOp → Prop
  | .merge _ _ => True
  | .createCtx d scf => p.rulesOf d ≠ [] → ∃ call : TransactionCall,
      (p.corazaCreateCtx lib d scf).2.transactions = p.transactions ++ [call] ∧
        (p.corazaCreateCtx lib d scf).2.BuiltFrom call.waf (p.rulesOf d)

/-- Policy isolation over every history that never asks an object for a handle of one rule list
after it was given one of another. -/
theorem runsOwnRules_of_handlesAgree (lib : WafLib) (hb : lib.BuildsSucceed) (p : Process)
    (hp : History.Coherent p) (ops : List ConfOp)
    (hc : ∀ v ∈ visits (History.step lib) (History.start p) ops,
      History.Addresses v.1 v.2 ∧ History.HandlesAgree v.1 v.2) :
    ∀ v ∈ visits (History.step lib) (History.start p) ops,
      RunsOwnRules lib v.1.process v.2 := by
  intro v hv
  have hinv := History.inv_visits hp hc v hv
  obtain ⟨haddr, hagree⟩ := hc v hv
  obtain ⟨h, op⟩ := v
  cases op with
  | merge a b => trivial
  | createCtx d scf =>
    intro hr
    have hn := h.process.wafOf_resolveWaf_ne_zero lib hb d hinv.cache haddr
      (hinv.flag d haddr hr) hr
    rcases h.process.corazaCreateCtx_cases lib d scf hinv.cache with
      ⟨hz, -⟩ | ⟨call, hcall, ⟨-, hwaf⟩ | ⟨hz, -⟩⟩
    · rw [Process.wafOf_corazaCreateCtx] at hz
      exact absurd hz hn
    · refine ⟨call, hcall, ?_⟩
      rw [hwaf, Process.wafOf_corazaCreateCtx, Process.corazaCreateCtx_snd]
      exact History.builtFrom_target hinv hagree hr (Process.Resolving.mem_self _ _) hn
    · rw [Process.wafOf_corazaCreateCtx] at hz
      exact absurd hz hn

/-- One section under one server, asked for twice: the second request finds the handle on the
section and it is the right one. -/
theorem runsOwnRules_repeated_section :
    acceptingLib.BuildsSucceed ∧
    ∀ v ∈ visits (History.step acceptingLib)
        (History.start (Process.ofSections [[inlineRule "a"], [inlineRule "c"]]))
        [.merge 0 1, .createCtx 2 0, .merge 0 1, .createCtx 3 0],
      RunsOwnRules acceptingLib v.1.process v.2 :=
  ⟨buildsSucceed_acceptingLib, runsOwnRules_of_handlesAgree acceptingLib
    buildsSucceed_acceptingLib _ (Process.coherent_ofSections _) _ (by decide)⟩

/-- One section reached through two virtual hosts: the second request runs the rules of the
first. -/
theorem shared_section_runs_other_rules :
    acceptingLib.BuildsSucceed ∧
    History.Coherent (Process.ofSections [[inlineRule "a"], [inlineRule "b"], [inlineRule "c"]]) ∧
    ¬ ∀ v ∈ visits (History.step acceptingLib)
        (History.start (Process.ofSections
          [[inlineRule "a"], [inlineRule "b"], [inlineRule "c"]]))
        [.merge 0 2, .createCtx 3 0, .merge 1 2, .createCtx 4 0],
      RunsOwnRules acceptingLib v.1.process v.2 := by
  refine ⟨buildsSucceed_acceptingLib, Process.coherent_ofSections _, fun h ↦ ?_⟩
  simp only [visits_cons, visits_nil, List.forall_mem_cons] at h
  obtain ⟨-, -, -, h, -⟩ := h
  obtain ⟨call, ht, hb⟩ := h (by decide)
  have hc : some call = some ⟨1, none, 2⟩ := by
    have hl := congrArg List.getLast? ht
    rw [List.getLast?_append_cons, List.getLast?_singleton] at hl
    exact hl.symm
  cases hc
  exact absurd hb (by decide)

/-! ### Policies that do not compile -/

/-- `coraza_build_waf` returns 0 for the rules of `d`, the engine answering as it does to the next
build. -/
def BuildFails (lib : WafLib) (p : Process) (d : Nat) : Prop :=
  corazaBuildWaf (lib.build p.builds) (p.rulesOf d) = 0

instance (lib : WafLib) (p : Process) (d : Nat) : Decidable (BuildFails lib p d) :=
  inferInstanceAs (Decidable (_ = 0))

/-- No WAF for the rules of `d` can be found: none was built from them that stands on `d` or on
the section it was merged from, and the cache has none. -/
structure NoWafFor (p : Process) (d : Nat) : Prop where
  objects : ∀ o ∈ p.handleTargets d, p.wafOf o ≠ 0 → ¬ p.BuiltFrom (p.wafOf o) (p.rulesOf d)
  cache : wafCacheFind p.wafCache (rulesHash (p.rulesOf d)) (p.rulesOf d) = 0

/-- What fails closed: for rules that no WAF can be found for and that do not compile, no context
and no transaction is created; and no transaction for a `dir_conf` with rules falls back to the
WAF of its server, each is created on the handle that then stands on the `dir_conf`. -/
structure RefusesUncompiled (lib : WafLib) (p : Process) (d scf : Nat) : Prop where
  refused : BuildFails lib p d → NoWafFor p d →
    (p.corazaCreateCtx lib d scf).1 = none ∧
      (p.corazaCreateCtx lib d scf).2.transactions = p.transactions
  noFallback : ∀ call : TransactionCall,
    (p.corazaCreateCtx lib d scf).2.transactions = p.transactions ++ [call] →
      call.waf = (p.corazaCreateCtx lib d scf).2.wafOf d

/-- A request for a `dir_conf` with rules fails closed. -/
def FailsClosed (lib : WafLib) (p : Process) : ConfOp → Prop
  | .merge _ _ => True
  | .createCtx d scf => p.rulesOf d ≠ [] → RefusesUncompiled lib p d scf

/-- Where such a request arrives with rules that have no WAF and do not compile, there is no other
handle it could be given: none on its `dir_conf`, none on the section that was merged from, none
on its server. -/
def NoOtherWaf (lib : WafLib) (p : Process) : ConfOp → Prop
  | .merge _ _ => True
  | .createCtx d scf => p.rulesOf d ≠ [] → BuildFails lib p d → NoWafFor p d →
      (∀ o ∈ p.handleTargets d, p.wafOf o = 0) ∧ (p.serverConfs.get scf).waf = 0

/-- One call on rules fails closed exactly when, should the rules not compile, there is no other
handle. -/
theorem refusesUncompiled_iff (lib : WafLib) (p : Process) {d : Nat} (scf : Nat)
    (hs : p.CacheSound) (hd : d < p.dirConfs.size) (hf : (p.dirConfs.get d).hasRules = true)
    (hr : p.rulesOf d ≠ []) :
    RefusesUncompiled lib p d scf ↔ (BuildFails lib p d → NoWafFor p d →
      (∀ o ∈ p.handleTargets d, p.wafOf o = 0) ∧ (p.serverConfs.get scf).waf = 0) := by
  have hcases := p.corazaCreateCtx_cases lib d scf hs
  have hfound : (p.corazaCreateCtx lib d scf).2.wafOf d = 0 ↔ _ :=
    p.wafOf_corazaCreateCtx lib d scf d ▸ p.wafOf_resolveWaf_eq_zero_iff lib hs hd hf hr
  have hgrows (call : TransactionCall) : p.transactions ++ [call] ≠ p.transactions :=
    fun h ↦ List.cons_ne_nil call [] (List.append_right_eq_self.mp h)
  constructor
  · rintro ⟨hrefused, -⟩ hfails hnone
    obtain ⟨-, hsame⟩ := hrefused hfails hnone
    rcases hcases with ⟨hz, hserver, -⟩ | ⟨call, hcall, -⟩
    · exact ⟨(hfound.mp hz).1, hserver⟩
    · exact absurd (hcall.symm.trans hsame) (hgrows call)
  · intro hother
    -- With nothing found and nothing built there is nothing on the server to fall back to.
    have hserver (hz : (p.corazaCreateCtx lib d scf).2.wafOf d = 0) :
        (p.serverConfs.get scf).waf = 0 := by
      obtain ⟨hobjects, hcache, hfails⟩ := hfound.mp hz
      exact (hother hfails ⟨fun o ho hne ↦ absurd (hobjects o ho) hne, hcache⟩).2
    refine ⟨fun hfails hnone ↦ ?_, fun call hcall ↦ ?_⟩
    · have hz := hfound.mpr ⟨(hother hfails hnone).1, hnone.cache, hfails⟩
      rcases hcases with ⟨-, -, hnull, hsame⟩ | ⟨-, -, ⟨hn, -⟩ | ⟨-, hn⟩⟩
      · exact ⟨hnull, hsame⟩
      · exact absurd hz hn
      · exact absurd (hserver hz) hn
    · rcases hcases with ⟨-, -, -, hsame⟩ | ⟨call', hcall', ⟨-, hwaf⟩ | ⟨hz, hn⟩⟩
      · exact absurd (hcall.symm.trans hsame) (hgrows call)
      · obtain rfl : call = call' :=
          List.singleton_inj.mp (List.append_cancel_left (hcall.symm.trans hcall'))
        exact hwaf
      · exact absurd (hserver hz) hn

/-- In every history, a policy that does not compile fails closed exactly when no other handle
is within its reach. -/
theorem failsClosed_iff_noOtherWaf (lib : WafLib) (p : Process) (hp : History.Coherent p)
    (ops : List ConfOp)
    (hc : ∀ v ∈ visits (History.step lib) (History.start p) ops, History.Addresses v.1 v.2) :
    ∀ v ∈ visits (History.step lib) (History.start p) ops,
      FailsClosed lib v.1.process v.2 ↔ NoOtherWaf lib v.1.process v.2 := by
  intro v hv
  have hsound := History.sound_visits hp hc v hv
  have haddr := hc v hv
  obtain ⟨h, op⟩ := v
  cases op with
  | merge a b => exact Iff.rfl
  | createCtx d scf =>
    simp only [FailsClosed, NoOtherWaf]
    exact forall_congr' fun hr ↦ refusesUncompiled_iff lib h.process scf hsound.cache haddr
      (hsound.flag d haddr hr) hr

/-- An engine that refuses every configuration. -/
def refusingLib : WafLib where
  build _ := { config := 1, strdup := fun _ ↦ true, rulesAdd := fun _ ↦ -1,
               rulesAddFile := fun _ ↦ -1, waf := 0 }
  newTransaction k := k + 1

/-- A section with one rule under a server whose own WAF has the given handle. -/
def sectionUnderServer (waf : Nat) : Process :=
  { Process.ofSections [[inlineRule "r"]] with
    serverConfs := ⟨[{ (default : CorazaServerConf) with waf := waf }]⟩
    wafs := if waf = 0 then [] else [(waf, [])] }

/-- Both sides of the equivalence on a server that has no WAF: the rules do not compile and the
request is refused. -/
theorem failsClosed_without_server_waf :
    BuildFails refusingLib (sectionUnderServer 0) 0 ∧
    ((sectionUnderServer 0).corazaCreateCtx refusingLib 0 0).1 = none ∧
    ∀ v ∈ visits (History.step refusingLib) (History.start (sectionUnderServer 0))
        [.createCtx 0 0],
      FailsClosed refusingLib v.1.process v.2 ↔ NoOtherWaf refusingLib v.1.process v.2 :=
  ⟨by decide, by decide,
    failsClosed_iff_noOtherWaf refusingLib (sectionUnderServer 0)
      ⟨by decide, by decide, by decide, fun e he ↦ by cases he⟩ _ (by decide)⟩

/-- A location whose rules do not compile is served by the WAF of its server. -/
theorem uncompiled_section_served_by_server_waf :
    History.Coherent (sectionUnderServer 7) ∧
    ¬ ∀ v ∈ visits (History.step refusingLib) (History.start (sectionUnderServer 7))
        [.createCtx 0 0],
      FailsClosed refusingLib v.1.process v.2 := by
  refine ⟨⟨by decide, by decide, by decide, fun e he ↦ by cases he⟩, fun h ↦ ?_⟩
  simp only [visits_cons, visits_nil, List.forall_mem_cons] at h
  have hnone : NoWafFor (sectionUnderServer 7) 0 := ⟨by decide, by decide⟩
  have hf := (h.1 (by decide)).refused (by decide) hnone
  exact absurd hf.1 (by decide)

end CorazaApache.Config
