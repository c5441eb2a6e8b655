import CorazaApache.Config.BuildCalls
import CorazaApache.Config.ChildExit
import CorazaApache.Config.LockSteps
import CorazaApache.Config.StartupHolders

/-!
# The resources of a child

From `coraza_child_init` over requests to `coraza_child_exit`, `src/mod_coraza.c:1165–1357`. What
a build takes for itself is given back before it ends. A WAF is used, for a transaction or to
count its rules, only between the build that returned it and the exit, which frees what the
server confs and the tracked objects have.
-/

namespace CorazaApache.Config
open CorazaApache.Base

namespace Process

/-! ### What a child does with its resources -/

section

variable (lib : WafLib) (errs : Nat → Bool)

/-- The build of one server; `errs` says in which builds the engine hands back the text of an
error. `src/mod_coraza.c:1191–1209`. -/
def serverActs (p : Process) (c : Nat) : List (Act Resource) :=
  if 0 < (p.serverRulesOf c).length then
    buildWafActs (lib.build p.builds) (errs p.builds) (p.serverRulesOf c)
  else emptyWafActs (lib.build p.builds) (errs p.builds)

/-- A WAF is used unless its handle is zero. -/
def useWaf (w : Nat) : List (Act Resource) := if w = 0 then [] else [.use (.waf w)]

/-- One round of step 2, with the call of `coraza_rules_count`; `src/mod_coraza.c:1185–1227`. -/
def initServerActs (p : Process) (sv : ServerRec) : List (Act Resource) :=
  match sv.moduleConfig with
  | none => []
  | some c => p.serverActs lib errs c ++ useWaf ((p.buildServerWaf lib c).serverWafOf c)

/-- One round of step 3; `src/mod_coraza.c:1234–1266`. -/
def initTrackedActs (p : Process) (done : List Nat) (d : Nat) : List (Act Resource) :=
  let dcf := p.dirConfs.get d
  if !dcf.hasRules || (p.rulesOf d).length = 0 then []
  else
    match done.find? (fun j ↦ (p.dirConfs.get j).rules = dcf.rules ∧ p.wafOf j ≠ 0) with
    | some _ => []
    | none =>
      buildWafActs (lib.build p.builds) (errs p.builds) (p.rulesOf d) ++
        useWaf (p.buildWaf lib (p.rulesOf d)).1

/-- Step 3 over the tracked objects that are left. -/
def trackedActs : Process → List Nat → List Nat → List (Act Resource)
  | _, _, [] => []
  | p, done, d :: rest => p.initTrackedActs lib errs done d ++
      trackedActs (p.initTracked lib done d) (done ++ [d]) rest

/-- `coraza_child_init` behind `coraza_dl_open`; `src/mod_coraza.c:1183–1267`. -/
def childInitActs (p : Process) (servers : List ServerRec) : List (Act Resource) :=
  let p := { p with wafCachePool := true }
  let q := servers.foldl (initServer lib) p
  ((visits (initServer lib) p servers).flatMap fun v ↦ v.1.initServerActs lib errs v.2) ++
    trackedActs lib errs q [] (q.trackedDirConfs.getD [])

/-- The build of the locked section, if it comes to one; `src/mod_coraza.c:404–437`. -/
def resolveActs (p : Process) (d : Nat) : List (Act Resource) :=
  if p.wafOf d = 0 ∧ (p.dirConfs.get d).hasRules = true ∧ 0 < (p.rulesOf d).length then
    let q := (p.strategyMergeChild d).strategyCache d
    if q.wafOf d = 0 then buildWafActs (lib.build q.builds) (errs q.builds) (q.rulesOf d) else []
  else []

/-- A request. Only `coraza_create_ctx` has to do with resources: it may build, and creates a
transaction on its WAF. -/
def requestActs (p : Process) : RequestOp → List (Act Resource)
  | .createCtx d scf => p.resolveActs lib errs d ++ useWaf ((p.resolveWaf lib d).chosenWaf d scf)
  | _ => []

/-- The life of a child. -/
def lifeActs (env : ConfigEnv) (n : Nat) (p : Process) (servers : List ServerRec)
    (ops : List RequestOp) : List (Act Resource) :=
  let c := p.corazaChildInit lib true servers
  p.childInitActs lib errs servers ++
    ((visits (requestStep env lib n) c ops).flatMap fun v ↦ v.1.requestActs lib errs v.2) ++
    ((ops.foldl (requestStep env lib n) c).corazaChildExit servers).1.map fun w ↦
      .release (.waf w)

end

/-! ### Where handles come from -/

/-- The handle is zero or was returned by the engine. -/
def Known (p : Process) (w : Nat) : Prop := w ≠ 0 → ∃ l, p.BuiltFrom w l

/-- Each handle the engine returned comes from another build of the past. -/
def Past (lib : WafLib) (p : Process) : Prop :=
  ∀ x ∈ p.wafs, x.1 ≠ 0 ∧ ∃ k < p.builds, x.1 = (lib.build k).waf

/-- No handle is made up. -/
structure Stocked (lib : WafLib) (p : Process) : Prop where
  dir : ∀ d, p.Known (p.wafOf d)
  server : ∀ c, p.Known (p.serverWafOf c)
  cache : p.CacheSound
  past : p.Past lib

variable {lib : WafLib} {p q : Process}

private theorem Past.afterBuild (h : p.Past lib) {w : Nat}
    (hw : w ≠ 0 → w = (lib.build p.builds).waf)
    (l : RuleList) : (p.afterBuild w l).Past lib := by
  have hpast {x : Nat × RuleList} (hx : x ∈ p.wafs) :
      x.1 ≠ 0 ∧ ∃ k < p.builds + 1, x.1 = (lib.build k).waf := by
    obtain ⟨hn, k, hk, hxk⟩ := h x hx
    exact ⟨hn, k, Nat.lt_succ_of_lt hk, hxk⟩
  intro x hx
  simp only [Process.afterBuild] at hx
  split at hx
  · exact hpast hx
  · next hz =>
    rcases List.mem_append.mp hx with hx | hx
    · exact hpast hx
    · rw [List.mem_singleton.mp hx]
      exact ⟨hz, p.builds, Nat.lt_succ_self _, hw hz⟩

private theorem Past.buildWaf (h : p.Past lib) (rules : RuleList) :
    (p.buildWaf lib rules).2.Past lib := by
  by_cases hl : 0 < rules.length
  · rw [buildWaf_of_ne_nil p lib hl]
    exact h.afterBuild corazaBuildWaf_eq_waf rules
  · rw [Process.buildWaf, if_pos (Nat.eq_zero_of_not_pos hl)]
    exact h

private theorem Past.of_eq (h : p.Past lib) (hw : q.wafs = p.wafs) (hb : q.builds = p.builds) :
    q.Past lib := by
  rw [Past, hw, hb]
  exact h

private theorem Known.mem {w : Nat} (h : p.Known w) (hw : w ≠ 0) : .waf w ∈ wafsIn p.wafs := by
  obtain ⟨l, hl⟩ := h hw
  exact waf_mem.mpr ⟨(w, l), hl, rfl⟩

private theorem runs_useWaf {w : Nat} (h : p.Known w) :
    Custody.Runs (wafsIn p.wafs) (useWaf w) (wafsIn p.wafs) := by
  unfold useWaf
  split
  · exact Custody.Runs.nil _
  · next hw => exact Custody.Runs.use (h.mem hw)

namespace Stocked

/-- The next build gives a new WAF. -/
theorem freshBuild (h : Stocked lib p) (hd : lib.DistinctHandles) : p.FreshBuild lib := by
  intro hw hmem
  obtain ⟨x, hx, heq⟩ := waf_mem.mp hmem
  obtain ⟨-, k, hk, hxk⟩ := h.past x hx
  rw [heq] at hxk
  have hsame := hd p.builds k hw hxk
  omega

/-- A step that records nothing, and stores only handles that are known. -/
theorem of_wafs_eq (h : Stocked lib p) (hw : q.wafs = p.wafs) (hb : q.builds = p.builds)
    (hd : ∀ d, p.Known (q.wafOf d)) (hs : ∀ c, p.Known (q.serverWafOf c))
    (hc : ∀ e ∈ q.wafCache, e ∈ p.wafCache) : Stocked lib q where
  dir d hn := by
    obtain ⟨l, hl⟩ := hd d hn
    exact ⟨l, by rw [BuiltFrom, hw]; exact hl⟩
  server c hn := by
    obtain ⟨l, hl⟩ := hs c hn
    exact ⟨l, by rw [BuiltFrom, hw]; exact hl⟩
  cache e he := by
    rw [BuiltFrom, hw]
    exact h.cache e (hc e he)
  past := h.past.of_eq hw hb

private theorem setWaf (h : Stocked lib p) {w : Nat} (hw : p.Known w) (d : Nat) :
    Stocked lib (p.setWaf d w) := by
  apply h.of_wafs_eq (q := p.setWaf d w) rfl rfl
  · intro e
    rw [wafOf_setWaf]
    split
    · exact hw
    · exact h.dir e
  · exact h.server
  · exact fun _ he ↦ he

private theorem setServerWaf (h : Stocked lib p) {w : Nat} (hw : p.Known w) (c : Nat) :
    Stocked lib (p.setServerWaf c w) := by
  apply h.of_wafs_eq (q := p.setServerWaf c w) rfl rfl
  · exact h.dir
  · intro e
    rw [serverWafOf_setServerWaf]
    split
    · exact hw
    · exact h.server e
  · exact fun _ he ↦ he

/-- A build records its handle. -/
theorem afterBuild (h : Stocked lib p) {w : Nat} (hw : w ≠ 0 → w = (lib.build p.builds).waf)
    (l : RuleList) : Stocked lib (p.afterBuild w l) ∧ (p.afterBuild w l).Known w := by
  have hboot := booting_afterBuild p w l
  have hold {v : Nat} (hv : p.Known v) : (p.afterBuild w l).Known v := by
    intro hn
    obtain ⟨l', hl'⟩ := hv hn
    exact ⟨l', hboot.builtFrom hl'⟩
  exact ⟨⟨fun d ↦ hold (h.dir d), fun c ↦ hold (h.server c),
    fun e he ↦ hboot.builtFrom (h.cache e he), h.past.afterBuild hw l⟩,
    fun hn ↦ ⟨l, builtFrom_afterBuild p hn l⟩⟩

private theorem buildWaf (h : Stocked lib p) (rules : RuleList) :
    Stocked lib (p.buildWaf lib rules).2 ∧
      (p.buildWaf lib rules).2.Known (p.buildWaf lib rules).1 := by
  by_cases hl : 0 < rules.length
  · rw [buildWaf_of_ne_nil p lib hl]
    exact h.afterBuild corazaBuildWaf_eq_waf rules
  · rw [Process.buildWaf, if_pos (Nat.eq_zero_of_not_pos hl)]
    exact ⟨h, fun hn ↦ absurd rfl hn⟩

private theorem buildServerWaf (h : Stocked lib p) (c : Nat) :
    Stocked lib (p.buildServerWaf lib c) := by
  obtain ⟨w, hw, ⟨he, ha⟩ | ⟨he, -⟩⟩ := buildServerWaf_cases lib p c
  · rw [he, ha]
    obtain ⟨hs, hk⟩ := h.afterBuild hw (p.serverRulesOf c)
    exact hs.setServerWaf hk c
  · rw [he]
    exact (h.afterBuild hw (p.serverRulesOf c)).1

/-- One round of step 2. -/
theorem initServer (h : Stocked lib p) (sv : ServerRec) : Stocked lib (p.initServer lib sv) := by
  unfold Process.initServer
  split
  · exact h
  · next c _ =>
    have hs := h.buildServerWaf c
    dsimp only
    split
    · exact hs
    · split
      · exact hs
      · split
        · exact hs.setWaf (hs.server c) _
        · exact hs

/-- One round of step 3. -/
theorem initTracked (h : Stocked lib p) (done : List Nat) (d : Nat) :
    Stocked lib (p.initTracked lib done d) := by
  unfold Process.initTracked
  dsimp only
  split
  · exact h
  · split
    · next j _ => exact h.setWaf (h.dir j) d
    · obtain ⟨hs, hk⟩ := h.buildWaf (p.rulesOf d)
      exact hs.setWaf hk d

/-- The lookups and the build of a context. -/
theorem resolveWaf (h : Stocked lib p) (d : Nat) : Stocked lib (p.resolveWaf lib d) := by
  have hres := resolving_resolveWaf p lib d h.cache
  have hkeep {w : Nat} (hw : p.Known w) : (p.resolveWaf lib d).Known w := by
    intro hn
    obtain ⟨l, hl⟩ := hw hn
    exact ⟨l, hres.only.builtFrom hl⟩
  refine ⟨fun o hn ↦ ?_, fun c ↦ ?_, hres.cache, ?_⟩
  · by_cases ho : o ∈ p.handleTargets d
    · rcases hres.targets o ho hn with ⟨t, -, ht⟩ | hb
      · rw [ht] at hn ⊢
        exact hkeep (h.dir t) hn
      · exact ⟨_, hb⟩
    · rw [hres.elsewhere o ho] at hn ⊢
      exact hkeep (h.dir o) hn
  · rw [serverWafOf, hres.only.serverConfs]
    exact hkeep (h.server c)
  · rw [resolveWaf_eq_lockedSection]
    split
    · next hneeds =>
      have hq := searched (lt_size_of_hasRules hneeds.2.1)
      obtain ⟨q, hlook⟩ : ∃ q, (p.strategyMergeChild d).strategyCache d = q := ⟨_, rfl⟩
      rw [hlook] at hq
      obtain ⟨hwafs, hbuilds⟩ := engine_strategyBuild q lib d
      have hpast : q.Past lib := h.past.of_eq hq.wafs hq.builds
      rw [lockedSection, hlook]
      apply Past.of_eq _ hwafs hbuilds
      split
      · exact hpast.buildWaf _
      · exact hpast
    · exact h.past

/-- A request, which writes no server conf. -/
theorem requestStep (h : Stocked lib p) (env : ConfigEnv) (n : Nat) (op : RequestOp) :
    Stocked lib (p.requestStep env lib n op) ∧
      ∀ c, (p.requestStep env lib n op).serverWafOf c = p.serverWafOf c := by
  have hzero : p.Known 0 := fun hn ↦ absurd rfl hn
  cases op with
  | createDirConf =>
    refine ⟨h.of_wafs_eq rfl rfl (fun d ↦ ?_) h.server fun _ he ↦ he, fun _ ↦ rfl⟩
    show p.Known (p.corazaCreateDirConf.2.wafOf d)
    rw [wafOf, corazaCreateDirConf, Arena.get_alloc]
    split
    · exact hzero
    · exact h.dir d
  | directive dir dcf scf =>
    unfold Process.requestStep
    dsimp only
    split
    · next q hrun =>
      rcases directive_run_cases hrun with ⟨cmd, e, -, -, rfl⟩ | ⟨f, hf, -, -, rfl⟩
      · have hserver (c : Nat) := (server_storeRule p cmd dcf scf e c).2
        refine ⟨h.of_wafs_eq ?_ ?_ (fun d ↦ ?_) (fun c ↦ ?_) (fun c hc ↦ ?_), hserver⟩
        · rw [storeRule_eq]
        · rw [storeRule_eq]
        · rw [(dir_storeRule p cmd dcf scf e d).2]
          exact h.dir d
        · rw [hserver]
          exact h.server c
        · rw [wafCache_storeRule] at hc
          exact hc
      · refine ⟨h.of_wafs_eq rfl rfl (fun d ↦ ?_) h.server fun _ he ↦ he, fun _ ↦ rfl⟩
        have hwaf : (p.updateDirConf dcf f).wafOf d = p.wafOf d :=
          (get_updateDirConf_of_benign hf p dcf d).2.2
        rw [hwaf]
        exact h.dir d
    · exact ⟨h, fun _ ↦ rfl⟩
  | merge a b =>
    refine ⟨h.of_wafs_eq rfl rfl (fun d ↦ ?_) h.server fun _ he ↦ he, fun _ ↦ rfl⟩
    show p.Known ((p.corazaMergeDirConf a b).2.wafOf d)
    by_cases hd : d = p.dirConfs.size
    · rw [hd, wafOf_merge_self]
      cases p.handleSource a b with
      | none => exact hzero
      | some o => exact h.dir o
    · have hget : (p.corazaMergeDirConf a b).2.wafOf d = p.wafOf d := by
        simp only [wafOf, corazaMergeDirConf, Arena.get_alloc, if_neg hd]
      rw [hget]
      exact h.dir d
  | createCtx d scf =>
    have hs := h.resolveWaf d
    have hserver := (resolving_resolveWaf p lib d h.cache).only.serverConfs
    refine ⟨?_, fun c ↦ ?_⟩
    · show Stocked lib (p.corazaCreateCtx lib d scf).2
      rw [corazaCreateCtx_snd]
      exact ⟨hs.dir, hs.server, hs.cache, hs.past⟩
    · show (p.corazaCreateCtx lib d scf).2.serverWafOf c = p.serverWafOf c
      rw [corazaCreateCtx_snd, serverWafOf, hserver, serverWafOf]
  | destroy d =>
    unfold Process.requestStep
    dsimp only
    split
    · refine ⟨h.of_wafs_eq rfl rfl (fun e ↦ ?_) h.server fun _ he ↦ he, fun _ ↦ rfl⟩
      rw [wafOf, Arena.get_set]
      split
      · exact hzero
      · exact h.dir e
    · exact ⟨h, fun _ ↦ rfl⟩

end Stocked

/-! ### Nothing is used that is not held -/

variable (errs : Nat → Bool)

/-- The build of a server. -/
theorem runs_serverActs (h : Stocked lib p) (hd : lib.DistinctHandles) (c : Nat) :
    Custody.Runs (wafsIn p.wafs) (p.serverActs lib errs c)
      (wafsIn (p.buildServerWaf lib c).wafs) := by
  have hf := h.freshBuild hd
  unfold serverActs buildServerWaf
  split
  · exact runs_buildWaf hf _ _
  · have hrun := runs_buildEmptyWaf hf (errs p.builds)
    split
    · next w q hq =>
      rw [hq] at hrun
      exact hrun
    · next q hq =>
      rw [hq] at hrun
      exact hrun

private theorem wafs_initServer_some (lib : WafLib) (p : Process) {sv : ServerRec} {c : Nat}
    (hc : sv.moduleConfig = some c) :
    (p.initServer lib sv).wafs = (p.buildServerWaf lib c).wafs := by
  unfold initServer
  rw [hc]
  dsimp only
  split
  · rfl
  · split
    · rfl
    · split <;> rfl

/-- A round of step 2. -/
theorem runs_initServer (h : Stocked lib p) (hd : lib.DistinctHandles) (sv : ServerRec) :
    Custody.Runs (wafsIn p.wafs) (p.initServerActs lib errs sv)
      (wafsIn (p.initServer lib sv).wafs) := by
  unfold initServerActs
  cases hc : sv.moduleConfig with
  | none =>
    have hsame : p.initServer lib sv = p := by rw [initServer, hc]
    rw [hsame]
    exact Custody.Runs.nil _
  | some c =>
    rw [wafs_initServer_some lib p hc]
    exact (runs_serverActs errs h hd c).append (runs_useWaf ((h.buildServerWaf c).server c))

/-- A round of step 3. -/
theorem runs_initTracked (h : Stocked lib p) (hd : lib.DistinctHandles) (done : List Nat)
    (d : Nat) : Custody.Runs (wafsIn p.wafs) (p.initTrackedActs lib errs done d)
      (wafsIn (p.initTracked lib done d).wafs) := by
  unfold initTrackedActs initTracked
  dsimp only
  split
  · exact Custody.Runs.nil _
  · cases done.find? fun j ↦
        (p.dirConfs.get j).rules = (p.dirConfs.get d).rules ∧ p.wafOf j ≠ 0 with
    | some j => exact Custody.Runs.nil _
    | none =>
      have hbuilt := h.buildWaf (p.rulesOf d)
      exact (runs_buildWaf (h.freshBuild hd) _ _).append (runs_useWaf hbuilt.2)

private theorem runs_initTrackedFrom (h : Stocked lib p) (hd : lib.DistinctHandles)
    (done rest : List Nat) :
    Stocked lib (initTrackedFrom lib p done rest) ∧
      Custody.Runs (wafsIn p.wafs) (trackedActs lib errs p done rest)
        (wafsIn (initTrackedFrom lib p done rest).wafs) := by
  induction rest generalizing p done with
  | nil => exact ⟨h, Custody.Runs.nil _⟩
  | cons d rest ih =>
    obtain ⟨hs, hrun⟩ := ih (h.initTracked done d) (done ++ [d])
    exact ⟨hs, (runs_initTracked errs h hd done d).append hrun⟩

/-- The build of a context. -/
theorem runs_resolve (h : Stocked lib p) (hd : lib.DistinctHandles) (d : Nat) :
    Custody.Runs (wafsIn p.wafs) (p.resolveActs lib errs d)
      (wafsIn (p.resolveWaf lib d).wafs) := by
  rw [resolveWaf_eq_lockedSection, resolveActs]
  split
  · next hneeds =>
    have hq := searched (lt_size_of_hasRules hneeds.2.1)
    obtain ⟨q, hlook⟩ : ∃ q, (p.strategyMergeChild d).strategyCache d = q := ⟨_, rfl⟩
    have hf : q.FreshBuild lib := by
      rw [hlook] at hq
      rw [FreshBuild, hq.wafs, hq.builds]
      exact h.freshBuild hd
    rw [lockedSection, hlook, (engine_strategyBuild q lib d).1, ← hq.wafs, hlook]
    dsimp only
    split
    · exact runs_buildWaf hf _ _
    · exact Custody.Runs.nil _
  · exact Custody.Runs.nil _

private theorem wafs_directive {env : ConfigEnv} {path : Bool} {dcf scf : Nat} {dir : Directive}
    (hrun : dir.run env p path dcf scf = .ok q) : q.wafs = p.wafs := by
  rcases directive_run_cases hrun with ⟨cmd, e, -, -, rfl⟩ | ⟨f, -, -, -, rfl⟩
  · rw [storeRule_eq]
  · rfl

/-- A request. -/
theorem runs_request (h : Stocked lib p) (hd : lib.DistinctHandles) (env : ConfigEnv) (n : Nat)
    (op : RequestOp) : Custody.Runs (wafsIn p.wafs) (p.requestActs lib errs op)
      (wafsIn (p.requestStep env lib n op).wafs) := by
  have hnil (q : Process) (hq : q.wafs = p.wafs) : Custody.Runs (wafsIn p.wafs) []
      (wafsIn q.wafs) := by
    rw [hq]
    exact Custody.Runs.nil _
  cases op with
  | createDirConf => exact hnil _ rfl
  | directive dir dcf scf =>
    apply hnil
    unfold Process.requestStep
    dsimp only
    split
    · next q hrun => exact wafs_directive hrun
    · rfl
  | merge a b => exact hnil _ rfl
  | destroy d =>
    apply hnil
    unfold Process.requestStep
    dsimp only
    split <;> rfl
  | createCtx d scf =>
    have hwafs : (p.requestStep env lib n (.createCtx d scf)).wafs =
        (p.resolveWaf lib d).wafs := by
      rw [Process.requestStep, corazaCreateCtx_snd]
    rw [hwafs]
    apply (runs_resolve errs h hd d).append
    apply runs_useWaf
    have hs := h.resolveWaf d
    unfold chosenWaf
    split
    · exact hs.dir d
    · exact hs.server scf

/-! ### The exit -/

private theorem roundHandle_eq_waf {servers : List ServerRec} {k w : Nat}
    (h : roundHandle lib p servers k = some w) (hw : w ≠ 0) : w = (lib.build k).waf := by
  obtain ⟨c, -, hc⟩ := Option.bind_eq_some_iff.mp h
  unfold serverHandle at hc
  split at hc
  · rw [← Option.some.inj hc] at hw ⊢
    exact corazaBuildWaf_eq_waf hw
  · unfold emptyWaf at hc
    split at hc
    · cases hc
    · exact (Option.some.inj hc).symm

/-- The server confs keep in step 3 what they have been given in step 2. -/
theorem serverWafOf_childInit {s b : Nat} {servers : List ServerRec}
    (h : Startable s b servers p) (c : Nat) :
    (p.corazaChildInit lib true servers).serverWafOf c =
      lastWrite (confAt servers) (roundHandle lib p servers) 0 c servers.length := by
  have hr : Rounds lib p servers servers.length _ := h.rounds
  obtain ⟨q, hq⟩ : ∃ q, servers.foldl (Process.initServer lib)
      { p with wafCachePool := true } = q := ⟨_, rfl⟩
  rw [hq] at hr
  have htracked : Process.Tracked q ([] ++ p.trackedDirConfs.getD [])
      (Process.initTrackedFrom lib q [] (p.trackedDirConfs.getD [])) := by
    apply Process.Tracked.all ⟨rfl, rfl, fun _ _ ↦ rfl, fun _ hx ↦ Or.inl hx⟩ h.tracked
    intro d hd
    rw [hr.boot.size]
    exact (h.trackedLt d hd).1
  rw [← hr.server]
  simp only [Process.corazaChildInit, Bool.not_true, Bool.false_eq_true, if_false, hq,
    hr.boot.tracked]
  rw [serverWafOf, serverWafOf]
  exact congrArg (fun a ↦ (Arena.get a c).waf) htracked.servers

/-- Two servers with a handle that is not zero do not share it, unless they share the conf. -/
theorem distinctServerWafs_childInit {s b : Nat} {servers : List ServerRec}
    (h : Startable s b servers p) (hd : lib.DistinctHandles) :
    (p.corazaChildInit lib true servers).DistinctServerWafs servers := by
  intro c e _ _ hc hce
  have he : (p.corazaChildInit lib true servers).serverWafOf e ≠ 0 := hce ▸ hc
  rw [serverWafOf_childInit h] at hc he hce
  rw [serverWafOf_childInit h] at hce
  obtain ⟨k, -, hck, hwk⟩ := exists_of_lastWrite_ne hc
  obtain ⟨j, -, hej, hwj⟩ := exists_of_lastWrite_ne he
  have hk := roundHandle_eq_waf hwk hc
  have hj := roundHandle_eq_waf hwj he
  have hkj : k = j := by
    apply hd k j
    · rw [← hk]
      exact hc
    · rw [← hk, ← hj]
      exact hce
  rw [hkj, hej] at hck
  exact (Option.some.inj hck).symm

/-- What the exit frees: each handle on a server conf or a tracked object, once. -/
theorem freed_childExit (p : Process) {servers : List ServerRec}
    (h : p.DistinctServerWafs servers) : (p.corazaChildExit servers).1.Nodup ∧
      ∀ w, w ∈ (p.corazaChildExit servers).1 ↔
        w ≠ 0 ∧ (p.ServerHolds servers w ∨ p.TrackedHolds w) := by
  obtain ⟨tracked, ht⟩ : ∃ l, p.configDirConfs.getD [] = l := ⟨_, rfl⟩
  have hserver (w : Nat) : (p.zeroTracked tracked).ServerHolds servers w ↔
      p.ServerHolds servers w := by
    simp only [ServerHolds, serverWafOf_zeroTracked]
  have hdistinct : (p.zeroTracked tracked).DistinctServerWafs servers := by
    simpa only [DistinctServerWafs, serverWafOf_zeroTracked] using h
  rw [corazaChildExit_eq, ht]
  constructor
  · apply (p.nodup_freeTracked servers [] tracked).append (nodup_freeServers hdistinct)
    intro w hfree hheld
    rw [mem_freeTracked] at hfree
    rw [mem_freeServers, hserver] at hheld
    exact hfree.2.1 hheld.2
  · intro w
    have hnone : ¬ p.HeldOn [] w := by simp [HeldOn]
    rw [List.mem_append, mem_freeTracked, mem_freeServers, hserver, TrackedHolds, ht]
    tauto

/-- Everything the exit frees was got, and what is left is on nothing. -/
theorem runs_childExit (h : Stocked lib p) {servers : List ServerRec}
    (hdist : p.DistinctServerWafs servers) :
    Custody.Runs (wafsIn p.wafs)
      ((p.corazaChildExit servers).1.map fun w ↦ .release (.waf w))
      {r | ∃ w ∈ p.liveWafs, r = .waf w ∧ ¬ p.ServerHolds servers w ∧ ¬ p.TrackedHolds w} := by
  obtain ⟨hnodup, hfreed⟩ := freed_childExit p hdist
  have hmem : ∀ r ∈ (p.corazaChildExit servers).1.map Resource.waf, r ∈ wafsIn p.wafs := by
    intro r hr
    obtain ⟨w, hw, rfl⟩ := List.mem_map.mp hr
    obtain ⟨hn, ⟨c, -, rfl⟩ | ⟨d, -, rfl⟩⟩ := (hfreed w).mp hw
    · exact (h.server c).mem hn
    · exact (h.dir d).mem hn
  have hrun := Custody.Runs.releases (hnodup.map fun _ _ hw ↦ Resource.waf.inj hw) hmem
  rw [List.map_map] at hrun
  have hleft : {r | r ∈ wafsIn p.wafs ∧ r ∉ (p.corazaChildExit servers).1.map Resource.waf} =
      {r | ∃ w ∈ p.liveWafs, r = .waf w ∧ ¬ p.ServerHolds servers w ∧ ¬ p.TrackedHolds w} := by
    ext r
    constructor
    · rintro ⟨⟨x, hx, rfl⟩, hnot⟩
      have hn := (h.past x hx).1
      refine ⟨x.1, List.mem_dedup.mpr (List.mem_map_of_mem hx), rfl, ?_⟩
      rw [← not_or]
      intro hheld
      exact hnot (List.mem_map_of_mem ((hfreed x.1).mpr ⟨hn, hheld⟩))
    · rintro ⟨w, hw, rfl, hserver, htracked⟩
      obtain ⟨x, hx, rfl⟩ := List.mem_map.mp (List.mem_dedup.mp hw)
      refine ⟨⟨x, hx, rfl⟩, fun hfree ↦ ?_⟩
      obtain ⟨v, hv, heq⟩ := List.mem_map.mp hfree
      rw [Resource.waf.inj heq] at hv
      rcases ((hfreed x.1).mp hv).2 with hheld | hheld
      · exact hserver hheld
      · exact htracked hheld
  rw [← hleft]
  exact hrun

/-- A configuration is loaded without a WAF. -/
theorem stocked_of_load {s b : Nat} {servers : List ServerRec} (h : Startable s b servers p)
    (hcache : p.wafCache = []) (lib : WafLib) : Stocked lib p := by
  have hno := h.mergeable.noWafs
  constructor
  · intro d hn
    exact absurd (hno.dir d) hn
  · intro c hn
    exact absurd (hno.server c) hn
  · intro e he
    rw [hcache] at he
    cases he
  · intro x hx
    rw [hno.wafs] at hx
    cases hx

/-- The start of a child. -/
theorem runs_childInit (h : Stocked lib p) (hd : lib.DistinctHandles)
    (servers : List ServerRec) : Stocked lib (p.corazaChildInit lib true servers) ∧
      Custody.Runs (wafsIn p.wafs) (p.childInitActs lib errs servers)
        (wafsIn (p.corazaChildInit lib true servers).wafs) := by
  have hpool : Stocked lib { p with wafCachePool := true } :=
    ⟨h.dir, h.server, h.cache, h.past⟩
  obtain ⟨hservers, hfirst⟩ := Custody.Runs.machine (Stocked lib) (initServer lib)
    (initServerActs lib errs) (fun q ↦ wafsIn q.wafs)
    (fun q sv hq ↦ ⟨hq.initServer sv, runs_initServer errs hq hd sv⟩) hpool servers
  obtain ⟨hs, hsecond⟩ := runs_initTrackedFrom errs hservers hd []
    ((servers.foldl (initServer lib) { p with wafCachePool := true }).trackedDirConfs.getD [])
  exact ⟨⟨hs.dir, hs.server, hs.cache, hs.past⟩, hfirst.append hsecond⟩

end Process

/-- In every life of a child: nothing is used or given back that was not got or is given back
already, and no configuration, copy or text of an error is left in the end, and no WAF but
those that neither a server conf nor a tracked object had at the exit. -/
theorem engine_custody (conf : StaticConf) (env : ConfigEnv) (servers : List ServerRec)
    (p : Process) (hload : conf.load env = .ok (servers, p)) (lib : WafLib)
    (hdist : lib.DistinctHandles) (errs : Nat → Bool) (n : Nat) (ops : List RequestOp)
    (q : Process)
    (hq : q = ops.foldl (Process.requestStep env lib n) (p.corazaChildInit lib true servers)) :
    Custody.Runs ∅ (p.lifeActs lib errs env n servers ops)
      {r | ∃ w ∈ q.liveWafs, r = .waf w ∧ ¬ q.ServerHolds servers w ∧ ¬ q.TrackedHolds w} := by
  obtain ⟨s, b, h⟩ := startable_of_load hload
  have hempty : wafsIn p.wafs = ∅ := by
    rw [h.mergeable.noWafs.wafs]
    ext r
    simp [wafsIn]
  obtain ⟨hchild, hinit⟩ := Process.runs_childInit errs
    (Process.stocked_of_load h (StaticConf.wafCache_load hload) lib) hdist servers
  obtain ⟨c, hc⟩ : ∃ c, p.corazaChildInit lib true servers = c := ⟨_, rfl⟩
  have hservers := Process.distinctServerWafs_childInit h hdist
  rw [hc] at hchild hinit hservers hq
  obtain ⟨⟨hlast, hsame⟩, hrun⟩ := Custody.Runs.machine
    (fun r ↦ Process.Stocked lib r ∧ ∀ e, r.serverWafOf e = c.serverWafOf e)
    (Process.requestStep env lib n) (Process.requestActs lib errs) (fun r ↦ wafsIn r.wafs)
    (fun r op hr ↦ by
      obtain ⟨hstep, hkept⟩ := hr.1.requestStep env n op
      exact ⟨⟨hstep, fun e ↦ (hkept e).trans (hr.2 e)⟩,
        Process.runs_request errs hr.1 hdist env n op⟩) ⟨hchild, fun _ ↦ rfl⟩ ops
  rw [← hq] at hlast hsame hrun
  have hdistinct : q.DistinctServerWafs servers := by
    simpa only [Process.DistinctServerWafs, hsame] using hservers
  rw [← hempty, Process.lifeActs, hc, ← hq]
  exact (hinit.append hrun).append (Process.runs_childExit hlast hdistinct)

/-- The WAF built below an `.htaccess` file stays in the cache; those of the servers are freed. -/
theorem engine_custody_htaccess :
    ∃ servers p, mainRuleAndSection.load plainEnv = .ok (servers, p) ∧
      (p.lifeActs acceptingLib (fun k ↦ k == 1) plainEnv p.dirConfs.size servers
        htaccessRequest).filter (fun a ↦ a matches .release (.waf _)) =
          [.release (.waf 1), .release (.waf 2)] ∧
      ∃ left, Custody.Runs ∅ (p.lifeActs acceptingLib (fun k ↦ k == 1) plainEnv p.dirConfs.size
        servers htaccessRequest) left := by
  have hdist : acceptingLib.DistinctHandles := fun _ _ _ h ↦ Nat.succ.inj h
  exact ⟨_, _, rfl, by decide, _, engine_custody mainRuleAndSection plainEnv _ _ rfl acceptingLib
    hdist (fun k ↦ k == 1) _ htaccessRequest _ rfl⟩

end CorazaApache.Config
