import CorazaApache.Config.ChildInit

/-!
# Where configuration objects point

A `dir_conf` points at its rules array, which other `dir_conf`s may share, and one that was merged
from two with rules of their own at the later of the two: `src/mod_coraza.h:55–64`,
`src/mod_coraza.c:991–1049`. The pointers are set when the object is made and never changed.
-/

namespace CorazaApache.Config
open CorazaApache.Base

namespace Process

/-- The same objects and arrays, with the same pointers, and the same lists of objects. -/
structure SamePointers (p q : Process) : Prop where
  size : q.dirConfs.size = p.dirConfs.size
  arrays : q.arrays.size = p.arrays.size
  rules : ∀ d, (q.dirConfs.get d).rules = (p.dirConfs.get d).rules
  mergeChild : ∀ d, (q.dirConfs.get d).mergeChild = (p.dirConfs.get d).mergeChild
  tracked : q.trackedDirConfs = p.trackedDirConfs
  config : q.configDirConfs = p.configDirConfs

/-- Every pointer is at something that was made. -/
structure Allocated (p : Process) : Prop where
  rules : ∀ d < p.dirConfs.size, (p.dirConfs.get d).rules < p.arrays.size
  mergeChild : ∀ d < p.dirConfs.size, ∀ c, (p.dirConfs.get d).mergeChild = some c →
    c < p.dirConfs.size

namespace SamePointers

variable {p q r : Process}

private theorem refl (p : Process) : SamePointers p p :=
  ⟨rfl, rfl, fun _ ↦ rfl, fun _ ↦ rfl, rfl, rfl⟩

/-- Steps that leave the pointers compose. -/
theorem trans (h : SamePointers p q) (h' : SamePointers q r) : SamePointers p r where
  size := h'.size.trans h.size
  arrays := h'.arrays.trans h.arrays
  rules d := (h'.rules d).trans (h.rules d)
  mergeChild d := (h'.mergeChild d).trans (h.mergeChild d)
  tracked := h'.tracked.trans h.tracked
  config := h'.config.trans h.config

private theorem of_eq (hd : q.dirConfs = p.dirConfs) (ha : q.arrays.size = p.arrays.size)
    (ht : q.trackedDirConfs = p.trackedDirConfs) (hc : q.configDirConfs = p.configDirConfs) :
    SamePointers p q where
  size := by rw [hd]
  arrays := ha
  rules d := by rw [hd]
  mergeChild d := by rw [hd]
  tracked := ht
  config := hc

/-- An assignment to other fields of an object. -/
theorem of_set {d : Nat} {c : CorazaDirConf} (hd : q.dirConfs = p.dirConfs.set d c)
    (ha : q.arrays.size = p.arrays.size) (ht : q.trackedDirConfs = p.trackedDirConfs)
    (hc : q.configDirConfs = p.configDirConfs) (hrules : c.rules = (p.dirConfs.get d).rules)
    (hchild : c.mergeChild = (p.dirConfs.get d).mergeChild) : SamePointers p q where
  size := by rw [hd, Arena.size_set]
  arrays := ha
  rules e := by
    rw [hd, Arena.get_set]
    split
    · next h => rw [hrules, h.1]
    · rfl
  mergeChild e := by
    rw [hd, Arena.get_set]
    split
    · next h => rw [hchild, h.1]
    · rfl
  tracked := ht
  config := hc

/-- What was allocated stays allocated. -/
theorem allocated (h : SamePointers p q) (ha : p.Allocated) : q.Allocated where
  rules d hd := by
    rw [h.rules, h.arrays]
    exact ha.rules d (h.size ▸ hd)
  mergeChild d hd c hc := by
    rw [h.mergeChild] at hc
    rw [h.size] at hd ⊢
    exact ha.mergeChild d hd c hc

end SamePointers

variable {p q : Process}

/-! ### What leaves the pointers alone -/

private theorem samePointers_setWaf (p : Process) (d w : Nat) : SamePointers p (p.setWaf d w) :=
  .of_set rfl rfl rfl rfl rfl rfl

private theorem samePointers_setChildWaf (p : Process) (d w : Nat) :
    SamePointers p (p.setChildWaf d w) := by
  unfold setChildWaf
  split
  · exact samePointers_setWaf p _ w
  · exact .refl p

private theorem samePointers_buildWaf (p : Process) (lib : WafLib) (rules : RuleList) :
    SamePointers p (p.buildWaf lib rules).2 := by
  rw [buildWaf_snd]
  exact .of_eq rfl rfl rfl rfl

private theorem samePointers_wafCacheAdd (p : Process) (hash : UInt64) (rules : RuleList)
    (w : Nat) :
    SamePointers p (p.wafCacheAdd hash rules w) := by
  unfold wafCacheAdd
  split
  · exact .of_eq rfl rfl rfl rfl
  · split <;> exact .of_eq rfl rfl rfl rfl

/-- The `merge_child` re-check writes a handle at most. -/
theorem samePointers_strategyMergeChild (p : Process) (d : Nat) :
    SamePointers p (p.strategyMergeChild d) := by
  unfold strategyMergeChild
  split
  · split
    · exact samePointers_setWaf p d _
    · exact .refl p
  · exact .refl p

/-- The cache lookup writes handles at most. -/
theorem samePointers_strategyCache (p : Process) (d : Nat) :
    SamePointers p (p.strategyCache d) := by
  unfold strategyCache
  dsimp only
  split
  · split
    · exact (samePointers_setWaf p d _).trans (samePointers_setChildWaf _ d _)
    · exact .refl p
  · exact .refl p

private theorem samePointers_strategyBuild (p : Process) (lib : WafLib) (d : Nat) :
    SamePointers p (p.strategyBuild lib d) := by
  unfold strategyBuild
  dsimp only
  split
  · have hset := (samePointers_buildWaf p lib (p.rulesOf d)).trans
      (samePointers_setWaf _ d (p.buildWaf lib (p.rulesOf d)).1)
    refine SamePointers.trans ?_ (samePointers_setChildWaf _ d _)
    split
    · exact hset.trans (samePointers_wafCacheAdd _ _ _ _)
    · exact hset
  · exact .refl p

/-- A request leaves every pointer as it is. -/
theorem samePointers_createCtx (p : Process) (lib : WafLib) (d scf : Nat) :
    SamePointers p (p.corazaCreateCtx lib d scf).2 := by
  have hresolve : SamePointers p (p.resolveWaf lib d) := by
    unfold resolveWaf
    dsimp only
    split
    · exact (samePointers_strategyMergeChild p d).trans
        ((samePointers_strategyCache _ d).trans (samePointers_strategyBuild _ lib d))
    · exact .refl p
  rw [corazaCreateCtx_snd]
  exact hresolve.trans (.of_eq rfl rfl rfl rfl)

private theorem samePointers_storeRule (p : Process) (cmd : CmdParms) (dcf scf : Nat)
    (e : CorazaRuleEntry) : SamePointers p (p.storeRule cmd dcf scf e) := by
  have ha := size_arrays_storeRule p cmd dcf scf e
  rw [storeRule_eq] at ha ⊢
  exact .of_set rfl ha rfl rfl rfl rfl

/-- A directive changes what the arrays and the objects hold. -/
theorem samePointers_run {env : ConfigEnv} {path : Bool} {dcf scf : Nat} {dir : Directive}
    (h : dir.run env p path dcf scf = .ok q) : SamePointers p q := by
  have hrules {cmd : CmdParms} {arg : CString} (h : p.cmdCorazaRules cmd dcf scf arg = .ok q) :
      SamePointers p q := by
    unfold cmdCorazaRules at h
    split at h
    · cases h
    · cases h
      exact samePointers_storeRule p cmd dcf scf _
  cases dir with
  | coraza flag =>
    cases h
    exact .of_set rfl rfl rfl rfl rfl rfl
  | corazaRules arg => exact hrules h
  | corazaRulesFile arg =>
    simp only [Directive.run, cmdCorazaRulesFile] at h
    split at h
    · cases h
    · cases h
      exact samePointers_storeRule p _ dcf scf _
  | corazaTransactionId arg =>
    cases h
    exact .of_set rfl rfl rfl rfl rfl rfl
  | corazaRequestBodyInMemoryLimit arg =>
    simp only [Directive.run, cmdCorazaBodyMemLimit] at h
    split at h
    · split at h
      · cases h
      · cases h
        exact .of_set rfl rfl rfl rfl rfl rfl
    · cases h
  | sec name args => exact hrules h

private theorem samePointers_initServer (lib : WafLib) (p : Process) (sv : ServerRec) :
    SamePointers p (p.initServer lib sv) := by
  have hbuild (c : Nat) : SamePointers p (p.buildServerWaf lib c) := by
    unfold buildServerWaf
    split
    · exact (samePointers_buildWaf p lib _).trans (.of_eq rfl rfl rfl rfl)
    · rw [buildEmptyWaf_eq]
      cases emptyWaf (lib.build p.builds) <;> exact .of_eq rfl rfl rfl rfl
  unfold initServer
  split
  · exact .refl p
  · next c _ =>
    dsimp only
    split
    · exact hbuild c
    · split
      · exact hbuild c
      · split
        · exact (hbuild c).trans (samePointers_setWaf _ _ _)
        · exact hbuild c

private theorem samePointers_initTracked (lib : WafLib) (p : Process) (done : List Nat) (d : Nat) :
    SamePointers p (p.initTracked lib done d) := by
  unfold initTracked
  dsimp only
  split
  · exact .refl p
  · split
    · exact samePointers_setWaf p d _
    · exact (samePointers_buildWaf p lib _).trans (samePointers_setWaf _ d _)

/-- The start of a child builds WAFs, and makes the list of tracked objects the one of the exit. -/
theorem childInit_eq (p : Process) (lib : WafLib) (servers : List ServerRec) :
    ∃ q, SamePointers p q ∧ p.corazaChildInit lib true servers =
      { q with configDirConfs := q.trackedDirConfs, trackedDirConfs := none } := by
  have hservers (p : Process) : SamePointers p (servers.foldl (initServer lib) p) := by
    induction servers generalizing p with
    | nil => exact .refl p
    | cons sv servers ih => exact (samePointers_initServer lib p sv).trans (ih _)
  have htracked (p : Process) (done rest : List Nat) :
      SamePointers p (initTrackedFrom lib p done rest) := by
    induction rest generalizing p done with
    | nil => exact .refl p
    | cons d rest ih => exact (samePointers_initTracked lib p done d).trans (ih _ _)
  have hpool : SamePointers p { p with wafCachePool := true } := .of_eq rfl rfl rfl rfl
  exact ⟨_, hpool.trans ((hservers _).trans (htracked _ [] _)), rfl⟩

/-! ### What makes new ones -/

private theorem Allocated.createDirConf (h : p.Allocated) : p.corazaCreateDirConf.2.Allocated where
  rules d hd := by
    simp only [corazaCreateDirConf, Arena.size_alloc, Arena.get_alloc] at hd ⊢
    split
    · exact Nat.lt_succ_self _
    · exact Nat.lt_succ_of_lt (h.rules d (by omega))
  mergeChild d hd c hc := by
    simp only [corazaCreateDirConf, Arena.size_alloc, Arena.get_alloc] at hd hc ⊢
    split at hc
    · cases hc
    · exact Nat.lt_succ_of_lt (h.mergeChild d (by omega) c hc)

private theorem Allocated.createServerConf (h : p.Allocated) :
    p.corazaCreateServerConf.2.Allocated where
  rules d hd := by
    simp only [corazaCreateServerConf, Arena.size_alloc] at hd ⊢
    exact Nat.lt_succ_of_lt (h.rules d hd)
  mergeChild := h.mergeChild

/-- A merge makes an array of its own if both sides have rules or neither has. -/
def mergesRules (p : Process) (a b : Nat) : Bool :=
  decide (0 < (p.rulesOf a).length) == decide (0 < (p.rulesOf b).length)

/-- A merge allocates an array only if it has one to fill. -/
theorem size_arrays_merge (p : Process) (a b : Nat) :
    (p.corazaMergeDirConf a b).2.arrays.size =
      p.arrays.size + if p.mergesRules a b then 1 else 0 := by
  unfold corazaMergeDirConf mergedDirConf mergesRules
  dsimp only
  by_cases ha : 0 < (p.rulesOf a).length <;> by_cases hb : 0 < (p.rulesOf b).length <;>
    simp [ha, hb]

/-- What a merged object points at. -/
theorem rules_merged (p : Process) (a b : Nat) :
    (p.mergedDirConf a b).1.rules =
      if p.mergesRules a b then p.arrays.size
      else if 0 < (p.rulesOf a).length then (p.dirConfs.get a).rules
      else (p.dirConfs.get b).rules := by
  unfold mergedDirConf mergesRules
  dsimp only
  by_cases ha : 0 < (p.rulesOf a).length <;> by_cases hb : 0 < (p.rulesOf b).length <;>
    simp [ha, hb]

/-- A merged object points back to its child side at most. -/
theorem mergeChild_merged {a b c : Nat} (h : (p.mergedDirConf a b).1.mergeChild = some c) :
    c = b := by
  unfold mergedDirConf at h
  dsimp only at h
  split at h
  · split at h
    · exact (Option.some.inj h).symm
    · cases h
  · split at h <;> cases h

private theorem Allocated.merge (h : p.Allocated) {a b : Nat} (ha : a < p.dirConfs.size)
    (hb : b < p.dirConfs.size) : (p.corazaMergeDirConf a b).2.Allocated where
  rules d hd := by
    rw [size_merge] at hd
    rcases Nat.lt_succ_iff_lt_or_eq.mp hd with hlt | rfl
    · rw [get_merge_of_lt p a b d hlt]
      exact Nat.lt_of_lt_of_le (h.rules d hlt) (arrays_merge p a b).1
    · exact rules_merge_lt p a b (h.rules a ha) (h.rules b hb)
  mergeChild d hd c hc := by
    rw [size_merge] at hd ⊢
    apply Nat.lt_succ_of_lt
    rcases Nat.lt_succ_iff_lt_or_eq.mp hd with hlt | rfl
    · rw [get_merge_of_lt p a b d hlt] at hc
      exact h.mergeChild d hlt c hc
    · rw [get_merge_self] at hc
      rw [mergeChild_merged hc]
      exact hb

end Process

/-! ### A configuration that is loaded -/

section

variable {I : Process → Prop} (hserver : ∀ p, I p → I p.corazaCreateServerConf.2)
  (hdir : ∀ p, I p → I p.corazaCreateDirConf.2)
  (hrun : ∀ env p q dir path dcf scf, I p → Directive.run env p path dcf scf dir = .ok q → I q)
include hserver hdir hrun

/-- What new objects and directives keep holds when all directives have been read. -/
theorem Startup.process_readDirectives {env : ConfigEnv} {ds : List PlacedDirective}
    {st st' : Startup} (hst : I st.process) (h : st.readDirectives env ds = .ok st') :
    I st'.process := by
  have hensure (st : Startup) (slot : Nat × Option Nat) (hst : I st.process) :
      I (st.ensureDirConf slot).2.process := by
    unfold ensureDirConf
    split
    · exact hst
    · exact hdir _ hst
  have hconf (st : Startup) (server : Nat) (hst : I st.process) :
      I (st.ensureServerConf server).2.process := by
    unfold ensureServerConf
    split
    · exact hst
    · exact hserver _ hst
  induction ds generalizing st with
  | nil =>
    cases h
    exact hst
  | cons d ds ih =>
    simp only [readDirectives, readDirective] at h
    split at h
    · cases h
    · next st₁ hread =>
      split at hread
      · cases hread
      · next q hq =>
        cases hread
        exact ih (hrun _ _ _ _ _ _ _ (hconf _ _ (hensure _ _ hst)) hq) h

/-- So it does in the process a child starts with, if merges keep it. -/
theorem StaticConf.process_load
    (hmerge : ∀ p a b, I p → a < p.dirConfs.size → b < p.dirConfs.size →
      I (p.corazaMergeDirConf a b).2)
    (hinit : I Process.init) {conf : StaticConf} {env : ConfigEnv} {servers : List ServerRec}
    {p : Process} (h : conf.load env = .ok (servers, p)) : I p := by
  obtain ⟨st, hst, heq⟩ := exists_of_load h
  have hread : Startup.Reading st := Startup.reading_init.readDirectives hst
  have hstart : I st.process := Startup.process_readDirectives hserver hdir hrun
    (hdir _ (hserver _ hinit)) hst
  have hfix (main : ServerRec) (q : Process) (virts : List ServerRec) (hq : I q)
      (hmain : ∀ b, main.lookupDefaults = some b → b < q.dirConfs.size)
      (hvirts : ∀ sv ∈ virts, ∀ d, sv.lookupDefaults = some d → d < q.dirConfs.size) :
      I (fixupVirtualHosts main q virts).2 := by
    induction virts generalizing q with
    | nil => exact hq
    | cons virt virts ih =>
      obtain ⟨hvirt, hrest⟩ := List.forall_mem_cons.mp hvirts
      have hone : I (fixupVirtualHost main q virt).2 ∧
          q.dirConfs.size ≤ (fixupVirtualHost main q virt).2.dirConfs.size := by
        unfold fixupVirtualHost
        dsimp only
        split
        · next b d hb hd =>
          refine ⟨hmerge q b d hq (hmain b hb) (hvirt d hd), ?_⟩
          dsimp only
          rw [Process.size_merge]
          exact Nat.le_succ _
        · exact ⟨hq, Nat.le_refl _⟩
      exact ih _ hone.1 (fun b hb ↦ Nat.lt_of_lt_of_le (hmain b hb) hone.2)
        fun sv hsv d hd ↦ Nat.lt_of_lt_of_le (hrest sv hsv d hd) hone.2
  cases heq
  refine hfix _ _ _ hstart (fun b hb ↦ hread.dirLt _ b hb) fun sv hsv d hd ↦ ?_
  obtain ⟨i, -, rfl⟩ := List.mem_map.mp hsv
  exact hread.dirLt _ d hd

end

/-- The configuration that was read points to what was allocated. -/
theorem StaticConf.allocated_load {conf : StaticConf} {env : ConfigEnv} {servers : List ServerRec}
    {p : Process} (h : conf.load env = .ok (servers, p)) : p.Allocated := by
  apply StaticConf.process_load (I := Process.Allocated) _ _ _ _ _ h
  · exact fun _ hp ↦ hp.createServerConf
  · exact fun _ hp ↦ hp.createDirConf
  · exact fun _ _ _ _ _ _ _ hp hq ↦ (Process.samePointers_run hq).allocated hp
  · exact fun _ _ _ hp ha hb ↦ hp.merge ha hb
  · exact ⟨fun d hd ↦ absurd hd (Nat.not_lt_zero d), fun d hd ↦ absurd hd (Nat.not_lt_zero d)⟩

end CorazaApache.Config
