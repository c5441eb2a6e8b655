import Mathlib.Data.List.Dedup
import Mathlib.Data.List.Perm.Subperm
import CorazaApache.Config.WafCache

/-!
# Who holds the WAFs of a child

A WAF can only be used again, or freed, through an object that holds its handle. The objects of
a request are gone when it ends, so a handle has to stand on a server conf, on a `dir_conf` of
the configuration or in the cache. Requests never overwrite a handle; what they build is held
unless the cache takes no more entries and neither the `dir_conf` nor the section it was merged
from is one of the configuration: `src/mod_coraza.c:121–155,400–437`.
-/

namespace CorazaApache.Config
open CorazaApache.Base

/-- What requests do: an `.htaccess` file is read into a new `dir_conf`, objects are merged, a
context is created, and the objects of a finished request are destroyed with its pool. -/
inductive RequestOp where
  | createDirConf
  | directive (dir : Directive) (dcf scf : Nat)
  | merge (parent child : Nat)
  | createCtx (d scf : Nat)
  | destroy (d : Nat)

namespace Process

/-- The handles of the server confs, of the first `n` `dir_conf`s, and of the cache. -/
def holders (p : Process) (n : Nat) : List Nat :=
  (List.range p.serverConfs.size).map p.serverWafOf ++ (List.range n).map p.wafOf ++
    p.wafCache.map WafCacheEntry.waf

/-- The handles `coraza_new_waf` has returned. None is freed before the child exits. -/
def liveWafs (p : Process) : List Nat := (p.wafs.map Prod.fst).dedup

/-- Every WAF is held, so there are no more of them than holders. -/
def NoneStranded (p : Process) (n : Nat) : Prop :=
  (∀ w ∈ p.liveWafs, w ∈ p.holders n) ∧
    p.liveWafs.length ≤ p.serverConfs.size + n + p.wafCache.length

/-- One step of a child whose configuration has `n` `dir_conf`s. Nothing but the objects of
requests is destroyed. -/
def requestStep (env : ConfigEnv) (lib : WafLib) (n : Nat) (p : Process) : RequestOp → Process
  | .createDirConf => p.corazaCreateDirConf.2
  | .directive dir dcf scf =>
    match dir.run env p true dcf scf with
    | .ok q => q
    | .error _ => p
  | .merge a b => (p.corazaMergeDirConf a b).2
  | .createCtx d scf => (p.corazaCreateCtx lib d scf).2
  | .destroy d => if n ≤ d then { p with dirConfs := p.dirConfs.set d default } else p

/-- A context for `d` needs a build: neither `d` nor the section it was merged from has a handle,
and the cache does not have the rules. -/
structure NeedsBuild (p : Process) (d : Nat) : Prop where
  unset : p.wafOf d = 0
  hasRules : (p.dirConfs.get d).hasRules = true
  rules : 0 < (p.rulesOf d).length
  child : ∀ c, (p.dirConfs.get d).mergeChild = some c → p.wafOf c = 0
  missed : wafCacheFind p.wafCache (rulesHash (p.rulesOf d)) (p.rulesOf d) = 0

/-- The cache takes another entry. -/
def CacheRoom (p : Process) : Prop := p.wafCache.length < wafCacheMax ∧ p.wafCachePool = true

instance (p : Process) : Decidable p.CacheRoom := inferInstanceAs (Decidable (_ ∧ _))

/-- A handle the step gets from the engine has a place to stay: in the cache, on the `dir_conf`
of the request or on the section it was merged from, if they are of the configuration. -/
def BuildStays (lib : WafLib) (n : Nat) (p : Process) : RequestOp → Prop
  | .createCtx d _ => p.NeedsBuild d → corazaBuildWaf (lib.build p.builds) (p.rulesOf d) ≠ 0 →
      p.CacheRoom ∨ d < n ∨ ∃ c < n, (p.dirConfs.get d).mergeChild = some c
  | _ => True

/-- A handle is held by a server, by one of the first objects, or by the cache. -/
theorem mem_holders {p : Process} {n w : Nat} : w ∈ p.holders n ↔
    (∃ c < p.serverConfs.size, p.serverWafOf c = w) ∨ (∃ d < n, p.wafOf d = w) ∨
      ∃ e ∈ p.wafCache, e.waf = w := by
  simp only [holders, List.mem_append, List.mem_map, List.mem_range, or_assoc]

private theorem length_holders (p : Process) (n : Nat) :
    (p.holders n).length = p.serverConfs.size + n + p.wafCache.length := by
  simp [holders, Nat.add_assoc]

/-! ### The invariant -/

/-- Every recorded handle is held. -/
structure Held (n : Nat) (p : Process) : Prop where
  size : n ≤ p.dirConfs.size
  wafs : ∀ x ∈ p.wafs, x.1 ≠ 0 ∧ x.1 ∈ p.holders n

/-- With every handle held there is none that only the engine knows. -/
theorem Held.noneStranded {n : Nat} {p : Process} (h : Held n p) : p.NoneStranded n := by
  have hheld : ∀ w ∈ p.liveWafs, w ∈ p.holders n := by
    intro w hw
    obtain ⟨x, hx, rfl⟩ := List.mem_map.mp (List.mem_dedup.mp hw)
    exact (h.wafs x hx).2
  refine ⟨hheld, ?_⟩
  rw [← length_holders]
  exact (List.subperm_of_subset (List.nodup_dedup _) hheld).length_le

/-- The holders keep what they hold. -/
structure Retains (n : Nat) (p q : Process) : Prop where
  serverSize : q.serverConfs.size = p.serverConfs.size
  server : ∀ c, q.serverWafOf c = p.serverWafOf c
  dir : ∀ d < n, p.wafOf d ≠ 0 → q.wafOf d = p.wafOf d
  cache : ∀ e ∈ p.wafCache, e ∈ q.wafCache

private theorem Retains.mem_holders {n w : Nat} {p q : Process} (h : Retains n p q) (hw : w ≠ 0)
    (hm : w ∈ p.holders n) : w ∈ q.holders n := by
  rw [Process.mem_holders] at hm ⊢
  rcases hm with ⟨c, hc, rfl⟩ | ⟨d, hd, rfl⟩ | ⟨e, he, rfl⟩
  · exact Or.inl ⟨c, h.serverSize ▸ hc, h.server c⟩
  · exact Or.inr (Or.inl ⟨d, hd, h.dir d hd hw⟩)
  · exact Or.inr (Or.inr ⟨e, h.cache e he, rfl⟩)

/-- A step that keeps the holders and records only what one of them gets. -/
theorem Held.step {n : Nat} {p q : Process} (h : Held n p) (hr : Retains n p q)
    (hs : p.dirConfs.size ≤ q.dirConfs.size)
    (hnew : ∀ x ∈ q.wafs, x ∈ p.wafs ∨ x.1 ≠ 0 ∧ x.1 ∈ q.holders n) : Held n q where
  size := Nat.le_trans h.size hs
  wafs x hx := by
    rcases hnew x hx with hold | hx
    · obtain ⟨hne, hheld⟩ := h.wafs x hold
      exact ⟨hne, hr.mem_holders hne hheld⟩
    · exact hx

/-- Steps that build nothing. -/
theorem Held.of_wafs_eq {n : Nat} {p q : Process} (h : Held n p) (hr : Retains n p q)
    (hs : p.dirConfs.size ≤ q.dirConfs.size) (hw : q.wafs = p.wafs) : Held n q :=
  h.step hr hs fun _ hx ↦ Or.inl (hw ▸ hx)

/-! ### Steps without a build -/

section

variable {n : Nat} {p : Process}

private theorem Held.createDirConf (h : Held n p) : Held n p.corazaCreateDirConf.2 := by
  apply h.of_wafs_eq
  · refine ⟨rfl, fun _ ↦ rfl, fun d hd _ ↦ ?_, fun _ he ↦ he⟩
    have hlt := Nat.lt_of_lt_of_le hd h.size
    rw [wafOf, corazaCreateDirConf, Arena.get_alloc_of_lt _ _ _ hlt]
    rfl
  · rw [corazaCreateDirConf, Arena.size_alloc]
    exact Nat.le_succ _
  · rfl

private theorem Held.merge (h : Held n p) (a b : Nat) : Held n (p.corazaMergeDirConf a b).2 := by
  apply h.of_wafs_eq
  · refine ⟨rfl, fun _ ↦ rfl, fun d hd _ ↦ ?_, fun _ he ↦ he⟩
    rw [wafOf, get_merge_of_lt p a b d (Nat.lt_of_lt_of_le hd h.size)]
    rfl
  · rw [size_merge]
    exact Nat.le_succ _
  · rfl

/-- Reading a directive writes no handle. -/
theorem Held.directive (h : Held n p) {env : ConfigEnv} {path : Bool} {dcf scf : Nat}
    {dir : Directive} {q : Process} (hrun : dir.run env p path dcf scf = .ok q) : Held n q := by
  rcases directive_run_cases hrun with ⟨cmd, e, -, -, rfl⟩ | ⟨f, hf, -, -, rfl⟩
  · apply h.of_wafs_eq
    · refine ⟨size_serverConfs_storeRule p cmd dcf scf e,
        fun c ↦ (server_storeRule p cmd dcf scf e c).2,
        fun d _ _ ↦ (dir_storeRule p cmd dcf scf e d).2, fun c hc ↦ ?_⟩
      rw [wafCache_storeRule]
      exact hc
    · exact Nat.le_of_eq (size_dirConfs_storeRule p cmd dcf scf e).symm
    · rw [storeRule_eq]
  · apply h.of_wafs_eq
    · exact ⟨rfl, fun _ ↦ rfl, fun d _ _ ↦ (get_updateDirConf_of_benign hf p dcf d).2.2,
        fun _ he ↦ he⟩
    · exact Nat.le_of_eq (Arena.size_set _ _ _).symm
    · rfl

/-- The objects of a request hold nothing that counts. -/
theorem Held.destroy (h : Held n p) {d : Nat} (hd : n ≤ d) :
    Held n { p with dirConfs := p.dirConfs.set d default } := by
  apply h.of_wafs_eq
  · refine ⟨rfl, fun _ ↦ rfl, fun o ho _ ↦ ?_, fun _ he ↦ he⟩
    rw [wafOf, Arena.get_set_ne _ _ _ _ (by omega)]
    rfl
  · exact Nat.le_of_eq (Arena.size_set _ _ _).symm
  · rfl

end

/-! ### The lookups and the build -/

/-- Handles are only written to objects that have none. -/
structure Fills (p q : Process) : Prop where
  kept : ∀ o, p.wafOf o ≠ 0 → q.wafOf o = p.wafOf o
  servers : q.serverConfs = p.serverConfs
  size : q.dirConfs.size = p.dirConfs.size
  mergeChild : ∀ o, (q.dirConfs.get o).mergeChild = (p.dirConfs.get o).mergeChild

namespace Fills

variable {p q r : Process}

/-- Nothing is written yet. -/
theorem refl (p : Process) : Fills p p := ⟨fun _ _ ↦ rfl, rfl, rfl, fun _ ↦ rfl⟩

/-- Writes to places without a handle compose. -/
theorem trans (h : Fills p q) (h' : Fills q r) : Fills p r where
  kept o ho := by
    have hq := h.kept o ho
    exact (h'.kept o (hq ▸ ho)).trans hq
  servers := h'.servers.trans h.servers
  size := h'.size.trans h.size
  mergeChild o := (h'.mergeChild o).trans (h.mergeChild o)

/-- Where the objects are the same nothing was written. -/
theorem of_dirConfs_eq (hd : q.dirConfs = p.dirConfs) (hs : q.serverConfs = p.serverConfs) :
    Fills p q where
  kept o _ := by rw [wafOf, hd, wafOf]
  servers := hs
  size := by rw [hd]
  mergeChild o := by rw [hd]

/-- A handle is written where there was none, or the same again. -/
theorem setWaf {d w : Nat} (h : p.wafOf d = 0 ∨ p.wafOf d = w) : Fills p (p.setWaf d w) where
  kept o ho := by
    rw [wafOf_setWaf]
    split
    · next hs =>
      rw [← hs.1] at ho ⊢
      exact (h.resolve_left ho).symm
    · rfl
  servers := rfl
  size := size_setWaf p d w
  mergeChild o := mergeChild_setWaf p d w o

/-- So on the section an object was merged from. -/
theorem setChildWaf {d w : Nat} (h : ∀ c, (p.dirConfs.get d).mergeChild = some c →
    p.wafOf c = 0 ∨ p.wafOf c = w) : Fills p (p.setChildWaf d w) := by
  unfold Process.setChildWaf
  split
  · next c hc => exact setWaf (h c hc)
  · exact refl p

/-- A handle goes to an object without one and to the section it was merged from. -/
theorem setBoth {d w : Nat} (hd : p.wafOf d = 0)
    (hchild : ∀ c, (p.dirConfs.get d).mergeChild = some c → p.wafOf c = 0) :
    Fills p ((p.setWaf d w).setChildWaf d ((p.setWaf d w).wafOf d)) := by
  have hset : Fills p (p.setWaf d w) := setWaf (Or.inl hd)
  apply hset.trans
  apply setChildWaf
  intro c hc
  rw [hset.mergeChild] at hc
  by_cases hcd : c = d
  · rw [hcd]
    exact Or.inr rfl
  · rw [wafOf_setWaf, if_neg (fun hn ↦ hcd hn.1.symm)]
    exact Or.inl (hchild c hc)

end Fills

/-- The two lookups write only where there was no handle, and while none has been found neither
object has one. -/
structure Searched (p q : Process) (d : Nat) : Prop where
  fills : Fills p q
  wafs : q.wafs = p.wafs
  builds : q.builds = p.builds
  unset : q.wafOf d = 0 → p.wafOf d = 0 ∧
    ∀ c, (p.dirConfs.get d).mergeChild = some c → p.wafOf c = 0 ∧ q.wafOf c = 0

variable {p q : Process} {d : Nat}

/-- The `merge_child` re-check. -/
theorem searched_strategyMergeChild (hd : d < p.dirConfs.size) :
    Searched p (p.strategyMergeChild d) d := by
  unfold strategyMergeChild
  split
  · next hz =>
    split
    · next c hc =>
      refine ⟨Fills.setWaf (Or.inl hz), rfl, rfl, fun hw ↦ ⟨hz, fun c' hc' ↦ ?_⟩⟩
      rw [hc] at hc'
      cases hc'
      rw [wafOf_setWaf, if_pos ⟨rfl, hd⟩] at hw
      refine ⟨hw, ?_⟩
      rw [wafOf_setWaf]
      split <;> exact hw
    · next hc =>
      refine ⟨Fills.refl p, rfl, rfl, fun _ ↦ ⟨hz, fun c' hc' ↦ ?_⟩⟩
      rw [hc] at hc'
      cases hc'
  · next hz => exact ⟨Fills.refl p, rfl, rfl, fun hw ↦ absurd hw hz⟩

private theorem Searched.strategyCache (h : Searched p q d) (hd : d < q.dirConfs.size) :
    Searched p (q.strategyCache d) d := by
  unfold Process.strategyCache
  split
  · next hz =>
    have hchild := (h.unset hz).2
    dsimp only
    split
    · next hf =>
      refine ⟨h.fills.trans (Fills.setBoth hz fun c hc ↦ ?_), ?_, ?_, fun hw ↦ ?_⟩
      · rw [h.fills.mergeChild] at hc
        exact (hchild c hc).2
      · rw [← h.wafs]
        unfold setChildWaf
        split <;> rfl
      · rw [← h.builds]
        unfold setChildWaf
        split <;> rfl
      · rw [wafOf_setChildWaf_self, wafOf_setWaf, if_pos ⟨rfl, hd⟩] at hw
        exact absurd hw hf
    · exact h
  · exact h

/-- Both lookups. -/
theorem searched (hd : d < p.dirConfs.size) :
    Searched p ((p.strategyMergeChild d).strategyCache d) d := by
  have hsize : (p.strategyMergeChild d).dirConfs.size = p.dirConfs.size := by
    unfold Process.strategyMergeChild
    split
    · split
      · exact size_setWaf p d _
      · rfl
    · rfl
  exact (searched_strategyMergeChild hd).strategyCache (hsize ▸ hd)

/-- A build, up to the write to the section `d` was merged from. -/
theorem strategyBuild_eq {lib : WafLib} {w : Nat} (hd : d < q.dirConfs.size)
    (hz : q.wafOf d = 0) (hpos : 0 < (q.rulesOf d).length)
    (hw : corazaBuildWaf (lib.build q.builds) (q.rulesOf d) = w) :
    ∃ t : Process, q.strategyBuild lib d = t.setChildWaf d (t.wafOf d) ∧
      t.dirConfs = (q.setWaf d w).dirConfs ∧ t.serverConfs = q.serverConfs ∧
      t.wafs = if w = 0 then q.wafs else q.wafs ++ [(w, q.rulesOf d)] := by
  have hset : ((q.afterBuild w (q.rulesOf d)).setWaf d w).wafOf d = w := by
    rw [wafOf_setWaf, if_pos]
    exact ⟨rfl, hd⟩
  unfold strategyBuild
  dsimp only
  rw [if_pos hz, buildWaf_of_ne_nil q lib hpos, hw]
  dsimp only
  rw [hset]
  by_cases h0 : w = 0
  · rw [if_neg (not_not.mpr h0), if_pos h0]
    refine ⟨(q.afterBuild w (q.rulesOf d)).setWaf d w, by rw [hset], rfl, rfl, ?_⟩
    rw [wafs_setWaf]
    exact if_pos h0
  · rw [if_pos h0, if_neg h0]
    refine ⟨_, rfl, dirConfs_wafCacheAdd _ _ _ _, ?_, ?_⟩
    · exact (onlyWafs_wafCacheAdd _ _ _ _).serverConfs
    · rw [wafs_wafCacheAdd, wafs_setWaf]
      exact if_neg h0

/-- What a build leaves: its handle, if it returned one, is recorded, and stands on `d` and on
the section `d` was merged from. -/
theorem strategyBuild_of_unset {lib : WafLib} {w : Nat} (hd : d < q.dirConfs.size)
    (hz : q.wafOf d = 0) (hpos : 0 < (q.rulesOf d).length)
    (hchild : ∀ c, (q.dirConfs.get d).mergeChild = some c → q.wafOf c = 0)
    (hw : corazaBuildWaf (lib.build q.builds) (q.rulesOf d) = w) :
    Fills q (q.strategyBuild lib d) ∧ (q.strategyBuild lib d).wafOf d = w ∧
      (∀ c < q.dirConfs.size, (q.dirConfs.get d).mergeChild = some c →
        (q.strategyBuild lib d).wafOf c = w) ∧
      (q.strategyBuild lib d).wafs =
        if w = 0 then q.wafs else q.wafs ++ [(w, q.rulesOf d)] := by
  obtain ⟨t, ht, hdirs, hservers, hwafs⟩ := strategyBuild_eq hd hz hpos hw
  have htw : t.wafOf d = w := by
    rw [wafOf, hdirs]
    show (q.setWaf d w).wafOf d = w
    rw [wafOf_setWaf, if_pos ⟨rfl, hd⟩]
  rw [ht]
  refine ⟨?_, ?_, fun c hc hm ↦ ?_, ?_⟩
  · have hfill : Fills q t :=
      (Fills.setWaf (Or.inl hz)).trans (Fills.of_dirConfs_eq hdirs hservers)
    apply hfill.trans
    apply Fills.setChildWaf
    intro c hc
    rw [hfill.mergeChild] at hc
    by_cases hcd : c = d
    · rw [hcd]
      exact Or.inr rfl
    · left
      rw [wafOf, hdirs]
      show (q.setWaf d w).wafOf c = 0
      rw [wafOf_setWaf, if_neg (fun hn ↦ hcd hn.1.symm)]
      exact hchild c hc
  · exact (wafOf_setChildWaf_self t d).trans htw
  · have htm : (t.dirConfs.get d).mergeChild = some c := by
      rw [hdirs, mergeChild_setWaf]
      exact hm
    rw [setChildWaf, htm]
    dsimp only
    rw [wafOf_setWaf, if_pos, htw]
    rw [hdirs, size_setWaf]
    exact ⟨rfl, hc⟩
  · rw [← hwafs]
    unfold setChildWaf
    split <;> rfl

private theorem Fills.retains {n : Nat} (h : Fills p q) (hc : ∀ e ∈ p.wafCache, e ∈ q.wafCache) :
    Retains n p q where
  serverSize := by rw [h.servers]
  server c := by rw [serverWafOf, h.servers, serverWafOf]
  dir d _ hd := h.kept d hd
  cache := hc

/-- The locked section keeps every handle held, if the handle of its build stays somewhere. -/
theorem Held.lockedSection {n : Nat} {lib : WafLib} {scf : Nat} (h : Held n p)
    (hd : d < p.dirConfs.size) (hflag : (p.dirConfs.get d).hasRules = true)
    (hpos : 0 < (p.rulesOf d).length) (hs : BuildStays lib n p (.createCtx d scf)) :
    Held n (p.lockedSection lib d) := by
  have hl := p.lookedUp hd
  have hq := searched hd
  cases hcall : p.buildCall lib d with
  | none =>
    have hcache := (lockedSection_of_none hd hcall).1
    obtain ⟨q, hlook⟩ : ∃ q, (p.strategyMergeChild d).strategyCache d = q := ⟨_, rfl⟩
    rw [hlook] at hl hq
    simp only [buildCall, hlook] at hcall
    split at hcall
    · cases hcall
    · next hz =>
      rw [Process.lockedSection, hlook, strategyBuild, if_neg hz] at hcache ⊢
      apply h.of_wafs_eq
      · exact hq.fills.retains fun e he ↦ hcache ▸ he
      · exact Nat.le_of_eq hl.size.symm
      · exact hq.wafs
  | some call =>
    obtain ⟨rules, w⟩ := call
    obtain ⟨hmissed, -, hcache⟩ := lockedSection_of_some hd hcall
    obtain ⟨q, hlook⟩ : ∃ q, (p.strategyMergeChild d).strategyCache d = q := ⟨_, rfl⟩
    rw [hlook] at hl hq
    simp only [buildCall, hlook] at hcall
    split at hcall
    · next hz =>
      obtain ⟨rfl, hw⟩ := Prod.mk.inj (Option.some.inj hcall)
      rw [hl.rules] at hmissed hcache hw
      have hposq : 0 < (q.rulesOf d).length := hl.rules ▸ hpos
      have hbuild : corazaBuildWaf (lib.build q.builds) (q.rulesOf d) = w := by
        rw [hl.rules, ← hw, buildWaf_of_ne_nil q lib hpos]
      obtain ⟨hunset, hchild⟩ := hq.unset hz
      obtain ⟨hfills, hself, hsection, hwafs⟩ := strategyBuild_of_unset (hl.size ▸ hd) hz hposq
        (fun c hc ↦ (hchild c (hq.fills.mergeChild d ▸ hc)).2) hbuild
      rw [hq.builds, hl.rules] at hbuild
      rw [Process.lockedSection, hlook] at hcache ⊢
      apply h.step
      · apply (hq.fills.trans hfills).retains
        intro e he
        rw [hcache]
        split
        · exact he
        · exact List.mem_append_left _ he
      · exact Nat.le_of_eq (hq.fills.trans hfills).size.symm
      · intro x hx
        rw [hwafs, hq.wafs] at hx
        by_cases h0 : w = 0
        · rw [if_pos h0] at hx
          exact Or.inl hx
        · rw [if_neg h0] at hx
          apply (List.mem_append.mp hx).imp_right
          intro hx
          rw [List.mem_singleton.mp hx]
          refine ⟨h0, mem_holders.mpr ?_⟩
          -- The new handle stands in the cache, on the object, or on its section.
          have hneeds : p.NeedsBuild d :=
            ⟨hunset, hflag, hpos, fun c hc ↦ (hchild c hc).1, hmissed⟩
          rcases hs hneeds (hbuild ▸ h0) with ⟨hroom, hpool⟩ | hlt | ⟨c, hlt, hc⟩
          · right; right
            rw [hcache, if_neg]
            · exact ⟨_, List.mem_append_right _ (List.mem_singleton.mpr rfl), rfl⟩
            · simp [h0, hpool, Nat.not_le.mpr hroom]
          · exact Or.inr (Or.inl ⟨d, hlt, hself⟩)
          · have hsize : c < q.dirConfs.size := by
              rw [hl.size]
              exact Nat.lt_of_lt_of_le hlt h.size
            rw [← hq.fills.mergeChild] at hc
            exact Or.inr (Or.inl ⟨c, hlt, hsection c hsize hc⟩)
    · cases hcall

/-- A context is created without stranding a handle. -/
theorem Held.createCtx {n : Nat} {lib : WafLib} {scf : Nat} (h : Held n p)
    (hs : BuildStays lib n p (.createCtx d scf)) : Held n (p.corazaCreateCtx lib d scf).2 := by
  have hresolve : Held n (p.resolveWaf lib d) := by
    rw [resolveWaf_eq_lockedSection]
    split
    · next hneed =>
      exact h.lockedSection (lt_size_of_hasRules hneed.2.1) hneed.2.1 hneed.2.2 hs
    · exact h
  rw [corazaCreateCtx_snd]
  exact ⟨hresolve.size, hresolve.wafs⟩

/-! ### When a request strands a WAF -/

/-- Transactions do not count. -/
theorem noneStranded_transactions (p : Process) (calls : List TransactionCall) (n : Nat) :
    ({ p with transactions := calls } : Process).NoneStranded n ↔ p.NoneStranded n := Iff.rfl

/-- A build that is needed is made. -/
theorem NeedsBuild.unset_of_lookups (h : NeedsBuild p d) :
    ((p.strategyMergeChild d).strategyCache d).wafOf d = 0 := by
  have hmerge : (p.strategyMergeChild d).wafOf d = 0 ∧
      (p.strategyMergeChild d).wafCache = p.wafCache ∧
      (p.strategyMergeChild d).rulesOf d = p.rulesOf d := by
    unfold strategyMergeChild
    rw [if_pos h.unset]
    split
    · next c hc =>
      refine ⟨?_, rfl, rulesOf_setWaf p d _ d⟩
      rw [wafOf_setWaf, h.child c hc, h.unset, ite_self]
    · exact ⟨h.unset, rfl, rfl⟩
  obtain ⟨hunset, hcache, hrules⟩ := hmerge
  unfold strategyCache
  rw [if_pos hunset]
  dsimp only
  rw [hcache, hrules, if_neg (not_not.mpr h.missed)]
  exact hunset

/-- A cache that takes no entry stays as it is. -/
theorem wafCache_of_full (lib : WafLib) (hd : d < p.dirConfs.size) (h : ¬ p.CacheRoom) :
    (p.lockedSection lib d).wafCache = p.wafCache := by
  cases hcall : p.buildCall lib d with
  | none => exact (lockedSection_of_none hd hcall).1
  | some call =>
    rw [(lockedSection_of_some hd hcall).2.2]
    apply if_pos
    right
    by_contra hroom
    rw [not_or, Nat.not_le, Bool.not_eq_false] at hroom
    exact h hroom

/-- A new handle is recorded, and no holder gets it if the cache is full and the objects are those
of the request. -/
theorem stranded_of_build {n : Nat} {lib : WafLib} {scf : Nat} (hsound : p.CacheSound)
    (hneeds : p.NeedsBuild d)
    (hw : corazaBuildWaf (lib.build p.builds) (p.rulesOf d) ≠ 0)
    (hnew : corazaBuildWaf (lib.build p.builds) (p.rulesOf d) ∉ p.holders n)
    (hroom : ¬ p.CacheRoom) (hd : n ≤ d)
    (hchild : ∀ c, (p.dirConfs.get d).mergeChild = some c → n ≤ c) :
    ¬ (p.corazaCreateCtx lib d scf).2.NoneStranded n := by
  have hlt : d < p.dirConfs.size := lt_size_of_hasRules hneeds.hasRules
  have hres := resolving_resolveWaf p lib d hsound
  have hz := hneeds.unset_of_lookups
  have hsection : p.resolveWaf lib d = p.lockedSection lib d := by
    rw [resolveWaf_eq_lockedSection]
    exact if_pos ⟨hneeds.unset, hneeds.hasRules, hneeds.rules⟩
  have hl := p.lookedUp hlt
  have hq := searched hlt
  have hcache := wafCache_of_full lib hlt hroom
  obtain ⟨w, hbuild⟩ : ∃ w, corazaBuildWaf (lib.build p.builds) (p.rulesOf d) = w := ⟨_, rfl⟩
  rw [hbuild] at hw hnew
  have hwafs : (p.lockedSection lib d).wafs = p.wafs ++ [(w, p.rulesOf d)] := by
    have hchildren := fun c hc ↦ ((hq.unset hz).2 c (hq.fills.mergeChild d ▸ hc)).2
    rw [← hq.builds, ← hl.rules] at hbuild
    have hafter := (strategyBuild_of_unset (hl.size ▸ hlt) hz (hl.rules ▸ hneeds.rules)
      hchildren hbuild).2.2.2
    rw [if_neg hw, hq.wafs, hl.rules] at hafter
    exact hafter
  have hlive : w ∈ (p.lockedSection lib d).liveWafs := by
    rw [liveWafs, List.mem_dedup, hwafs, List.map_append]
    exact List.mem_append_right _ (List.mem_singleton.mpr rfl)
  rw [corazaCreateCtx_snd, noneStranded_transactions, hsection]
  rw [hsection] at hres
  intro hnone
  apply hnew
  rw [mem_holders]
  rcases mem_holders.mp (hnone.1 w hlive) with ⟨c, hc, hwc⟩ | ⟨o, ho, hwo⟩ | ⟨e, he, hwe⟩
  · left
    rw [← hres.only.serverConfs]
    exact ⟨c, hc, by rw [← hwc, serverWafOf, serverWafOf, hres.only.serverConfs]⟩
  · right; left
    refine ⟨o, ho, ?_⟩
    rw [← hres.elsewhere o]
    · exact hwo
    · intro hmem
      rcases List.mem_cons.mp hmem with rfl | hmem
      · omega
      · have := hchild o (Option.mem_toList.mp hmem)
        omega
  · right; right
    exact ⟨e, hcache ▸ he, hwe⟩

/-- A new handle is stranded exactly when it does not stay. -/
theorem Held.noneStranded_createCtx_iff {n : Nat} {lib : WafLib} {scf : Nat} (h : Held n p)
    (hsound : p.CacheSound)
    (hnew : corazaBuildWaf (lib.build p.builds) (p.rulesOf d) ∉ p.holders n) :
    (p.corazaCreateCtx lib d scf).2.NoneStranded n ↔
      BuildStays lib n p (.createCtx d scf) := by
  constructor
  · intro hnone hneeds hw
    by_contra hlost
    rw [not_or, not_or] at hlost
    obtain ⟨hroom, hd, hchild⟩ := hlost
    apply stranded_of_build hsound hneeds hw hnew hroom (Nat.le_of_not_lt hd) ?_ hnone
    intro c hc
    by_contra hlt
    exact hchild ⟨c, Nat.lt_of_not_le hlt, hc⟩
  · intro hs
    exact (h.createCtx hs).noneStranded

/-- One step of a child. -/
theorem Held.requestStep {n : Nat} {lib : WafLib} (env : ConfigEnv) (h : Held n p) {op : RequestOp}
    (hs : BuildStays lib n p op) : Held n (p.requestStep env lib n op) := by
  cases op with
  | createDirConf => exact h.createDirConf
  | directive dir dcf scf =>
    unfold Process.requestStep
    dsimp only
    split
    · next q hrun => exact h.directive hrun
    · exact h
  | merge a b => exact h.merge a b
  | createCtx d scf => exact h.createCtx hs
  | destroy d =>
    unfold Process.requestStep
    dsimp only
    split
    · next hd => exact h.destroy hd
    · exact h

/-- Requests in any order and number. -/
theorem Held.requests {n : Nat} {lib : WafLib} {env : ConfigEnv} (h : Held n p)
    {ops : List RequestOp}
    (hs : ∀ v ∈ visits (Process.requestStep env lib n) p ops, BuildStays lib n v.1 v.2) :
    Held n (ops.foldl (Process.requestStep env lib n) p) ∧
      ∀ v ∈ visits (Process.requestStep env lib n) p ops, Held n v.1 :=
  visits_invariant (I := Held n) (C := BuildStays lib n) (fun _ _ hp hop ↦ hp.requestStep env hop)
    h hs

end Process
end CorazaApache.Config
