import CorazaApache.Base.Run
import CorazaApache.Config.Waf

/-!
# Whole histories of merges and requests

A child process serves requests by merging `dir_conf`s and creating transactions on the
result, in any order. Handles move between objects in three ways: a merge takes one over
from the side it shares rules with, `coraza_create_ctx` reads one from the section the
`dir_conf` was merged from, and it writes the one it used back there. The ledger `filed`
records, step by step, for which rule lists a handle was put on an object. As long as no object
is asked for a handle of one list after it was given one of another, every handle found belongs
to the rules it is used for.
-/

namespace CorazaApache.Config
open CorazaApache.Base

/-- A step of the history: `coraza_merge_dir_conf` or `coraza_create_ctx`. -/
inductive ConfOp where
  | merge (parent child : Nat)
  | createCtx (d scf : Nat)
  deriving DecidableEq, Repr

/-- The process and, for every object, the rule lists a handle was filed on it for. -/
structure History where
  process : Process
  filed : Nat → List RuleList

namespace Process

/-- The side of a merge whose handle the merged object takes over. -/
def handleSource (p : Process) (parent child : Nat) : Option Nat :=
  if 0 < (p.rulesOf child).length then some child
  else if 0 < (p.rulesOf parent).length then some parent
  else none

/-- The objects `coraza_create_ctx` on `d` may leave its handle on. -/
def handleTargets (p : Process) (d : Nat) : List Nat :=
  d :: (p.dirConfs.get d).mergeChild.toList

/-- Only handles, the cache and the records of builds differ. -/
structure OnlyWafs (p p' : Process) : Prop where
  arrays : p'.arrays = p.arrays
  serverConfs : p'.serverConfs = p.serverConfs
  transactions : p'.transactions = p.transactions
  size : p'.dirConfs.size = p.dirConfs.size
  rules : ∀ o, (p'.dirConfs.get o).rules = (p.dirConfs.get o).rules
  hasRules : ∀ o, (p'.dirConfs.get o).hasRules = (p.dirConfs.get o).hasRules
  mergeChild : ∀ o, (p'.dirConfs.get o).mergeChild = (p.dirConfs.get o).mergeChild
  wafs : ∀ x ∈ p.wafs, x ∈ p'.wafs

namespace OnlyWafs

variable {p q r : Process}

private theorem of_eq (ha : q.arrays = p.arrays) (hs : q.serverConfs = p.serverConfs)
    (ht : q.transactions = p.transactions) (hd : q.dirConfs = p.dirConfs)
    (hw : ∀ x ∈ p.wafs, x ∈ q.wafs) : OnlyWafs p q where
  arrays := ha
  serverConfs := hs
  transactions := ht
  size := by rw [hd]
  rules _ := by rw [hd]
  hasRules _ := by rw [hd]
  mergeChild _ := by rw [hd]
  wafs := hw

/-- Nothing differs yet. -/
theorem refl (p : Process) : OnlyWafs p p := of_eq rfl rfl rfl rfl fun _ h ↦ h

private theorem trans (h : OnlyWafs p q) (h' : OnlyWafs q r) : OnlyWafs p r where
  arrays := h'.arrays.trans h.arrays
  serverConfs := h'.serverConfs.trans h.serverConfs
  transactions := h'.transactions.trans h.transactions
  size := h'.size.trans h.size
  rules o := (h'.rules o).trans (h.rules o)
  hasRules o := (h'.hasRules o).trans (h.hasRules o)
  mergeChild o := (h'.mergeChild o).trans (h.mergeChild o)
  wafs x hx := h'.wafs x (h.wafs x hx)

/-- Every object keeps its rules. -/
theorem rulesOf (h : OnlyWafs p q) (o : Nat) : q.rulesOf o = p.rulesOf o := by
  rw [Process.rulesOf, h.arrays, h.rules o, Process.rulesOf]

/-- What was built stays recorded. -/
theorem builtFrom (h : OnlyWafs p q) {w : Nat} {l : RuleList} (hb : p.BuiltFrom w l) :
    q.BuiltFrom w l := h.wafs _ hb

end OnlyWafs

/-- A handle is written. -/
theorem onlyWafs_setWaf (p : Process) (d w : Nat) : OnlyWafs p (p.setWaf d w) := by
  have hf (o : Nat) : (p.setWaf d w).dirConfs.get o = p.dirConfs.get o ∨
      (p.setWaf d w).dirConfs.get o = { p.dirConfs.get o with waf := w } := by
    simp only [setWaf, updateDirConf, Arena.get_set]
    split
    · next h => rw [h.1]; exact Or.inr rfl
    · exact Or.inl rfl
  refine ⟨rfl, rfl, rfl, size_setWaf p d w, fun o ↦ ?_, fun o ↦ ?_, fun o ↦ ?_, fun _ h ↦ h⟩
  all_goals
    rcases hf o with h | h
    all_goals rw [h]

/-- A build is recorded. -/
theorem onlyWafs_buildWaf (p : Process) (lib : WafLib) (rules : RuleList) :
    OnlyWafs p (p.buildWaf lib rules).2 := by
  rw [buildWaf_snd]
  refine OnlyWafs.of_eq rfl rfl rfl rfl fun x hx ↦ ?_
  dsimp only
  split
  · exact hx
  · exact List.mem_append_left _ hx

/-- The cache is added to. -/
theorem onlyWafs_wafCacheAdd (p : Process) (hash : UInt64) (rules : RuleList) (w : Nat) :
    OnlyWafs p (p.wafCacheAdd hash rules w) := by
  unfold wafCacheAdd
  split
  · exact OnlyWafs.of_eq rfl rfl rfl rfl fun _ h ↦ h
  · split
    · exact OnlyWafs.refl p
    · exact OnlyWafs.of_eq rfl rfl rfl rfl fun _ h ↦ h

/-! ### What the lookup and the build leave behind -/

/-- Every cached handle was built from the entry's own copy of the rules. -/
def CacheSound (p : Process) : Prop := ∀ e ∈ p.wafCache, p.BuiltFrom e.waf e.rules

/-- A handle `coraza_create_ctx` may use in `q` for the object `d` of `p`: one that stood on
`d` or on the section it was merged from, or one built from the rules of `d`. -/
def Source (p : Process) (d : Nat) (q : Process) (w : Nat) : Prop :=
  (∃ o ∈ p.handleTargets d, w = p.wafOf o) ∨ q.BuiltFrom w (p.rulesOf d)

/-- The state `q` inside the locked section entered in `p` for the object `d`. -/
structure Resolving (p : Process) (d : Nat) (q : Process) : Prop where
  only : OnlyWafs p q
  elsewhere : ∀ o ∉ p.handleTargets d, q.wafOf o = p.wafOf o
  targets : ∀ o ∈ p.handleTargets d, q.wafOf o ≠ 0 → Source p d q (q.wafOf o)
  cache : CacheSound q

/-- A cached handle was built from the list it is found for. -/
theorem builtFrom_wafCacheFind (p : Process) (h : CacheSound p) (hash : UInt64) (l : RuleList)
    (hf : wafCacheFind p.wafCache hash l ≠ 0) :
    p.BuiltFrom (wafCacheFind p.wafCache hash l) l := by
  unfold wafCacheFind at hf ⊢
  cases he : p.wafCache.find? (fun e ↦ e.hash == hash && rulesEqual e.rules l) with
  | none => rw [he] at hf; exact absurd rfl hf
  | some e =>
    have hm := h e (List.mem_of_find?_eq_some he)
    have hp := List.find?_some he
    rw [Bool.and_eq_true, rulesEqual_iff] at hp
    rw [hp.2] at hm
    exact hm

namespace Resolving

variable {p q : Process} {d : Nat}

/-- The section is entered with everything as it was. -/
theorem start (p : Process) (d : Nat) (h : CacheSound p) : Resolving p d p where
  only := OnlyWafs.refl p
  elsewhere _ _ := rfl
  targets o ho _ := Or.inl ⟨o, ho, rfl⟩
  cache := h

/-- The handle is looked for on the object itself. -/
theorem mem_self (p : Process) (d : Nat) : d ∈ p.handleTargets d := by simp [handleTargets]

private theorem mem_child {c : Nat} (h : (p.dirConfs.get d).mergeChild = some c) :
    c ∈ p.handleTargets d := by simp [handleTargets, h]

private theorem setWaf (h : Resolving p d q) {o w : Nat} (ho : o ∈ p.handleTargets d)
    (hw : w ≠ 0 → Source p d q w) : Resolving p d (q.setWaf o w) where
  only := h.only.trans (onlyWafs_setWaf q o w)
  elsewhere o' ho' := by
    have hne : o ≠ o' := fun he ↦ ho' (he ▸ ho)
    rw [wafOf_setWaf, if_neg (fun hc ↦ hne hc.1)]
    exact h.elsewhere o' ho'
  targets o' ho' := by
    rw [wafOf_setWaf]
    split
    · exact hw
    · exact h.targets o' ho'
  cache := h.cache

private theorem setChildWaf (h : Resolving p d q) {w : Nat} (hw : w ≠ 0 → Source p d q w) :
    Resolving p d (q.setChildWaf d w) := by
  unfold Process.setChildWaf
  split
  · next c hc => exact h.setWaf (mem_child (by rw [← h.only.mergeChild d]; exact hc)) hw
  · exact h

private theorem buildWaf (h : Resolving p d q) (lib : WafLib) (l : RuleList) :
    Resolving p d (q.buildWaf lib l).2 where
  only := h.only.trans (onlyWafs_buildWaf q lib l)
  elsewhere o ho := by rw [buildWaf_snd]; exact h.elsewhere o ho
  targets o ho hn := by
    have hd : (q.buildWaf lib l).2.wafOf o = q.wafOf o := by rw [buildWaf_snd]; rfl
    rw [hd] at hn ⊢
    rcases h.targets o ho hn with hs | hs
    · exact Or.inl hs
    · exact Or.inr ((onlyWafs_buildWaf q lib l).builtFrom hs)
  cache e he := by
    rw [buildWaf_snd] at he
    exact (onlyWafs_buildWaf q lib l).builtFrom (h.cache e he)

private theorem wafCacheAdd (h : Resolving p d q) (hash : UInt64) {l : RuleList} {w : Nat}
    (hw : q.BuiltFrom w l) : Resolving p d (q.wafCacheAdd hash l w) := by
  have hb {w' : Nat} {l' : RuleList} (h : q.BuiltFrom w' l') :
      (q.wafCacheAdd hash l w).BuiltFrom w' l' := by
    rw [BuiltFrom, wafs_wafCacheAdd]
    exact h
  refine ⟨h.only.trans (onlyWafs_wafCacheAdd q hash l w), fun o ho ↦ ?_, fun o ho ↦ ?_, ?_⟩
  · rw [Process.wafOf, dirConfs_wafCacheAdd]
    exact h.elsewhere o ho
  · rw [Process.wafOf, dirConfs_wafCacheAdd]
    intro hn
    exact (h.targets o ho hn).imp_right hb
  · intro e he
    rcases mem_wafCacheAdd q hash l w e he with he | rfl
    · exact hb (h.cache e he)
    · exact hb hw

/-- The `merge_child` re-check copies a handle that stood on the section. -/
theorem strategyMergeChild (h : Resolving p d q) : Resolving p d (q.strategyMergeChild d) := by
  unfold Process.strategyMergeChild
  split
  · split
    · next c hc =>
      have hm : c ∈ p.handleTargets d := mem_child (by rw [← h.only.mergeChild d]; exact hc)
      exact h.setWaf (mem_self p d) (h.targets c hm)
    · exact h
  · exact h

/-- The cache hands out a handle built from the same rules. -/
theorem strategyCache (h : Resolving p d q) : Resolving p d (q.strategyCache d) := by
  unfold Process.strategyCache
  split
  · dsimp only
    split
    · next hf =>
      have hb := builtFrom_wafCacheFind q h.cache (rulesHash (q.rulesOf d)) (q.rulesOf d) hf
      rw [h.only.rulesOf d] at hb
      have h' := h.setWaf (mem_self p d) (fun _ ↦ Or.inr hb)
      rw [← h.only.rulesOf d] at h'
      exact h'.setChildWaf (h'.targets d (mem_self p d))
    · exact h
  · exact h

/-- A new WAF is built from the rules of the object. -/
theorem strategyBuild (h : Resolving p d q) (lib : WafLib) :
    Resolving p d (q.strategyBuild lib d) := by
  unfold Process.strategyBuild
  split
  · next hz =>
    dsimp only
    set w := (q.buildWaf lib (q.rulesOf d)).1 with hw
    set q1 := (q.buildWaf lib (q.rulesOf d)).2 with hq
    have hb : w ≠ 0 → q1.BuiltFrom w (q.rulesOf d) := by
      intro hn
      rw [hq, buildWaf_snd, BuiltFrom, ← hw, if_neg hn]
      exact List.mem_append_right _ (List.mem_singleton.mpr rfl)
    have h1 : Resolving p d (q1.setWaf d w) :=
      (h.buildWaf lib (q.rulesOf d)).setWaf (mem_self p d)
        (fun hn ↦ Or.inr (by rw [← h.only.rulesOf d]; exact hb hn))
    split
    · next hn =>
      -- The handle read back from `d` is the built one: before the build it was zero.
      have hr : (q1.setWaf d w).wafOf d = w := by
        rw [wafOf_setWaf] at hn ⊢
        split
        · rfl
        · next hc => rw [if_neg hc, hq, wafOf_buildWaf] at hn; exact absurd hz hn
      rw [hr] at hn ⊢
      have h2 := h1.wafCacheAdd (rulesHash (q.rulesOf d)) (hb hn)
      exact h2.setChildWaf (h2.targets d (mem_self p d))
    · exact h1.setChildWaf (h1.targets d (mem_self p d))
  · exact h

end Resolving

/-- The whole locked section, entered with a sound cache. -/
theorem resolving_resolveWaf (p : Process) (lib : WafLib) (d : Nat) (h : CacheSound p) :
    Resolving p d (p.resolveWaf lib d) := by
  have h0 := Resolving.start p d h
  unfold resolveWaf
  dsimp only
  split
  · exact (h0.strategyMergeChild.strategyCache).strategyBuild lib
  · exact h0

/-- `coraza_create_ctx` resolves the handle and then only records the transaction call. -/
theorem corazaCreateCtx_snd (p : Process) (lib : WafLib) (d scf : Nat) :
    (p.corazaCreateCtx lib d scf).2 =
      { p.resolveWaf lib d with
        transactions := (p.corazaCreateCtx lib d scf).2.transactions } := by
  unfold corazaCreateCtx
  dsimp only
  split <;> rfl

/-! ### What `coraza_create_ctx` leaves as it is -/

/-- A handle is written, not the mark that enables the module. -/
@[simp] theorem enable_setWaf (p : Process) (d w o : Nat) :
    ((p.setWaf d w).dirConfs.get o).enable = (p.dirConfs.get o).enable := by
  simp only [setWaf, updateDirConf, Arena.get_set]
  split
  · next h => rw [h.1]
  · rfl

/-- So on the section it was merged from. -/
@[simp] theorem enable_setChildWaf (p : Process) (d w o : Nat) :
    ((p.setChildWaf d w).dirConfs.get o).enable = (p.dirConfs.get o).enable := by
  unfold setChildWaf
  split
  · exact enable_setWaf p _ w o
  · rfl

private theorem enable_strategyBuild (p : Process) (lib : WafLib) (d o : Nat) :
    ((p.strategyBuild lib d).dirConfs.get o).enable = (p.dirConfs.get o).enable := by
  unfold strategyBuild
  split
  · dsimp only
    rw [enable_setChildWaf]
    split
    · rw [dirConfs_wafCacheAdd, enable_setWaf, buildWaf_snd]
    · rw [enable_setWaf, buildWaf_snd]
  · rfl

private theorem enable_resolveWaf (p : Process) (lib : WafLib) (d o : Nat) :
    ((p.resolveWaf lib d).dirConfs.get o).enable = (p.dirConfs.get o).enable := by
  have hmerge : ((p.strategyMergeChild d).dirConfs.get o).enable = (p.dirConfs.get o).enable := by
    unfold strategyMergeChild
    split
    · split
      · exact enable_setWaf p d _ o
      · rfl
    · rfl
  have hcache (q : Process) :
      ((q.strategyCache d).dirConfs.get o).enable = (q.dirConfs.get o).enable := by
    unfold strategyCache
    split
    · dsimp only
      split
      · rw [enable_setChildWaf, enable_setWaf]
      · rfl
    · rfl
  unfold resolveWaf
  dsimp only
  split
  · rw [enable_strategyBuild, hcache, hmerge]
  · rfl

/-- A request leaves the marks that enable the module. -/
theorem enable_corazaCreateCtx (p : Process) (lib : WafLib) (d scf o : Nat) :
    ((p.corazaCreateCtx lib d scf).2.dirConfs.get o).enable = (p.dirConfs.get o).enable := by
  rw [corazaCreateCtx_snd]
  exact enable_resolveWaf p lib d o

/-! ### Merges -/

/-- A merge allocates one object. -/
theorem size_merge (p : Process) (a b : Nat) :
    (p.corazaMergeDirConf a b).2.dirConfs.size = p.dirConfs.size + 1 := by
  simp [corazaMergeDirConf]

/-- A merge leaves every earlier object as it was. -/
theorem get_merge_of_lt (p : Process) (a b o : Nat) (h : o < p.dirConfs.size) :
    (p.corazaMergeDirConf a b).2.dirConfs.get o = p.dirConfs.get o := by
  simp only [corazaMergeDirConf]
  exact Arena.get_alloc_of_lt _ _ _ h

/-- The merged object stands at the next address. -/
theorem get_merge_self (p : Process) (a b : Nat) :
    (p.corazaMergeDirConf a b).2.dirConfs.get p.dirConfs.size = (p.mergedDirConf a b).1 := by
  simp only [corazaMergeDirConf]
  exact Arena.get_alloc_self _ _

/-- Existing arrays keep their content; there may be one more. -/
theorem arrays_merge (p : Process) (a b : Nat) :
    p.arrays.size ≤ (p.corazaMergeDirConf a b).2.arrays.size ∧
      ∀ i < p.arrays.size, (p.corazaMergeDirConf a b).2.arrays.get i = p.arrays.get i := by
  simp only [corazaMergeDirConf, mergedDirConf]
  split
  · split
    · exact ⟨by simp, fun i hi ↦ Arena.get_alloc_of_lt _ _ _ hi⟩
    · exact ⟨Nat.le_refl _, fun _ _ ↦ rfl⟩
  · split
    · exact ⟨Nat.le_refl _, fun _ _ ↦ rfl⟩
    · exact ⟨by simp, fun i hi ↦ Arena.get_alloc_of_lt _ _ _ hi⟩

/-- The merged rules are the parent's followed by the child's, in all four cases. -/
theorem rulesOf_merge_self (p : Process) (a b : Nat) :
    (p.corazaMergeDirConf a b).2.rulesOf p.dirConfs.size = p.rulesOf a ++ p.rulesOf b := by
  rw [rulesOf, get_merge_self]
  simp only [corazaMergeDirConf, mergedDirConf]
  split
  · split
    · exact Arena.get_alloc_self _ _
    · next hc =>
      rw [List.length_eq_zero_iff.mp (Nat.eq_zero_of_not_pos hc), List.append_nil]
      rfl
  · next hp =>
    rw [List.length_eq_zero_iff.mp (Nat.eq_zero_of_not_pos hp), List.nil_append]
    split
    · rfl
    · next hc =>
      rw [List.length_eq_zero_iff.mp (Nat.eq_zero_of_not_pos hc)]
      exact Arena.get_alloc_self _ _

/-- The merged object carries the handle of its source, or none. -/
theorem wafOf_merge_self (p : Process) (a b : Nat) :
    (p.corazaMergeDirConf a b).2.wafOf p.dirConfs.size =
      ((p.handleSource a b).map p.wafOf).getD 0 := by
  rw [wafOf, get_merge_self]
  simp only [mergedDirConf, handleSource]
  split
  · next hp => split <;> simp [*, wafOf]
  · next hp =>
    split
    · simp [wafOf]
    · rfl

/-- Its flag is set as soon as a side with rules has its own set. -/
theorem hasRules_merge_self (p : Process) (a b : Nat)
    (ha : p.rulesOf a ≠ [] → (p.dirConfs.get a).hasRules = true)
    (hb : p.rulesOf b ≠ [] → (p.dirConfs.get b).hasRules = true)
    (h : p.rulesOf a ++ p.rulesOf b ≠ []) :
    ((p.corazaMergeDirConf a b).2.dirConfs.get p.dirConfs.size).hasRules = true := by
  rw [get_merge_self]
  simp only [mergedDirConf]
  split
  · next hp =>
    split
    · rfl
    · exact ha (List.length_pos_iff.mp hp)
  · next hp =>
    split
    · next hc => exact hb (List.length_pos_iff.mp hc)
    · next hc =>
      rw [List.length_eq_zero_iff.mp (Nat.eq_zero_of_not_pos hp),
        List.length_eq_zero_iff.mp (Nat.eq_zero_of_not_pos hc)] at h
      exact absurd rfl h

/-- Its rules are an allocated array when those of both sides are. -/
theorem rules_merge_lt (p : Process) (a b : Nat)
    (ha : (p.dirConfs.get a).rules < p.arrays.size)
    (hb : (p.dirConfs.get b).rules < p.arrays.size) :
    ((p.corazaMergeDirConf a b).2.dirConfs.get p.dirConfs.size).rules <
      (p.corazaMergeDirConf a b).2.arrays.size := by
  rw [get_merge_self]
  simp only [corazaMergeDirConf, mergedDirConf]
  split
  · split
    · simp
    · exact ha
  · split
    · exact hb
    · simp

end Process

/-! ### Runs -/

namespace History

/-- One step: the process runs the call, and the ledger records where its handle goes. A merged
object starts with what was filed on its source; a transaction created for `d` files the rules
of `d` on the objects it puts a handle on. -/
def step (lib : WafLib) (h : History) : ConfOp → History
  | .merge a b =>
    { process := (h.process.corazaMergeDirConf a b).2
      filed := fun o ↦
        if o = h.process.dirConfs.size then
          ((h.process.handleSource a b).map h.filed).getD []
        else h.filed o }
  | .createCtx d scf =>
    { process := (h.process.corazaCreateCtx lib d scf).2
      filed := fun o ↦
        if h.process.wafOf o = 0 ∧ (h.process.corazaCreateCtx lib d scf).2.wafOf o ≠ 0 then
          h.filed o ++ [h.process.rulesOf d]
        else h.filed o }

/-- A call is given addresses of objects. -/
def Addresses (h : History) : ConfOp → Prop
  | .merge a b => a < h.process.dirConfs.size ∧ b < h.process.dirConfs.size
  | .createCtx d _ => d < h.process.dirConfs.size

/-- Whatever was filed on the object of a request, or on the section it was merged from, was
filed for the very rules the request is to run. -/
def HandlesAgree (h : History) : ConfOp → Prop
  | .merge _ _ => True
  | .createCtx d _ => h.process.rulesOf d ≠ [] →
      ∀ o ∈ h.process.handleTargets d, ∀ l ∈ h.filed o, l = h.process.rulesOf d

instance decidableAddresses (h : History) : (op : ConfOp) → Decidable (Addresses h op)
  | .merge a b => inferInstanceAs (Decidable (a < _ ∧ b < _))
  | .createCtx d _ => inferInstanceAs (Decidable (d < _))

instance decidableHandlesAgree (h : History) : (op : ConfOp) → Decidable (HandlesAgree h op)
  | .merge _ _ => inferInstanceAs (Decidable True)
  | .createCtx d _ => inferInstanceAs (Decidable (h.process.rulesOf d ≠ [] →
      ∀ o ∈ h.process.handleTargets d, ∀ l ∈ h.filed o, l = h.process.rulesOf d))

/-- A process in which every handle already present belongs to its own object's rules: the
fresh sections of a configuration, or a child whose startup was coherent. -/
structure Coherent (p : Process) : Prop where
  array : ∀ d < p.dirConfs.size, (p.dirConfs.get d).rules < p.arrays.size
  flag : ∀ d < p.dirConfs.size, p.rulesOf d ≠ [] → (p.dirConfs.get d).hasRules = true
  slots : ∀ d < p.dirConfs.size, p.wafOf d ≠ 0 → p.BuiltFrom (p.wafOf d) (p.rulesOf d)
  cache : p.CacheSound

/-- The history that begins in `p`: handles already present are filed for their own rules. -/
def start (p : Process) : History :=
  { process := p, filed := fun d ↦ if p.wafOf d = 0 then [] else [p.rulesOf d] }

/-- What every run keeps, whatever is asked of it: arrays are allocated, an object with rules
has its flag set, and the cache is sound. -/
structure Sound (h : History) : Prop where
  array : ∀ d < h.process.dirConfs.size, (h.process.dirConfs.get d).rules < h.process.arrays.size
  flag : ∀ d < h.process.dirConfs.size, h.process.rulesOf d ≠ [] →
    (h.process.dirConfs.get d).hasRules = true
  cache : h.process.CacheSound

/-- The invariant of a run whose requests agree: a handle on an object was built from a list
filed there. -/
structure Inv (h : History) : Prop extends Sound h where
  slots : ∀ d, h.process.wafOf d ≠ 0 →
    ∃ l ∈ h.filed d, h.process.BuiltFrom (h.process.wafOf d) l

private theorem sound_start {p : Process} (h : Coherent p) : Sound (start p) where
  array := h.array
  flag := h.flag
  cache := h.cache

private theorem inv_start {p : Process} (h : Coherent p) : Inv (start p) where
  toSound := sound_start h
  slots d hd := by
    have hn : p.wafOf d ≠ 0 := hd
    exact ⟨p.rulesOf d, by simp [start, hn], h.slots d (Process.lt_size_of_wafOf hn) hn⟩

variable {h : History} {lib : WafLib}

/-- After the lookup and the build, a handle on the object of the request or on its section was
built from the rules of the request. -/
theorem builtFrom_target (hi : Inv h) {d o : Nat} {scf : Nat}
    (ha : HandlesAgree h (.createCtx d scf))
    (hr : h.process.rulesOf d ≠ []) (ho : o ∈ h.process.handleTargets d)
    (hn : (h.process.resolveWaf lib d).wafOf o ≠ 0) :
    (h.process.resolveWaf lib d).BuiltFrom ((h.process.resolveWaf lib d).wafOf o)
      (h.process.rulesOf d) := by
  have hres := Process.resolving_resolveWaf h.process lib d hi.cache
  rcases hres.targets o ho hn with ⟨t, ht, he⟩ | hb
  · rw [he] at hn ⊢
    obtain ⟨l, hl, hb⟩ := hi.slots t hn
    rw [ha hr t ht l hl] at hb
    exact hres.only.builtFrom hb
  · exact hb

private theorem sound_merge (hi : Sound h) {a b : Nat} (hv : Addresses h (.merge a b)) :
    Sound (step lib h (.merge a b)) := by
  obtain ⟨hva, hvb⟩ := hv
  have hold (o : Nat) (ho : o < h.process.dirConfs.size) :
      (h.process.corazaMergeDirConf a b).2.rulesOf o = h.process.rulesOf o := by
    rw [Process.rulesOf, Process.get_merge_of_lt _ _ _ _ ho,
      (Process.arrays_merge h.process a b).2 _ (hi.array o ho)]
    rfl
  have hsplit (d : Nat) (hd : d < (h.process.corazaMergeDirConf a b).2.dirConfs.size) :
      d < h.process.dirConfs.size ∨ d = h.process.dirConfs.size := by
    rw [Process.size_merge] at hd
    omega
  refine ⟨fun d hd ↦ ?_, fun d hd ↦ ?_, hi.cache⟩
  · rcases hsplit d hd with hd | rfl
    · simp only [step]
      rw [Process.get_merge_of_lt _ _ _ _ hd]
      exact Nat.lt_of_lt_of_le (hi.array d hd) (Process.arrays_merge h.process a b).1
    · exact Process.rules_merge_lt _ _ _ (hi.array a hva) (hi.array b hvb)
  · rcases hsplit d hd with hd | rfl
    · simp only [step]
      rw [hold d hd, Process.get_merge_of_lt _ _ _ _ hd]
      exact hi.flag d hd
    · simp only [step]
      rw [Process.rulesOf_merge_self]
      exact Process.hasRules_merge_self _ _ _ (hi.flag a hva) (hi.flag b hvb)

private theorem inv_merge (hi : Inv h) {a b : Nat} (hv : Addresses h (.merge a b)) :
    Inv (step lib h (.merge a b)) := by
  refine ⟨sound_merge hi.toSound hv, fun d hd ↦ ?_⟩
  simp only [step] at hd ⊢
  by_cases hn : d = h.process.dirConfs.size
  · subst hn
    rw [Process.wafOf_merge_self] at hd ⊢
    simp only [if_true]
    cases hs : h.process.handleSource a b with
    | none => rw [hs] at hd; exact absurd rfl hd
    | some o =>
      rw [hs] at hd
      exact hi.slots o hd
  · have hw : (h.process.corazaMergeDirConf a b).2.wafOf d = h.process.wafOf d := by
      simp only [Process.wafOf, Process.corazaMergeDirConf, Arena.get_alloc, if_neg hn]
    rw [hw] at hd ⊢
    rw [if_neg hn]
    exact hi.slots d hd

private theorem sound_createCtx (hi : Sound h) (d scf : Nat) :
    Sound (step lib h (.createCtx d scf)) := by
  have hres := Process.resolving_resolveWaf h.process lib d hi.cache
  have hp : (step lib h (.createCtx d scf)).process = _ :=
    Process.corazaCreateCtx_snd h.process lib d scf
  have hsize : (step lib h (.createCtx d scf)).process.dirConfs.size =
      h.process.dirConfs.size := by rw [hp]; exact hres.only.size
  have hrules (o : Nat) : (step lib h (.createCtx d scf)).process.rulesOf o =
      h.process.rulesOf o := by rw [hp]; exact hres.only.rulesOf o
  refine ⟨fun o ho ↦ ?_, fun o ho ↦ ?_, ?_⟩
  · rw [hsize] at ho
    rw [hp]
    dsimp only
    rw [hres.only.rules o, hres.only.arrays]
    exact hi.array o ho
  · rw [hsize] at ho
    rw [hrules o, hp]
    dsimp only
    rw [hres.only.hasRules o]
    exact hi.flag o ho
  · intro e he
    rw [hp] at he ⊢
    exact hres.cache e he

private theorem inv_createCtx (hi : Inv h) {d scf : Nat} (ha : HandlesAgree h (.createCtx d scf)) :
    Inv (step lib h (.createCtx d scf)) := by
  have hres := Process.resolving_resolveWaf h.process lib d hi.cache
  refine ⟨sound_createCtx hi.toSound d scf, fun o ho ↦ ?_⟩
  have hwaf : (h.process.corazaCreateCtx lib d scf).2.wafOf o =
      (h.process.resolveWaf lib d).wafOf o := by
    rw [Process.corazaCreateCtx_snd]
    rfl
  have hb {w : Nat} {l : RuleList} (hw : (h.process.resolveWaf lib d).BuiltFrom w l) :
      (h.process.corazaCreateCtx lib d scf).2.BuiltFrom w l := by
    rw [Process.corazaCreateCtx_snd]
    exact hw
  simp only [step] at ho ⊢
  rw [hwaf] at ho ⊢
  by_cases hc : h.process.rulesOf d ≠ [] ∧ o ∈ h.process.handleTargets d
  · have hbuilt := hb (builtFrom_target hi ha hc.1 hc.2 ho)
    by_cases hn : h.process.wafOf o = 0
    · rw [if_pos ⟨hn, ho⟩]
      exact ⟨_, List.mem_append_right _ (List.mem_singleton.mpr rfl), hbuilt⟩
    · -- What is filed already was filed for the same rules.
      rw [if_neg fun hnew ↦ hn hnew.1]
      obtain ⟨l, hl, -⟩ := hi.slots o hn
      obtain rfl := ha hc.1 o hc.2 l hl
      exact ⟨_, hl, hbuilt⟩
  · -- Without rules the lock is not taken, and other objects are left alone.
    have hsame : (h.process.resolveWaf lib d).wafOf o = h.process.wafOf o := by
      by_cases hr : h.process.rulesOf d = []
      · simp [Process.resolveWaf, hr]
      · exact hres.elsewhere o (fun ho ↦ hc ⟨hr, ho⟩)
    rw [hsame] at ho ⊢
    rw [if_neg fun hnew ↦ ho hnew.1]
    obtain ⟨l, hl, hbl⟩ := hi.slots o ho
    exact ⟨l, hl, hb (hres.only.builtFrom hbl)⟩

/-- Every step of a run whose requests agree with what was filed keeps the invariant. -/
theorem inv_step (hi : Inv h) (op : ConfOp) (hc : Addresses h op ∧ HandlesAgree h op) :
    Inv (step lib h op) := by
  cases op with
  | merge a b => exact inv_merge hi hc.1
  | createCtx d scf => exact inv_createCtx hi hc.2

/-- The invariant before each step of such a run. -/
theorem inv_visits {p : Process} (hp : Coherent p) {ops : List ConfOp}
    (hc : ∀ v ∈ visits (step lib) (start p) ops, Addresses v.1 v.2 ∧ HandlesAgree v.1 v.2) :
    ∀ v ∈ visits (step lib) (start p) ops, Inv v.1 :=
  (visits_invariant (I := Inv) (fun _ op hi hop ↦ inv_step hi op hop) (inv_start hp) hc).2

/-- What holds before each step of any run on allocated addresses. -/
theorem sound_visits {p : Process} (hp : Coherent p) {ops : List ConfOp}
    (hc : ∀ v ∈ visits (step lib) (start p) ops, Addresses v.1 v.2) :
    ∀ v ∈ visits (step lib) (start p) ops, Sound v.1 := by
  refine (visits_invariant (I := Sound) (fun h op hi hop ↦ ?_) (sound_start hp) hc).2
  cases op with
  | merge a b => exact sound_merge hi hop
  | createCtx d scf => exact sound_createCtx hi d scf

end History
end CorazaApache.Config
