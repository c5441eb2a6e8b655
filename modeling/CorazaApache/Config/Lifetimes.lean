import CorazaApache.Base.Pools
import CorazaApache.Config.ChildExit
import CorazaApache.Config.Holders
import CorazaApache.Config.Pointers
import CorazaApache.Config.StartupCoherence

/-!
# What lives how long

The objects of the configuration are in a pool that outlives the child, those of a request in the
pool of the request. A merged object of a request points into the configuration, never the other
way; `coraza_child_init` freezes the tracker so that the exit does not come upon an object of a
request that is gone, `src/mod_coraza.c:1265–1268`. A transaction is given back by a cleanup of
the pool its context is in, `:358–368,464–467`.
-/

namespace CorazaApache.Config
open CorazaApache.Base

/-- What is allocated from pools, and the transactions that go with them. A context and its
transaction have one number. -/
inductive Pooled where
  | dirConf (d : Nat)
  | array (a : Nat)
  | context (i : Nat)
  | transaction (i : Nat)
  deriving DecidableEq

/-- A child with its pools, and the number of contexts it has made. -/
structure PooledChild where
  process : Process
  pools : Pools Pooled
  contexts : Nat

/-- What is done in the pool of a request or of one of its subrequests: `call` is any call of the
engine on the transaction of a context. -/
inductive PoolOp where
  | createDirConf (P : Pool)
  | directive (P : Pool) (dir : Directive) (d scf : Nat)
  | merge (P : Pool) (parent child : Nat)
  | createCtx (P : Pool) (d scf : Nat)
  | call (P : Pool) (i : Nat)
  | destroy (P : Pool)

namespace Pooled

/-- The pool of an object goes behind its cleanups. -/
def isTransaction : Pooled → Bool
  | .transaction _ => true
  | _ => false

/-- The step of a request that ends a `dir_conf`. -/
def destroyOp : Pooled → Option RequestOp
  | .dirConf d => some (.destroy d)
  | _ => none

end Pooled

namespace Process

/-- Where an object points; the cleanup of a transaction is registered with its context. -/
def pointers (p : Process) : Pooled → List Pooled
  | .dirConf d => .array (p.dirConfs.get d).rules ::
      ((p.dirConfs.get d).mergeChild.map .dirConf).toList
  | .array _ => []
  | .context _ => []
  | .transaction i => [.context i]

/-- The objects of the configuration. -/
def configObjects (p : Process) : Set Pooled :=
  {k | (∃ d < p.dirConfs.size, k = .dirConf d) ∨ ∃ a < p.arrays.size, k = .array a}

/-! ### What is read and written -/

/-- `dcf->merge_child`, where there is one. -/
def childUses (p : Process) (d : Nat) : List Pooled :=
  ((p.dirConfs.get d).mergeChild.map .dirConf).toList

/-- Strategy 1; `src/mod_coraza.c:407–410`. -/
def strategyMergeChildUses (p : Process) (d : Nat) : List Pooled :=
  .dirConf d :: if p.wafOf d = 0 then p.childUses d else []

/-- Strategy 2; `src/mod_coraza.c:412–422`. -/
def strategyCacheUses (p : Process) (d : Nat) : List Pooled :=
  .dirConf d ::
    if p.wafOf d = 0 then
      .array (p.dirConfs.get d).rules ::
        if wafCacheFind p.wafCache (rulesHash (p.rulesOf d)) (p.rulesOf d) ≠ 0 then
          .dirConf d :: p.childUses d
        else []
    else []

/-- Strategy 3; `src/mod_coraza.c:424–434`. -/
def strategyBuildUses (p : Process) (d : Nat) : List Pooled :=
  .dirConf d ::
    if p.wafOf d = 0 then .array (p.dirConfs.get d).rules :: .dirConf d :: p.childUses d else []

/-- The lazy build; `src/mod_coraza.c:404–437`. -/
def resolveUses (p : Process) (d : Nat) : List Pooled :=
  .dirConf d ::
    if p.wafOf d = 0 ∧ (p.dirConfs.get d).hasRules = true then
      .array (p.dirConfs.get d).rules ::
        if 0 < (p.rulesOf d).length then
          p.strategyMergeChildUses d ++ (p.strategyMergeChild d).strategyCacheUses d ++
            ((p.strategyMergeChild d).strategyCache d).strategyBuildUses d
        else []
    else []

/-- `coraza_create_ctx` for the `i`-th context; `src/mod_coraza.c:384–472`. -/
def createCtxActs (lib : WafLib) (p : Process) (i d scf : Nat) : List (Act Pooled) :=
  .acquire (.context i) :: ((p.resolveUses d ++ [Pooled.dirConf d]).map .use ++
    match (p.corazaCreateCtx lib d scf).1 with
    | none => []
    | some _ => [.acquire (.transaction i), .use (.context i)])

/-- `coraza_merge_dir_conf`, once the tracker is frozen; `src/mod_coraza.c:991–1049`. -/
def mergeActs (p : Process) (a b : Nat) : List (Act Pooled) :=
  let arrays : List Pooled :=
    [.array (p.dirConfs.get a).rules, .array (p.dirConfs.get b).rules]
  [.acquire (.dirConf p.dirConfs.size)] ++ (.dirConf b :: .dirConf a :: arrays).map .use ++
    if p.mergesRules a b then
      [.acquire (.array p.arrays.size)] ++
        if 0 < (p.rulesOf a).length then arrays.map .use else []
    else []

/-- A directive; a refused one returns before it comes to the object. -/
def directiveActs (env : ConfigEnv) (p : Process) (dir : Directive) (d scf : Nat) :
    List (Act Pooled) :=
  match dir.run env p true d scf with
  | .error _ => []
  | .ok _ => (.dirConf d ::
      if dir.ruleType.isSome then [.array (p.dirConfs.get d).rules] else []).map .use

/-- The first pass of the exit over the tracked objects, where `done` are those before the rest;
`src/mod_coraza.c:1305–1338`. -/
def freeTrackedUses (p : Process) (servers : List ServerRec) : List Nat → List Nat → List Pooled
  | _, [] => []
  | done, d :: rest =>
    (.dirConf d ::
      if p.wafOf d = 0 ∨ p.sharedWithServer servers (p.wafOf d) = true then []
      else (done.take (done.findIdx (fun j ↦ p.wafOf j == p.wafOf d) + 1)).map .dirConf) ++
    freeTrackedUses p servers (done ++ [d]) rest

/-- `coraza_child_exit`; `src/mod_coraza.c:1290–1357`. -/
def childExitUses (p : Process) (servers : List ServerRec) : List Pooled :=
  match p.configDirConfs with
  | none => []
  | some tracked => p.freeTrackedUses servers [] tracked ++ tracked.map .dirConf

end Process

namespace PooledChild

/-- What httpd keeps to: a pool of a request is not the one of the configuration, what is worked on
there is in reach of it, and it is destroyed behind the pools inside it. -/
def Enabled (s : PooledChild) : PoolOp → Prop
  | .createDirConf P => P ≠ []
  | .directive P _ d _ => P ≠ [] ∧ s.pools.InReach P (.dirConf d)
  | .merge P a b => P ≠ [] ∧ s.pools.InReach P (.dirConf a) ∧ s.pools.InReach P (.dirConf b)
  | .createCtx P d _ => P ≠ [] ∧ s.pools.InReach P (.dirConf d)
  | .call P i => s.pools.InReach P (.transaction i)
  | .destroy P => P ≠ [] ∧ s.pools.Innermost P

instance (s : PooledChild) : (op : PoolOp) → Decidable (s.Enabled op)
  | .createDirConf _ => inferInstanceAs (Decidable (_ ≠ _))
  | .directive _ _ _ _ => inferInstanceAs (Decidable (_ ∧ _))
  | .merge _ _ _ => inferInstanceAs (Decidable (_ ∧ _ ∧ _))
  | .createCtx _ _ _ => inferInstanceAs (Decidable (_ ∧ _))
  | .call P i => inferInstanceAs (Decidable (s.pools.InReach P (.transaction i)))
  | .destroy _ => inferInstanceAs (Decidable (_ ∧ _))

/-- The steps of the process. -/
def requestOps (s : PooledChild) : PoolOp → List RequestOp
  | .createDirConf _ => [.createDirConf]
  | .directive _ dir d scf => [.directive dir d scf]
  | .merge _ a b => [.merge a b]
  | .createCtx _ d scf => [.createCtx d scf]
  | .call _ _ => []
  | .destroy P => (s.pools.contents P).filterMap Pooled.destroyOp

/-- What is in the pools behind a step; an object is entered behind what it points at. -/
def poolsBehind (lib : WafLib) (s : PooledChild) : PoolOp → Pools Pooled
  | .createDirConf P => (s.pools.alloc P (.array s.process.arrays.size)).alloc P
      (.dirConf s.process.dirConfs.size)
  | .directive _ _ _ _ => s.pools
  | .merge P a b =>
    (if s.process.mergesRules a b then s.pools.alloc P (.array s.process.arrays.size)
      else s.pools).alloc P (.dirConf s.process.dirConfs.size)
  | .createCtx P d scf =>
    match (s.process.corazaCreateCtx lib d scf).1 with
    | none => s.pools.alloc P (.context s.contexts)
    | some _ => (s.pools.alloc P (.context s.contexts)).alloc P (.transaction s.contexts)
  | .call _ _ => s.pools
  | .destroy P => s.pools.destroy P

/-- The number of contexts behind a step. -/
def contextsBehind (s : PooledChild) : PoolOp → Nat
  | .createCtx _ _ _ => s.contexts + 1
  | _ => s.contexts

/-- What a step does with the objects. At the end of a pool the transactions are given back first,
`src/mod_coraza.c:358–368`. -/
def acts (env : ConfigEnv) (lib : WafLib) (s : PooledChild) : PoolOp → List (Act Pooled)
  | .createDirConf _ => [.acquire (.dirConf s.process.dirConfs.size),
      .acquire (.array s.process.arrays.size)]
  | .directive _ dir d scf => s.process.directiveActs env dir d scf
  | .merge _ a b => s.process.mergeActs a b
  | .createCtx _ d scf => s.process.createCtxActs lib s.contexts d scf
  | .call _ i => [.use (.context i), .use (.transaction i)]
  | .destroy P =>
    ((s.pools.contents P).filter Pooled.isTransaction).flatMap
        (fun k ↦ (s.process.pointers k).map .use ++ [.release k]) ++
      ((s.pools.contents P).filter fun k ↦ !k.isTransaction).map .release

/-- One step, if httpd takes it; `n` is the number of `dir_conf`s of the configuration. -/
def step (env : ConfigEnv) (lib : WafLib) (n : Nat) (s : PooledChild) (op : PoolOp) : PooledChild :=
  if s.Enabled op then
    { process := (s.requestOps op).foldl (Process.requestStep env lib n) s.process
      pools := s.poolsBehind lib op
      contexts := s.contextsBehind op }
  else s

/-- What it does with the objects. -/
def stepActs (env : ConfigEnv) (lib : WafLib) (s : PooledChild) (op : PoolOp) :
    List (Act Pooled) := if s.Enabled op then s.acts env lib op else []

/-- The child when it starts to serve: all there is belongs to the configuration. -/
def start (p : Process) : PooledChild where
  process := p
  pools := ⟨(List.range p.dirConfs.size).map (fun d ↦ ([], .dirConf d)) ++
    (List.range p.arrays.size).map fun a ↦ ([], .array a)⟩
  contexts := 0

end PooledChild

namespace Process

variable {p q : Process} {k : Pooled} {d : Nat}

/-! ### How far a step reaches -/

/-- An object and what it points at. -/
def around (p : Process) (d : Nat) : List Pooled := .dirConf d :: p.pointers (.dirConf d)

private theorem SamePointers.pointers (h : SamePointers p q) (k : Pooled) :
    q.pointers k = p.pointers k := by
  cases k with
  | dirConf d => simp only [Process.pointers, h.rules, h.mergeChild]
  | array _ => rfl
  | context _ => rfl
  | transaction _ => rfl

private theorem SamePointers.around (h : SamePointers p q) (d : Nat) : q.around d = p.around d := by
  rw [Process.around, h.pointers, Process.around]

private theorem strategyMergeChildUses_subset (p : Process) (d : Nat) :
    p.strategyMergeChildUses d ⊆ p.around d := by
  unfold strategyMergeChildUses around pointers childUses
  split <;> simp

private theorem strategyCacheUses_subset (p : Process) (d : Nat) :
    p.strategyCacheUses d ⊆ p.around d := by
  unfold strategyCacheUses around pointers childUses
  split
  · split <;> simp
  · simp

private theorem strategyBuildUses_subset (p : Process) (d : Nat) :
    p.strategyBuildUses d ⊆ p.around d := by
  unfold strategyBuildUses around pointers childUses
  split <;> simp

/-- The lazy build has to do with the object of the request, its rules and the section it was
merged from. -/
theorem resolveUses_subset (p : Process) (d : Nat) : p.resolveUses d ⊆ p.around d := by
  have hmerge := samePointers_strategyMergeChild p d
  have hboth := hmerge.trans (samePointers_strategyCache _ d)
  have hcache := strategyCacheUses_subset (p.strategyMergeChild d) d
  have hbuild := strategyBuildUses_subset ((p.strategyMergeChild d).strategyCache d) d
  rw [hmerge.around] at hcache
  rw [hboth.around] at hbuild
  unfold resolveUses
  apply List.cons_subset.mpr
  refine ⟨List.mem_cons_self, ?_⟩
  split
  · apply List.cons_subset.mpr
    refine ⟨List.mem_cons_of_mem _ List.mem_cons_self, ?_⟩
    split
    · apply List.append_subset.mpr
      exact ⟨List.append_subset.mpr ⟨strategyMergeChildUses_subset p d, hcache⟩, hbuild⟩
    · exact List.nil_subset _
  · exact List.nil_subset _

private theorem freeTrackedUses_subset (p : Process) (servers : List ServerRec)
    (done rest : List Nat) :
    p.freeTrackedUses servers done rest ⊆ (done ++ rest).map .dirConf := by
  induction rest generalizing done with
  | nil => exact List.nil_subset _
  | cons d rest ih =>
    have htail := ih (done ++ [d])
    rw [List.append_assoc, List.singleton_append] at htail
    apply List.append_subset.mpr
    refine ⟨List.cons_subset.mpr ⟨by simp, ?_⟩, htail⟩
    split
    · exact List.nil_subset _
    · apply List.map_subset
      exact List.Subset.trans (List.take_subset _ done) (List.subset_append_left done _)

/-- The exit has to do with the tracked objects of the configuration. -/
theorem childExitUses_subset (p : Process) (servers : List ServerRec) :
    p.childExitUses servers ⊆ (p.configDirConfs.getD []).map .dirConf := by
  unfold childExitUses
  split
  · exact List.nil_subset _
  · next tracked htracked =>
    rw [htracked, Option.getD_some]
    exact List.append_subset.mpr
      ⟨freeTrackedUses_subset p servers [] tracked, List.Subset.refl _⟩

/-! ### What a step leaves as it is -/

/-- New objects may be there; the others point where they did, and the tracker stays frozen. -/
structure Grown (p q : Process) : Prop where
  size : p.dirConfs.size ≤ q.dirConfs.size
  arrays : p.arrays.size ≤ q.arrays.size
  pointers : ∀ d < p.dirConfs.size, q.pointers (.dirConf d) = p.pointers (.dirConf d)
  frozen : p.trackedDirConfs = none → q.trackedDirConfs = none
  config : q.configDirConfs = p.configDirConfs

private theorem SamePointers.grown (h : SamePointers p q) : Grown p q where
  size := h.size.ge
  arrays := h.arrays.ge
  pointers d _ := h.pointers (.dirConf d)
  frozen hp := h.tracked.trans hp
  config := h.config

private theorem Grown.of_get (hs : p.dirConfs.size ≤ q.dirConfs.size)
    (ha : p.arrays.size ≤ q.arrays.size)
    (hget : ∀ d < p.dirConfs.size, q.dirConfs.get d = p.dirConfs.get d)
    (ht : p.trackedDirConfs = none → q.trackedDirConfs = none)
    (hc : q.configDirConfs = p.configDirConfs) : Grown p q where
  size := hs
  arrays := ha
  pointers d hd := by simp only [Process.pointers, hget d hd]
  frozen := ht
  config := hc

private theorem grown_createDirConf (p : Process) : Grown p p.corazaCreateDirConf.2 := by
  apply Grown.of_get
  · simp [corazaCreateDirConf]
  · simp [corazaCreateDirConf]
  · exact fun d hd ↦ Arena.get_alloc_of_lt _ _ d hd
  · exact fun h ↦ h
  · rfl

private theorem grown_merge (p : Process) (a b : Nat) : Grown p (p.corazaMergeDirConf a b).2 := by
  apply Grown.of_get
  · rw [size_merge]
    exact Nat.le_succ _
  · exact (arrays_merge p a b).1
  · exact fun d hd ↦ get_merge_of_lt p a b d hd
  · intro h
    simp [corazaMergeDirConf, h]
  · rfl

/-- The end of a pool leaves the objects of the others as they are. -/
theorem get_destroyed (env : ConfigEnv) (lib : WafLib) (n : Nat) (p : Process) (ks : List Pooled) :
    let q := (ks.filterMap Pooled.destroyOp).foldl (requestStep env lib n) p
    (q.dirConfs.size = p.dirConfs.size ∧ q.arrays = p.arrays ∧
      q.trackedDirConfs = p.trackedDirConfs ∧ q.configDirConfs = p.configDirConfs) ∧
    ∀ d, .dirConf d ∉ ks → q.dirConfs.get d = p.dirConfs.get d := by
  induction ks generalizing p with
  | nil => exact ⟨⟨rfl, rfl, rfl, rfl⟩, fun _ _ ↦ rfl⟩
  | cons k ks ih =>
    cases k with
    | dirConf e =>
      have hone : ((p.requestStep env lib n (.destroy e)).dirConfs.size = p.dirConfs.size ∧
          (p.requestStep env lib n (.destroy e)).arrays = p.arrays ∧
          (p.requestStep env lib n (.destroy e)).trackedDirConfs = p.trackedDirConfs ∧
          (p.requestStep env lib n (.destroy e)).configDirConfs = p.configDirConfs) ∧
          ∀ d, d ≠ e → (p.requestStep env lib n (.destroy e)).dirConfs.get d =
            p.dirConfs.get d := by
        unfold requestStep
        dsimp only
        split
        · exact ⟨⟨Arena.size_set _ _ _, rfl, rfl, rfl⟩,
            fun d hd ↦ Arena.get_set_ne _ e d _ (Ne.symm hd)⟩
        · exact ⟨⟨rfl, rfl, rfl, rfl⟩, fun _ _ ↦ rfl⟩
      obtain ⟨⟨hs, ha, ht, hc⟩, hget⟩ := ih (p.requestStep env lib n (.destroy e))
      obtain ⟨⟨hs', ha', ht', hc'⟩, hget'⟩ := hone
      refine ⟨⟨hs.trans hs', ha.trans ha', ht.trans ht', hc.trans hc'⟩, fun d hd ↦ ?_⟩
      rw [List.mem_cons, not_or] at hd
      exact (hget d hd.2).trans (hget' d fun he ↦ hd.1 (congrArg Pooled.dirConf he))
    | array _ | context _ | transaction _ =>
      exact ⟨(ih p).1, fun d hd ↦ (ih p).2 d fun h ↦ hd (List.mem_cons_of_mem _ h)⟩

end Process

namespace PooledChild

/-! ### The invariant -/

/-- The object was made. -/
def Made (s : PooledChild) : Pooled → Prop
  | .dirConf d => d < s.process.dirConfs.size
  | .array a => a < s.process.arrays.size
  | .context i => i < s.contexts
  | .transaction i => i < s.contexts

/-- Every object is in one pool, no pointer dangles, the outermost pool is the one of the
configuration, and the exit has to do with nothing else. -/
structure Sound (config : Set Pooled) (s : PooledChild) : Prop where
  nodup : (s.pools.objects.map Prod.snd).Nodup
  made : ∀ k ∈ s.pools.live, s.Made k
  closed : Pools.Closed s.process.pointers s.pools
  outer : ∀ k, ([], k) ∈ s.pools.objects ↔ k ∈ config
  frozen : s.process.trackedDirConfs = none
  exit : ∀ d ∈ s.process.configDirConfs.getD [], .dirConf d ∈ config

variable {config : Set Pooled} {p q : Process} {t : Pools Pooled} {c : Nat} {P : Pool} {k : Pooled}
  {s : PooledChild}

private theorem Sound.grown (h : Sound config ⟨p, t, c⟩) (hg : p.Grown q) :
    Sound config ⟨q, t, c⟩ where
  nodup := h.nodup
  made k hk := by
    have hmade := h.made k hk
    cases k with
    | dirConf d => exact Nat.lt_of_lt_of_le hmade hg.size
    | array a => exact Nat.lt_of_lt_of_le hmade hg.arrays
    | context i => exact hmade
    | transaction i => exact hmade
  closed := by
    apply h.closed.congr
    intro k hk
    cases k with
    | dirConf d => exact hg.pointers d (h.made _ hk)
    | array _ => rfl
    | context _ => rfl
    | transaction _ => rfl
  outer := h.outer
  frozen := hg.frozen h.frozen
  exit d hd := h.exit d (hg.config ▸ hd)

/-- A number is taken for a context. -/
theorem Sound.numbered (h : Sound config ⟨p, t, c⟩) : Sound config ⟨p, t, c + 1⟩ where
  nodup := h.nodup
  made k hk := by
    have hmade := h.made k hk
    cases k with
    | dirConf d => exact hmade
    | array a => exact hmade
    | context i => exact Nat.lt_succ_of_lt hmade
    | transaction i => exact Nat.lt_succ_of_lt hmade
  closed := h.closed
  outer := h.outer
  frozen := h.frozen
  exit := h.exit

/-- An object that was made is entered in a pool of a request. -/
theorem Sound.alloc (h : Sound config ⟨p, t, c⟩) (hP : P ≠ []) (hnew : k ∉ t.live)
    (hmade : Made ⟨p, t, c⟩ k) (hk : ∀ j ∈ p.pointers k, t.InReach P j) :
    Sound config ⟨p, t.alloc P k, c⟩ where
  nodup := by
    apply List.nodup_cons.mpr
    refine ⟨fun hmem ↦ hnew ?_, h.nodup⟩
    obtain ⟨x, hx, rfl⟩ := List.mem_map.mp hmem
    exact ⟨x, hx, rfl⟩
  made j hj := by
    rw [Pools.live_alloc] at hj
    rcases Set.mem_insert_iff.mp hj with rfl | hj
    · exact hmade
    · exact h.made j hj
  closed := h.closed.alloc fun j hj ↦ (hk j hj).alloc P k
  outer j := by
    rw [← h.outer j]
    constructor
    · intro hj
      rcases List.mem_cons.mp hj with he | hj
      · exact absurd (congrArg Prod.fst he).symm hP
      · exact hj
    · exact List.mem_cons_of_mem _
  frozen := h.frozen
  exit := h.exit

private theorem Sound.new (h : Sound config s) : .dirConf s.process.dirConfs.size ∉ s.pools.live ∧
    .array s.process.arrays.size ∉ s.pools.live ∧ .context s.contexts ∉ s.pools.live ∧
    .transaction s.contexts ∉ s.pools.live :=
  ⟨fun hk ↦ Nat.lt_irrefl _ (h.made _ hk), fun hk ↦ Nat.lt_irrefl _ (h.made _ hk),
    fun hk ↦ Nat.lt_irrefl _ (h.made _ hk), fun hk ↦ Nat.lt_irrefl _ (h.made _ hk)⟩

/-- What is around an object in reach of a pool is in reach of it. -/
theorem Sound.around (h : Sound config s) {d : Nat} (hd : s.pools.InReach P (.dirConf d)) :
    ∀ k ∈ s.process.around d, s.pools.InReach P k :=
  List.forall_mem_cons.mpr ⟨hd, fun _ hk ↦ h.closed.inReach hd hk⟩

private theorem runs_uses {ks : List Pooled} (h : ∀ k ∈ ks, t.InReach P k) :
    Custody.Runs t.live (ks.map .use) t.live := Custody.Runs.uses fun k hk ↦ (h k hk).live

/-! ### The steps -/

variable (env : ConfigEnv) (lib : WafLib) (n : Nat)

private theorem Sound.createDirConf (h : Sound config s) (hP : P ≠ []) :
    Sound config ⟨s.process.corazaCreateDirConf.2, s.poolsBehind lib (.createDirConf P),
      s.contexts⟩ ∧
    Custody.Runs s.pools.live (s.acts env lib (.createDirConf P))
      (s.poolsBehind lib (.createDirConf P)).live := by
  obtain ⟨hdir, harray, -, -⟩ := h.new
  have hdir' : .dirConf s.process.dirConfs.size ∉
      (s.pools.alloc P (.array s.process.arrays.size)).live :=
    Pools.notMem_alloc hdir Pooled.noConfusion P
  have harray' : .array s.process.arrays.size ∉
      (s.pools.alloc P (.dirConf s.process.dirConfs.size)).live :=
    Pools.notMem_alloc harray Pooled.noConfusion P
  constructor
  · have hgrown := h.grown (Process.grown_createDirConf s.process)
    have hfirst := hgrown.alloc hP harray (by simp [Made, Process.corazaCreateDirConf])
      fun j hj ↦ absurd hj List.not_mem_nil
    refine hfirst.alloc hP hdir' (by simp [Made, Process.corazaCreateDirConf]) fun j hj ↦ ?_
    have hget : s.process.corazaCreateDirConf.2.pointers (.dirConf s.process.dirConfs.size) =
        [.array s.process.arrays.size] := by
      simp [Process.pointers, Process.corazaCreateDirConf]
    rw [hget, List.mem_singleton] at hj
    rw [hj]
    exact Pools.inReach_alloc_self _ _ _
  · rw [poolsBehind, Pools.live_alloc, Pools.live_alloc, Set.insert_comm]
    rw [Pools.live_alloc] at harray'
    exact (Custody.Runs.acquire hdir).append (Custody.Runs.acquire harray')

private theorem Sound.merge (h : Sound config s) (hP : P ≠ []) {a b : Nat}
    (ha : s.pools.InReach P (.dirConf a)) (hb : s.pools.InReach P (.dirConf b)) :
    Sound config ⟨(s.process.corazaMergeDirConf a b).2, s.poolsBehind lib (.merge P a b),
      s.contexts⟩ ∧
    Custody.Runs s.pools.live (s.acts env lib (.merge P a b))
      (s.poolsBehind lib (.merge P a b)).live := by
  obtain ⟨hdir, harray, -, -⟩ := h.new
  have hrulesA := h.around ha _ (List.mem_cons_of_mem _ List.mem_cons_self)
  have hrulesB := h.around hb _ (List.mem_cons_of_mem _ List.mem_cons_self)
  have hgrown := h.grown (Process.grown_merge s.process a b)
  have hsize : s.process.dirConfs.size < (s.process.corazaMergeDirConf a b).2.dirConfs.size := by
    rw [Process.size_merge]
    exact Nat.lt_succ_self _
  -- What the merged object points at, if its rules are in reach.
  have hpointers (t : Pools Pooled) (hrules : t.InReach P
        (.array (s.process.mergedDirConf a b).1.rules)) (hchild : t.InReach P (.dirConf b)) :
      ∀ j ∈ (s.process.corazaMergeDirConf a b).2.pointers (.dirConf s.process.dirConfs.size),
        t.InReach P j := by
    rw [Process.pointers, Process.get_merge_self]
    refine List.forall_mem_cons.mpr ⟨hrules, fun j hj ↦ ?_⟩
    obtain ⟨e, he, rfl⟩ := Option.map_eq_some_iff.mp (Option.mem_toList.mp hj)
    rw [Process.mergeChild_merged he]
    exact hchild
  have hrules := Process.rules_merged s.process a b
  have hreach : ∀ k ∈ [Pooled.dirConf b, .dirConf a, .array (s.process.dirConfs.get a).rules,
      .array (s.process.dirConfs.get b).rules], s.pools.InReach P k := by
    simp [ha, hb, hrulesA, hrulesB]
  have hmade : Made ⟨(s.process.corazaMergeDirConf a b).2, s.pools, s.contexts⟩
      (.dirConf s.process.dirConfs.size) := hsize
  simp only [poolsBehind, acts, Process.mergeActs]
  cases hm : s.process.mergesRules a b with
  | true =>
    have hdir' : .dirConf s.process.dirConfs.size ∉
        (s.pools.alloc P (.array s.process.arrays.size)).live :=
      Pools.notMem_alloc hdir Pooled.noConfusion P
    have harray' : .array s.process.arrays.size ∉
        (s.pools.alloc P (.dirConf s.process.dirConfs.size)).live :=
      Pools.notMem_alloc harray Pooled.noConfusion P
    rw [hm, if_pos rfl] at hrules
    rw [if_pos rfl, if_pos rfl]
    constructor
    · have hfirst := hgrown.alloc hP harray
        (by simp [Made, Process.size_arrays_merge, hm]) fun j hj ↦ absurd hj List.not_mem_nil
      apply hfirst.alloc hP hdir' hmade
      exact hpointers _ (by rw [hrules]; exact Pools.inReach_alloc_self _ _ _) (hb.alloc _ _)
    · rw [Pools.live_alloc, Pools.live_alloc, Set.insert_comm]
      apply ((Custody.Runs.acquire hdir).append
        (Custody.Runs.uses fun k hk ↦ Set.mem_insert_of_mem _ (hreach k hk).live)).append
      rw [Pools.live_alloc] at harray'
      apply (Custody.Runs.acquire harray').append
      split
      · refine Custody.Runs.uses fun k hk ↦ ?_
        have hk : s.pools.InReach P k :=
          hreach k (List.mem_cons_of_mem _ (List.mem_cons_of_mem _ hk))
        exact Set.mem_insert_of_mem _ (Set.mem_insert_of_mem _ hk.live)
      · exact Custody.Runs.nil _
  | false =>
    rw [hm, if_neg Bool.false_ne_true] at hrules
    rw [if_neg Bool.false_ne_true, if_neg Bool.false_ne_true, List.append_nil]
    constructor
    · apply hgrown.alloc hP hdir hmade
      apply hpointers _ _ hb
      rw [hrules]
      split
      · exact hrulesA
      · exact hrulesB
    · rw [Pools.live_alloc]
      apply (Custody.Runs.acquire hdir).append
      exact Custody.Runs.uses fun k hk ↦ Set.mem_insert_of_mem _ (hreach k hk).live

private theorem Sound.directive (h : Sound config s) {dir : Directive} {d scf : Nat}
    (hd : s.pools.InReach P (.dirConf d)) :
    Sound config ⟨s.process.requestStep env lib n (.directive dir d scf), s.pools, s.contexts⟩ ∧
    Custody.Runs s.pools.live (s.acts env lib (.directive P dir d scf)) s.pools.live := by
  unfold Process.requestStep acts Process.directiveActs
  dsimp only
  split
  · next q hq =>
    rw [hq]
    refine ⟨h.grown (Process.samePointers_run hq).grown, ?_⟩
    apply runs_uses (P := P)
    intro k hk
    apply h.around hd k
    rcases List.mem_cons.mp hk with rfl | hk
    · exact List.mem_cons_self
    · split at hk
      · rw [List.mem_singleton.mp hk]
        exact List.mem_cons_of_mem _ List.mem_cons_self
      · cases hk
  · next err herr =>
    rw [herr]
    exact ⟨h, Custody.Runs.nil _⟩

private theorem Sound.createCtx (h : Sound config s) (hP : P ≠ []) {d scf : Nat}
    (hd : s.pools.InReach P (.dirConf d)) :
    Sound config ⟨(s.process.corazaCreateCtx lib d scf).2,
      s.poolsBehind lib (.createCtx P d scf), s.contexts + 1⟩ ∧
    Custody.Runs s.pools.live (s.acts env lib (.createCtx P d scf))
      (s.poolsBehind lib (.createCtx P d scf)).live := by
  obtain ⟨-, -, hctx, htx⟩ := h.new
  have hgrown := (h.grown (Process.samePointers_createCtx s.process lib d scf).grown).numbered
  have hfirst := hgrown.alloc hP hctx (Nat.lt_succ_self _) fun j hj ↦ absurd hj List.not_mem_nil
  have huses : ∀ k ∈ s.process.resolveUses d ++ [Pooled.dirConf d], s.pools.InReach P k := by
    intro k hk
    rcases List.mem_append.mp hk with hk | hk
    · exact h.around hd k (Process.resolveUses_subset s.process d hk)
    · rw [List.mem_singleton.mp hk]
      exact hd
  have hrun := (Custody.Runs.acquire hctx).append
    (Custody.Runs.uses fun k hk ↦ Set.mem_insert_of_mem _ (huses k hk).live)
  simp only [poolsBehind, acts, Process.createCtxActs]
  cases (s.process.corazaCreateCtx lib d scf).1 with
  | none =>
    refine ⟨hfirst, ?_⟩
    rw [Pools.live_alloc]
    exact hrun.append (Custody.Runs.nil _)
  | some handle =>
    have htx' : .transaction s.contexts ∉ (s.pools.alloc P (.context s.contexts)).live :=
      Pools.notMem_alloc htx Pooled.noConfusion P
    constructor
    · apply hfirst.alloc hP htx' (Nat.lt_succ_self _)
      intro j hj
      rw [List.mem_singleton.mp hj]
      exact Pools.inReach_alloc_self _ _ _
    · have hopen := Pools.runs_alloc htx' P
      rw [Pools.live_alloc] at hopen
      refine hrun.append (hopen.append (Custody.Runs.use ?_))
      rw [Pools.live_alloc, Pools.live_alloc]
      exact Set.mem_insert_of_mem _ (Set.mem_insert _ _)

/-- The end of a pool. -/
theorem Sound.destroy (h : Sound config s) (hP : P ≠ []) (hin : s.pools.Innermost P) :
    Sound config ⟨(s.requestOps (.destroy P)).foldl (Process.requestStep env lib n) s.process,
      s.pools.destroy P, s.contexts⟩ ∧
    Custody.Runs s.pools.live (s.acts env lib (.destroy P)) (s.pools.destroy P).live := by
  obtain ⟨⟨hsize, harrays, htracked, hconfig⟩, hget⟩ :=
    Process.get_destroyed env lib n s.process (s.pools.contents P)
  have hleft {k : Pooled} (hk : k ∈ (s.pools.destroy P).live) :
      k ∈ s.pools.live ∧ k ∉ s.pools.contents P := by
    rw [Pools.live_destroy h.nodup] at hk
    exact hk
  constructor
  · refine ⟨Pools.nodup_destroy h.nodup P, fun k hk ↦ ?_, ?_, fun k ↦ ?_, htracked.trans h.frozen,
      fun d hd ↦ h.exit d (hconfig ▸ hd)⟩
    · have hmade := h.made k (hleft hk).1
      cases k with
      | dirConf d => exact hmade.trans_eq hsize.symm
      | array a => exact hmade.trans_eq (congrArg Arena.size harrays).symm
      | context i => exact hmade
      | transaction i => exact hmade
    · apply (h.closed.destroy hin).congr
      intro k hk
      cases k with
      | dirConf d => simp only [Process.pointers, requestOps, hget d (hleft hk).2]
      | array _ => rfl
      | context _ => rfl
      | transaction _ => rfl
    · rw [← h.outer k, Pools.mem_destroy]
      exact and_iff_left_of_imp fun _ ↦ hP.symm
  · apply Pools.runs_destroy h.nodup
    intro k hk hclean j hj
    cases k with
    | dirConf _ => cases hclean
    | array _ => cases hclean
    | context _ => cases hclean
    | transaction i =>
      have hctx := h.closed.inReach (Pools.inReach_of_mem (Pools.mem_contents.mp hk)) hj
      refine ⟨hctx.live, ?_⟩
      rw [List.mem_singleton.mp hj]
      rfl

/-- Every step keeps the invariant and does with the objects what it may. -/
theorem Sound.step (h : Sound config s) (op : PoolOp) :
    Sound config (s.step env lib n op) ∧
      Custody.Runs s.pools.live (s.stepActs env lib op) (s.step env lib n op).pools.live := by
  unfold PooledChild.step stepActs
  split
  · next hop =>
    cases op with
    | createDirConf P => exact h.createDirConf env lib hop
    | directive P dir d scf => exact h.directive env lib n hop.2
    | merge P a b => exact h.merge env lib hop.1 hop.2.1 hop.2.2
    | createCtx P d scf => exact h.createCtx env lib hop.1 hop.2
    | call P i =>
      refine ⟨h, ?_⟩
      have hctx := h.closed.inReach hop (List.mem_singleton.mpr rfl)
      exact (Custody.Runs.use hctx.live).append (Custody.Runs.use hop.live)
    | destroy P => exact h.destroy env lib n hop.1 hop.2
  · exact ⟨h, Custody.Runs.nil _⟩

/-! ### From the start of a child -/

private theorem mem_start : (P, k) ∈ (start p).pools.objects ↔ P = [] ∧ k ∈ p.configObjects := by
  simp only [start, List.mem_append, List.mem_map, List.mem_range, Prod.mk.injEq]
  constructor
  · rintro (⟨d, hd, rfl, rfl⟩ | ⟨a, ha, rfl, rfl⟩)
    · exact ⟨rfl, Or.inl ⟨d, hd, rfl⟩⟩
    · exact ⟨rfl, Or.inr ⟨a, ha, rfl⟩⟩
  · rintro ⟨rfl, ⟨d, hd, rfl⟩ | ⟨a, ha, rfl⟩⟩
    · exact Or.inl ⟨d, hd, rfl, rfl⟩
    · exact Or.inr ⟨a, ha, rfl, rfl⟩

private theorem nodup_start (p : Process) : ((start p).pools.objects.map Prod.snd).Nodup := by
  have hobjects : (start p).pools.objects.map Prod.snd =
      (List.range p.dirConfs.size).map Pooled.dirConf ++
        (List.range p.arrays.size).map Pooled.array := by
    simp [start, Function.comp_def]
  rw [hobjects]
  apply List.Nodup.append
  · exact List.nodup_range.map fun _ _ h ↦ Pooled.dirConf.inj h
  · exact List.nodup_range.map fun _ _ h ↦ Pooled.array.inj h
  · intro k hk hk'
    obtain ⟨d, -, rfl⟩ := List.mem_map.mp hk
    obtain ⟨a, -, he⟩ := List.mem_map.mp hk'
    cases he

/-- The objects of the configuration point at one another. -/
theorem sound_start (ha : p.Allocated) (hfrozen : p.trackedDirConfs = none)
    (hexit : ∀ d ∈ p.configDirConfs.getD [], d < p.dirConfs.size) :
    Sound p.configObjects (start p) where
  nodup := nodup_start p
  made k hk := by
    obtain ⟨P, hP⟩ := Pools.mem_live.mp hk
    rcases (mem_start.mp hP).2 with ⟨d, hd, rfl⟩ | ⟨a, ha, rfl⟩
    · exact hd
    · exact ha
  closed x hx j hj := by
    obtain ⟨hout, ⟨d, hd, he⟩ | ⟨a, -, he⟩⟩ := mem_start.mp hx
    · rw [hout]
      apply Pools.inReach_of_mem
      apply mem_start.mpr
      rw [he] at hj
      rcases List.mem_cons.mp hj with rfl | hj
      · exact ⟨rfl, Or.inr ⟨_, ha.rules d hd, rfl⟩⟩
      · obtain ⟨c, hc, rfl⟩ := Option.map_eq_some_iff.mp (Option.mem_toList.mp hj)
        exact ⟨rfl, Or.inl ⟨c, ha.mergeChild d hd c hc, rfl⟩⟩
    · rw [he] at hj
      cases hj
  outer k := by
    rw [mem_start]
    exact and_iff_right rfl
  frozen := hfrozen
  exit d hd := Or.inl ⟨d, hexit d hd, rfl⟩

end PooledChild

/-- Every child, from `coraza_child_init` over requests to `coraza_child_exit`: no object is used
behind the end of its pool, no transaction is given back twice or used behind its end, and when the
pools of all requests are gone, what is left is the configuration. -/
theorem pools_custody (conf : StaticConf) (env : ConfigEnv) (servers : List ServerRec)
    (p : Process) (hload : conf.load env = .ok (servers, p)) (lib : WafLib) (ops : List PoolOp)
    (s : PooledChild) (hs : s = ops.foldl (PooledChild.step env lib p.dirConfs.size)
      (.start (p.corazaChildInit lib true servers))) :
    Custody.Runs p.configObjects
      (((visits (PooledChild.step env lib p.dirConfs.size)
        (.start (p.corazaChildInit lib true servers)) ops).flatMap
          fun v ↦ v.1.stepActs env lib v.2) ++ (s.process.childExitUses servers).map .use)
      s.pools.live ∧
    ((∀ x ∈ s.pools.objects, x.1 = []) → s.pools.live = p.configObjects) := by
  -- The start of the child is that of its configuration.
  obtain ⟨_, _, hready⟩ := Startup.ready_of_load hload
  obtain ⟨q, hsame, hinit⟩ := p.childInit_eq lib servers
  have hconfig : (p.corazaChildInit lib true servers).configObjects = p.configObjects := by
    rw [hinit, Process.configObjects, Process.configObjects, hsame.size, hsame.arrays]
  have hstart : PooledChild.Sound p.configObjects
      (.start (p.corazaChildInit lib true servers)) := by
    rw [← hconfig]
    have hall := hsame.allocated (StaticConf.allocated_load hload)
    rw [hinit]
    refine PooledChild.sound_start ⟨?_, ?_⟩ rfl fun d hd ↦ ?_
    · exact hall.rules
    · exact hall.mergeChild
    rw [hsame.tracked] at hd
    exact hsame.size ▸ (hready.trackedLt d hd).1
  have hlive : (PooledChild.start (p.corazaChildInit lib true servers)).pools.live =
      p.configObjects := by
    ext k
    rw [Pools.mem_live, ← hconfig]
    simp [PooledChild.mem_start]
  obtain ⟨hsound, hrun⟩ := Custody.Runs.machine (PooledChild.Sound p.configObjects)
    (PooledChild.step env lib p.dirConfs.size) (PooledChild.stepActs env lib)
    (fun s ↦ s.pools.live) (fun _ op h ↦ h.step env lib p.dirConfs.size op) hstart ops
  rw [← hs, hlive] at hrun
  rw [← hs] at hsound
  refine ⟨hrun.append (Custody.Runs.uses fun k hk ↦ ?_), fun hover ↦ ?_⟩
  · obtain ⟨d, hd, rfl⟩ := List.mem_map.mp (s.process.childExitUses_subset servers hk)
    exact Pools.mem_live.mpr ⟨[], (hsound.outer _).mpr (hsound.exit d hd)⟩
  · ext k
    rw [Pools.mem_live, ← hsound.outer k]
    constructor
    · rintro ⟨P, hP⟩
      obtain rfl : P = [] := hover _ hP
      exact hP
    · exact fun hk ↦ ⟨[], hk⟩

/-- A request below an `.htaccess` file and a subrequest of it, which merges in a pool of its own;
the rules of the file stand in the object of the subrequest while they last. -/
def htaccessPools : List PoolOp :=
  [.createDirConf [1], .directive [1] (.corazaRules (CString.ofString "h")) 2 0, .merge [1] 0 2,
    .createCtx [1] 3 0, .merge [7, 1] 3 1, .call [1] 0, .destroy [1], .destroy [7, 1],
    .merge [1] 4 4, .call [1] 0, .destroy [1]]

/-- The pool of the request is not destroyed before that of the subrequest, and nothing of the
latter is used behind its end. -/
theorem pools_custody_htaccess :
    ∃ servers p, mainRuleAndSection.load plainEnv = .ok (servers, p) ∧
      ∃ s, s = htaccessPools.foldl (PooledChild.step plainEnv acceptingLib p.dirConfs.size)
        (.start (p.corazaChildInit acceptingLib true servers)) ∧
      s.contexts = 1 ∧ s.pools.live = p.configObjects := by
  refine ⟨_, _, rfl, _, rfl, by decide, ?_⟩
  apply (pools_custody mainRuleAndSection plainEnv _ _ rfl acceptingLib htaccessPools _ rfl).2
  decide

end CorazaApache.Config
