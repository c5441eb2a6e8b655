import CorazaApache.Base.Mutex
import CorazaApache.Config.Holders

/-!
# The steps of the locked section

`src/mod_coraza.c:404–437`. Behind `apr_thread_mutex_lock` a thread looks for a handle and stores
it, on the `dir_conf` and then on the section it was merged from, in as many steps; what other
threads do meanwhile is merge objects of their own and create transactions. No step of the section
reads what they write, so all of it might as well happen at once.
-/

namespace CorazaApache.Config
open CorazaApache.Base

/-- The local variables of the section: `cached`, and the handle of the build once there was
one. -/
structure SectionLocals where
  cached : Nat
  built : Option Nat
  deriving DecidableEq

/-- A `dir_conf` as its request publishes it, with its own array of rules or with one that is
there already. -/
structure Published where
  rules : Option RuleList
  conf : CorazaDirConf

/-- What threads do without the lock: an object is merged or read from an `.htaccess` file, a
transaction is created. -/
inductive Unlocked where
  | merged (x : Published)
  | htaccess (x : Published)
  | transaction (call : TransactionCall)

namespace Process

/-- A new object, and its array if it has one of its own. -/
def publish (p : Process) (x : Published) : Process :=
  match x.rules with
  | some rules =>
    { p with
      arrays := p.arrays.alloc rules
      dirConfs := p.dirConfs.alloc { x.conf with rules := p.arrays.size } }
  | none => { p with dirConfs := p.dirConfs.alloc x.conf }

/-- What another thread does. -/
def unlocked (p : Process) : Unlocked → Process
  | .merged x =>
    { p.publish x with trackedDirConfs := p.trackedDirConfs.map (· ++ [p.dirConfs.size]) }
  | .htaccess x => p.publish x
  | .transaction call => { p with transactions := p.transactions ++ [call] }

/-- The object a merge makes of what it reads. -/
def mergedObject (p : Process) (parent child : Nat) : Published where
  rules :=
    if 0 < (p.rulesOf parent).length then
      if 0 < (p.rulesOf child).length then some (p.rulesOf parent ++ p.rulesOf child) else none
    else if 0 < (p.rulesOf child).length then none
    else some []
  conf := (p.mergedDirConf parent child).1

/-- A merge publishes that object. -/
theorem corazaMergeDirConf_eq_unlocked (p : Process) (parent child : Nat) :
    (p.corazaMergeDirConf parent child).2 = p.unlocked (.merged (p.mergedObject parent child)) := by
  unfold corazaMergeDirConf unlocked publish mergedObject mergedDirConf
  dsimp only
  split
  · split <;> rfl
  · split <;> rfl

/-! ### The section, step by step -/

/-- Strategy 1; `src/mod_coraza.c:407–410`. -/
def recheckChild (d : Nat) (x : SectionLocals × Process) : SectionLocals × Process :=
  (x.1, x.2.strategyMergeChild d)

/-- Strategy 2, the lookup; `src/mod_coraza.c:413–415`. -/
def lookUp (d : Nat) (x : SectionLocals × Process) : SectionLocals × Process :=
  if x.2.wafOf d = 0 then
    ({ x.1 with cached := wafCacheFind x.2.wafCache (rulesHash (x.2.rulesOf d)) (x.2.rulesOf d) },
      x.2)
  else x

/-- The handle that was found goes to the `dir_conf`. -/
def storeCached (d : Nat) (x : SectionLocals × Process) : SectionLocals × Process :=
  (x.1, if x.1.cached ≠ 0 then x.2.setWaf d x.1.cached else x.2)

/-- And to the section it was merged from; `src/mod_coraza.c:418–420`. -/
def shareCached (d : Nat) (x : SectionLocals × Process) : SectionLocals × Process :=
  (x.1, if x.1.cached ≠ 0 then x.2.setChildWaf d (x.2.wafOf d) else x.2)

/-- Strategy 3, the build; `src/mod_coraza.c:425–427`. -/
def runBuild (lib : WafLib) (d : Nat) (x : SectionLocals × Process) : SectionLocals × Process :=
  if x.2.wafOf d = 0 then
    ({ x.1 with built := some (x.2.buildWaf lib (x.2.rulesOf d)).1 },
      (x.2.buildWaf lib (x.2.rulesOf d)).2)
  else x

/-- What it returned goes to the `dir_conf`. -/
def storeBuilt (d : Nat) (x : SectionLocals × Process) : SectionLocals × Process :=
  (x.1, match x.1.built with
    | some w => x.2.setWaf d w
    | none => x.2)

/-- To the cache, unless the build failed; `src/mod_coraza.c:428–430`. -/
def cacheBuilt (d : Nat) (x : SectionLocals × Process) : SectionLocals × Process :=
  (x.1, match x.1.built with
    | some _ =>
      if x.2.wafOf d ≠ 0 then
        x.2.wafCacheAdd (rulesHash (x.2.rulesOf d)) (x.2.rulesOf d) (x.2.wafOf d)
      else x.2
    | none => x.2)

/-- And to the section the `dir_conf` was merged from; `src/mod_coraza.c:431–433`. -/
def shareBuilt (d : Nat) (x : SectionLocals × Process) : SectionLocals × Process :=
  (x.1, match x.1.built with
    | some _ => x.2.setChildWaf d (x.2.wafOf d)
    | none => x.2)

/-- The locked section and what goes on beside it. -/
def wafSections (lib : WafLib) : Sections Nat SectionLocals Process Unlocked where
  locals _ := ⟨0, none⟩
  body d := [recheckChild d, lookUp d, storeCached d, shareCached d, runBuild lib d, storeBuilt d,
    cacheBuilt d, shareBuilt d]
  change e p := p.unlocked e

/-! ### What goes on beside it -/

/-- An object with its array and, if it was merged from one, its section. -/
def isObject (p : Process) (d : Nat) : Bool :=
  decide (d < p.dirConfs.size) && decide ((p.dirConfs.get d).rules < p.arrays.size) &&
    (p.dirConfs.get d).mergeChild.all fun c ↦ decide (c < p.dirConfs.size)

/-- An object is allocated, and so is what it points to. -/
theorem isObject_iff {p : Process} {d : Nat} : p.isObject d = true ↔
    d < p.dirConfs.size ∧ (p.dirConfs.get d).rules < p.arrays.size ∧
      ∀ c, (p.dirConfs.get d).mergeChild = some c → c < p.dirConfs.size := by
  simp [isObject, and_assoc, Option.all_eq_true]

/-- What others do leaves objects, arrays and cache as they are. -/
structure Beside (p q : Process) : Prop where
  size : p.dirConfs.size ≤ q.dirConfs.size
  arraysSize : p.arrays.size ≤ q.arrays.size
  conf : ∀ d < p.dirConfs.size, q.dirConfs.get d = p.dirConfs.get d
  array : ∀ a < p.arrays.size, q.arrays.get a = p.arrays.get a
  cache : q.wafCache = p.wafCache
  pool : q.wafCachePool = p.wafCachePool
  builds : q.builds = p.builds
  wafs : q.wafs = p.wafs
  servers : q.serverConfs = p.serverConfs

private theorem beside_publish (p : Process) (x : Published) : Beside p (p.publish x) := by
  unfold publish
  split
  · exact ⟨by simp, by simp, fun d hd ↦ Arena.get_alloc_of_lt _ _ d hd,
      fun a ha ↦ Arena.get_alloc_of_lt _ _ a ha, rfl, rfl, rfl, rfl, rfl⟩
  · exact ⟨by simp, Nat.le_refl _, fun d hd ↦ Arena.get_alloc_of_lt _ _ d hd, fun _ _ ↦ rfl,
      rfl, rfl, rfl, rfl, rfl⟩

/-- Publishing a WAF makes no transaction. -/
theorem transactions_publish (p : Process) (x : Published) :
    (p.publish x).transactions = p.transactions := by
  unfold publish
  split <;> rfl

/-- What is done without the mutex goes beside the section. -/
theorem beside_unlocked (p : Process) (e : Unlocked) : Beside p (p.unlocked e) := by
  cases e with
  | merged x =>
    obtain ⟨hs, ha, hc, hr, hcache, hp, hb, hw, hsc⟩ := beside_publish p x
    exact ⟨hs, ha, hc, hr, hcache, hp, hb, hw, hsc⟩
  | htaccess x => exact beside_publish p x
  | transaction call =>
    exact ⟨Nat.le_refl _, Nat.le_refl _, fun _ _ ↦ rfl, fun _ _ ↦ rfl, rfl, rfl, rfl, rfl, rfl⟩

namespace Beside

variable {p q : Process} {d : Nat}

/-- Beside the section every object keeps its handle. -/
theorem wafOf (h : Beside p q) (hd : d < p.dirConfs.size) : q.wafOf d = p.wafOf d :=
  congrArg CorazaDirConf.waf (h.conf d hd)

private theorem mergeChild (h : Beside p q) (hd : d < p.dirConfs.size) :
    (q.dirConfs.get d).mergeChild = (p.dirConfs.get d).mergeChild :=
  congrArg CorazaDirConf.mergeChild (h.conf d hd)

/-- It keeps its rules. -/
theorem rulesOf (h : Beside p q) (hd : p.isObject d = true) : q.rulesOf d = p.rulesOf d := by
  obtain ⟨hlt, harr, -⟩ := isObject_iff.mp hd
  unfold Process.rulesOf
  rw [h.conf d hlt]
  exact h.array _ harr

/-- It stays an object. -/
theorem isObject (h : Beside p q) (hd : p.isObject d = true) : q.isObject d = true := by
  obtain ⟨hlt, harr, hchild⟩ := isObject_iff.mp hd
  rw [isObject_iff, h.conf d hlt]
  exact ⟨Nat.lt_of_lt_of_le hlt h.size, Nat.lt_of_lt_of_le harr h.arraysSize,
    fun c hc ↦ Nat.lt_of_lt_of_le (hchild c hc) h.size⟩

end Beside

/-! ### The steps commute with it -/

variable {p : Process} {d w : Nat} (e : Unlocked)

private theorem setWaf_unlocked (hd : d < p.dirConfs.size) :
    (p.unlocked e).setWaf d w = (p.setWaf d w).unlocked e := by
  have hpublish (x : Published) : (p.publish x).setWaf d w = (p.setWaf d w).publish x := by
    unfold publish setWaf updateDirConf
    cases x.rules with
    | some rules =>
      dsimp only
      rw [Arena.get_alloc_of_lt _ _ d hd, Arena.set_alloc_of_lt _ _ _ d hd]
    | none =>
      dsimp only
      rw [Arena.get_alloc_of_lt _ _ d hd, Arena.set_alloc_of_lt _ _ _ d hd]
  cases e with
  | merged x =>
    have hsize := size_setWaf p d w
    unfold unlocked
    dsimp only
    rw [hsize, ← hpublish]
    rfl
  | htaccess x => exact hpublish x
  | transaction call => rfl

private theorem setChildWaf_unlocked (hd : p.isObject d = true) :
    (p.unlocked e).setChildWaf d w = (p.setChildWaf d w).unlocked e := by
  obtain ⟨hlt, -, hchild⟩ := isObject_iff.mp hd
  unfold setChildWaf
  rw [(beside_unlocked p e).mergeChild hlt]
  split
  · next c hc => exact setWaf_unlocked e (hchild c hc)
  · rfl

/-- What builds and the cache leave behind is not seen by others. -/
theorem unlocked_engine (cache : List WafCacheEntry) (logged : Bool) (builds : Nat)
    (wafs : List (Nat × RuleList)) :
    ({ p with
      wafCache := cache, wafCacheFullLogged := logged, builds := builds, wafs := wafs } :
        Process).unlocked e =
      { p.unlocked e with
        wafCache := cache, wafCacheFullLogged := logged, builds := builds, wafs := wafs } := by
  have hpublish (x : Published) : ({ p with
      wafCache := cache, wafCacheFullLogged := logged, builds := builds, wafs := wafs } :
        Process).publish x =
      { p.publish x with
        wafCache := cache, wafCacheFullLogged := logged, builds := builds, wafs := wafs } := by
    unfold publish
    cases x.rules <;> rfl
  cases e with
  | merged x =>
    unfold unlocked
    dsimp only
    rw [hpublish]
  | htaccess x => exact hpublish x
  | transaction call => rfl

private theorem logged_unlocked : (p.unlocked e).wafCacheFullLogged = p.wafCacheFullLogged := by
  have hpublish (x : Published) : (p.publish x).wafCacheFullLogged = p.wafCacheFullLogged := by
    unfold publish
    cases x.rules <;> rfl
  cases e with
  | merged x => exact hpublish x
  | htaccess x => exact hpublish x
  | transaction call => rfl

private theorem buildWaf_unlocked (lib : WafLib) (rules : RuleList) :
    ((p.unlocked e).buildWaf lib rules).1 = (p.buildWaf lib rules).1 ∧
      ((p.unlocked e).buildWaf lib rules).2 = (p.buildWaf lib rules).2.unlocked e := by
  have hb := beside_unlocked p e
  have hfst : ((p.unlocked e).buildWaf lib rules).1 = (p.buildWaf lib rules).1 := by
    unfold buildWaf
    rw [hb.builds]
    split <;> rfl
  refine ⟨hfst, ?_⟩
  have hrest := unlocked_engine (p := p) e p.wafCache p.wafCacheFullLogged
    (p.builds + if rules.length = 0 then 0 else 1)
    (if (p.buildWaf lib rules).1 = 0 then p.wafs
      else p.wafs ++ [((p.buildWaf lib rules).1, rules)])
  rw [buildWaf_snd, buildWaf_snd, hfst, hb.builds, hb.wafs, hb.cache, logged_unlocked]
  exact hrest.symm

private theorem wafCacheAdd_eq (p : Process) (hash : UInt64) (rules : RuleList) (w : Nat) :
    p.wafCacheAdd hash rules w = { p with
      wafCache := (p.wafCacheAdd hash rules w).wafCache
      wafCacheFullLogged := (p.wafCacheAdd hash rules w).wafCacheFullLogged } := by
  unfold wafCacheAdd
  split
  · rfl
  · split <;> rfl

private theorem wafCacheAdd_unlocked (hash : UInt64) (rules : RuleList) :
    (p.unlocked e).wafCacheAdd hash rules w = (p.wafCacheAdd hash rules w).unlocked e := by
  have hb := beside_unlocked p e
  have hrest := unlocked_engine (p := p) e (p.wafCacheAdd hash rules w).wafCache
    (p.wafCacheAdd hash rules w).wafCacheFullLogged p.builds p.wafs
  have hcache : ((p.unlocked e).wafCacheAdd hash rules w).wafCache =
      (p.wafCacheAdd hash rules w).wafCache := by
    rw [(cache_wafCacheAdd _ _ _ _).2, (cache_wafCacheAdd _ _ _ _).2, hb.cache, hb.pool]
  have hlogged : ((p.unlocked e).wafCacheAdd hash rules w).wafCacheFullLogged =
      (p.wafCacheAdd hash rules w).wafCacheFullLogged := by
    unfold wafCacheAdd
    rw [hb.cache, hb.pool]
    split
    · rfl
    · split
      · exact logged_unlocked e
      · exact logged_unlocked e
  rw [wafCacheAdd_eq, wafCacheAdd_eq p, hcache, hlogged, hrest, hb.builds, hb.wafs]

private theorem onlyWafs_setChildWaf (p : Process) (d w : Nat) :
    OnlyWafs p (p.setChildWaf d w) := by
  unfold setChildWaf
  split
  · exact onlyWafs_setWaf p _ w
  · exact OnlyWafs.refl p

/-- A step of the section writes handles, the cache and the records of builds. -/
theorem onlyWafs_wafSections {lib : WafLib} {d : Nat} {f : SectionLocals × Process →
    SectionLocals × Process} (hf : f ∈ (wafSections lib).body d) (l : SectionLocals)
    (p : Process) : OnlyWafs p (f (l, p)).2 := by
  simp only [wafSections, List.mem_cons, List.not_mem_nil, or_false] at hf
  rcases hf with rfl | rfl | rfl | rfl | rfl | rfl | rfl | rfl
  · unfold recheckChild strategyMergeChild
    dsimp only
    split
    · split
      · exact onlyWafs_setWaf p d _
      · exact OnlyWafs.refl p
    · exact OnlyWafs.refl p
  · unfold lookUp
    split <;> exact OnlyWafs.refl p
  · unfold storeCached
    dsimp only
    split
    · exact onlyWafs_setWaf p d _
    · exact OnlyWafs.refl p
  · unfold shareCached
    dsimp only
    split
    · exact onlyWafs_setChildWaf p d _
    · exact OnlyWafs.refl p
  · unfold runBuild
    split
    · exact onlyWafs_buildWaf p lib _
    · exact OnlyWafs.refl p
  · unfold storeBuilt
    dsimp only
    split
    · exact onlyWafs_setWaf p d _
    · exact OnlyWafs.refl p
  · unfold cacheBuilt
    dsimp only
    split
    · split
      · exact onlyWafs_wafCacheAdd p _ _ _
      · exact OnlyWafs.refl p
    · exact OnlyWafs.refl p
  · unfold shareBuilt
    dsimp only
    split
    · exact onlyWafs_setChildWaf p d _
    · exact OnlyWafs.refl p

/-- The lookups and the build allocate nothing. -/
theorem OnlyWafs.isObject {q : Process} (h : OnlyWafs p q) : q.isObject d = p.isObject d := by
  unfold Process.isObject
  rw [h.size, h.rules, h.mergeChild, h.arrays]

/-- The section does not see what goes on beside it. -/
theorem wafSections_commutes (lib : WafLib) :
    (wafSections lib).Commutes fun d p ↦ p.isObject d = true where
  body d f hf l p hp := by
    rw [(onlyWafs_wafSections hf l p).isObject]
    exact hp
  change d e p hp := (beside_unlocked p e).isObject hp
  comm d f hf l p e hp := by
    have hb := beside_unlocked p e
    obtain ⟨hlt, -, hchild⟩ := isObject_iff.mp hp
    have hw : (p.unlocked e).wafOf d = p.wafOf d := hb.wafOf hlt
    have hr : (p.unlocked e).rulesOf d = p.rulesOf d := hb.rulesOf hp
    show f (l, p.unlocked e) = ((f (l, p)).1, (f (l, p)).2.unlocked e)
    simp only [wafSections, List.mem_cons, List.not_mem_nil, or_false] at hf
    rcases hf with rfl | rfl | rfl | rfl | rfl | rfl | rfl | rfl
    · unfold recheckChild strategyMergeChild
      dsimp only
      rw [hw, hb.mergeChild hlt]
      split
      · split
        · next c hc =>
          rw [hb.wafOf (hchild c hc), setWaf_unlocked e hlt]
        · rfl
      · rfl
    · unfold lookUp
      dsimp only
      rw [hw, hr, hb.cache]
      split <;> rfl
    · unfold storeCached
      dsimp only
      split
      · rw [setWaf_unlocked e hlt]
      · rfl
    · unfold shareCached
      dsimp only
      rw [hw]
      split
      · rw [setChildWaf_unlocked e hp]
      · rfl
    · unfold runBuild
      dsimp only
      rw [hw, hr]
      split
      · rw [(buildWaf_unlocked e lib _).1, (buildWaf_unlocked e lib _).2]
      · rfl
    · unfold storeBuilt
      dsimp only
      split
      · rw [setWaf_unlocked e hlt]
      · rfl
    · unfold cacheBuilt
      dsimp only
      rw [hw, hr]
      split
      · split
        · rw [wafCacheAdd_unlocked]
        · rfl
      · rfl
    · unfold shareBuilt
      dsimp only
      rw [hw]
      split
      · rw [setChildWaf_unlocked e hp]
      · rfl

/-! ### What a step writes -/

/-- A thread enters the section. -/
def enterSection (q : Process) : SectionLocals × Process := (⟨0, none⟩, q)

/-- The state of a section entered in `q` after its first `k` steps. -/
@[irreducible] def afterSteps (lib : WafLib) (d : Nat) (q : Process) (k : Nat) :
    SectionLocals × Process :=
  Sections.steps (((wafSections lib).body d).take k) (enterSection q)

section

variable {lib : WafLib} {q : Process}

/-- Before the first step of the section. -/
theorem afterSteps_zero (lib : WafLib) (d : Nat) (q : Process) :
    afterSteps lib d q 0 = enterSection q := by
  rw [afterSteps]
  rfl

/-- One step further. -/
theorem afterSteps_succ (lib : WafLib) (d : Nat) (q : Process) {k : Nat}
    {f : SectionLocals × Process → SectionLocals × Process}
    (hf : ((wafSections lib).body d)[k]? = some f) :
    afterSteps lib d q (k + 1) = f (afterSteps lib d q k) := by
  rw [afterSteps, afterSteps, List.take_add_one, hf, Sections.steps_append]
  rfl

private theorem afterSteps_one (lib : WafLib) (d : Nat) (q : Process) :
    afterSteps lib d q 1 = (⟨0, none⟩, q.strategyMergeChild d) := by
  rw [afterSteps_succ lib d q (k := 0) rfl, afterSteps_zero]
  rfl

/-- What the lookup in the cache finds is used only if there was no handle. -/
theorem afterSteps_lookUp (lib : WafLib) (d : Nat) (q : Process) :
    (afterSteps lib d q 2).2 = q.strategyMergeChild d ∧
      (afterSteps lib d q 2).1.built = none ∧
      ((afterSteps lib d q 2).1.cached ≠ 0 → (q.strategyMergeChild d).wafOf d = 0) := by
  rw [afterSteps_succ lib d q (k := 1) rfl, afterSteps_one, lookUp]
  dsimp only
  split
  · next hz => exact ⟨rfl, rfl, fun _ ↦ hz⟩
  · exact ⟨rfl, rfl, fun h ↦ absurd rfl h⟩

/-- The lookups are behind. -/
theorem afterSteps_looked (lib : WafLib) (d : Nat) (q : Process) :
    (afterSteps lib d q 4).2 = (q.strategyMergeChild d).strategyCache d ∧
      (afterSteps lib d q 4).1.built = none := by
  rw [afterSteps_succ lib d q (k := 3) rfl, afterSteps_succ lib d q (k := 2) rfl,
    afterSteps_succ lib d q (k := 1) rfl, afterSteps_one]
  unfold strategyCache lookUp
  dsimp only
  split
  · unfold storeCached shareCached
    dsimp only
    split
    · exact ⟨rfl, rfl⟩
    · exact ⟨rfl, rfl⟩
  · exact ⟨rfl, rfl⟩

/-- A build is run if the lookups found nothing. -/
theorem afterSteps_built (lib : WafLib) (d : Nat) (q : Process) :
    (afterSteps lib d q 5).2.dirConfs = (afterSteps lib d q 4).2.dirConfs ∧
      (afterSteps lib d q 5).2.serverConfs = (afterSteps lib d q 4).2.serverConfs ∧
      ((afterSteps lib d q 5).1.built = none ∧ (afterSteps lib d q 4).2.wafOf d ≠ 0 ∨
        (∃ w, (afterSteps lib d q 5).1.built = some w) ∧ (afterSteps lib d q 4).2.wafOf d = 0) := by
  have hnone := (afterSteps_looked lib d q).2
  rw [afterSteps_succ lib d q (k := 4) rfl, runBuild]
  split
  · next hz =>
    refine ⟨?_, ?_, Or.inr ⟨⟨_, rfl⟩, hz⟩⟩
    · rw [buildWaf_snd]
    · rw [buildWaf_snd]
  · next hz => exact ⟨rfl, rfl, Or.inl ⟨hnone, hz⟩⟩

/-- Its handle goes to the object. -/
theorem afterSteps_stored (lib : WafLib) (d : Nat) (q : Process) :
    (afterSteps lib d q 7).1.built = (afterSteps lib d q 5).1.built ∧
      ∀ w, (afterSteps lib d q 5).1.built = some w →
        (afterSteps lib d q 7).2.dirConfs = ((afterSteps lib d q 4).2.setWaf d w).dirConfs := by
  have hdirs := (afterSteps_built lib d q).1
  rw [afterSteps_succ lib d q (k := 6) rfl, afterSteps_succ lib d q (k := 5) rfl, cacheBuilt,
    storeBuilt]
  dsimp only
  refine ⟨rfl, fun w hb ↦ ?_⟩
  rw [hb]
  dsimp only
  have hset : ((afterSteps lib d q 5).2.setWaf d w).dirConfs =
      ((afterSteps lib d q 4).2.setWaf d w).dirConfs := by
    rw [setWaf, setWaf, updateDirConf, updateDirConf, hdirs]
  split
  · rw [dirConfs_wafCacheAdd]
    exact hset
  · exact hset

/-- Taken at once, the steps are the section. -/
theorem whole_wafSections (lib : WafLib) (q : Process) (d : Nat) :
    (wafSections lib).whole d q = q.lockedSection lib d := by
  obtain ⟨hlooked, hnone⟩ := afterSteps_looked lib d q
  have hwhole : (wafSections lib).whole d q = (afterSteps lib d q 8).2 := by
    rw [afterSteps]
    rfl
  rw [hwhole, lockedSection, ← hlooked, afterSteps_succ lib d q (k := 7) rfl,
    afterSteps_succ lib d q (k := 6) rfl, afterSteps_succ lib d q (k := 5) rfl,
    afterSteps_succ lib d q (k := 4) rfl]
  obtain ⟨x, hx⟩ : ∃ x, afterSteps lib d q 4 = x := ⟨_, rfl⟩
  rw [hx] at hnone ⊢
  unfold strategyBuild runBuild
  split
  · have hr : ((x.2.buildWaf lib (x.2.rulesOf d)).2.setWaf d
        (x.2.buildWaf lib (x.2.rulesOf d)).1).rulesOf d = x.2.rulesOf d := by
      rw [rulesOf_setWaf, buildWaf_snd]
      rfl
    unfold storeBuilt cacheBuilt shareBuilt
    dsimp only
    rw [hr]
  · unfold storeBuilt cacheBuilt shareBuilt
    rw [hnone]

/-- Each step writes a handle only to an object without one. -/
theorem fills_afterSteps (lib : WafLib) (hd : q.isObject d = true) :
    ∀ k, Fills (afterSteps lib d q k).2 (afterSteps lib d q (k + 1)).2 := by
  obtain ⟨hlt, -, -⟩ := isObject_iff.mp hd
  obtain ⟨hlook, hnone, hcached⟩ := afterSteps_lookUp lib d q
  obtain ⟨hlooked, -⟩ := afterSteps_looked lib d q
  have hsearched := searched (p := q) hlt
  have hmerged := searched_strategyMergeChild (p := q) hlt
  -- Behind the lookups, with or without a build to store.
  have hunset : (afterSteps lib d q 4).2.wafOf d = 0 → ∀ c,
      ((afterSteps lib d q 4).2.dirConfs.get d).mergeChild = some c →
        (afterSteps lib d q 4).2.wafOf c = 0 := by
    rw [hlooked]
    intro hz c hc
    rw [hsearched.fills.mergeChild] at hc
    exact ((hsearched.unset hz).2 c hc).2
  obtain ⟨hdirs, hservers, hbuilt⟩ := afterSteps_built lib d q
  intro k
  match k with
  | 0 =>
    rw [afterSteps_succ lib d q (k := 0) rfl, afterSteps_zero]
    exact hmerged.fills
  | 1 =>
    rw [hlook, afterSteps_one]
    exact Fills.refl _
  | 2 =>
    rw [afterSteps_succ lib d q (k := 2) rfl, storeCached]
    dsimp only
    split
    · next hc =>
      rw [hlook]
      exact Fills.setWaf (Or.inl (hcached hc))
    · exact Fills.refl _
  | 3 =>
    rw [afterSteps_succ lib d q (k := 3) rfl, afterSteps_succ lib d q (k := 2) rfl, shareCached,
      storeCached]
    dsimp only
    split
    · next hc =>
      rw [hlook]
      apply Fills.setChildWaf
      intro c hchild
      rw [mergeChild_setWaf, hmerged.fills.mergeChild] at hchild
      by_cases hcd : c = d
      · exact Or.inr (by rw [hcd])
      · rw [wafOf_setWaf, if_neg (fun hn ↦ hcd hn.1.symm)]
        exact Or.inl ((hmerged.unset (hcached hc)).2 c hchild).2
    · exact Fills.refl _
  | 4 => exact Fills.of_dirConfs_eq hdirs hservers
  | 5 =>
    rw [afterSteps_succ lib d q (k := 5) rfl, storeBuilt]
    dsimp only
    rcases hbuilt with ⟨hb, -⟩ | ⟨⟨w, hb⟩, hz⟩
    · rw [hb]
      exact Fills.refl _
    · rw [hb]
      apply Fills.setWaf
      left
      rw [wafOf, hdirs]
      exact hz
  | 6 =>
    rw [afterSteps_succ lib d q (k := 6) rfl, cacheBuilt]
    dsimp only
    split
    · split
      · exact Fills.of_dirConfs_eq (dirConfs_wafCacheAdd _ _ _ _)
          (onlyWafs_wafCacheAdd _ _ _ _).serverConfs
      · exact Fills.refl _
    · exact Fills.refl _
  | 7 =>
    obtain ⟨hkeep, hstored⟩ := afterSteps_stored lib d q
    rw [afterSteps_succ lib d q (k := 7) rfl, shareBuilt, hkeep]
    dsimp only
    split
    · next w hw =>
      have hz : (afterSteps lib d q 4).2.wafOf d = 0 := by
        rcases hbuilt with ⟨hb, -⟩ | ⟨-, hz⟩
        · rw [hb] at hw
          cases hw
        · exact hz
      apply Fills.setChildWaf
      intro c hchild
      by_cases hcd : c = d
      · exact Or.inr (by rw [hcd])
      · left
        rw [hstored w hw, mergeChild_setWaf] at hchild
        rw [wafOf, hstored w hw]
        show ((afterSteps lib d q 4).2.setWaf d w).wafOf c = 0
        rw [wafOf_setWaf, if_neg (fun hn ↦ hcd hn.1.symm)]
        exact hunset hz c hchild
    · exact Fills.refl _
  | k + 8 =>
    have hall (n : Nat) : ((wafSections lib).body d).take (n + 8) = (wafSections lib).body d :=
      List.take_of_length_le (Nat.le_add_left 8 n)
    rw [afterSteps, afterSteps, Nat.add_right_comm, hall, hall]
    exact Fills.refl _

/-- Behind the section the object has a handle, or a build of its own returned none. -/
theorem afterSteps_last (lib : WafLib) (hd : q.isObject d = true) :
    ((afterSteps lib d q 8).1.built = none ∧ (afterSteps lib d q 8).2.wafOf d ≠ 0) ∨
      (afterSteps lib d q 8).1.built = some ((afterSteps lib d q 8).2.wafOf d) := by
  obtain ⟨hlt, -, -⟩ := isObject_iff.mp hd
  have hfills := fills_afterSteps lib hd
  have hbuilt8 : (afterSteps lib d q 8).1.built = (afterSteps lib d q 5).1.built := by
    rw [afterSteps_succ lib d q (k := 7) rfl, ← (afterSteps_stored lib d q).1]
    rfl
  rcases (afterSteps_built lib d q).2.2 with ⟨hb, hz⟩ | ⟨⟨w, hb⟩, -⟩
  · left
    have hall := (((hfills 4).trans (hfills 5)).trans (hfills 6)).trans (hfills 7)
    refine ⟨hbuilt8.trans hb, ?_⟩
    rw [hall.kept d hz]
    exact hz
  · right
    have hsize : d < (afterSteps lib d q 4).2.dirConfs.size := by
      rw [(((hfills 0).trans (hfills 1)).trans ((hfills 2).trans (hfills 3))).size, afterSteps_zero]
      exact hlt
    have h7 : (afterSteps lib d q 7).2.wafOf d = w := by
      rw [wafOf, (afterSteps_stored lib d q).2 w hb]
      show ((afterSteps lib d q 4).2.setWaf d w).wafOf d = w
      rw [wafOf_setWaf, if_pos ⟨rfl, hsize⟩]
    rw [hbuilt8, hb, afterSteps_succ lib d q (k := 7) rfl, shareBuilt,
      (afterSteps_stored lib d q).1, hb]
    dsimp only
    rw [wafOf_setChildWaf_self, h7]

end

/-! ### What the section records -/

/-- Writing a handle back builds nothing. -/
@[simp] theorem wafs_setChildWaf (p : Process) (d w : Nat) :
    (p.setChildWaf d w).wafs = p.wafs := by
  unfold setChildWaf
  split <;> rfl

/-- It does not ask for a build. -/
@[simp] theorem builds_setChildWaf (p : Process) (d w : Nat) :
    (p.setChildWaf d w).builds = p.builds := by
  unfold setChildWaf
  split <;> rfl

/-- Adding to the cache does not ask for a build. -/
@[simp] theorem builds_wafCacheAdd (p : Process) (hash : UInt64) (rules : RuleList) (w : Nat) :
    (p.wafCacheAdd hash rules w).builds = p.builds := by
  rw [wafCacheAdd_eq]

/-- Nothing is recorded but the build. -/
theorem engine_strategyBuild (q : Process) (lib : WafLib) (d : Nat) :
    (q.strategyBuild lib d).wafs =
        (if q.wafOf d = 0 then (q.buildWaf lib (q.rulesOf d)).2 else q).wafs ∧
      (q.strategyBuild lib d).builds =
        (if q.wafOf d = 0 then (q.buildWaf lib (q.rulesOf d)).2 else q).builds := by
  unfold strategyBuild
  split
  · dsimp only
    rw [wafs_setChildWaf, builds_setChildWaf]
    split
    · exact ⟨wafs_wafCacheAdd _ _ _ _, builds_wafCacheAdd _ _ _ _⟩
    · exact ⟨rfl, rfl⟩
  · exact ⟨rfl, rfl⟩

end Process
end CorazaApache.Config
