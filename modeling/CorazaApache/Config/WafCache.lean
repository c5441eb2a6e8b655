import Mathlib.Data.List.Nodup
import CorazaApache.Config.Isolation
import CorazaApache.Config.StartupCoherence

/-!
# The content cache over whole runs

Requests of one child execute the locked section of `coraza_create_ctx` one after the other,
`src/mod_coraza.c:404–437`. The hash only narrows the search down: what the cache holds is
decided by the comparison of the entries. Its entries are the first successful builds of the
section, in order, each of another rule list.
-/

namespace CorazaApache.Config
open CorazaApache.Base

namespace Process

/-- The locked section of `coraza_create_ctx`; `src/mod_coraza.c:405–436`. -/
def lockedSection (p : Process) (lib : WafLib) (d : Nat) : Process :=
  ((p.strategyMergeChild d).strategyCache d).strategyBuild lib d

/-- The call of `coraza_build_waf` the section makes: the rule list and the handle returned. -/
def buildCall (p : Process) (lib : WafLib) (d : Nat) : Option (RuleList × Nat) :=
  let q := (p.strategyMergeChild d).strategyCache d
  if q.wafOf d = 0 then some (q.rulesOf d, (q.buildWaf lib (q.rulesOf d)).1) else none

/-- The lazy build is the locked section, entered when it is needed. -/
theorem resolveWaf_eq_lockedSection (p : Process) (lib : WafLib) (d : Nat) :
    p.resolveWaf lib d =
      if p.wafOf d = 0 ∧ (p.dirConfs.get d).hasRules = true ∧ 0 < (p.rulesOf d).length then
        p.lockedSection lib d
      else p := rfl

end Process

/-- What happens in a child: a request executes the locked section on its `dir_conf`, or
requests change the rest of the state. -/
inductive CacheOp where
  | locked (d : Nat)
  | others (rest : Process)

/-- The process, and the calls of `coraza_build_waf` under the mutex with what they returned. -/
structure Ledger where
  process : Process
  calls : List (RuleList × Nat)

namespace Ledger

/-- One step. No request holds an address that is no object's. -/
def step (lib : WafLib) (l : Ledger) : CacheOp → Ledger
  | .locked d =>
    if d < l.process.dirConfs.size then
      ⟨l.process.lockedSection lib d, l.calls ++ (l.process.buildCall lib d).toList⟩
    else l
  | .others rest =>
    { l with
      process := { rest with
        wafCache := l.process.wafCache
        wafCachePool := l.process.wafCachePool
        wafCacheFullLogged := l.process.wafCacheFullLogged } }

/-- The builds that succeeded. -/
def built (l : Ledger) : List (RuleList × Nat) := l.calls.filter (·.2 ≠ 0)

/-- The child behind `coraza_child_init`. -/
def start (p : Process) : Ledger := ⟨p, []⟩

end Ledger

/-! ### The cache before the first request -/

namespace Process

/-- Storing a rule leaves the cache. -/
@[simp] theorem wafCache_storeRule (p : Process) (cmd : CmdParms) (dcf scf : Nat)
    (e : CorazaRuleEntry) : (p.storeRule cmd dcf scf e).wafCache = p.wafCache := by
  unfold storeRule
  dsimp only
  split <;> rfl

/-- Recording a handle leaves the cache. -/
@[simp] theorem wafCache_recordWaf (p : Process) (w : Nat) (rules : RuleList) :
    (p.recordWaf w rules).wafCache = p.wafCache := by
  unfold recordWaf
  split <;> rfl

/-- It leaves the pool of the cache. -/
@[simp] theorem wafCachePool_recordWaf (p : Process) (w : Nat) (rules : RuleList) :
    (p.recordWaf w rules).wafCachePool = p.wafCachePool := by
  unfold recordWaf
  split <;> rfl

end Process

private theorem Directive.wafCache_run {env : ConfigEnv} {p q : Process} {path : Bool}
    {dcf scf : Nat}
    (d : Directive) (h : d.run env p path dcf scf = .ok q) : q.wafCache = p.wafCache := by
  have hrules {cmd : CmdParms} {arg : CString}
      (h : p.cmdCorazaRules cmd dcf scf arg = .ok q) : q.wafCache = p.wafCache := by
    unfold Process.cmdCorazaRules at h
    split at h
    · cases h
    · cases h
      exact Process.wafCache_storeRule p cmd dcf scf _
  cases d with
  | coraza flag =>
    cases h
    rfl
  | corazaRules arg => exact hrules h
  | corazaRulesFile arg =>
    simp only [run, Process.cmdCorazaRulesFile] at h
    split at h
    · cases h
    · cases h
      exact Process.wafCache_storeRule p _ dcf scf _
  | corazaTransactionId arg =>
    cases h
    rfl
  | corazaRequestBodyInMemoryLimit arg =>
    simp only [run, Process.cmdCorazaBodyMemLimit] at h
    split at h
    · split at h
      · cases h
      · cases h
        rfl
    · cases h
  | sec name args => exact hrules h

private theorem Startup.wafCache_readDirectives {env : ConfigEnv} {st st' : Startup}
    {ds : List PlacedDirective} (h : st.readDirectives env ds = .ok st') :
    st'.process.wafCache = st.process.wafCache := by
  induction ds generalizing st with
  | nil =>
    cases h
    rfl
  | cons d ds ih =>
    simp only [readDirectives, readDirective] at h
    have hdir : (st.ensureDirConf (d.server, d.scope)).2.process.wafCache =
        st.process.wafCache := by
      unfold ensureDirConf
      split <;> rfl
    have hserver (st : Startup) : (st.ensureServerConf d.server).2.process.wafCache =
        st.process.wafCache := by
      unfold ensureServerConf
      split <;> rfl
    split at h
    · cases h
    · next st₁ hread =>
      split at hread
      · cases hread
      · next q hrun =>
        cases hread
        have hone := d.directive.wafCache_run hrun
        exact (ih h).trans (hone.trans ((hserver _).trans hdir))

private theorem wafCache_fixupVirtualHosts (main : ServerRec) (p : Process)
    (virts : List ServerRec) :
    (fixupVirtualHosts main p virts).2.wafCache = p.wafCache := by
  induction virts generalizing p with
  | nil => rfl
  | cons virt virts ih =>
    have hone : (fixupVirtualHost main p virt).2.wafCache = p.wafCache := by
      unfold fixupVirtualHost
      dsimp only
      split <;> rfl
    exact (ih _).trans hone

/-- A configuration is loaded without the cache. -/
theorem StaticConf.wafCache_load {conf : StaticConf} {env : ConfigEnv} {servers : List ServerRec}
    {p : Process} (h : conf.load env = .ok (servers, p)) : p.wafCache = [] := by
  obtain ⟨st, hst, heq⟩ := exists_of_load h
  cases heq
  exact (wafCache_fixupVirtualHosts _ _ _).trans (Startup.wafCache_readDirectives hst)

namespace Process

private theorem cache_buildWaf (p : Process) (lib : WafLib) (rules : RuleList) :
    (p.buildWaf lib rules).2.wafCache = p.wafCache ∧
      (p.buildWaf lib rules).2.wafCachePool = p.wafCachePool := by
  rw [buildWaf_snd]
  exact ⟨rfl, rfl⟩

private theorem cache_initServer (p : Process) (lib : WafLib) (sv : ServerRec) :
    (p.initServer lib sv).wafCache = p.wafCache ∧
      (p.initServer lib sv).wafCachePool = p.wafCachePool := by
  have hempty : (p.buildEmptyWaf lib).2.wafCache = p.wafCache ∧
      (p.buildEmptyWaf lib).2.wafCachePool = p.wafCachePool := by
    unfold buildEmptyWaf
    dsimp only
    split
    · exact ⟨rfl, rfl⟩
    · rw [wafCache_recordWaf, wafCachePool_recordWaf]
      exact ⟨rfl, rfl⟩
  have hserver (c : Nat) : (p.buildServerWaf lib c).wafCache = p.wafCache ∧
      (p.buildServerWaf lib c).wafCachePool = p.wafCachePool := by
    unfold buildServerWaf
    split
    · exact p.cache_buildWaf lib _
    · split
      · next w q hb =>
        rw [hb] at hempty
        exact hempty
      · next q hb =>
        rw [hb] at hempty
        exact hempty
  unfold initServer
  split
  · exact ⟨rfl, rfl⟩
  · next c _ =>
    dsimp only
    split
    · exact hserver c
    · split
      · exact hserver c
      · split
        · exact hserver c
        · exact hserver c

private theorem cache_initServers (p : Process) (lib : WafLib) (servers : List ServerRec) :
    (servers.foldl (initServer lib) p).wafCache = p.wafCache ∧
      (servers.foldl (initServer lib) p).wafCachePool = p.wafCachePool := by
  induction servers generalizing p with
  | nil => exact ⟨rfl, rfl⟩
  | cons sv servers ih =>
    obtain ⟨hc, hp⟩ := p.cache_initServer lib sv
    rw [List.foldl_cons, ← hc, ← hp]
    exact ih _

private theorem cache_initTrackedFrom (p : Process) (lib : WafLib) (done rest : List Nat) :
    (initTrackedFrom lib p done rest).wafCache = p.wafCache ∧
      (initTrackedFrom lib p done rest).wafCachePool = p.wafCachePool := by
  induction rest generalizing p done with
  | nil => exact ⟨rfl, rfl⟩
  | cons d rest ih =>
    obtain ⟨hc, hp⟩ : (p.initTracked lib done d).wafCache = p.wafCache ∧
        (p.initTracked lib done d).wafCachePool = p.wafCachePool := by
      unfold initTracked
      dsimp only
      split
      · exact ⟨rfl, rfl⟩
      · split
        · exact ⟨rfl, rfl⟩
        · exact p.cache_buildWaf lib _
    rw [initTrackedFrom, ← hc, ← hp]
    exact ih _ _

/-- The child gives the cache its pool and no entry. -/
theorem cache_childInit (p : Process) (lib : WafLib) (servers : List ServerRec) :
    (p.corazaChildInit lib true servers).wafCache = p.wafCache ∧
      (p.corazaChildInit lib true servers).wafCachePool = true := by
  obtain ⟨hc, hp⟩ := cache_initServers { p with wafCachePool := true } lib servers
  obtain ⟨hc', hp'⟩ := cache_initTrackedFrom
    (servers.foldl (initServer lib) { p with wafCachePool := true }) lib []
    ((servers.foldl (initServer lib) { p with wafCachePool := true }).trackedDirConfs.getD [])
  exact ⟨hc'.trans hc, hp'.trans hp⟩

/-! ### One execution of the section -/

/-- Writing a handle back leaves the rules. -/
@[simp] theorem rulesOf_setChildWaf (p : Process) (d w e : Nat) :
    (p.setChildWaf d w).rulesOf e = p.rulesOf e := by
  unfold setChildWaf
  split
  · exact rulesOf_setWaf p _ w e
  · rfl

/-- It leaves the cache. -/
@[simp] theorem wafCache_setChildWaf (p : Process) (d w : Nat) :
    (p.setChildWaf d w).wafCache = p.wafCache := by
  unfold setChildWaf
  split <;> rfl

/-- It leaves the pool of the cache. -/
@[simp] theorem wafCachePool_setChildWaf (p : Process) (d w : Nat) :
    (p.setChildWaf d w).wafCachePool = p.wafCachePool := by
  unfold setChildWaf
  split <;> rfl

/-- It allocates nothing. -/
@[simp] theorem size_setChildWaf (p : Process) (d w : Nat) :
    (p.setChildWaf d w).dirConfs.size = p.dirConfs.size := by
  unfold setChildWaf
  split
  · exact size_setWaf p _ w
  · rfl

/-- Nothing the two lookups do touches rules or cache, and both have failed if no handle has
been found. -/
structure LookedUp (p q : Process) (d : Nat) : Prop where
  rules : q.rulesOf d = p.rulesOf d
  cache : q.wafCache = p.wafCache
  pool : q.wafCachePool = p.wafCachePool
  size : q.dirConfs.size = p.dirConfs.size
  missed : q.wafOf d = 0 → wafCacheFind p.wafCache (rulesHash (p.rulesOf d)) (p.rulesOf d) = 0

/-- Both lookups. -/
theorem lookedUp (p : Process) {d : Nat} (hd : d < p.dirConfs.size) :
    LookedUp p ((p.strategyMergeChild d).strategyCache d) d := by
  obtain ⟨q, hq⟩ : ∃ q, p.strategyMergeChild d = q := ⟨_, rfl⟩
  obtain ⟨hr, hc, hp, hs⟩ : q.rulesOf d = p.rulesOf d ∧ q.wafCache = p.wafCache ∧
      q.wafCachePool = p.wafCachePool ∧ q.dirConfs.size = p.dirConfs.size := by
    rw [← hq]
    unfold strategyMergeChild
    split
    · split
      · exact ⟨rulesOf_setWaf p _ _ _, rfl, rfl, size_setWaf p _ _⟩
      · exact ⟨rfl, rfl, rfl, rfl⟩
    · exact ⟨rfl, rfl, rfl, rfl⟩
  rw [hq, strategyCache]
  split
  · dsimp only
    split
    · next hf =>
      refine ⟨by simp [hr], by simp [hc], by simp [setWaf, updateDirConf, hp], by simp [hs], ?_⟩
      intro hw
      rw [wafOf_setChildWaf_self, wafOf_setWaf, if_pos ⟨rfl, hs ▸ hd⟩] at hw
      exact absurd hw hf
    · next hf =>
      refine ⟨hr, hc, hp, hs, fun _ ↦ ?_⟩
      rw [hr, hc, ne_eq, not_not] at hf
      exact hf
  · next hw => exact ⟨hr, hc, hp, hs, fun h0 ↦ absurd h0 hw⟩

/-- An entry is added while there is room and a pool. -/
theorem cache_wafCacheAdd (p : Process) (hash : UInt64) (rules : RuleList) (w : Nat) :
    (p.wafCacheAdd hash rules w).wafCachePool = p.wafCachePool ∧
      (p.wafCacheAdd hash rules w).wafCache =
        if wafCacheMax ≤ p.wafCache.length ∨ p.wafCachePool = false then p.wafCache
        else p.wafCache ++ [⟨hash, rules, w⟩] := by
  unfold wafCacheAdd
  split
  · next hfull => exact ⟨rfl, (if_pos (Or.inl hfull)).symm⟩
  · next hfull =>
    cases hp : p.wafCachePool with
    | true => exact ⟨rfl, (if_neg (by simp [hfull])).symm⟩
    | false => exact ⟨hp, (if_pos (Or.inr rfl)).symm⟩

/-- A section that builds nothing leaves the cache. -/
theorem lockedSection_of_none {p : Process} {lib : WafLib} {d : Nat} (hd : d < p.dirConfs.size)
    (h : p.buildCall lib d = none) :
    (p.lockedSection lib d).wafCache = p.wafCache ∧
      (p.lockedSection lib d).wafCachePool = p.wafCachePool := by
  have hl := p.lookedUp hd
  unfold buildCall at h
  dsimp only at h
  split at h
  · cases h
  · next hw =>
    rw [lockedSection, strategyBuild, if_neg hw]
    exact ⟨hl.cache, hl.pool⟩

/-- A build is reached only for a list the cache does not have, and its handle is added. -/
theorem lockedSection_of_some {p : Process} {lib : WafLib} {d : Nat} (hd : d < p.dirConfs.size)
    {rules : RuleList} {w : Nat} (h : p.buildCall lib d = some (rules, w)) :
    wafCacheFind p.wafCache (rulesHash rules) rules = 0 ∧
      (p.lockedSection lib d).wafCachePool = p.wafCachePool ∧
      (p.lockedSection lib d).wafCache =
        if w = 0 ∨ wafCacheMax ≤ p.wafCache.length ∨ p.wafCachePool = false then p.wafCache
        else p.wafCache ++ [⟨rulesHash rules, rules, w⟩] := by
  have hl := p.lookedUp hd
  obtain ⟨q, hq⟩ : ∃ q, (p.strategyMergeChild d).strategyCache d = q := ⟨_, rfl⟩
  rw [hq] at hl
  simp only [buildCall, hq] at h
  split at h
  · next hw =>
    obtain ⟨rfl, rfl⟩ := Prod.mk.inj (Option.some.inj h)
    -- The state behind the build, before anything is added to the cache.
    obtain ⟨s, hs⟩ : ∃ s, (q.buildWaf lib (q.rulesOf d)).2.setWaf d
        (q.buildWaf lib (q.rulesOf d)).1 = s := ⟨_, rfl⟩
    have hset : s.wafOf d = (q.buildWaf lib (q.rulesOf d)).1 := by
      have hsize : (q.buildWaf lib (q.rulesOf d)).2.dirConfs.size = p.dirConfs.size := by
        rw [buildWaf_snd]
        exact hl.size
      rw [← hs, wafOf_setWaf, if_pos ⟨rfl, hsize ▸ hd⟩]
    obtain ⟨hc, hp⟩ := q.cache_buildWaf lib (q.rulesOf d)
    have hsc : s.wafCache = p.wafCache := by rw [← hs, wafCache_setWaf, hc, hl.cache]
    have hsp : s.wafCachePool = p.wafCachePool := by
      rw [← hs]
      exact hp.trans hl.pool
    obtain ⟨hap, hac⟩ := s.cache_wafCacheAdd (rulesHash (q.rulesOf d)) (q.rulesOf d)
      (q.buildWaf lib (q.rulesOf d)).1
    rw [hsp] at hap
    rw [hsc, hsp] at hac
    refine ⟨hl.rules ▸ hl.missed hw, ?_⟩
    rw [lockedSection, hq, strategyBuild, if_pos hw]
    dsimp only
    rw [hs, hset, wafCachePool_setChildWaf, wafCache_setChildWaf]
    by_cases hz : (q.buildWaf lib (q.rulesOf d)).1 = 0
    · rw [if_neg (not_not.mpr hz), if_pos (Or.inl hz)]
      exact ⟨hsp, hsc⟩
    · rw [if_pos hz, hap, hac]
      simp only [hz, false_or, true_and]
  · cases h

end Process

/-! ### What the cache holds -/

/-- The entries are the first successful builds, one for each rule list, under the hash of their
rules. -/
structure CacheCoherent (l : Ledger) : Prop where
  pool : l.process.wafCachePool = true
  hash : ∀ e ∈ l.process.wafCache, e.hash = rulesHash e.rules
  entries : l.process.wafCache.map (fun e ↦ (e.rules, e.waf)) = l.built.take wafCacheMax
  distinct : (l.process.wafCache.map WafCacheEntry.rules).Nodup

namespace CacheCoherent

variable {l : Ledger}

private theorem length_le (h : CacheCoherent l) : l.process.wafCache.length ≤ wafCacheMax := by
  have hlen := congrArg List.length h.entries
  rw [List.length_map, List.length_take] at hlen
  omega

/-- Until the cache is full, every successful build is in it. -/
theorem entries_of_lt (h : CacheCoherent l) (hlt : l.process.wafCache.length < wafCacheMax) :
    l.process.wafCache.map (fun e ↦ (e.rules, e.waf)) = l.built := by
  have hlen := congrArg List.length h.entries
  rw [List.length_map, List.length_take] at hlen
  rw [h.entries]
  apply List.take_of_length_le
  omega

private theorem mem_calls (h : CacheCoherent l) {e : WafCacheEntry} (he : e ∈ l.process.wafCache) :
    e.waf ≠ 0 ∧ (e.rules, e.waf) ∈ l.calls := by
  have hmem : (e.rules, e.waf) ∈ l.built.take wafCacheMax := by
    rw [← h.entries]
    exact List.mem_map_of_mem he
  have hbuilt := List.mem_of_mem_take hmem
  rw [Ledger.built, List.mem_filter, decide_eq_true_iff] at hbuilt
  exact ⟨hbuilt.2, hbuilt.1⟩

/-- An entry is found under its own list. -/
theorem find_eq (h : CacheCoherent l) {e : WafCacheEntry} (he : e ∈ l.process.wafCache) :
    wafCacheFind l.process.wafCache (rulesHash e.rules) e.rules = e.waf := by
  unfold wafCacheFind
  cases hf : l.process.wafCache.find?
      (fun e' ↦ e'.hash == rulesHash e.rules && rulesEqual e'.rules e.rules) with
  | none =>
    have hno := List.find?_eq_none.mp hf e he
    rw [h.hash e he, beq_self_eq_true, Bool.true_and, rulesEqual_iff] at hno
    exact absurd rfl hno
  | some e' =>
    have hfound := List.find?_some hf
    rw [Bool.and_eq_true, rulesEqual_iff] at hfound
    have heq := List.inj_on_of_nodup_map h.distinct (List.mem_of_find?_eq_some hf) he hfound.2
    exact congrArg WafCacheEntry.waf heq

private theorem find_ne_zero_iff (h : CacheCoherent l) (rules : RuleList) :
    wafCacheFind l.process.wafCache (rulesHash rules) rules ≠ 0 ↔
      ∃ e ∈ l.process.wafCache, e.rules = rules := by
  constructor
  · intro hne
    unfold wafCacheFind at hne
    split at hne
    · next e hf =>
      have hfound := List.find?_some hf
      rw [Bool.and_eq_true, rulesEqual_iff] at hfound
      exact ⟨e, List.mem_of_find?_eq_some hf, hfound.2⟩
    · exact absurd rfl hne
  · rintro ⟨e, he, rfl⟩
    rw [h.find_eq he]
    exact (h.mem_calls he).1

/-- A build that is reached before the cache is full is the first successful one of its list. -/
theorem not_mem_calls (h : CacheCoherent l) (hlt : l.process.wafCache.length < wafCacheMax)
    {rules : RuleList}
    (hmiss : wafCacheFind l.process.wafCache (rulesHash rules) rules = 0) {w : Nat} (hw : w ≠ 0) :
    (rules, w) ∉ l.calls := by
  intro hmem
  have hbuilt : (rules, w) ∈ l.built := List.mem_filter.mpr ⟨hmem, decide_eq_true hw⟩
  rw [← h.entries_of_lt hlt, List.mem_map] at hbuilt
  obtain ⟨e, he, heq⟩ := hbuilt
  exact (h.find_ne_zero_iff rules).mpr ⟨e, he, congrArg Prod.fst heq⟩ hmiss

/-- The empty cache is coherent. -/
theorem start {p : Process} (hc : p.wafCache = []) (hp : p.wafCachePool = true) :
    CacheCoherent (Ledger.start p) where
  pool := hp
  hash e he := by
    rw [Ledger.start, hc] at he
    cases he
  entries := by
    rw [Ledger.start, hc]
    rfl
  distinct := by
    rw [Ledger.start, hc]
    exact List.nodup_nil

/-- A step that adds no entry keeps the cache coherent. -/
theorem unchanged (h : CacheCoherent l) {l' : Ledger}
    (hcache : l'.process.wafCache = l.process.wafCache)
    (hpool : l'.process.wafCachePool = l.process.wafCachePool)
    (hbuilt : l'.built.take wafCacheMax = l.built.take wafCacheMax) : CacheCoherent l' where
  pool := hpool.trans h.pool
  hash := hcache ▸ h.hash
  entries := by rw [hcache, h.entries, hbuilt]
  distinct := hcache ▸ h.distinct

/-- So does a step that adds the handle of a list the cache did not have. -/
theorem added (h : CacheCoherent l) {l' : Ledger} {rules : RuleList} {w : Nat}
    (hlt : l.process.wafCache.length < wafCacheMax)
    (hmiss : wafCacheFind l.process.wafCache (rulesHash rules) rules = 0)
    (hcache : l'.process.wafCache = l.process.wafCache ++ [⟨rulesHash rules, rules, w⟩])
    (hpool : l'.process.wafCachePool = l.process.wafCachePool)
    (hbuilt : l'.built = l.built ++ [(rules, w)]) : CacheCoherent l' where
  pool := hpool.trans h.pool
  hash := by
    rw [hcache]
    exact List.forall_mem_append.mpr ⟨h.hash, by simp⟩
  entries := by
    have hall := h.entries_of_lt hlt
    have hlen := congrArg List.length hall
    rw [List.length_map] at hlen
    rw [hcache, hbuilt, List.map_append, hall, List.take_of_length_le]
    · rfl
    · rw [List.length_append, List.length_singleton]
      omega
  distinct := by
    rw [hcache, List.map_append]
    apply h.distinct.append (List.nodup_singleton _)
    intro r hr hr'
    obtain ⟨e, he, hrules⟩ := List.mem_map.mp hr
    have hsame : e.rules = rules := hrules.trans (List.mem_singleton.mp hr')
    exact (h.find_ne_zero_iff rules).mpr ⟨e, he, hsame⟩ hmiss

/-- One execution of the section, or a change of the rest, keeps the cache coherent. -/
theorem step (h : CacheCoherent l) (lib : WafLib) (op : CacheOp) :
    CacheCoherent (l.step lib op) := by
  cases op with
  | others rest => exact h.unchanged rfl rfl rfl
  | locked d =>
    rw [Ledger.step]
    split
    · next hd =>
      cases hb : l.process.buildCall lib d with
      | none =>
        obtain ⟨hc, hp⟩ := Process.lockedSection_of_none hd hb
        apply h.unchanged
        · exact hc
        · exact hp
        · rw [Ledger.built, Option.toList_none, List.append_nil, Ledger.built]
      | some call =>
        obtain ⟨rules, w⟩ := call
        obtain ⟨hmiss, hp, hc⟩ := Process.lockedSection_of_some hd hb
        have hbuilt : (l.calls ++ (some (rules, w)).toList).filter (·.2 ≠ 0) =
            l.built ++ if w = 0 then [] else [(rules, w)] := by
          rw [List.filter_append, Ledger.built, Option.toList_some, List.filter_singleton]
          simp
        rw [h.pool] at hc
        by_cases hw : w = 0
        · -- A failed build is no entry.
          rw [if_pos hw, List.append_nil] at hbuilt
          rw [if_pos (Or.inl hw)] at hc
          exact h.unchanged hc hp (congrArg (List.take wafCacheMax) hbuilt)
        rw [if_neg hw] at hbuilt
        by_cases hfull : wafCacheMax ≤ l.process.wafCache.length
        · rw [if_pos (Or.inr (Or.inl hfull))] at hc
          apply h.unchanged
          · exact hc
          · exact hp
          · have hlen := congrArg List.length h.entries
            rw [List.length_map, List.length_take] at hlen
            rw [Ledger.built, hbuilt, List.take_append_of_le_length (by omega)]
        · rw [if_neg (by simp [hw, hfull])] at hc
          exact h.added (Nat.lt_of_not_le hfull) hmiss hc hp hbuilt
    · exact h

/-- Every run keeps it. -/
theorem run (h : CacheCoherent l) (lib : WafLib) (ops : List CacheOp) :
    CacheCoherent (ops.foldl (Ledger.step lib) l) := by
  induction ops generalizing l with
  | nil => exact h
  | cons op ops ih => exact ih (h.step lib op)

end CacheCoherent

/-- Every entry is the handle of a successful build of its own list, no list is there twice, a
lookup finds exactly what is there, and a list is not built again before the cache is full. -/
theorem wafCache_correct (conf : StaticConf) (env : ConfigEnv) (lib : WafLib)
    (servers : List ServerRec) (p : Process) (hload : conf.load env = .ok (servers, p))
    (ops : List CacheOp) (l : Ledger)
    (hrun : l = ops.foldl (Ledger.step lib) (.start (p.corazaChildInit lib true servers))) :
    (∀ e ∈ l.process.wafCache, e.waf ≠ 0 ∧ (e.rules, e.waf) ∈ l.calls) ∧
      (l.process.wafCache.map WafCacheEntry.rules).Nodup ∧
      l.process.wafCache.length ≤ wafCacheMax ∧
      (∀ rules, wafCacheFind l.process.wafCache (rulesHash rules) rules ≠ 0 ↔
        ∃ e ∈ l.process.wafCache, e.rules = rules) ∧
      (∀ e ∈ l.process.wafCache,
        wafCacheFind l.process.wafCache (rulesHash e.rules) e.rules = e.waf) ∧
      (l.process.wafCache.length < wafCacheMax →
        (l.built.map Prod.fst).Nodup ∧
          ∀ d < l.process.dirConfs.size, ∀ rules w, l.process.buildCall lib d = some (rules, w) →
            ∀ w', w' ≠ 0 → (rules, w') ∉ l.calls) := by
  obtain ⟨hc, hp⟩ := p.cache_childInit lib servers
  have h : CacheCoherent l := by
    rw [hrun]
    exact (CacheCoherent.start (hc.trans (StaticConf.wafCache_load hload)) hp).run lib ops
  refine ⟨fun e he ↦ h.mem_calls he, h.distinct, h.length_le, h.find_ne_zero_iff,
    fun e he ↦ h.find_eq he, fun hlt ↦ ⟨?_, ?_⟩⟩
  · rw [← h.entries_of_lt hlt, List.map_map]
    exact h.distinct
  · intro d hd rules w hb w' hw'
    exact h.not_mem_calls hlt (Process.lockedSection_of_some hd hb).1 hw'

/-- Two requests with policies of the same hash, after some merges of their own. -/
def collidingPolicies : List CacheOp :=
  [.others (Process.ofSections [[inlineRule "ab"], [inlineRule "bA"]]), .locked 0, .locked 1]

/-- The second of the two policies is not served with the handle of the first. -/
theorem wafCache_correct_colliding :
    rulesHash [inlineRule "ab"] = rulesHash [inlineRule "bA"] ∧
      ∃ servers p l, mainRuleAndSection.load plainEnv = .ok (servers, p) ∧
        l = collidingPolicies.foldl (Ledger.step acceptingLib)
          (.start (p.corazaChildInit acceptingLib true servers)) ∧
        l.process.wafCache.map WafCacheEntry.rules = [[inlineRule "ab"], [inlineRule "bA"]] ∧
        (l.built.map Prod.fst).Nodup ∧
        ∀ e ∈ l.process.wafCache,
          wafCacheFind l.process.wafCache (rulesHash e.rules) e.rules = e.waf := by
  refine ⟨by decide, _, _, _, rfl, rfl, rfl, ?_⟩
  obtain ⟨-, -, -, -, hfind, hbuilt⟩ := wafCache_correct mainRuleAndSection plainEnv acceptingLib
    _ _ rfl collidingPolicies _ rfl
  exact ⟨(hbuilt (by decide)).1, hfind⟩

end CorazaApache.Config
