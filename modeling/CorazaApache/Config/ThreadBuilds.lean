import Mathlib.Data.List.Induction
import CorazaApache.Config.Threads

/-!
# What the threads of a child build

A request that finds no handle looks again behind the mutex before it builds,
`src/mod_coraza.c:404–427`, so requests that arrive together for one `dir_conf` build it once, and
those for different objects with the same rules share the WAF through the cache.
-/

namespace CorazaApache.Config
open CorazaApache.Base

namespace Process

variable {lib : WafLib} {p q : Process} {d : Nat}

/-- The successful build of a completed section: its `dir_conf`, the rules, the handle. -/
def sectionBuild (lib : WafLib) (v : Process × (Nat ⊕ Unlocked)) : Option (Nat × RuleList × Nat) :=
  match v.2 with
  | .inl d => ((v.1.buildCall lib d).filter (·.2 ≠ 0)).map (d, ·)
  | .inr _ => none

private theorem sectionBuild_inl (lib : WafLib) (p : Process) (d : Nat) :
    sectionBuild lib (p, .inl d) =
    ((p.buildCall lib d).filter (·.2 ≠ 0)).map (d, ·) := rfl

/-- The successful builds of the completed sections. -/
def newWafs (lib : WafLib) (p : Process) (done : List (Nat ⊕ Unlocked)) :
    List (Nat × RuleList × Nat) :=
  (visits (complete lib) p done).filterMap (sectionBuild lib)

private theorem newWafs_concat (lib : WafLib) (p : Process) (done : List (Nat ⊕ Unlocked))
    (a : Nat ⊕ Unlocked) : newWafs lib p (done ++ [a]) =
      newWafs lib p done ++ (sectionBuild lib (done.foldl (complete lib) p, a)).toList := by
  rw [newWafs, newWafs, visits_append, List.filterMap_append]
  apply congrArg (_ ++ ·)
  rw [visits_cons, visits_nil, List.filterMap_cons]
  cases sectionBuild lib (done.foldl (complete lib) p, a) <;> rfl

/-- The section as a whole writes a handle only to an object without one. -/
theorem fills_lockedSection (lib : WafLib) (hd : p.isObject d = true) :
    Fills p (p.lockedSection lib d) := by
  have hsteps (k : Nat) : Fills p (afterSteps lib d p k).2 := by
    induction k with
    | zero =>
      rw [afterSteps_zero]
      exact Fills.refl p
    | succ k ih => exact ih.trans (fills_afterSteps lib hd k)
  have hwhole : p.lockedSection lib d = (afterSteps lib d p 8).2 := by
    rw [← whole_wafSections, afterSteps]
    rfl
  rw [hwhole]
  exact hsteps 8

/-- Without a build no handle is recorded. -/
theorem wafs_lockedSection_of_none (hd : d < p.dirConfs.size) (h : p.buildCall lib d = none) :
    (p.lockedSection lib d).wafs = p.wafs := by
  unfold buildCall at h
  dsimp only at h
  split at h
  · cases h
  · next hw =>
    rw [lockedSection, (engine_strategyBuild _ lib d).1, if_neg hw]
    exact (searched hd).wafs

/-- A build is made for an object without a handle; the handle is recorded, and the object has
it. -/
theorem wafs_lockedSection_of_some (hd : d < p.dirConfs.size) {rules : RuleList} {w : Nat}
    (h : p.buildCall lib d = some (rules, w)) :
    p.wafOf d = 0 ∧ (p.lockedSection lib d).wafOf d = w ∧
      (p.lockedSection lib d).wafs = if w = 0 then p.wafs else p.wafs ++ [(w, rules)] := by
  have hq := searched hd
  have hl := p.lookedUp hd
  obtain ⟨q, hlook⟩ : ∃ q, (p.strategyMergeChild d).strategyCache d = q := ⟨_, rfl⟩
  rw [hlook] at hq hl
  simp only [buildCall, hlook] at h
  split at h
  · next hz =>
    obtain ⟨rfl, rfl⟩ := Prod.mk.inj (Option.some.inj h)
    have hset : ((q.buildWaf lib (q.rulesOf d)).2.setWaf d
        (q.buildWaf lib (q.rulesOf d)).1).wafOf d = (q.buildWaf lib (q.rulesOf d)).1 := by
      have hsize : d < (q.buildWaf lib (q.rulesOf d)).2.dirConfs.size := by
        rw [buildWaf_snd]
        exact hl.size ▸ hd
      rw [wafOf_setWaf, if_pos ⟨rfl, hsize⟩]
    refine ⟨(hq.unset hz).1, ?_, ?_⟩
    · rw [lockedSection, hlook, strategyBuild, if_pos hz]
      dsimp only
      rw [wafOf_setChildWaf_self, hset]
      split
      · rw [wafOf, dirConfs_wafCacheAdd]
        exact hset
      · exact hset
    · rw [lockedSection, hlook, (engine_strategyBuild q lib d).1, if_pos hz, ← hq.wafs]
      exact congrArg wafs (buildWaf_snd q lib (q.rulesOf d))
  · cases h

end Process

/-- What the sections of a child that started in `p` have built. -/
structure BuiltOnce (p q : Process) (new : List (Nat × RuleList × Nat)) : Prop where
  recorded : q.wafs = p.wafs ++ new.map fun b ↦ (b.2.2, b.2.1)
  once : (new.map Prod.fst).Nodup
  stands : ∀ b ∈ new, b.2.2 ≠ 0 ∧ q.wafOf b.1 = b.2.2
  cache : CacheCoherent ⟨q, new.map Prod.snd⟩

namespace BuiltOnce

variable {lib : WafLib} {p q : Process} {new : List (Nat × RuleList × Nat)}

private theorem start (hc : p.wafCache = []) (hp : p.wafCachePool = true) : BuiltOnce p p [] where
  recorded := (List.append_nil _).symm
  once := List.nodup_nil
  stands b hb := by cases hb
  cache := CacheCoherent.start hc hp

/-- What is done without the mutex builds nothing. -/
theorem unlocked (h : BuiltOnce p q new) (e : Unlocked) : BuiltOnce p (q.unlocked e) new where
  recorded := (Process.beside_unlocked q e).wafs.trans h.recorded
  once := h.once
  stands b hb := by
    obtain ⟨hne, hw⟩ := h.stands b hb
    refine ⟨hne, ?_⟩
    rw [(Child.kept_unlocked q e).waf]
    · exact hw
    · rw [hw]
      exact hne
  cache := h.cache.unchanged (Process.beside_unlocked q e).cache
    (Process.beside_unlocked q e).pool rfl

/-- The builds are successful ones. -/
theorem built_eq (h : ∀ b ∈ new, b.2.2 ≠ 0) (q : Process) :
    Ledger.built ⟨q, new.map Prod.snd⟩ = new.map Prod.snd := by
  apply List.filter_eq_self.mpr
  intro c hc
  obtain ⟨b, hb, rfl⟩ := List.mem_map.mp hc
  exact decide_eq_true (h b hb)

/-- A section builds at most once, and only for an object that nothing was built for. -/
theorem lockedSection (h : BuiltOnce p q new) {d : Nat} (hd : q.isObject d = true) :
    BuiltOnce p (q.lockedSection lib d)
      (new ++ (Process.sectionBuild lib (q, .inl d)).toList) := by
  obtain ⟨hlt, -, -⟩ := Process.isObject_iff.mp hd
  have hfills := Process.fills_lockedSection lib hd
  have hstands : ∀ b ∈ new, b.2.2 ≠ 0 ∧ (q.lockedSection lib d).wafOf b.1 = b.2.2 := by
    intro b hb
    obtain ⟨hne, hw⟩ := h.stands b hb
    refine ⟨hne, ?_⟩
    rw [hfills.kept]
    · exact hw
    · rw [hw]
      exact hne
  have hstep := h.cache.step lib (.locked d)
  rw [Ledger.step, if_pos hlt] at hstep
  dsimp only at hstep
  -- Nothing is built, or the build fails: the records stay as they are.
  have hnone (hwafs : (q.lockedSection lib d).wafs = q.wafs)
      (hcalls : (q.buildCall lib d).toList.filter (·.2 ≠ 0) = []) :
      BuiltOnce p (q.lockedSection lib d) (new ++ []) := by
    rw [List.append_nil]
    refine ⟨hwafs.trans h.recorded, h.once, hstands, hstep.unchanged rfl rfl ?_⟩
    have hfilter := List.filter_append (p := (·.2 ≠ 0)) (new.map Prod.snd)
      (q.buildCall lib d).toList
    rw [hcalls, List.append_nil] at hfilter
    rw [Ledger.built, Ledger.built, hfilter]
  cases hcall : q.buildCall lib d with
  | none =>
    rw [hcall] at hnone
    rw [Process.sectionBuild_inl, hcall]
    exact hnone (Process.wafs_lockedSection_of_none hlt hcall) rfl
  | some call =>
    obtain ⟨rules, w⟩ := call
    obtain ⟨hz, hnew, hwafs⟩ := Process.wafs_lockedSection_of_some hlt hcall
    rw [hcall] at hnone hstep
    rw [Process.sectionBuild_inl, hcall]
    by_cases hw : w = 0
    · subst hw
      rw [if_pos rfl] at hwafs
      exact hnone hwafs rfl
    · rw [if_neg hw] at hwafs
      have hlist : (((some (rules, w)).filter (·.2 ≠ 0)).map (d, ·)).toList = [(d, rules, w)] := by
        simp [hw]
      rw [hlist]
      constructor
      · rw [hwafs, h.recorded, List.map_append, List.append_assoc]
        rfl
      · rw [List.map_append]
        apply h.once.append (List.nodup_singleton _)
        intro e he he'
        obtain ⟨b, hb, rfl⟩ := List.mem_map.mp he
        obtain ⟨hne, hwb⟩ := h.stands b hb
        have hbd : b.1 = d := List.mem_singleton.mp he'
        rw [hbd, hz] at hwb
        exact hne hwb.symm
      · intro b hb
        rcases List.mem_append.mp hb with hb | hb
        · exact hstands b hb
        · obtain rfl := List.mem_singleton.mp hb
          exact ⟨hw, hnew⟩
      · rw [List.map_append]
        exact hstep

/-- All of them, each entered with an object. -/
theorem all (h : BuiltOnce p p []) {done : List (Nat ⊕ Unlocked)}
    (hin : Sections.EnteredAll (Process.wafSections lib) (fun d q ↦ q.isObject d = true) p done) :
    BuiltOnce p (done.foldl (Process.complete lib) p) (Process.newWafs lib p done) := by
  induction done using List.reverseRecOn with
  | nil => exact h
  | append_singleton done a ih =>
    obtain ⟨hfront, hlast⟩ : Sections.EnteredAll (Process.wafSections lib)
        (fun d q ↦ q.isObject d = true) p done ∧
          ∀ d, a = .inl d → (done.foldl (Process.complete lib) p).isObject d = true := by
      rw [Child.complete_eq_atomic]
      unfold Sections.EnteredAll at hin ⊢
      rw [visits_append] at hin
      obtain ⟨hfirst, hlast⟩ := List.forall_mem_append.mp hin
      exact ⟨hfirst, hlast _ List.mem_cons_self⟩
    have hall := ih hfront
    rw [Process.newWafs_concat, List.foldl_append, List.foldl_cons, List.foldl_nil]
    cases a with
    | inl d => exact hall.lockedSection (hlast d rfl)
    | inr e =>
      rw [Process.sectionBuild, Option.toList_none, List.append_nil]
      exact hall.unlocked e

end BuiltOnce

/-- Whenever no thread is behind the mutex: what the engine has built since the child started is
what the sections have built, each for another `dir_conf` that has the handle, and until the cache
is full each of another rule list; the first of them are in the cache. -/
theorem threads_build_once (conf : StaticConf) (env : ConfigEnv) (lib : WafLib)
    (servers : List ServerRec) (p : Process) (hload : conf.load env = .ok (servers, p))
    (turns : List Turn) (s : Child)
    (hs : s = .reached lib (p.corazaChildInit lib true servers) turns)
    (hout : ∀ t, ¬ s.Within t) (new : List (Nat × RuleList × Nat))
    (hnew : new = (p.corazaChildInit lib true servers).newWafs lib s.shared.done) :
    s.process.wafs = (p.corazaChildInit lib true servers).wafs ++ new.map (fun b ↦ (b.2.2, b.2.1)) ∧
      (new.map Prod.fst).Nodup ∧ (∀ b ∈ new, b.2.2 ≠ 0 ∧ s.process.wafOf b.1 = b.2.2) ∧
      (s.process.wafCache.length < wafCacheMax → (new.map fun b ↦ b.2.1).Nodup) ∧
      s.process.wafCache.map (fun e ↦ (e.rules, e.waf)) = (new.map Prod.snd).take wafCacheMax := by
  subst hs
  obtain ⟨hc, hp⟩ := p.cache_childInit lib servers
  have hstart : BuiltOnce (p.corazaChildInit lib true servers) _ [] :=
    .start (hc.trans (StaticConf.wafCache_load hload)) hp
  have h := hstart.all (Child.orderly lib _ turns).serial.entered
  rw [← (Child.threads_serializable lib _ turns).2 hout, ← hnew] at h
  have hbuilt := BuiltOnce.built_eq (fun b hb ↦ (h.stands b hb).1)
    (Child.reached lib (p.corazaChildInit lib true servers) turns).process
  refine ⟨h.recorded, h.once, h.stands, fun hlt ↦ ?_, ?_⟩
  · have hentries := h.cache.entries_of_lt hlt
    rw [hbuilt] at hentries
    have hrules := congrArg (List.map Prod.fst) hentries
    rw [List.map_map, List.map_map] at hrules
    have hdistinct := h.cache.distinct
    exact hrules ▸ hdistinct
  · rw [← hbuilt]
    exact h.cache.entries

/-- Two threads create a context for objects with the same rules; the second waits for the mutex
while the first builds. -/
def sameRulesTwice : List Turn :=
  [.htaccess [inlineRule "a"] default, .htaccess [inlineRule "a"] default, .enter 7 2 0,
    .enter 8 3 0, .run 7, .run 8, .run 7, .run 8] ++ List.replicate 13 (.run 7) ++
      List.replicate 14 (.run 8)

/-- There is one build for the two. -/
theorem threads_build_once_same_rules :
    ∃ servers p, ∃ s : Child, mainRuleAndSection.load plainEnv = .ok (servers, p) ∧
      s = Child.reached acceptingLib (p.corazaChildInit acceptingLib true servers) sameRulesTwice ∧
      s.process.wafOf 2 = 3 ∧ s.process.wafOf 3 = 3 ∧
      ((p.corazaChildInit acceptingLib true servers).newWafs acceptingLib
        s.shared.done).length = 1 ∧
      s.process.wafs = (p.corazaChildInit acceptingLib true servers).wafs ++
        ((p.corazaChildInit acceptingLib true servers).newWafs acceptingLib s.shared.done).map
          fun b ↦ (b.2.2, b.2.1) := by
  refine ⟨_, _, _, rfl, rfl, by decide, by decide, by decide, ?_⟩
  exact (threads_build_once mainRuleAndSection plainEnv acceptingLib _ _ rfl sameRulesTwice _ rfl
    ((Child.orderly acceptingLib _ sameRulesTwice).free rfl) _ rfl).1

end CorazaApache.Config
