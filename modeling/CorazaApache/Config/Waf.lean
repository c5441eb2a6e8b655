import CorazaApache.Config.DirConf

/-!
# Building, caching and choosing the WAF of a transaction

`src/mod_coraza.c:107–155,376–472,1074–1150`. A handle for a `dir_conf` with rules is
looked for on the section it was merged from, then in the content cache, and is built
last. The lookups and the build run as one step, under `g_waf_build_mutex`.
-/

namespace CorazaApache.Config
open CorazaApache.Base

/-- Hand one entry to the engine configuration; `src/mod_coraza.c:1114–1130`. -/
def addRule (b : WafBuild) (i : Nat) (e : CorazaRuleEntry) : Int :=
  match e.type with
  | .inline => b.rulesAdd i
  | .file => b.rulesAddFile i

/-- The replay loop of `coraza_build_waf`: what the engine configuration has been given when
every entry was accepted; `src/mod_coraza.c:1104–1132`. -/
def addRules (b : WafBuild) : Nat → RuleList → RuleList → Option RuleList
  | _, given, [] => some given
  | i, given, e :: es =>
    if !b.strdup i then none
    else if addRule b i e < 0 then none
    else addRules b (i + 1) (given ++ [e]) es

/-- The call of `coraza_new_waf` a build makes, if it gets there: the handle returned and the
rules the configuration had been given. -/
def newWafCall (b : WafBuild) (rules : RuleList) : Option (Nat × RuleList) :=
  if b.config = 0 then none else (addRules b 0 [] rules).map fun given ↦ (b.waf, given)

/-- The value of `coraza_build_waf` when the engine answers `b`; `src/mod_coraza.c:1083–1150`. -/
def corazaBuildWaf (b : WafBuild) (rules : RuleList) : Nat :=
  if rules.length = 0 then 0
  else
    match newWafCall b rules with
    | none => 0
    | some (waf, _) => waf

/-- `waf_cache_find`; `src/mod_coraza.c:107–119`. -/
def wafCacheFind (cache : List WafCacheEntry) (hash : UInt64) (rules : RuleList) : Nat :=
  match cache.find? (fun e ↦ e.hash == hash && rulesEqual e.rules rules) with
  | some e => e.waf
  | none => 0

namespace Process

/-- `coraza_new_waf` returned `waf` for a configuration that had been given `rules`. -/
def recordWaf (p : Process) (waf : Nat) (rules : RuleList) : Process :=
  if waf = 0 then p else { p with wafs := p.wafs ++ [(waf, rules)] }

/-- A call of `coraza_build_waf`; it reaches the engine only for a non-empty list. -/
def buildWaf (p : Process) (lib : WafLib) (rules : RuleList) : Nat × Process :=
  if rules.length = 0 then (0, p)
  else
    let b := lib.build p.builds
    let p := { p with builds := p.builds + 1 }
    (corazaBuildWaf b rules,
      match newWafCall b rules with
      | none => p
      | some (waf, given) => p.recordWaf waf given)

/-- `waf_cache_add`; `src/mod_coraza.c:121–155`. -/
def wafCacheAdd (p : Process) (hash : UInt64) (rules : RuleList) (waf : Nat) : Process :=
  if wafCacheMax ≤ p.wafCache.length then { p with wafCacheFullLogged := true }
  else if !p.wafCachePool then p
  else { p with wafCache := p.wafCache ++ [⟨hash, rules, waf⟩] }

/-- Write a handle back to the section a `dir_conf` was merged from, if there is one. -/
def setChildWaf (p : Process) (d w : Nat) : Process :=
  match (p.dirConfs.get d).mergeChild with
  | some c => p.setWaf c w
  | none => p

/-- Strategy 1, the `merge_child` re-check; `src/mod_coraza.c:407–410`. -/
def strategyMergeChild (p : Process) (d : Nat) : Process :=
  if p.wafOf d = 0 then
    match (p.dirConfs.get d).mergeChild with
    | some c => p.setWaf d (p.wafOf c)
    | none => p
  else p

/-- Strategy 2, the content cache; `src/mod_coraza.c:412–422`. -/
def strategyCache (p : Process) (d : Nat) : Process :=
  if p.wafOf d = 0 then
    let cached := wafCacheFind p.wafCache (rulesHash (p.rulesOf d)) (p.rulesOf d)
    if cached ≠ 0 then
      let p := p.setWaf d cached
      p.setChildWaf d (p.wafOf d)
    else p
  else p

/-- Strategy 3, a new build; a failed one is written back too. `src/mod_coraza.c:424–434`. -/
def strategyBuild (p : Process) (lib : WafLib) (d : Nat) : Process :=
  if p.wafOf d = 0 then
    let rules := p.rulesOf d
    let (waf, p) := p.buildWaf lib rules
    let p := p.setWaf d waf
    let p := if p.wafOf d ≠ 0 then p.wafCacheAdd (rulesHash rules) rules (p.wafOf d) else p
    p.setChildWaf d (p.wafOf d)
  else p

/-- The lazy build of `coraza_create_ctx`, under the mutex; `src/mod_coraza.c:400–437`. -/
def resolveWaf (p : Process) (lib : WafLib) (d : Nat) : Process :=
  let dcf := p.dirConfs.get d
  if dcf.waf = 0 ∧ dcf.hasRules ∧ 0 < (p.rulesOf d).length then
    ((p.strategyMergeChild d).strategyCache d).strategyBuild lib d
  else p

/-- The WAF the transaction is created on; `src/mod_coraza.c:439–440`. -/
def chosenWaf (p : Process) (d scf : Nat) : Nat :=
  if p.wafOf d ≠ 0 then p.wafOf d else (p.serverConfs.get scf).waf

/-- `coraza_create_ctx` on a request with `dir_conf` `d` and server conf `scf`: the handle of
the new context's transaction, or `none` for `NULL`; `src/mod_coraza.c:384–472`. -/
def corazaCreateCtx (p : Process) (lib : WafLib) (d scf : Nat) : Option Nat × Process :=
  let p := p.resolveWaf lib d
  let waf := p.chosenWaf d scf
  if waf = 0 then (none, p)
  else
    let handle := lib.newTransaction p.transactions.length
    let call := { waf := waf, id := (p.dirConfs.get d).transactionId, handle := handle }
    let p := { p with transactions := p.transactions ++ [call] }
    (if handle = 0 then none else some handle, p)

/-- A context is created only with a transaction handle that is not zero. -/
theorem corazaCreateCtx_ne_zero {p : Process} {lib : WafLib} {d scf handle : Nat}
    (h : (p.corazaCreateCtx lib d scf).1 = some handle) : handle ≠ 0 := by
  unfold corazaCreateCtx at h
  dsimp only at h
  split at h
  · cases h
  · split at h
    · cases h
    · next hz =>
      cases h
      exact hz

end Process

/-- A configuration that accepted every entry was given the whole list, in order. -/
theorem addRules_given (b : WafBuild) (i : Nat) (given rules result : RuleList)
    (h : addRules b i given rules = some result) : result = given ++ rules := by
  induction rules generalizing i given with
  | nil => simpa [addRules, eq_comm] using h
  | cons e es ih =>
    rw [addRules] at h
    split at h
    · cases h
    · split at h
      · cases h
      · rw [ih _ _ h, List.append_assoc, List.singleton_append]

/-- The handle a build returns was made from the list it was given. -/
theorem newWafCall_rules (b : WafBuild) (rules given : RuleList) (w : Nat)
    (h : newWafCall b rules = some (w, given)) : given = rules := by
  unfold newWafCall at h
  split at h
  · cases h
  · obtain ⟨g, hg, he⟩ := Option.map_eq_some_iff.mp h
    have hr := addRules_given b 0 [] rules g hg
    rw [List.nil_append] at hr
    rw [← hr]
    exact (congrArg Prod.snd he).symm

namespace Process

/-- A build advances the build counter and records the handle it returns, made from the list
it was given; it changes nothing else. -/
theorem buildWaf_snd (p : Process) (lib : WafLib) (rules : RuleList) :
    (p.buildWaf lib rules).2 =
      { p with
        builds := p.builds + if rules.length = 0 then 0 else 1
        wafs := if (p.buildWaf lib rules).1 = 0 then p.wafs
          else p.wafs ++ [((p.buildWaf lib rules).1, rules)] } := by
  unfold buildWaf
  split
  · rfl
  · next hl =>
    simp only [corazaBuildWaf, if_neg hl]
    cases hc : newWafCall (lib.build p.builds) rules with
    | none => rfl
    | some call =>
      obtain ⟨w, given⟩ := call
      have hg := newWafCall_rules _ _ _ _ hc
      subst hg
      simp only [recordWaf]
      split <;> rfl

/-- Writing the handle of `d` back to its section does not change the one on `d`. -/
theorem wafOf_setChildWaf_self (p : Process) (d : Nat) :
    (p.setChildWaf d (p.wafOf d)).wafOf d = p.wafOf d := by
  unfold setChildWaf
  split
  · rw [wafOf_setWaf]
    split <;> rfl
  · rfl

/-- A build writes no handle. -/
@[simp] theorem wafOf_buildWaf (p : Process) (lib : WafLib) (rules : RuleList) (o : Nat) :
    (p.buildWaf lib rules).2.wafOf o = p.wafOf o := by
  rw [buildWaf_snd]
  rfl

/-- Adding to the cache leaves the objects. -/
@[simp] theorem dirConfs_wafCacheAdd (p : Process) (hash : UInt64) (rules : RuleList) (w : Nat) :
    (p.wafCacheAdd hash rules w).dirConfs = p.dirConfs := by
  unfold wafCacheAdd
  split
  · rfl
  · split <;> rfl

/-- It builds nothing. -/
@[simp] theorem wafs_wafCacheAdd (p : Process) (hash : UInt64) (rules : RuleList) (w : Nat) :
    (p.wafCacheAdd hash rules w).wafs = p.wafs := by
  unfold wafCacheAdd
  split
  · rfl
  · split <;> rfl

/-- Adding to the cache adds at most the given entry. -/
theorem mem_wafCacheAdd (p : Process) (hash : UInt64) (rules : RuleList) (w : Nat)
    (e : WafCacheEntry) (h : e ∈ (p.wafCacheAdd hash rules w).wafCache) :
    e ∈ p.wafCache ∨ e = ⟨hash, rules, w⟩ := by
  unfold wafCacheAdd at h
  split at h
  · exact Or.inl h
  · split at h
    · exact Or.inl h
    · rcases List.mem_append.mp h with h | h
      · exact Or.inl h
      · exact Or.inr (List.mem_singleton.mp h)

end Process
end CorazaApache.Config
