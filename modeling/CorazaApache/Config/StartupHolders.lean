import CorazaApache.Base.Registers
import CorazaApache.Config.Holders

/-!
# The WAFs a child starts with

Step 2 of `coraza_child_init` makes a build for every server, also where several share the conf
of the main one: the conf is written in each round, its base `dir_conf` only in the first that has
a handle, and nothing is freed in between. So a handle that a later round overwrites is still
held if it was the first one to reach the base, and lost otherwise;
`src/mod_coraza.c:1183–1228`.
-/

namespace CorazaApache.Config
open CorazaApache.Base

/-- The conf of the `k`-th server. -/
def confAt (servers : List ServerRec) (k : Nat) : Option Nat :=
  servers[k]?.bind ServerRec.moduleConfig

/-- The base `dir_conf` of the `k`-th server. -/
def baseAt (servers : List ServerRec) (k : Nat) : Option Nat :=
  servers[k]?.bind ServerRec.lookupDefaults

/-- What the `k`-th build stores in the server conf `c` it is made for, if anything. -/
def Process.serverHandle (p : Process) (lib : WafLib) (c k : Nat) : Option Nat :=
  if 0 < (p.serverRulesOf c).length then some (corazaBuildWaf (lib.build k) (p.serverRulesOf c))
  else emptyWaf (lib.build k)

section

variable (lib : WafLib) (p : Process) (servers : List ServerRec)

/-- What the round of the `k`-th server stores in its conf, if anything. -/
def roundHandle (k : Nat) : Option Nat :=
  (confAt servers k).bind fun c ↦ p.serverHandle lib c k

/-- The handle on the conf of the `k`-th server after its round. -/
def roundAnswer (k : Nat) : Nat :=
  match confAt servers k with
  | some c => lastWrite (confAt servers) (roundHandle lib p servers) 0 c (k + 1)
  | none => 0

/-- Round `j` overwrites the handle that round `k` stored in the same conf. -/
def Overwrites (k j : Nat) : Prop :=
  confAt servers j = confAt servers k ∧ (roundHandle lib p servers k).getD 0 ≠ 0 ∧
    roundHandle lib p servers j ≠ none

/-- No round before the `k`-th has a handle for the base `dir_conf` of its server. -/
def FirstForBase (k : Nat) : Prop :=
  ∀ i < k, baseAt servers i = baseAt servers k → (roundHandle lib p servers i).getD 0 = 0

/-- A conf that several servers share loses no handle: one that a later round overwrites is the
first one for its base, and stays there. -/
def SharedConfsKept : Prop :=
  ∀ j < servers.length, ∀ k < j, Overwrites lib p servers k j → FirstForBase lib p servers k

instance (k j : Nat) : Decidable (Overwrites lib p servers k j) :=
  inferInstanceAs (Decidable (_ ∧ _ ∧ _))

instance (k : Nat) : Decidable (FirstForBase lib p servers k) :=
  inferInstanceAs (Decidable (∀ i < k, _ → _))

instance : Decidable (SharedConfsKept lib p servers) :=
  inferInstanceAs (Decidable (∀ j < servers.length, ∀ k < j,
    Overwrites lib p servers k j → FirstForBase lib p servers k))

/-- The state of step 2 after `n` rounds: confs keep the last handle, bases the first. -/
structure Rounds (n : Nat) (q : Process) : Prop where
  boot : p.Booting q
  builds : q.builds = n
  server : ∀ c, q.serverWafOf c =
    lastWrite (confAt servers) (roundHandle lib p servers) 0 c n
  dir : ∀ d, q.wafOf d = firstWrite (baseAt servers) (roundAnswer lib p servers) 0 d n
  wafs : ∀ x ∈ q.wafs, x.1 ≠ 0 ∧ ∃ k < n, roundHandle lib p servers k = some x.1

end

namespace Process

private theorem serverAnswer_eq (lib : WafLib) (q : Process) (c : Nat) :
    q.serverAnswer lib c = (q.serverHandle lib c q.builds).getD (q.serverWafOf c) := by
  unfold serverAnswer serverHandle
  split <;> rfl

private theorem wafs_buildServerWaf (lib : WafLib) (q : Process) (c : Nat) :
    (q.buildServerWaf lib c).wafs =
      if (q.serverHandle lib c q.builds).getD 0 = 0 then q.wafs
      else q.wafs ++ [((q.serverHandle lib c q.builds).getD 0, q.serverRulesOf c)] := by
  unfold buildServerWaf serverHandle
  split
  · next hl =>
    rw [buildWaf_of_ne_nil q lib hl]
    rfl
  · next hl =>
    have hnil : q.serverRulesOf c = [] := List.length_eq_zero_iff.mp (Nat.eq_zero_of_not_pos hl)
    rw [buildEmptyWaf_eq, hnil]
    cases emptyWaf (lib.build q.builds) with
    | none => rfl
    | some w => rfl

private theorem wafs_initServer {lib : WafLib} {q : Process} {c d : Nat}
    (hc : c < q.serverConfs.size) :
    (q.initServer lib ⟨some c, some d⟩).wafs =
      if (q.serverHandle lib c q.builds).getD 0 = 0 then q.wafs
      else q.wafs ++ [((q.serverHandle lib c q.builds).getD 0, q.serverRulesOf c)] := by
  rw [initServer_eq lib q hc, ← wafs_buildServerWaf]
  split <;> rfl

end Process

section

variable {lib : WafLib} {p q : Process} {servers : List ServerRec} {s b : Nat}

/-- One round of step 2. -/
theorem Rounds.step (h : Ready s b servers p) {n : Nat} (hr : Rounds lib p servers n q)
    {sv : ServerRec} (hsv : servers[n]? = some sv) :
    Rounds lib p servers (n + 1) (q.initServer lib sv) := by
  obtain ⟨c, d, rfl, hc, hd, -⟩ := h.kinds sv (List.mem_of_getElem? hsv)
  have hc' : c < q.serverConfs.size := by rw [hr.boot.serverSize]; exact hc
  have hd' : d < q.dirConfs.size := by rw [hr.boot.size]; exact hd
  have hconf : confAt servers n = some c := by rw [confAt, hsv]; rfl
  have hbase : baseAt servers n = some d := by rw [baseAt, hsv]; rfl
  have hhandle : q.serverHandle lib c q.builds = roundHandle lib p servers n := by
    rw [roundHandle, hconf, Option.bind_some, Process.serverHandle, Process.serverHandle,
      hr.boot.serverRules, hr.builds]
  have hanswer : q.serverAnswer lib c = roundAnswer lib p servers n := by
    rw [Process.serverAnswer_eq, hhandle, hr.server, roundAnswer, hconf]
    dsimp only
    rw [lastWrite, if_pos hconf]
  refine ⟨hr.boot.trans (Process.booting_initServer hc'), ?_, fun e ↦ ?_, fun e ↦ ?_,
    fun x hx ↦ ?_⟩
  · rw [Process.builds_initServer hc', hr.builds]
  · rw [Process.serverWafOf_initServer hc', lastWrite, hconf, ← hr.server]
    by_cases he : e = c
    · subst he
      rw [if_pos rfl, if_pos rfl, Process.serverAnswer_eq, hhandle]
    · rw [if_neg he, if_neg (fun hn ↦ he (Option.some.inj hn).symm)]
  · rw [Process.wafOf_initServer hc' hd', firstWrite, hbase, hanswer, ← hr.dir]
    by_cases he : e = d
    · subst he
      by_cases h0 : q.wafOf e = 0
      · by_cases ha : roundAnswer lib p servers n = 0
        · rw [if_neg (fun hn ↦ hn.2.1 ha), if_pos ⟨rfl, h0⟩, ha, h0]
        · rw [if_pos ⟨rfl, ha, h0⟩, if_pos ⟨rfl, h0⟩]
      · rw [if_neg (fun hn ↦ h0 hn.2.2), if_neg (fun hn ↦ h0 hn.2)]
    · rw [if_neg (fun hn ↦ he hn.1), if_neg (fun hn ↦ he (Option.some.inj hn.1).symm)]
  · rw [Process.wafs_initServer hc', hhandle] at hx
    have hold (hx : x ∈ q.wafs) :
        x.1 ≠ 0 ∧ ∃ k < n + 1, roundHandle lib p servers k = some x.1 := by
      obtain ⟨hne, k, hk, hw⟩ := hr.wafs x hx
      exact ⟨hne, k, Nat.lt_succ_of_lt hk, hw⟩
    split at hx
    · exact hold hx
    · next h0 =>
      rcases List.mem_append.mp hx with hx | hx
      · exact hold hx
      · rw [List.mem_singleton.mp hx]
        refine ⟨h0, n, Nat.lt_succ_self n, ?_⟩
        cases hw : roundHandle lib p servers n with
        | none => rw [hw] at h0; exact absurd rfl h0
        | some w => rfl

/-- Step 2 as a whole. -/
theorem Ready.rounds (h : Ready s b servers p) :
    Rounds lib p servers servers.length (servers.foldl (Process.initServer lib)
      { p with wafCachePool := true }) := by
  suffices ∀ done rest q, servers = done ++ rest → Rounds lib p servers done.length q →
      Rounds lib p servers servers.length (rest.foldl (Process.initServer lib) q) by
    have hserv : Serving lib p servers s b [] servers _ := h.serving
    refine this [] servers _ rfl ⟨hserv.boot, h.mergeable.noWafs.builds, ?_, ?_, ?_⟩
    · exact h.mergeable.noWafs.server
    · exact h.mergeable.noWafs.dir
    · intro x hx
      rw [show ({ p with wafCachePool := true } : Process).wafs = [] from
        h.mergeable.noWafs.wafs] at hx
      cases hx
  intro done rest
  induction rest generalizing done with
  | nil =>
    intro q hl hq
    rw [congrArg List.length hl, List.append_nil]
    exact hq
  | cons sv rest ih =>
    intro q hl hq
    have hsv : servers[done.length]? = some sv := by
      rw [hl, List.getElem?_append_right (Nat.le_refl _), Nat.sub_self]
      rfl
    apply ih (done ++ [sv])
    · rw [hl, List.append_assoc, List.singleton_append]
    · rw [List.length_append, List.length_singleton]
      exact Rounds.step h hq hsv

/-! ### After step 2 -/

/-- Where two servers share a conf, it is the main one, and both share its base. -/
def SharedBase (servers : List ServerRec) (b : Nat) : Prop :=
  ∀ i j, i ≠ j → ∀ c, confAt servers i = some c → confAt servers j = some c →
    baseAt servers i = some b

/-- A base that no earlier round had a handle for is given the one of this round. -/
theorem roundAnswer_eq_zero (hb : SharedBase servers b) {d n : Nat}
    (h : ∀ i < n, baseAt servers i = some d → (roundHandle lib p servers i).getD 0 = 0) {i : Nat}
    (hi : i < n) (hbase : baseAt servers i = some d) : roundAnswer lib p servers i = 0 := by
  unfold roundAnswer
  cases hc : confAt servers i with
  | none => rfl
  | some c =>
    dsimp only
    by_contra hne
    obtain ⟨k, hk, hck, hw⟩ := exists_of_lastWrite_ne hne
    -- The handle comes from round `i` itself or from an earlier one for the same conf and base.
    have hbk : baseAt servers k = some d := by
      by_cases hki : k = i
      · rw [hki]
        exact hbase
      · rw [hb k i hki c hck hc, ← hb i k (Ne.symm hki) c hc hck]
        exact hbase
    have hzero := h k (by omega) hbk
    rw [hw, Option.getD_some] at hzero
    exact hne hzero

/-- After step 2 every handle is on a conf or on the base of the main server. -/
theorem Rounds.held (hr : Rounds lib p servers servers.length q) (hb : SharedBase servers b)
    (hkept : SharedConfsKept lib p servers) {x : Nat × RuleList} (hx : x ∈ q.wafs) :
    x.1 ≠ 0 ∧ ((∃ k c, confAt servers k = some c ∧ q.serverWafOf c = x.1) ∨ q.wafOf b = x.1) := by
  obtain ⟨hne, k, hk, hw⟩ := hr.wafs x hx
  refine ⟨hne, ?_⟩
  cases hc : confAt servers k with
  | none =>
    rw [roundHandle, hc] at hw
    cases hw
  | some c =>
    by_cases hlast : ∀ j, k < j → j < servers.length → confAt servers j = some c →
        roundHandle lib p servers j = none
    · left
      refine ⟨k, c, hc, ?_⟩
      rw [hr.server]
      exact lastWrite_eq_of_last hk hc hw hlast
    · right
      push Not at hlast
      obtain ⟨j, hkj, hj, hcj, hwj⟩ := hlast
      have hbk := hb k j (Nat.ne_of_lt hkj) c hc hcj
      have hgot : (roundHandle lib p servers k).getD 0 ≠ 0 := by
        rw [hw]
        exact hne
      have hfirst := hkept j hj k hkj ⟨hcj.trans hc.symm, hgot, hwj⟩
      rw [FirstForBase, hbk] at hfirst
      have hanswer : roundAnswer lib p servers k = x.1 := by
        rw [roundAnswer, hc]
        dsimp only
        rw [lastWrite, if_pos hc, hw, Option.getD_some]
      rw [hr.dir, firstWrite_eq_of_first hk hbk]
      · exact hanswer
      · rw [hanswer]
        exact hne
      · intro i hi hbi
        exact roundAnswer_eq_zero hb hfirst hi hbi

end

/-! ### Step 3 -/

namespace Process

/-- The state of step 3 once the objects of `done` have had their round: nothing was written
elsewhere, and what was built stands on one of them. -/
structure Tracked (p : Process) (done : List Nat) (q : Process) : Prop where
  servers : q.serverConfs = p.serverConfs
  size : q.dirConfs.size = p.dirConfs.size
  elsewhere : ∀ d ∉ done, q.wafOf d = p.wafOf d
  wafs : ∀ x ∈ q.wafs, x ∈ p.wafs ∨ x.1 ≠ 0 ∧ ∃ d ∈ done, q.wafOf d = x.1

variable {p q : Process} {lib : WafLib}

/-- A handle is stored on an object that has not had its round. -/
theorem Tracked.store {done : List Nat} (h : Tracked p done q) {r : Process} {d w : Nat}
    (hnew : d ∉ done) (hd : d < p.dirConfs.size) (hdirs : r.dirConfs = q.dirConfs)
    (hservers : r.serverConfs = q.serverConfs)
    (hwafs : ∀ x ∈ r.wafs, x ∈ q.wafs ∨ x.1 ≠ 0 ∧ x.1 = w) :
    Tracked p (done ++ [d]) (r.setWaf d w) := by
  have hget (e : Nat) : (r.setWaf d w).wafOf e = if e = d then w else q.wafOf e := by
    rw [wafOf_setWaf, hdirs, h.size]
    by_cases he : e = d
    · subst he
      rw [if_pos ⟨rfl, hd⟩, if_pos rfl]
    · rw [if_neg (fun hn ↦ he hn.1.symm), if_neg he, wafOf, hdirs, wafOf]
  refine ⟨hservers.trans h.servers, ?_, fun e he ↦ ?_, fun x hx ↦ ?_⟩
  · rw [size_setWaf, hdirs, h.size]
  · rw [List.mem_append, not_or, List.mem_singleton] at he
    rw [hget, if_neg he.2]
    exact h.elsewhere e he.1
  · rcases hwafs x hx with hx | ⟨hne, hw⟩
    · apply (h.wafs x hx).imp_right
      rintro ⟨hne, e, he, hwe⟩
      have hed : e ≠ d := by
        rintro rfl
        exact hnew he
      refine ⟨hne, e, List.mem_append_left _ he, ?_⟩
      rw [hget, if_neg hed]
      exact hwe
    · right
      refine ⟨hne, d, List.mem_append_right _ (List.mem_singleton.mpr rfl), ?_⟩
      rw [hget, if_pos rfl]
      exact hw.symm

private theorem Tracked.step {done : List Nat} (h : Tracked p done q) {d : Nat} (hnew : d ∉ done)
    (hd : d < p.dirConfs.size) : Tracked p (done ++ [d]) (q.initTracked lib done d) := by
  unfold initTracked
  dsimp only
  split
  · refine ⟨h.servers, h.size, fun e he ↦ ?_, fun x hx ↦ ?_⟩
    · rw [List.mem_append, not_or] at he
      exact h.elsewhere e he.1
    · apply (h.wafs x hx).imp_right
      rintro ⟨hne, e, he, hw⟩
      exact ⟨hne, e, List.mem_append_left _ he, hw⟩
  · split
    · exact h.store hnew hd rfl rfl fun x hx ↦ Or.inl hx
    · rw [buildWaf_snd]
      apply h.store hnew hd
      · rfl
      · rfl
      · intro x hx
        dsimp only at hx
        split at hx
        · exact Or.inl hx
        · next h0 =>
          apply (List.mem_append.mp hx).imp_right
          intro hx
          rw [List.mem_singleton.mp hx]
          exact ⟨h0, rfl⟩

/-- All tracked objects are initialised. -/
theorem Tracked.all {done rest : List Nat} (h : Tracked p done q)
    (hnodup : (done ++ rest).Nodup) (hlt : ∀ d ∈ rest, d < p.dirConfs.size) :
    Tracked p (done ++ rest) (initTrackedFrom lib q done rest) := by
  induction rest generalizing done q with
  | nil =>
    rw [List.append_nil]
    exact h
  | cons d rest ih =>
    have hnew : d ∉ done := by
      intro hmem
      exact (List.nodup_append.mp hnodup).2.2 d hmem d List.mem_cons_self rfl
    obtain ⟨hd, hrest⟩ := List.forall_mem_cons.mp hlt
    rw [← List.singleton_append, ← List.append_assoc] at hnodup ⊢
    exact ih (h.step hnew hd) hnodup hrest

end Process

/-! ### Configurations -/

namespace Startup

/-- A server has a conf as soon as one of its scopes has a `dir_conf`. -/
def WithConfs (st : Startup) : Prop :=
  ∀ slot, (st.dirVector slot).isSome → (st.moduleConfig slot.1).isSome

private theorem withConfs_init : WithConfs init := by
  intro slot h
  simp only [init] at h ⊢
  split at h
  · next hs =>
    rw [hs]
    rfl
  · cases h

private theorem WithConfs.readDirective {st st' : Startup} (h : WithConfs st) {env : ConfigEnv}
    {d : PlacedDirective} (hread : st.readDirective env d = .ok st') : WithConfs st' := by
  have hdir : ∀ slot, ((st.ensureDirConf (d.server, d.scope)).2.dirVector slot).isSome →
      slot = (d.server, d.scope) ∨ (st.moduleConfig slot.1).isSome := by
    intro slot hs
    unfold ensureDirConf at hs
    split at hs
    · exact Or.inr (h slot hs)
    · dsimp only at hs
      split at hs
      · next he => exact Or.inl he
      · exact Or.inr (h slot hs)
  have hkeep : (st.ensureDirConf (d.server, d.scope)).2.moduleConfig = st.moduleConfig := by
    unfold ensureDirConf
    split <;> rfl
  have hserver (u : Startup) : (u.ensureServerConf d.server).2.dirVector = u.dirVector ∧
      ∀ i, i = d.server ∨ (u.moduleConfig i).isSome →
        ((u.ensureServerConf d.server).2.moduleConfig i).isSome := by
    unfold ensureServerConf
    split
    · next c hc =>
      refine ⟨rfl, fun i hi ↦ ?_⟩
      rcases hi with rfl | hi
      · dsimp only
        rw [hc]
        rfl
      · exact hi
    · refine ⟨rfl, fun i hi ↦ ?_⟩
      dsimp only
      split
      · rfl
      · next hne => exact hi.resolve_left hne
  unfold Startup.readDirective at hread
  dsimp only at hread
  split at hread
  · cases hread
  · cases hread
    intro slot hs
    obtain ⟨hvec, hconf⟩ := hserver (st.ensureDirConf (d.server, d.scope)).2
    apply hconf
    rw [hkeep]
    dsimp only at hs
    rw [hvec] at hs
    exact (hdir slot hs).imp_left fun he ↦ by rw [he]

private theorem WithConfs.readDirectives {st st' : Startup} (h : WithConfs st) {env : ConfigEnv}
    {ds : List PlacedDirective} (hread : st.readDirectives env ds = .ok st') : WithConfs st' := by
  induction ds generalizing st with
  | nil =>
    cases hread
    exact h
  | cons d ds ih =>
    rw [Startup.readDirectives] at hread
    split at hread
    · cases hread
    · next st₁ h₁ => exact ih (h.readDirective h₁) hread

end Startup

/-- A virtual host that gets the main conf also gets the main base. -/
theorem base_of_fixupVirtualHosts {s b : Nat} (virts : List ServerRec) (p : Process)
    (hv : ∀ v ∈ virts, v.moduleConfig ≠ some s ∧
      (v.moduleConfig = none → v.lookupDefaults = none)) :
    ∀ sv ∈ (fixupVirtualHosts ⟨some s, some b⟩ p virts).1, sv.moduleConfig = some s →
      sv.lookupDefaults = some b := by
  induction virts generalizing p with
  | nil => exact fun sv hsv ↦ nomatch hsv
  | cons v virts ih =>
    obtain ⟨hhead, hrest⟩ := List.forall_mem_cons.mp hv
    rw [fixupVirtualHosts]
    dsimp only
    refine List.forall_mem_cons.mpr ⟨fun hs ↦ ?_, ih _ hrest⟩
    cases hc : v.moduleConfig with
    | none => simp [fixupVirtualHost, hhead.2 hc]
    | some c =>
      exfalso
      apply hhead.1
      rw [hc]
      revert hs
      unfold fixupVirtualHost
      rw [hc]
      split <;> exact id

/-- What merges track is new. -/
theorem tracked_fixupVirtualHosts (main : ServerRec) (virts : List ServerRec) {p : Process}
    (h : (p.trackedDirConfs.getD []).Nodup ∧
      ∀ d ∈ p.trackedDirConfs.getD [], d < p.dirConfs.size) :
    ((fixupVirtualHosts main p virts).2.trackedDirConfs.getD []).Nodup := by
  induction virts generalizing p with
  | nil => exact h.1
  | cons v virts ih =>
    rw [fixupVirtualHosts]
    dsimp only
    apply ih
    unfold fixupVirtualHost
    dsimp only
    split
    · next b d _ _ =>
      show ((p.corazaMergeDirConf b d).2.trackedDirConfs.getD []).Nodup ∧
        ∀ e ∈ (p.corazaMergeDirConf b d).2.trackedDirConfs.getD [],
          e < (p.corazaMergeDirConf b d).2.dirConfs.size
      rw [Process.size_merge]
      cases ht : p.trackedDirConfs with
      | none => simp [Process.corazaMergeDirConf, ht]
      | some l =>
        rw [ht, Option.getD_some] at h
        have htr : (p.corazaMergeDirConf b d).2.trackedDirConfs =
            some (l ++ [p.dirConfs.size]) := by
          simp [Process.corazaMergeDirConf, ht]
        rw [htr, Option.getD_some]
        constructor
        · rw [List.nodup_append]
          refine ⟨h.1, List.nodup_singleton _, fun e he e' he' ↦ ?_⟩
          rw [List.mem_singleton.mp he']
          exact Nat.ne_of_lt (h.2 e he)
        · intro e he
          rcases List.mem_append.mp he with he | he
          · exact Nat.lt_succ_of_lt (h.2 e he)
          · rw [List.mem_singleton.mp he]
            exact Nat.lt_succ_self _
    · exact h

/-- What `coraza_child_init` is called with, also as to sharing. -/
structure Startable (s b : Nat) (servers : List ServerRec) (p : Process) : Prop
    extends Ready s b servers p where
  base : ∀ sv ∈ servers, sv.moduleConfig = some s → sv.lookupDefaults = some b
  tracked : (p.trackedDirConfs.getD []).Nodup

/-- A configuration that was read can be started. -/
theorem startable_of_load {conf : StaticConf} {env : ConfigEnv} {servers : List ServerRec}
    {p : Process} (hl : conf.load env = .ok (servers, p)) : ∃ s b, Startable s b servers p := by
  obtain ⟨s, b, h⟩ := Startup.ready_of_load hl
  have hmain := h.main
  obtain ⟨st, hst, heq⟩ := StaticConf.exists_of_load hl
  have hr : Startup.Reading st := Startup.reading_init.readDirectives hst
  have hconfs : Startup.WithConfs st := Startup.withConfs_init.readDirectives hst
  cases heq
  rw [List.head?_cons, Option.some_inj] at hmain
  rw [hmain] at h ⊢
  refine ⟨s, b, h, List.forall_mem_cons.mpr ⟨fun _ ↦ rfl, ?_⟩, ?_⟩
  · apply base_of_fixupVirtualHosts
    intro v hv
    obtain ⟨i, -, rfl⟩ := List.mem_map.mp hv
    constructor
    · intro hi
      have hs : st.moduleConfig 0 = some s := congrArg ServerRec.moduleConfig hmain
      exact absurd (hr.confInj (i + 1) 0 s hi hs) (Nat.succ_ne_zero i)
    · intro hnone
      by_contra hsome
      have hconf := hconfs (i + 1, none) (Option.isSome_iff_ne_none.mpr hsome)
      rw [show st.moduleConfig (i + 1) = none from hnone] at hconf
      cases hconf
  · apply tracked_fixupVirtualHosts
    rw [hr.tracker, Option.getD_some]
    exact ⟨List.nodup_nil, fun d hd ↦ nomatch hd⟩

namespace Startable

variable {s b : Nat} {servers : List ServerRec} {p : Process}

private theorem sharedBase (h : Startable s b servers p) : SharedBase servers b := by
  intro i j hij c hi hj
  obtain ⟨sv, hsv, hc⟩ := Option.bind_eq_some_iff.mp hi
  obtain ⟨sv', hsv', hc'⟩ := Option.bind_eq_some_iff.mp hj
  obtain ⟨hilt, rfl⟩ := List.getElem?_eq_some_iff.mp hsv
  obtain ⟨hjlt, rfl⟩ := List.getElem?_eq_some_iff.mp hsv'
  have hmain : servers[i].moduleConfig = some s := by
    have hpair := List.pairwise_iff_getElem.mp h.distinct
    rcases Nat.lt_or_gt_of_ne hij with hlt | hlt
    · exact hpair i j hilt hjlt hlt (hc.trans hc'.symm)
    · exact (hc.trans hc'.symm).trans (hpair j i hjlt hilt hlt (hc'.trans hc.symm))
  rw [baseAt, hsv, Option.bind_some]
  exact h.base _ (List.getElem_mem hilt) hmain

/-- Every handle is held when the child begins to serve. -/
theorem held (h : Startable s b servers p) (lib : WafLib) (loaded : Bool)
    (hkept : loaded = true → SharedConfsKept lib p servers) :
    Process.Held p.dirConfs.size (p.corazaChildInit lib loaded servers) := by
  cases loaded with
  | false =>
    refine ⟨Nat.le_refl _, fun x hx ↦ ?_⟩
    rw [show (p.corazaChildInit lib false servers).wafs = [] from h.mergeable.noWafs.wafs] at hx
    cases hx
  | true =>
    have hr : Rounds lib p servers servers.length _ := h.rounds
    obtain ⟨q, hq⟩ : ∃ q, servers.foldl (Process.initServer lib)
        { p with wafCachePool := true } = q := ⟨_, rfl⟩
    rw [hq] at hr
    have htracked : Process.Tracked q ([] ++ p.trackedDirConfs.getD [])
        (Process.initTrackedFrom lib q [] (p.trackedDirConfs.getD [])) := by
      apply Process.Tracked.all ⟨rfl, rfl, fun _ _ ↦ rfl, fun _ hx ↦ Or.inl hx⟩ h.tracked
      intro d hd
      rw [hr.boot.size]
      exact (h.trackedLt d hd).1
    rw [List.nil_append] at htracked
    simp only [Process.corazaChildInit, Bool.not_true, Bool.false_eq_true, if_false, hq,
      hr.boot.tracked]
    refine ⟨?_, fun x hx ↦ ?_⟩
    · dsimp only
      rw [htracked.size, hr.boot.size]
    · have hholds : x.1 ≠ 0 ∧ x.1 ∈ (Process.initTrackedFrom lib q []
          (p.trackedDirConfs.getD [])).holders p.dirConfs.size := by
        rw [Process.mem_holders]
        rcases htracked.wafs x hx with hold | ⟨hne, d, hd, hw⟩
        · obtain ⟨hne, ⟨k, c, hc, hw⟩ | hw⟩ := hr.held h.sharedBase (hkept rfl) hold
          · refine ⟨hne, Or.inl ⟨c, ?_, ?_⟩⟩
            · obtain ⟨sv, hsv, hcs⟩ := Option.bind_eq_some_iff.mp hc
              obtain ⟨c', d, rfl, hlt, -⟩ := h.kinds sv (List.mem_of_getElem? hsv)
              cases hcs
              rw [htracked.servers, hr.boot.serverSize]
              exact hlt
            · rw [Process.serverWafOf, htracked.servers]
              exact hw
          · refine ⟨hne, Or.inr (Or.inl ⟨b, h.mainBase, ?_⟩)⟩
            rw [htracked.elsewhere b fun hmem ↦ (h.trackedLt b hmem).2 rfl]
            exact hw
        · exact ⟨hne, Or.inr (Or.inl ⟨d, (h.trackedLt d hd).1, hw⟩)⟩
      exact hholds

end Startable

/-- No state a child comes to has a stranded WAF, if no build of step 2 overwrites a handle that
is on nothing else, and no request builds for objects of its own while the cache is full. -/
theorem no_waf_stranded {conf : StaticConf} {env : ConfigEnv} {servers : List ServerRec}
    {p : Process} (hl : conf.load env = .ok (servers, p)) (lib : WafLib) (loaded : Bool)
    (hkept : loaded = true → SharedConfsKept lib p servers) (ops : List RequestOp)
    (hstays : ∀ v ∈ visits (Process.requestStep env lib p.dirConfs.size)
      (p.corazaChildInit lib loaded servers) ops,
      Process.BuildStays lib p.dirConfs.size v.1 v.2) :
    (∀ v ∈ visits (Process.requestStep env lib p.dirConfs.size)
      (p.corazaChildInit lib loaded servers) ops, v.1.NoneStranded p.dirConfs.size) ∧
    (ops.foldl (Process.requestStep env lib p.dirConfs.size)
      (p.corazaChildInit lib loaded servers)).NoneStranded p.dirConfs.size := by
  obtain ⟨s, b, h⟩ := startable_of_load hl
  obtain ⟨hlast, hall⟩ := (h.held lib loaded hkept).requests hstays
  exact ⟨fun v hv ↦ (hall v hv).noneStranded, hlast.noneStranded⟩

/-- A request below an `.htaccess` file with a rule: the file is read, its `dir_conf` merged onto
the main one, a context created, and both objects are destroyed. -/
def htaccessRequest : List RequestOp :=
  [.createDirConf, .directive (.corazaRules (CString.ofString "h")) 2 0, .merge 0 2,
    .createCtx 3 0, .destroy 3, .destroy 2]

/-- The WAF built for the request is in the cache when its objects are gone. -/
theorem no_waf_stranded_htaccess :
    ∃ servers p, mainRuleAndSection.load plainEnv = .ok (servers, p) ∧
      (htaccessRequest.foldl (Process.requestStep plainEnv acceptingLib p.dirConfs.size)
        (p.corazaChildInit acceptingLib true servers)).liveWafs = [1, 2, 3] ∧
      (htaccessRequest.foldl (Process.requestStep plainEnv acceptingLib p.dirConfs.size)
        (p.corazaChildInit acceptingLib true servers)).NoneStranded p.dirConfs.size := by
  refine ⟨_, _, rfl, by decide, (@no_waf_stranded mainRuleAndSection plainEnv _ _ rfl acceptingLib
    true (fun _ ↦ by decide) htaccessRequest ?_).2⟩
  simp only [htaccessRequest, visits_cons, visits_nil, List.forall_mem_cons]
  exact ⟨trivial, trivial, trivial, fun _ _ ↦ Or.inl (by decide), trivial, trivial,
    fun _ h ↦ nomatch h⟩

/-- A main server that is on, and nothing else. -/
def mainOn : StaticConf where
  vhosts := 0
  directives := [⟨0, none, .coraza true⟩]
  placed := by decide

/-- The `i`-th of many requests, each below an `.htaccess` file with a rule of its own; its objects
stand behind those of the earlier ones. -/
def policyRequest (i : Nat) : List RequestOp :=
  [.createDirConf,
    .directive (.corazaRules (CString.ofBytes [UInt8.ofNat (i + 1)])) (2 * i + 1) 0,
    .merge 0 (2 * i + 1), .createCtx (2 * i + 2) 0, .destroy (2 * i + 2), .destroy (2 * i + 1)]

/-- After 64 policies the cache is full, and the WAF of the 65th is lost. -/
theorem sixty_fifth_policy_stranded :
    ¬ ∀ (conf : StaticConf) (env : ConfigEnv) (servers : List ServerRec) (p : Process),
      conf.load env = .ok (servers, p) →
      ∀ (lib : WafLib), lib.DistinctHandles → ∀ (ops : List RequestOp),
        (ops.foldl (Process.requestStep env lib p.dirConfs.size)
          (p.corazaChildInit lib true servers)).NoneStranded p.dirConfs.size := by
  intro h
  have hdist : acceptingLib.DistinctHandles := fun _ _ _ he ↦ Nat.succ.inj he
  obtain ⟨hheld, -⟩ := h mainOn plainEnv _ _ rfl acceptingLib hdist
    ((List.range 65).flatMap policyRequest)
  exact absurd hheld (by decide +kernel)

/-- A rule at the level of the main server, and two virtual hosts with nothing of their own. -/
def mainRuleTwoVhosts : StaticConf where
  vhosts := 2
  directives := [⟨0, none, .corazaRules (CString.ofString "r")⟩]
  placed := by decide

/-- The conf of the main server is built three times. It keeps the third handle, the base the
first, and the second is lost before the first request. -/
example : ∃ servers p, mainRuleTwoVhosts.load plainEnv = .ok (servers, p) ∧
    ¬ SharedConfsKept acceptingLib p servers ∧
    (p.corazaChildInit acceptingLib true servers).liveWafs = [1, 2, 3] ∧
    (p.corazaChildInit acceptingLib true servers).holders p.dirConfs.size = [3, 1] :=
  ⟨_, _, rfl, by decide, by decide, by decide⟩

end CorazaApache.Config
