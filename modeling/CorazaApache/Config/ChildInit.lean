import CorazaApache.Config.VirtualHosts

/-!
# Step 2 of child startup: one WAF per server

Each server's round makes one build, for the rules of its server conf, and stores the handle
on the server's base `dir_conf` unless one is there already; `src/mod_coraza.c:1183–1228`. For
the base of the main server, which several servers may share, the invariant says which round
its handle comes from.
-/

namespace CorazaApache.Config
open CorazaApache.Base

/-- `coraza_new_waf` never returns the same handle for two builds. -/
def WafLib.DistinctHandles (lib : WafLib) : Prop :=
  ∀ j k, (lib.build j).waf ≠ 0 → (lib.build j).waf = (lib.build k).waf → j = k

namespace Process

/-- Only handles and the records of builds changed. -/
structure Booting (p q : Process) : Prop where
  rulesPtr : ∀ d, (q.dirConfs.get d).rules = (p.dirConfs.get d).rules
  rules : ∀ d, q.rulesOf d = p.rulesOf d
  flag : ∀ d, (q.dirConfs.get d).hasRules = (p.dirConfs.get d).hasRules
  size : q.dirConfs.size = p.dirConfs.size
  serverRules : ∀ c, q.serverRulesOf c = p.serverRulesOf c
  serverSize : q.serverConfs.size = p.serverConfs.size
  tracked : q.trackedDirConfs = p.trackedDirConfs
  wafs : ∀ x ∈ p.wafs, x ∈ q.wafs

namespace Booting

variable {p q r : Process}

/-- Nothing done yet. -/
theorem refl (p : Process) : Booting p p :=
  ⟨fun _ ↦ rfl, fun _ ↦ rfl, fun _ ↦ rfl, rfl, fun _ ↦ rfl, rfl, rfl, fun _ h ↦ h⟩

/-- Steps of the startup compose. -/
theorem trans (h : Booting p q) (h' : Booting q r) : Booting p r where
  rulesPtr d := (h'.rulesPtr d).trans (h.rulesPtr d)
  rules d := (h'.rules d).trans (h.rules d)
  flag d := (h'.flag d).trans (h.flag d)
  size := h'.size.trans h.size
  serverRules c := (h'.serverRules c).trans (h.serverRules c)
  serverSize := h'.serverSize.trans h.serverSize
  tracked := h'.tracked.trans h.tracked
  wafs x hx := h'.wafs x (h.wafs x hx)

/-- What was built stays recorded. -/
theorem builtFrom (h : Booting p q) {w : Nat} {l : RuleList} (hb : p.BuiltFrom w l) :
    q.BuiltFrom w l := h.wafs _ hb

end Booting

/-- A handle is written. -/
theorem booting_setWaf (p : Process) (d w : Nat) : Booting p (p.setWaf d w) := by
  have h := onlyWafs_setWaf p d w
  exact ⟨h.rules, h.rulesOf, h.hasRules, h.size, fun _ ↦ rfl, rfl, rfl, h.wafs⟩

private theorem booting_setServerWaf (p : Process) (c w : Nat) :
    Booting p (p.setServerWaf c w) := by
  refine ⟨fun _ ↦ rfl, fun _ ↦ rfl, fun _ ↦ rfl, rfl, fun e ↦ ?_, Arena.size_set _ _ _, rfl,
    fun _ h ↦ h⟩
  simp only [serverRulesOf, setServerWaf, Arena.get_set]
  split
  · next h => rw [h.1]
  · rfl

/-- A build whose handle is `w` was recorded for the list `l`, if it gave one. -/
def afterBuild (p : Process) (w : Nat) (l : RuleList) : Process :=
  { p with builds := p.builds + 1, wafs := if w = 0 then p.wafs else p.wafs ++ [(w, l)] }

/-- A build of some rules, by its answer. -/
theorem buildWaf_of_ne_nil (p : Process) (lib : WafLib) {l : RuleList} (hl : 0 < l.length) :
    p.buildWaf lib l = (corazaBuildWaf (lib.build p.builds) l,
      p.afterBuild (corazaBuildWaf (lib.build p.builds) l) l) := by
  have hne : l.length ≠ 0 := Nat.pos_iff_ne_zero.mp hl
  have hfst : (p.buildWaf lib l).1 = corazaBuildWaf (lib.build p.builds) l := by
    rw [buildWaf, if_neg hne]
  refine Prod.ext hfst ?_
  rw [buildWaf_snd, hfst, if_neg hne]
  rfl

/-- The build of a server without rules, by its answer. -/
theorem buildEmptyWaf_eq (p : Process) (lib : WafLib) :
    p.buildEmptyWaf lib = (emptyWaf (lib.build p.builds),
      p.afterBuild ((emptyWaf (lib.build p.builds)).getD 0) []) := by
  simp only [buildEmptyWaf]
  cases h : emptyWaf (lib.build p.builds) with
  | none => simp [afterBuild]
  | some w =>
    simp only [recordWaf, afterBuild, Option.getD_some]
    split <;> rfl

/-- A build is recorded. -/
theorem booting_afterBuild (p : Process) (w : Nat) (l : RuleList) :
    Booting p (p.afterBuild w l) := by
  refine ⟨fun _ ↦ rfl, fun _ ↦ rfl, fun _ ↦ rfl, rfl, fun _ ↦ rfl, rfl, rfl, fun x hx ↦ ?_⟩
  simp only [afterBuild]
  split
  · exact hx
  · exact List.mem_append_left _ hx

/-- The handle of a build that succeeded was built from its list. -/
theorem builtFrom_afterBuild (p : Process) {w : Nat} (hw : w ≠ 0) (l : RuleList) :
    (p.afterBuild w l).BuiltFrom w l := by
  rw [BuiltFrom, afterBuild, if_neg hw]
  exact List.mem_append_right _ (List.mem_singleton.mpr rfl)

/-! ### Each recorded handle belongs to one build -/

/-- Recorded handles come from past builds, and each stands for one rule list. -/
structure Recorded (lib : WafLib) (p : Process) : Prop where
  past : ∀ x ∈ p.wafs, x.1 ≠ 0 ∧ ∃ k < p.builds, x.1 = (lib.build k).waf
  single : ∀ w l l', p.BuiltFrom w l → p.BuiltFrom w l' → l = l'

/-- A build that succeeded returns the handle of `coraza_new_waf`. -/
theorem corazaBuildWaf_eq_waf {b : WafBuild} {l : RuleList} (h : corazaBuildWaf b l ≠ 0) :
    corazaBuildWaf b l = b.waf := by
  unfold corazaBuildWaf newWafCall at h ⊢
  split at h
  · exact absurd rfl h
  · next hl =>
    rw [if_neg hl]
    split at h
    · exact absurd rfl h
    · next waf given hc =>
      split at hc
      · cases hc
      · obtain ⟨g, -, he⟩ := Option.map_eq_some_iff.mp hc
        cases he
        rfl

/-- A build keeps the records in step with the engine. -/
theorem Recorded.afterBuild {lib : WafLib} (hd : lib.DistinctHandles) {p : Process}
    (h : Recorded lib p) {w : Nat} (hw : w ≠ 0 → w = (lib.build p.builds).waf) (l : RuleList) :
    Recorded lib (p.afterBuild w l) := by
  by_cases hz : w = 0
  · have he : (p.afterBuild w l).wafs = p.wafs := by rw [Process.afterBuild, if_pos hz]
    refine ⟨fun x hx ↦ ?_, fun w l l' hb hb' ↦ ?_⟩
    · rw [he] at hx
      obtain ⟨hn, k, hk, hx⟩ := h.past x hx
      exact ⟨hn, k, Nat.lt_succ_of_lt hk, hx⟩
    · rw [BuiltFrom, he] at hb hb'
      exact h.single w l l' hb hb'
  · have he : (p.afterBuild w l).wafs = p.wafs ++ [(w, l)] := by
      rw [Process.afterBuild, if_neg hz]
    have hnew (l' : RuleList) : ¬ p.BuiltFrom w l' := by
      intro hb
      obtain ⟨-, k, hk, hx⟩ := h.past _ hb
      have hbw := hw hz
      exact absurd (hd _ _ (by rw [← hbw]; exact hz) (by rw [← hbw]; exact hx))
        (Nat.ne_of_gt hk)
    have hmem {w' : Nat} {l' : RuleList} (hb : (p.afterBuild w l).BuiltFrom w' l') :
        p.BuiltFrom w' l' ∨ (w' = w ∧ l' = l) := by
      rw [BuiltFrom, he] at hb
      rcases List.mem_append.mp hb with hb | hb
      · exact Or.inl hb
      · rw [List.mem_singleton, Prod.mk.injEq] at hb
        exact Or.inr hb
    refine ⟨fun x hx ↦ ?_, fun w' l1 l2 h1 h2 ↦ ?_⟩
    · rw [he] at hx
      rcases List.mem_append.mp hx with hx | hx
      · obtain ⟨hn, k, hk, hx⟩ := h.past x hx
        exact ⟨hn, k, Nat.lt_succ_of_lt hk, hx⟩
      · rw [List.mem_singleton.mp hx]
        exact ⟨hz, p.builds, Nat.lt_succ_self _, hw hz⟩
    · rcases hmem h1 with o1 | ⟨e1, f1⟩
      · rcases hmem h2 with o2 | ⟨e2, -⟩
        · exact h.single _ _ _ o1 o2
        · exact absurd (e2 ▸ o1) (hnew _)
      · rcases hmem h2 with o2 | ⟨-, f2⟩
        · exact absurd (e1 ▸ o2) (hnew _)
        · rw [f1, f2]

/-! ### Step 2 -/

/-- The handle on the server conf `c` after its round. -/
def serverAnswer (lib : WafLib) (p : Process) (c : Nat) : Nat :=
  if 0 < (p.serverRulesOf c).length then
    corazaBuildWaf (lib.build p.builds) (p.serverRulesOf c)
  else (emptyWaf (lib.build p.builds)).getD (p.serverWafOf c)

/-- What the build of one server leaves: one more build, recorded for the server's rules, and
its handle on the server conf. -/
theorem buildServerWaf_cases (lib : WafLib) (p : Process) (c : Nat) :
    ∃ w, (w ≠ 0 → w = (lib.build p.builds).waf) ∧
      ((p.buildServerWaf lib c =
          (p.afterBuild w (p.serverRulesOf c)).setServerWaf c (serverAnswer lib p c) ∧
          serverAnswer lib p c = w) ∨
        (p.buildServerWaf lib c = p.afterBuild w (p.serverRulesOf c) ∧
          serverAnswer lib p c = p.serverWafOf c)) := by
  unfold buildServerWaf serverAnswer
  split
  · next hl =>
    refine ⟨_, corazaBuildWaf_eq_waf, Or.inl ⟨?_, rfl⟩⟩
    rw [buildWaf_of_ne_nil p lib hl]
  · next hl =>
    have hnil : p.serverRulesOf c = [] := List.length_eq_zero_iff.mp (by omega)
    refine ⟨(emptyWaf (lib.build p.builds)).getD 0, ?_, ?_⟩
    · unfold emptyWaf
      split <;> simp
    · rw [buildEmptyWaf_eq, hnil]
      cases emptyWaf (lib.build p.builds) with
      | none => exact Or.inr ⟨rfl, rfl⟩
      | some w => exact Or.inl ⟨rfl, rfl⟩

private theorem booting_buildServerWaf (lib : WafLib) (p : Process) (c : Nat) :
    Booting p (p.buildServerWaf lib c) := by
  obtain ⟨w, -, ⟨h, -⟩ | ⟨h, -⟩⟩ := buildServerWaf_cases lib p c
  · rw [h]
    exact (booting_afterBuild _ _ _).trans (booting_setServerWaf _ _ _)
  · rw [h]
    exact booting_afterBuild _ _ _

private theorem buildServerWaf_frame (lib : WafLib) (p : Process) (c : Nat) :
    (p.buildServerWaf lib c).builds = p.builds + 1 ∧
    (p.buildServerWaf lib c).dirConfs = p.dirConfs := by
  obtain ⟨w, -, ⟨h, -⟩ | ⟨h, -⟩⟩ := buildServerWaf_cases lib p c
  · rw [h]
    exact ⟨rfl, rfl⟩
  · rw [h]
    exact ⟨rfl, rfl⟩

private theorem serverWafOf_buildServerWaf (lib : WafLib) (p : Process) {c : Nat}
    (hc : c < p.serverConfs.size) (e : Nat) :
    (p.buildServerWaf lib c).serverWafOf e =
      if e = c then serverAnswer lib p c else p.serverWafOf e := by
  obtain ⟨w, -, ⟨h, -⟩ | ⟨h, ha⟩⟩ := buildServerWaf_cases lib p c
  · rw [h, serverWafOf_setServerWaf]
    by_cases he : e = c
    · rw [if_pos ⟨he.symm, he ▸ hc⟩, if_pos he]
    · rw [if_neg (fun hn ↦ he hn.1.symm), if_neg he]
      rfl
  · rw [h]
    by_cases he : e = c
    · rw [if_pos he, ha, he]
      rfl
    · rw [if_neg he]
      rfl

/-- The handle a server conf ends its round with was built from its rules. -/
theorem builtFrom_serverAnswer (lib : WafLib) (p : Process) (c : Nat)
    (hs : p.serverWafOf c ≠ 0 → p.BuiltFrom (p.serverWafOf c) (p.serverRulesOf c))
    (hn : serverAnswer lib p c ≠ 0) :
    (p.buildServerWaf lib c).BuiltFrom (serverAnswer lib p c) (p.serverRulesOf c) := by
  obtain ⟨w, -, ⟨h, ha⟩ | ⟨h, ha⟩⟩ := buildServerWaf_cases lib p c
  · rw [h, BuiltFrom, ha]
    rw [ha] at hn
    exact builtFrom_afterBuild p hn _
  · rw [ha] at hn ⊢
    rw [h]
    exact (booting_afterBuild p w _).builtFrom (hs hn)

private theorem Recorded.buildServerWaf {lib : WafLib} (hd : lib.DistinctHandles) {p : Process}
    (h : Recorded lib p) (c : Nat) : Recorded lib (p.buildServerWaf lib c) := by
  obtain ⟨w, hw, ⟨he, -⟩ | ⟨he, -⟩⟩ := buildServerWaf_cases lib p c
  · rw [he]
    have h' := h.afterBuild hd hw (p.serverRulesOf c)
    exact ⟨h'.past, h'.single⟩
  · rw [he]
    exact h.afterBuild hd hw _

/-- A round stores the handle on the server's base unless there is one already. -/
theorem initServer_eq (lib : WafLib) (p : Process) {c d : Nat} (hc : c < p.serverConfs.size) :
    p.initServer lib ⟨some c, some d⟩ =
      if serverAnswer lib p c ≠ 0 ∧ p.wafOf d = 0
      then (p.buildServerWaf lib c).setWaf d (serverAnswer lib p c)
      else p.buildServerWaf lib c := by
  have ha : (p.buildServerWaf lib c).serverWafOf c = serverAnswer lib p c := by
    rw [serverWafOf_buildServerWaf lib p hc, if_pos rfl]
  have hw : (p.buildServerWaf lib c).wafOf d = p.wafOf d := by
    rw [wafOf, (buildServerWaf_frame lib p c).2]
    rfl
  simp only [initServer, ha, hw]
  by_cases h0 : serverAnswer lib p c = 0
  · rw [if_pos h0, if_neg (fun h ↦ h.1 h0)]
  · rw [if_neg h0]
    by_cases hd : p.wafOf d = 0
    · rw [if_pos hd, if_pos ⟨h0, hd⟩]
    · rw [if_neg hd, if_neg (fun h ↦ hd h.2)]

section

variable {lib : WafLib} {p : Process} {c d : Nat}

/-- A server is initialised. -/
theorem booting_initServer (hc : c < p.serverConfs.size) :
    Booting p (p.initServer lib ⟨some c, some d⟩) := by
  rw [initServer_eq lib p hc]
  split
  · exact (booting_buildServerWaf lib p c).trans (booting_setWaf _ _ _)
  · exact booting_buildServerWaf lib p c

/-- Each server takes one build. -/
theorem builds_initServer (hc : c < p.serverConfs.size) :
    (p.initServer lib ⟨some c, some d⟩).builds = p.builds + 1 := by
  rw [initServer_eq lib p hc]
  split
  · exact (buildServerWaf_frame lib p c).1
  · exact (buildServerWaf_frame lib p c).1

/-- The server has the handle the engine answered with, the others keep theirs. -/
theorem serverWafOf_initServer (hc : c < p.serverConfs.size) (e : Nat) :
    (p.initServer lib ⟨some c, some d⟩).serverWafOf e =
      if e = c then serverAnswer lib p c else p.serverWafOf e := by
  rw [initServer_eq lib p hc, ← serverWafOf_buildServerWaf lib p hc]
  split <;> rfl

/-- The section at the top of the server has that handle too, if there is one and it had none. -/
theorem wafOf_initServer (hc : c < p.serverConfs.size) (hd : d < p.dirConfs.size) (e : Nat) :
    (p.initServer lib ⟨some c, some d⟩).wafOf e =
      if e = d ∧ serverAnswer lib p c ≠ 0 ∧ p.wafOf d = 0 then serverAnswer lib p c
      else p.wafOf e := by
  have hf := (buildServerWaf_frame lib p c).2
  have hw : (p.buildServerWaf lib c).wafOf e = p.wafOf e := by rw [wafOf, hf]; rfl
  rw [initServer_eq lib p hc]
  split
  · next h =>
    rw [wafOf_setWaf, hf, hw]
    by_cases he : e = d
    · rw [if_pos ⟨he.symm, he ▸ hd⟩, if_pos ⟨he, h⟩]
    · rw [if_neg (fun hn ↦ he hn.1.symm), if_neg (fun hn ↦ he hn.1)]
  · next h => rw [if_neg (fun hn ↦ h hn.2), hw]

private theorem builtFrom_initServer (hc : c < p.serverConfs.size) {w : Nat} {l : RuleList}
    (hb : (p.buildServerWaf lib c).BuiltFrom w l) :
    (p.initServer lib ⟨some c, some d⟩).BuiltFrom w l := by
  rw [initServer_eq lib p hc]
  split
  · exact hb
  · exact hb

private theorem Recorded.initServer (hd : lib.DistinctHandles) (h : Recorded lib p)
    (hc : c < p.serverConfs.size) : Recorded lib (p.initServer lib ⟨some c, some d⟩) := by
  have h' := h.buildServerWaf hd c
  rw [initServer_eq lib p hc]
  split
  · exact ⟨h'.past, h'.single⟩
  · exact h'

end

end Process

section

variable (lib : WafLib) (p : Process) (servers : List ServerRec)

/-- The rules of the main server, which stands first in the list. -/
def mainServerRules : RuleList :=
  ((servers.head?.bind (·.moduleConfig)).map p.serverRulesOf).getD []

/-- The `k`-th server shares both objects of the main one, and its round builds their rules. -/
def BuildsMain (k : Nat) : Prop :=
  ∃ main, servers.head? = some main ∧ servers[k]? = some main ∧
    corazaBuildWaf (lib.build k) (mainServerRules p servers) ≠ 0

/-- The `k`-th server shares the base `dir_conf` of the main one but not its conf, and its round
builds an empty WAF. -/
def BuildsEmpty (k : Nat) : Prop :=
  ∃ main sv, servers.head? = some main ∧ servers[k]? = some sv ∧
    sv.lookupDefaults = main.lookupDefaults ∧ sv.moduleConfig ≠ main.moduleConfig ∧
    (emptyWaf (lib.build k)).getD 0 ≠ 0

/-- If the main server has rules, a server that would leave an empty WAF on the main base comes
after one that has built these rules. -/
def MainRulesFirst : Prop :=
  mainServerRules p servers ≠ [] →
    ∀ k, BuildsEmpty lib servers k → ∃ j < k, BuildsMain lib p servers j

/-- Where the handle on the base of the main server comes from after `n` rounds: from the first
round that had one to store. -/
def BaseFirst (b n : Nat) (q : Process) : Prop :=
  (q.wafOf b = 0 ∧ ∀ j < n, ¬ BuildsMain lib p servers j ∧ ¬ BuildsEmpty lib servers j) ∨
  (q.wafOf b ≠ 0 ∧ ∃ k < n,
    (∀ j < k, ¬ BuildsMain lib p servers j ∧ ¬ BuildsEmpty lib servers j) ∧
    ((BuildsMain lib p servers k ∧ q.BuiltFrom (q.wafOf b) (p.rulesOf b)) ∨
      (BuildsEmpty lib servers k ∧ q.BuiltFrom (q.wafOf b) [])))

/-- The invariant of step 2 once the servers of `done` have had their round. -/
structure Serving (s b : Nat) (done rest : List ServerRec) (q : Process) : Prop where
  boot : p.Booting q
  builds : q.builds = done.length
  server : ∀ c, q.serverWafOf c ≠ 0 → q.BuiltFrom (q.serverWafOf c) (p.serverRulesOf c)
  fresh : ∀ sv ∈ rest, ∀ c, sv.moduleConfig = some c → c ≠ s → q.serverWafOf c = 0
  dir : ∀ d, q.wafOf d ≠ 0 → ∃ c, ⟨some c, some d⟩ ∈ servers ∧
    q.BuiltFrom (q.wafOf d) (p.serverRulesOf c)
  base : p.rulesOf b ≠ [] → BaseFirst lib p servers b done.length q
  recorded : lib.DistinctHandles → q.Recorded lib

end

section

variable {lib : WafLib} {p q : Process} {servers : List ServerRec} {s b : Nat}

/-- The rules of the main server are those of its top section. -/
theorem Ready.mainServerRules (h : Ready s b servers p) :
    mainServerRules p servers = p.rulesOf b := by
  simp only [Config.mainServerRules, h.main, Option.bind_some, Option.map_some, Option.getD_some]
  exact h.mainRules

/-- Before the first round nothing is built. -/
theorem Ready.serving (h : Ready s b servers p) :
    Serving lib p servers s b [] servers { p with wafCachePool := true } := by
  have hn := h.mergeable.noWafs
  refine ⟨⟨fun _ ↦ rfl, fun _ ↦ rfl, fun _ ↦ rfl, rfl, fun _ ↦ rfl, rfl, rfl, fun _ h ↦ h⟩,
    hn.builds, fun c hc ↦ absurd (hn.server c) hc, fun _ _ c _ _ ↦ hn.server c,
    fun d hd ↦ absurd (hn.dir d) hd, fun _ ↦ Or.inl ⟨hn.dir b, fun j hj ↦ ?_⟩, fun _ ↦ ⟨?_, ?_⟩⟩
  · exact absurd hj (Nat.not_lt_zero j)
  · rw [show ({ p with wafCachePool := true } : Process).wafs = [] from hn.wafs]
    simp
  · intro w l l' hb
    rw [Process.BuiltFrom, show ({ p with wafCachePool := true } : Process).wafs = [] from hn.wafs]
      at hb
    cases hb

/-- What the round of a server that shares the main base stores there, and when it has
something to store. -/
theorem Ready.answer_shared (h : Ready s b servers p) (hm : p.rulesOf b ≠ []) {done rest}
    {c : Nat} (hserv : Serving lib p servers s b done (⟨some c, some b⟩ :: rest) q)
    (hlist : servers = done ++ ⟨some c, some b⟩ :: rest)
    (hk : c = s ∨ c ≠ s ∧ p.serverRulesOf c = []) :
    (q.serverAnswer lib c ≠ 0 →
      (BuildsMain lib p servers done.length ∧ p.serverRulesOf c = p.rulesOf b) ∨
      (BuildsEmpty lib servers done.length ∧ p.serverRulesOf c = [])) ∧
    (q.serverAnswer lib c = 0 →
      ¬ BuildsMain lib p servers done.length ∧ ¬ BuildsEmpty lib servers done.length) := by
  have hget : servers[done.length]? = some ⟨some c, some b⟩ := by
    rw [hlist, List.getElem?_append_right (Nat.le_refl _), Nat.sub_self]
    rfl
  have hhead := h.main
  have hmr := h.mainServerRules
  rcases hk with rfl | ⟨hne, hnil⟩
  · have hrules : q.serverRulesOf c = p.rulesOf b := (hserv.boot.serverRules c).trans h.mainRules
    have ha : q.serverAnswer lib c = corazaBuildWaf (lib.build done.length) (p.rulesOf b) := by
      rw [Process.serverAnswer, hrules, if_pos (List.length_pos_iff.mpr hm), hserv.builds]
    constructor
    · intro hn
      exact Or.inl ⟨⟨_, hhead, hget, by rw [hmr, ← ha]; exact hn⟩, h.mainRules⟩
    · intro hz
      constructor
      · rintro ⟨main, -, -, hb⟩
        rw [hmr, ← ha] at hb
        exact hb hz
      · rintro ⟨main, sv, hmain, hsv, -, hconf, -⟩
        rw [hhead] at hmain
        rw [hget] at hsv
        cases hmain
        cases hsv
        exact hconf rfl
  · have hrules : q.serverRulesOf c = [] := (hserv.boot.serverRules c).trans hnil
    have hfresh := hserv.fresh _ (List.mem_cons_self) c rfl hne
    have ha : q.serverAnswer lib c = (emptyWaf (lib.build done.length)).getD 0 := by
      rw [Process.serverAnswer, hrules, if_neg (by simp), hserv.builds, hfresh]
    have hconf : (⟨some c, some b⟩ : ServerRec).moduleConfig ≠
        (⟨some s, some b⟩ : ServerRec).moduleConfig := fun he ↦ hne (Option.some.inj he)
    constructor
    · intro hn
      exact Or.inr ⟨⟨_, _, hhead, hget, rfl, hconf, by rw [← ha]; exact hn⟩, hnil⟩
    · intro hz
      constructor
      · rintro ⟨main, hmain, hsv, -⟩
        rw [hhead] at hmain
        cases hmain
        rw [hget] at hsv
        exact hconf (congrArg _ (Option.some.inj hsv))
      · rintro ⟨main, sv, -, -, -, -, he⟩
        exact he (ha.symm.trans hz)

/-- A round keeps the account of where the handle of the main base comes from. -/
theorem Ready.baseFirst_step (h : Ready s b servers p) (hm : p.rulesOf b ≠ []) {done rest}
    {sv : ServerRec} (hserv : Serving lib p servers s b done (sv :: rest) q)
    (hlist : servers = done ++ sv :: rest) :
    BaseFirst lib p servers b (done ++ [sv]).length (q.initServer lib sv) := by
  obtain ⟨c, d, rfl, hc, hd, hk⟩ := h.kinds sv (by rw [hlist]; simp)
  have hc' : c < q.serverConfs.size := by rw [hserv.boot.serverSize]; exact hc
  have hd' : d < q.dirConfs.size := by rw [hserv.boot.size]; exact hd
  have hw : (q.initServer lib ⟨some c, some d⟩).wafOf b = _ := Process.wafOf_initServer hc' hd' b
  have hboot : q.Booting (q.initServer lib ⟨some c, some d⟩) := Process.booting_initServer hc'
  have hmono {w : Nat} {l : RuleList} (hb : q.BuiltFrom w l) := hboot.builtFrom hb
  have hbase := hserv.base hm
  rw [List.length_append, List.length_singleton]
  rcases hk with ⟨rfl, hk⟩ | ⟨htr, -⟩
  · obtain ⟨hhit, hmiss⟩ := h.answer_shared hm hserv hlist hk
    by_cases hz : q.serverAnswer lib c = 0
    · -- Nothing to store: the round is no hit and the base keeps what it had.
      rw [if_neg (fun hn ↦ hn.2.1 hz)] at hw
      rw [BaseFirst, hw]
      refine hbase.imp (fun ⟨h0, hj⟩ ↦ ⟨h0, fun j hlt ↦ ?_⟩) fun ⟨hn, k, hlt, hj, ho⟩ ↦
        ⟨hn, k, Nat.lt_succ_of_lt hlt, hj, ho.imp (And.imp_right hmono) (And.imp_right hmono)⟩
      rcases Nat.lt_succ_iff_lt_or_eq.mp hlt with hlt | rfl
      · exact hj j hlt
      · exact hmiss hz
    · rcases hbase with ⟨h0, hj⟩ | ⟨hn, k, hlt, hj, ho⟩
      · rw [if_pos ⟨rfl, hz, h0⟩] at hw
        rw [BaseFirst, hw]
        refine Or.inr ⟨hz, done.length, Nat.lt_succ_self _, hj, ?_⟩
        have hbuilt := Process.builtFrom_initServer (d := d) hc'
          (Process.builtFrom_serverAnswer lib q c
            (by rw [hserv.boot.serverRules c]; exact hserv.server c) hz)
        rw [hserv.boot.serverRules c] at hbuilt
        rcases hhit hz with ⟨hM, hr⟩ | ⟨hE, hr⟩
        · exact Or.inl ⟨hM, by rw [← hr]; exact hbuilt⟩
        · exact Or.inr ⟨hE, by rw [← hr]; exact hbuilt⟩
      · rw [if_neg (fun h0 ↦ hn h0.2.2)] at hw
        rw [BaseFirst, hw]
        exact Or.inr ⟨hn, k, Nat.lt_succ_of_lt hlt, hj,
          ho.imp (And.imp_right hmono) (And.imp_right hmono)⟩
  · -- A server with a merged base neither is a hit nor touches the main base.
    have hdb : d ≠ b := (h.trackedLt d htr).2
    have hget : servers[done.length]? = some ⟨some c, some d⟩ := by
      rw [hlist, List.getElem?_append_right (Nat.le_refl _), Nat.sub_self]
      rfl
    have hmiss : ¬ BuildsMain lib p servers done.length ∧
        ¬ BuildsEmpty lib servers done.length := by
      constructor
      · rintro ⟨main, hmain, hsv, -⟩
        rw [h.main] at hmain
        rw [hget] at hsv
        cases hmain
        cases hsv
        exact hdb rfl
      · rintro ⟨main, sv, hmain, hsv, hl, -⟩
        rw [h.main] at hmain
        rw [hget] at hsv
        cases hmain
        cases hsv
        exact hdb (Option.some.inj hl)
    rw [if_neg (fun hn ↦ hdb hn.1.symm)] at hw
    rw [BaseFirst, hw]
    refine hbase.imp (fun ⟨h0, hj⟩ ↦ ⟨h0, fun j hlt ↦ ?_⟩) fun ⟨hn, k, hlt, hj, ho⟩ ↦
      ⟨hn, k, Nat.lt_succ_of_lt hlt, hj, ho.imp (And.imp_right hmono) (And.imp_right hmono)⟩
    rcases Nat.lt_succ_iff_lt_or_eq.mp hlt with hlt | rfl
    · exact hj j hlt
    · exact hmiss

/-- One round of step 2 keeps the invariant. -/
theorem Ready.serving_step (h : Ready s b servers p) {done rest} {sv : ServerRec}
    (hserv : Serving lib p servers s b done (sv :: rest) q)
    (hlist : servers = done ++ sv :: rest) :
    Serving lib p servers s b (done ++ [sv]) rest (q.initServer lib sv) := by
  have hbase := fun hm ↦ h.baseFirst_step hm hserv hlist
  obtain ⟨c, d, rfl, hc, hd, -⟩ := h.kinds sv (by rw [hlist]; simp)
  have hc' : c < q.serverConfs.size := by rw [hserv.boot.serverSize]; exact hc
  have hd' : d < q.dirConfs.size := by rw [hserv.boot.size]; exact hd
  have hboot : q.Booting (q.initServer lib ⟨some c, some d⟩) := Process.booting_initServer hc'
  have hbuilt (hz : q.serverAnswer lib c ≠ 0) :
      (q.initServer lib ⟨some c, some d⟩).BuiltFrom (q.serverAnswer lib c)
        (p.serverRulesOf c) := by
    rw [← hserv.boot.serverRules c]
    exact Process.builtFrom_initServer hc' (Process.builtFrom_serverAnswer lib q c
      (by rw [hserv.boot.serverRules c]; exact hserv.server c) hz)
  refine ⟨hserv.boot.trans hboot, ?_, fun e he ↦ ?_, fun sv hsv e he hes ↦ ?_, fun e he ↦ ?_,
    hbase, fun hdist ↦ (hserv.recorded hdist).initServer hdist hc'⟩
  · rw [Process.builds_initServer hc', hserv.builds, List.length_append, List.length_singleton]
  · rw [Process.serverWafOf_initServer hc'] at he ⊢
    split at he
    · next hec => rw [if_pos hec, hec]; exact hbuilt he
    · next hec => rw [if_neg hec]; exact hboot.builtFrom (hserv.server e he)
  · rw [Process.serverWafOf_initServer hc', if_neg, hserv.fresh sv (List.mem_cons_of_mem _ hsv) e
      he hes]
    -- The conf of a later server is another one, unless it is the main server's.
    rintro rfl
    have hpair := h.distinct
    rw [hlist, List.pairwise_append] at hpair
    exact hes (Option.some.inj ((List.pairwise_cons.mp hpair.2.1).1 sv hsv he.symm))
  · rw [Process.wafOf_initServer hc' hd'] at he ⊢
    split at he
    · next hhit =>
      rw [if_pos hhit, hhit.1]
      exact ⟨c, by rw [hlist]; simp, hbuilt he⟩
    · next hmiss =>
      rw [if_neg hmiss]
      obtain ⟨c', hmem, hb⟩ := hserv.dir e he
      exact ⟨c', hmem, hboot.builtFrom hb⟩

/-- Step 2 as a whole. -/
theorem Ready.serving_all (h : Ready s b servers p) :
    Serving lib p servers s b servers [] (servers.foldl (Process.initServer lib)
      { p with wafCachePool := true }) := by
  suffices ∀ done rest q, servers = done ++ rest → Serving lib p servers s b done rest q →
      Serving lib p servers s b servers [] (rest.foldl (Process.initServer lib) q) by
    exact this [] servers _ rfl h.serving
  intro done rest
  induction rest generalizing done with
  | nil =>
    intro q hl hq
    rw [List.append_nil] at hl
    rw [← hl] at hq
    exact hq
  | cons sv rest ih =>
    intro q hl hq
    refine ih (done ++ [sv]) _ ?_ (h.serving_step hq hl)
    rw [hl, List.append_assoc, List.singleton_append]

end

end CorazaApache.Config
