import CorazaApache.Config.ChildInit

/-!
# Coherence of the handles a child starts with

After `coraza_child_init` a tracked `dir_conf` has no handle or one built from its own rules,
because step 3, `src/mod_coraza.c:1230–1267`, assigns to every one that has rules. The base
`dir_conf` of the main server is not tracked: it keeps the first handle step 2 stores there,
and a virtual host whose only directives stand in sections stores its empty WAF there when no
server has built the main rules before it.
-/

namespace CorazaApache.Config
open CorazaApache.Base

namespace Process

/-- The handle on `d`, if there is one, was built from the rules of `d`. -/
def OwnHandle (p : Process) (d : Nat) : Prop :=
  p.wafOf d = 0 ∨ p.BuiltFrom (p.wafOf d) (p.rulesOf d)

instance (p : Process) (d : Nat) : Decidable (p.OwnHandle d) :=
  inferInstanceAs (Decidable (_ ∨ _))

/-- The invariant of step 3 once the objects of `done` have had their round. -/
structure Tracking (lib : WafLib) (p : Process) (tracked done : List Nat) (q : Process) :
    Prop where
  boot : p.Booting q
  elsewhere : ∀ d ∉ tracked, q.wafOf d = p.wafOf d
  own : ∀ d ∈ tracked, d ∈ done ∨ q.rulesOf d = [] → q.OwnHandle d
  recorded : lib.DistinctHandles → q.Recorded lib

variable {lib : WafLib} {p q : Process} {tracked done : List Nat}

/-- A round may put on `d` any handle built from the rules of `d`. -/
theorem Tracking.store (h : Tracking lib p tracked done q) {r : Process} (hr : q.Booting r)
    (hdirs : r.dirConfs = q.dirConfs) (hrec : lib.DistinctHandles → r.Recorded lib) {d w : Nat}
    (hd : d ∈ tracked) (hw : w ≠ 0 → r.BuiltFrom w (q.rulesOf d)) :
    Tracking lib p tracked (done ++ [d]) (r.setWaf d w) := by
  have hwaf (e : Nat) : r.wafOf e = q.wafOf e := by rw [wafOf, hdirs]; rfl
  refine ⟨(h.boot.trans hr).trans (booting_setWaf r d w), fun e he ↦ ?_, fun e he hdone ↦ ?_,
    fun hdist ↦ ⟨(hrec hdist).past, (hrec hdist).single⟩⟩
  · have hne : d ≠ e := fun hde ↦ he (hde ▸ hd)
    rw [wafOf_setWaf, if_neg (fun hn ↦ hne hn.1), hwaf]
    exact h.elsewhere e he
  · rw [rulesOf_setWaf, hr.rules e] at hdone
    rw [OwnHandle, wafOf_setWaf, rulesOf_setWaf, hr.rules e]
    split
    · next hde =>
      rw [← hde.1]
      exact (Decidable.em (w = 0)).imp_right hw
    · next hde =>
      rw [hwaf e]
      by_cases hz : q.wafOf e = 0
      · exact Or.inl hz
      · -- Not stored to: either an object of an earlier round, or `d` outside the pool.
        have hde' : e ∈ done ∨ q.rulesOf e = [] := by
          rcases hdone with hm | hm
          · rcases List.mem_append.mp hm with hm | hm
            · exact Or.inl hm
            · rw [← hwaf e] at hz
              exact absurd ⟨(List.mem_singleton.mp hm).symm, lt_size_of_wafOf hz⟩ hde
          · exact Or.inr hm
        exact (h.own e he hde').imp_right hr.builtFrom

private theorem Tracking.skip (h : Tracking lib p tracked done q) {d : Nat}
    (hr : q.rulesOf d = []) :
    Tracking lib p tracked (done ++ [d]) q := by
  refine ⟨h.boot, h.elsewhere, fun e he hdone ↦ h.own e he ?_, h.recorded⟩
  rcases hdone with hm | hm
  · rcases List.mem_append.mp hm with hm | hm
    · exact Or.inl hm
    · rw [List.mem_singleton.mp hm]
      exact Or.inr hr
  · exact Or.inr hm

/-- One round of step 3 keeps the invariant. -/
theorem Tracking.step (h : Tracking lib p tracked done q) {d : Nat} (hd : d ∈ tracked)
    (hdone : ∀ e ∈ done, e ∈ tracked)
    (hf : p.rulesOf d ≠ [] → (p.dirConfs.get d).hasRules = true) :
    Tracking lib p tracked (done ++ [d]) (q.initTracked lib done d) := by
  rw [← h.boot.rules d, ← h.boot.flag d] at hf
  unfold initTracked
  dsimp only
  split
  · next hskip =>
    refine h.skip ?_
    rcases Bool.or_eq_true_iff.mp hskip with hn | hn
    · by_contra hne
      rw [hf hne] at hn
      cases hn
    · exact List.length_eq_zero_iff.mp (of_decide_eq_true hn)
  · next hrules =>
    have hpos : 0 < (q.rulesOf d).length := by
      rw [Bool.or_eq_true_iff, not_or, decide_eq_true_eq] at hrules
      exact Nat.pos_of_ne_zero hrules.2
    split
    · next j hj =>
      have hfound := List.find?_some hj
      have hcond := of_decide_eq_true hfound
      have hjd := List.mem_of_find?_eq_some hj
      refine h.store (Booting.refl q) rfl h.recorded hd fun hn ↦ ?_
      have hsame : q.rulesOf j = q.rulesOf d := by rw [rulesOf, hcond.1]; rfl
      rw [← hsame]
      exact (h.own j (hdone j hjd) (Or.inl hjd)).resolve_left hn
    · rw [buildWaf_of_ne_nil q lib hpos]
      exact h.store (booting_afterBuild q _ _) rfl
        (fun hdist ↦ (h.recorded hdist).afterBuild hdist corazaBuildWaf_eq_waf _) hd
        fun hn ↦ builtFrom_afterBuild q hn _

/-- Step 3 as a whole. -/
theorem Tracking.all (h : Tracking lib p tracked [] p)
    (hf : ∀ d ∈ tracked, p.rulesOf d ≠ [] → (p.dirConfs.get d).hasRules = true) :
    Tracking lib p tracked tracked (initTrackedFrom lib p [] tracked) := by
  suffices ∀ done rest q, tracked = done ++ rest → Tracking lib p tracked done q →
      Tracking lib p tracked tracked (initTrackedFrom lib q done rest) by
    exact this [] tracked p rfl h
  intro done rest
  induction rest generalizing done with
  | nil =>
    intro q hl hq
    rw [List.append_nil] at hl
    rw [← hl] at hq
    exact hq
  | cons d rest ih =>
    intro q hl hq
    have hd : d ∈ tracked := by rw [hl]; simp
    refine ih (done ++ [d]) _ ?_ (hq.step hd (fun e he ↦ ?_) (hf d hd))
    · rw [hl, List.append_assoc, List.singleton_append]
    · rw [hl]
      exact List.mem_append_left _ he

end Process

/-- After startup the base of every server and every tracked object has no handle or its own. -/
def StartupCoherent (servers : List ServerRec) (p q : Process) : Prop :=
  (∀ sv ∈ servers, ∀ b, sv.lookupDefaults = some b → q.OwnHandle b) ∧
    ∀ d ∈ p.trackedDirConfs.getD [], q.OwnHandle d

section

variable {lib : WafLib} {p : Process} {servers : List ServerRec} {s b : Nat}

/-- All tracked objects are coherent, and the main base keeps the handle of step 2. -/
theorem Ready.tracking (h : Ready s b servers p) :
    Process.Tracking lib (servers.foldl (Process.initServer lib) { p with wafCachePool := true })
      (p.trackedDirConfs.getD []) (p.trackedDirConfs.getD [])
      (Process.initTrackedFrom lib (servers.foldl (Process.initServer lib)
        { p with wafCachePool := true }) [] (p.trackedDirConfs.getD [])) := by
  have hserv : Serving lib p servers s b servers [] _ := h.serving_all
  refine Process.Tracking.all ⟨Process.Booting.refl _, fun _ _ ↦ rfl, fun d hd hr ↦ ?_,
    hserv.recorded⟩ fun d hd hr ↦ ?_
  · rcases hr with hr | hr
    · cases hr
    · -- A tracked object without rules was given a handle only by servers without rules.
      by_cases hz : (servers.foldl (Process.initServer lib)
          { p with wafCachePool := true }).wafOf d = 0
      · exact Or.inl hz
      · obtain ⟨c, hmem, hb⟩ := hserv.dir d hz
        obtain ⟨c', d', he, -, -, hk⟩ := h.kinds _ hmem
        cases he
        refine Or.inr ?_
        rw [hr]
        rw [hserv.boot.rules d] at hr
        rcases hk with ⟨rfl, -⟩ | ⟨-, hk⟩
        · exact absurd rfl (h.trackedLt d hd).2
        · rw [hk hr] at hb
          exact hb
  · rw [hserv.boot.rules d] at hr
    rw [hserv.boot.flag d]
    exact h.mergeable.flag d (h.trackedLt d hd).1 hr

/-- The main base is coherent exactly when the main rules come first. -/
theorem Ready.ownHandle_base_iff (h : Ready s b servers p) (hdist : lib.DistinctHandles) :
    (servers.foldl (Process.initServer lib) { p with wafCachePool := true }).OwnHandle b ↔
      MainRulesFirst lib p servers := by
  have hserv : Serving lib p servers s b servers [] _ := h.serving_all
  rw [MainRulesFirst, h.mainServerRules, Process.OwnHandle, hserv.boot.rules b]
  by_cases hm : p.rulesOf b = []
  · refine ⟨fun _ hn ↦ absurd hm hn, fun _ ↦ ?_⟩
    by_cases hz : (servers.foldl (Process.initServer lib)
        { p with wafCachePool := true }).wafOf b = 0
    · exact Or.inl hz
    · obtain ⟨c, hmem, hb⟩ := hserv.dir b hz
      obtain ⟨c', d', he, -, -, hk⟩ := h.kinds _ hmem
      cases he
      refine Or.inr ?_
      rcases hk with ⟨-, rfl | ⟨-, hnil⟩⟩ | ⟨htr, -⟩
      · rw [← h.mainRules]
        exact hb
      · rw [hm, ← hnil]
        exact hb
      · exact absurd rfl (h.trackedLt b htr).2
  · rcases hserv.base hm with ⟨hz, hnone⟩ | ⟨hn, k, hk, hbefore, ⟨hM, hb⟩ | ⟨hE, hb⟩⟩
    · refine ⟨fun _ _ k hE ↦ ?_, fun _ ↦ Or.inl hz⟩
      have hsv := hE
      obtain ⟨main, sv, -, hsv, -⟩ := hsv
      exact absurd hE (hnone k (List.getElem?_eq_some_iff.mp hsv).1).2
    · refine ⟨fun _ _ k' hE ↦ ⟨k, ?_, hM⟩, fun _ ↦ Or.inr hb⟩
      by_contra hlt
      rcases Nat.lt_or_eq_of_le (Nat.le_of_not_lt hlt) with hlt' | rfl
      · exact (hbefore k' hlt').2 hE
      · obtain ⟨m, hm1, hg, -⟩ := hM
        obtain ⟨m', sv, hm2, hg', -, hconf, -⟩ := hE
        rw [hm1] at hm2
        rw [hg] at hg'
        cases hm2
        cases hg'
        exact hconf rfl
    · constructor
      · rintro (hz | hb')
        · exact absurd hz hn
        · exact absurd ((hserv.recorded hdist).single _ _ _ hb' hb) hm
      · intro hfirst
        obtain ⟨j, hj, hM⟩ := hfirst hm k hE
        exact absurd hM (hbefore j hj).1

end

/-- The handles a child starts with are coherent, for every accepted configuration and every
pattern of build failures, exactly when no empty WAF reaches the main base before one of the
main rules; a child that could not load the engine has no handles at all. -/
theorem startupCoherent_iff (conf : StaticConf) (env : ConfigEnv) (servers : List ServerRec)
    (p : Process) (hl : conf.load env = .ok (servers, p)) (lib : WafLib)
    (hdist : lib.DistinctHandles) (loaded : Bool) :
    StartupCoherent servers p (p.corazaChildInit lib loaded servers) ↔
      (loaded = true → MainRulesFirst lib p servers) := by
  obtain ⟨s, b, h⟩ := Startup.ready_of_load hl
  cases loaded with
  | false =>
    constructor
    · intro _ hf
      cases hf
    · intro _
      exact ⟨fun _ _ d _ ↦ Or.inl (h.mergeable.noWafs.dir d),
        fun d _ ↦ Or.inl (h.mergeable.noWafs.dir d)⟩
  | true =>
    have htr : Process.Tracking lib _ _ _ _ := h.tracking
    have hserv : Serving lib p servers s b servers [] _ := h.serving_all
    have hb : b ∉ p.trackedDirConfs.getD [] := fun hmem ↦ (h.trackedLt b hmem).2 rfl
    rw [show (true = true → MainRulesFirst lib p servers) ↔ MainRulesFirst lib p servers from
      forall_prop_of_true rfl, ← h.ownHandle_base_iff hdist]
    simp only [Process.corazaChildInit, Bool.not_true, Bool.false_eq_true, if_false]
    rw [hserv.boot.tracked]
    -- The handle of the main base is the one of step 2.
    have hbase : (Process.initTrackedFrom lib (servers.foldl (Process.initServer lib)
        { p with wafCachePool := true }) [] (p.trackedDirConfs.getD [])).OwnHandle b ↔
        (servers.foldl (Process.initServer lib) { p with wafCachePool := true }).OwnHandle b := by
      simp only [Process.OwnHandle, htr.elsewhere b hb, htr.boot.rules b]
      refine or_congr_right' fun hz ↦ ⟨fun hbuilt ↦ ?_, htr.boot.builtFrom⟩
      obtain ⟨c, hmem, hb2⟩ := hserv.dir b hz
      have hl := (htr.recorded hdist).single _ _ _ hbuilt (htr.boot.builtFrom hb2)
      rw [hl]
      exact hb2
    constructor
    · intro hco
      have hmain := List.mem_of_head? h.main
      exact hbase.mp (hco.1 _ hmain b rfl)
    · intro hown
      refine ⟨fun sv hsv d hd ↦ ?_, fun d hd ↦ htr.own d hd (Or.inl hd)⟩
      obtain ⟨c, d', rfl, -, -, hk⟩ := h.kinds sv hsv
      cases hd
      rcases hk with ⟨rfl, -⟩ | ⟨hd, -⟩
      · exact hbase.mpr hown
      · exact htr.own d hd (Or.inl hd)

/-- httpd and APR as far as the examples below need them. -/
def plainEnv : ConfigEnv where
  serverRootRelative := some
  openFile _ := none
  strtoff _ := none

/-- A rule at the level of the main server, and a virtual host with a directive in a section. -/
def mainRuleAndSection : StaticConf where
  vhosts := 1
  directives := [⟨0, none, .corazaRules (CString.ofString "r")⟩, ⟨1, some 0, .coraza true⟩]
  placed := by decide

/-- An engine whose `k`-th build refuses every rule, and which numbers its handles from 1. -/
def refusingBuild (k : Nat) : WafLib where
  build j := { config := 1, strdup := fun _ ↦ true, rulesAdd := fun _ ↦ if j = k then -1 else 0,
               rulesAddFile := fun _ ↦ if j = k then -1 else 0, waf := j + 1 }
  newTransaction j := j + 1

private theorem distinctHandles_refusingBuild (k : Nat) : (refusingBuild k).DistinctHandles := by
  intro i j _ h
  exact Nat.succ.inj h

/-- Both sides of the equivalence where the main rules are built first. -/
theorem startupCoherent_main_rules_built :
    ∃ servers p, mainRuleAndSection.load plainEnv = .ok (servers, p) ∧
      (StartupCoherent servers p (p.corazaChildInit (refusingBuild 7) true servers) ↔
        (true = true → MainRulesFirst (refusingBuild 7) p servers)) :=
  ⟨_, _, rfl, startupCoherent_iff mainRuleAndSection plainEnv _ _ rfl (refusingBuild 7)
    (distinctHandles_refusingBuild 7) true⟩

/-- The main rules do not compile, and the virtual host puts its empty WAF on the main base. -/
theorem empty_waf_on_main_base :
    ∃ servers p, mainRuleAndSection.load plainEnv = .ok (servers, p) ∧
      (refusingBuild 0).DistinctHandles ∧
      ¬ StartupCoherent servers p (p.corazaChildInit (refusingBuild 0) true servers) := by
  refine ⟨_, _, rfl, distinctHandles_refusingBuild 0, fun h ↦ ?_⟩
  exact absurd (h.1 _ List.mem_cons_self 0 rfl) (by decide)

end CorazaApache.Config
