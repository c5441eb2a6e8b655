import CorazaApache.Config.History
import CorazaApache.Config.Loading

/-!
# The servers a child finds at startup

The fix-up of virtual hosts leaves three kinds of server: the main one and those that share
both objects with it, those that share only the base `dir_conf` and have a server conf of
their own because of a directive inside a section, and those with a merged base `dir_conf`.
-/

namespace CorazaApache.Config
open CorazaApache.Base

namespace Process

/-- Later merges only add objects and arrays. -/
structure Extends (p q : Process) : Prop where
  size : p.dirConfs.size ≤ q.dirConfs.size
  dir : ∀ d < p.dirConfs.size, q.dirConfs.get d = p.dirConfs.get d
  rules : ∀ d < p.dirConfs.size, q.rulesOf d = p.rulesOf d
  server : q.serverConfs = p.serverConfs
  serverRules : ∀ c < p.serverConfs.size, q.serverRulesOf c = p.serverRulesOf c
  tracked : ∀ d ∈ p.trackedDirConfs.getD [], d ∈ q.trackedDirConfs.getD []

/-- What merges need and keep: rules arrays are allocated, flags are set, nothing is built. -/
structure Mergeable (p : Process) : Prop where
  dirArray : ∀ d < p.dirConfs.size, (p.dirConfs.get d).rules < p.arrays.size
  serverArray : ∀ c < p.serverConfs.size, (p.serverConfs.get c).rules < p.arrays.size
  flag : ∀ d < p.dirConfs.size, p.rulesOf d ≠ [] → (p.dirConfs.get d).hasRules = true
  noWafs : p.NoWafs

private theorem Extends.refl (p : Process) : Extends p p :=
  ⟨Nat.le_refl _, fun _ _ ↦ rfl, fun _ _ ↦ rfl, rfl, fun _ _ ↦ rfl, fun _ h ↦ h⟩

private theorem Extends.trans {p q r : Process} (h : Extends p q) (h' : Extends q r) :
    Extends p r where
  size := Nat.le_trans h.size h'.size
  dir d hd := (h'.dir d (Nat.lt_of_lt_of_le hd h.size)).trans (h.dir d hd)
  rules d hd := (h'.rules d (Nat.lt_of_lt_of_le hd h.size)).trans (h.rules d hd)
  server := h'.server.trans h.server
  serverRules c hc := (h'.serverRules c (h.server ▸ hc)).trans (h.serverRules c hc)
  tracked d hd := h'.tracked d (h.tracked d hd)

private theorem Mergeable.rulesOf_merge {p : Process} (h : Mergeable p) (a b d : Nat)
    (hd : d < p.dirConfs.size) :
    (p.corazaMergeDirConf a b).2.rulesOf d = p.rulesOf d := by
  rw [rulesOf, get_merge_of_lt _ _ _ _ hd, (arrays_merge p a b).2 _ (h.dirArray d hd)]
  rfl

private theorem Mergeable.extends_merge {p : Process} (h : Mergeable p) (a b : Nat) :
    Extends p (p.corazaMergeDirConf a b).2 where
  size := by rw [size_merge]; exact Nat.le_succ _
  dir d hd := get_merge_of_lt p a b d hd
  rules d hd := h.rulesOf_merge a b d hd
  server := rfl
  serverRules c hc := (arrays_merge p a b).2 _ (h.serverArray c hc)
  tracked d hd := by
    cases ht : p.trackedDirConfs with
    | none => rw [ht] at hd; cases hd
    | some l =>
      rw [ht] at hd
      simp only [corazaMergeDirConf, ht, Option.map_some, Option.getD_some] at hd ⊢
      exact List.mem_append_left _ hd

private theorem Mergeable.merge {p : Process} (h : Mergeable p) {a b : Nat}
    (ha : a < p.dirConfs.size)
    (hb : b < p.dirConfs.size) : Mergeable (p.corazaMergeDirConf a b).2 := by
  have hsplit (d : Nat) (hd : d < (p.corazaMergeDirConf a b).2.dirConfs.size) :
      d < p.dirConfs.size ∨ d = p.dirConfs.size := by
    rw [size_merge] at hd
    omega
  have hext := h.extends_merge a b
  refine ⟨fun d hd ↦ ?_, fun c hc ↦ ?_, fun d hd ↦ ?_, ⟨fun d ↦ ?_, h.noWafs.server,
    h.noWafs.wafs, h.noWafs.builds⟩⟩
  · rcases hsplit d hd with hlt | rfl
    · rw [hext.dir d hlt]
      exact Nat.lt_of_lt_of_le (h.dirArray d hlt) (arrays_merge p a b).1
    · exact rules_merge_lt p a b (h.dirArray a ha) (h.dirArray b hb)
  · exact Nat.lt_of_lt_of_le (h.serverArray c hc) (arrays_merge p a b).1
  · rcases hsplit d hd with hlt | rfl
    · rw [hext.rules d hlt, hext.dir d hlt]
      exact h.flag d hlt
    · rw [rulesOf_merge_self]
      exact hasRules_merge_self p a b (h.flag a ha) (h.flag b hb)
  · by_cases hs : d = p.dirConfs.size
    · subst hs
      rw [wafOf_merge_self]
      cases p.handleSource a b with
      | none => rfl
      | some o => exact h.noWafs.dir o
    · simp only [wafOf, corazaMergeDirConf, Arena.get_alloc, if_neg hs]
      exact h.noWafs.dir d

end Process

/-- The kinds of server there are at startup, where `s` and `b` are the objects of the main
one: it shares both, or only the base while its own conf has no rules, or its base is a merged
object that has rules as soon as its conf does. -/
def ServerKind (p : Process) (s b : Nat) (sv : ServerRec) : Prop :=
  ∃ c d, sv = ⟨some c, some d⟩ ∧ c < p.serverConfs.size ∧ d < p.dirConfs.size ∧
    ((d = b ∧ (c = s ∨ c ≠ s ∧ p.serverRulesOf c = [])) ∨
      (d ∈ p.trackedDirConfs.getD [] ∧ (p.rulesOf d = [] → p.serverRulesOf c = [])))

private theorem ServerKind.extends {p q : Process} {s b : Nat} {sv : ServerRec}
    (h : ServerKind p s b sv)
    (he : p.Extends q) : ServerKind q s b sv := by
  obtain ⟨c, d, rfl, hc, hd, hk⟩ := h
  refine ⟨c, d, rfl, by rw [he.server]; exact hc, Nat.lt_of_lt_of_le hd he.size, ?_⟩
  rw [he.serverRules c hc, he.rules d hd]
  exact hk.imp_right fun ⟨ht, hr⟩ ↦ ⟨he.tracked d ht, hr⟩

/-- The process and the servers `coraza_child_init` finds; `s` and `b` are the objects of the
main server. -/
structure Ready (s b : Nat) (servers : List ServerRec) (p : Process) : Prop where
  mergeable : p.Mergeable
  mainConf : s < p.serverConfs.size
  mainBase : b < p.dirConfs.size
  mainRules : p.serverRulesOf s = p.rulesOf b
  kinds : ∀ sv ∈ servers, ServerKind p s b sv
  distinct : servers.Pairwise fun sv sv' ↦
    sv.moduleConfig = sv'.moduleConfig → sv.moduleConfig = some s
  trackedLt : ∀ d ∈ p.trackedDirConfs.getD [], d < p.dirConfs.size ∧ d ≠ b
  main : servers.head? = some ⟨some s, some b⟩

namespace Startup

/-- The process part of the way through the fix-up. -/
structure Fixing (st : Startup) (q : Process) : Prop where
  mergeable : q.Mergeable
  ext : st.process.Extends q
  trackedLt : ∀ d ∈ q.trackedDirConfs.getD [], st.process.dirConfs.size ≤ d ∧ d < q.dirConfs.size
  tracker : q.trackedDirConfs.isSome

/-- The fix-up begins with what was read. -/
theorem Reading.fixing {st : Startup} (h : Reading st) : Fixing st st.process where
  mergeable := ⟨h.layout.dirArray, h.layout.serverArray, h.layout.flag, h.layout.noWafs⟩
  ext := Process.Extends.refl _
  trackedLt d hd := by
    rw [h.tracker] at hd
    cases hd
  tracker := by rw [h.tracker]; rfl

private theorem Fixing.merge {st : Startup} {q : Process} (h : Fixing st q) {a b : Nat}
    (ha : a < q.dirConfs.size) (hb : b < q.dirConfs.size) :
    Fixing st (q.corazaMergeDirConf a b).2 ∧
      q.dirConfs.size ∈ (q.corazaMergeDirConf a b).2.trackedDirConfs.getD [] := by
  obtain ⟨l, hl⟩ := Option.isSome_iff_exists.mp h.tracker
  have ht : (q.corazaMergeDirConf a b).2.trackedDirConfs = some (l ++ [q.dirConfs.size]) := by
    simp [Process.corazaMergeDirConf, hl]
  have hext := h.mergeable.extends_merge a b
  refine ⟨⟨h.mergeable.merge ha hb, h.ext.trans hext, fun d hd ↦ ?_, by rw [ht]; rfl⟩, ?_⟩
  · rw [ht, Option.getD_some] at hd
    rw [Process.size_merge]
    rcases List.mem_append.mp hd with hd | hd
    · have := h.trackedLt d (by rw [hl]; exact hd)
      omega
    · rw [List.mem_singleton.mp hd]
      exact ⟨h.ext.size, Nat.lt_succ_self _⟩
  · rw [ht]
    exact List.mem_append_right _ (List.mem_singleton.mpr rfl)

variable {st : Startup} {s b : Nat}

/-- The main server has the same rules in both of its objects. -/
theorem Reading.mainRules (h : Reading st) (hs : st.moduleConfig 0 = some s)
    (hb : st.dirVector (0, none) = some b) :
    st.process.serverRulesOf s = st.process.rulesOf b := by
  have hl := h.level 0
  simp only [baseRules, ownRules, hs, hb, Option.map_some, Option.getD_some] at hl
  exact hl.symm

/-- One virtual host: the server it becomes is of a known kind. -/
theorem Reading.fixupVirtualHost (h : Reading st) (hs : st.moduleConfig 0 = some s)
    (hb : st.dirVector (0, none) = some b) {q : Process} (hq : Fixing st q) {i : Nat}
    (hi : i ≠ 0) :
    Fixing st (fixupVirtualHost (st.serverRec 0) q (st.serverRec i)).2 ∧
    q.Extends (fixupVirtualHost (st.serverRec 0) q (st.serverRec i)).2 ∧
    ServerKind (fixupVirtualHost (st.serverRec 0) q (st.serverRec i)).2 s b
      (fixupVirtualHost (st.serverRec 0) q (st.serverRec i)).1 := by
  have hblt := h.dirLt _ b hb
  have hslt := h.confLt _ s hs
  have hmain := h.mainRules hs hb
  have hlevel := h.level i
  simp only [Config.fixupVirtualHost, serverRec, hs, hb]
  cases hd : st.dirVector (i, none) with
  | none =>
    refine ⟨hq, Process.Extends.refl q, ?_⟩
    have hblt' : b < q.dirConfs.size := Nat.lt_of_lt_of_le hblt hq.ext.size
    cases hc : st.moduleConfig i with
    | none =>
      exact ⟨s, b, rfl, by rw [hq.ext.server]; exact hslt, hblt', Or.inl ⟨rfl, Or.inl rfl⟩⟩
    | some c =>
      have hclt := h.confLt _ c hc
      refine ⟨c, b, rfl, by rw [hq.ext.server]; exact hclt, hblt', Or.inl ⟨rfl, Or.inr ⟨?_, ?_⟩⟩⟩
      · rintro rfl
        exact hi (h.confInj _ _ _ hc hs)
      · rw [hq.ext.serverRules c hclt]
        simp only [baseRules, ownRules, hd, hc, Option.map_some, Option.getD_some,
          Option.map_none, Option.getD_none] at hlevel
        exact hlevel.symm
  | some d =>
    have hdlt := h.dirLt _ d hd
    have hblt' : b < q.dirConfs.size := Nat.lt_of_lt_of_le hblt hq.ext.size
    have hdlt' : d < q.dirConfs.size := Nat.lt_of_lt_of_le hdlt hq.ext.size
    obtain ⟨hq', htr⟩ := hq.merge hblt' hdlt'
    have hrules := Process.rulesOf_merge_self q b d
    refine ⟨hq', hq.mergeable.extends_merge b d, ?_⟩
    -- An empty merged list means that both the main and the own level are empty.
    have hempty : (q.corazaMergeDirConf b d).2.rulesOf q.dirConfs.size = [] →
        st.process.rulesOf b = [] ∧ st.process.rulesOf d = [] := by
      intro he
      rw [hrules, hq.ext.rules b hblt, hq.ext.rules d hdlt] at he
      exact List.append_eq_nil_iff.mp he
    have hsize : q.dirConfs.size < (q.corazaMergeDirConf b d).2.dirConfs.size := by
      rw [Process.size_merge]
      exact Nat.lt_succ_self _
    cases hc : st.moduleConfig i with
    | none =>
      refine ⟨s, _, rfl, by rw [hq'.ext.server]; exact hslt, hsize, Or.inr ⟨htr, fun he ↦ ?_⟩⟩
      rw [hq'.ext.serverRules s hslt, hmain]
      exact (hempty he).1
    | some c =>
      have hclt := h.confLt _ c hc
      refine ⟨c, _, rfl, by rw [hq'.ext.server]; exact hclt, hsize, Or.inr ⟨htr, fun he ↦ ?_⟩⟩
      simp only [baseRules, ownRules, hd, hc, Option.map_some, Option.getD_some] at hlevel
      rw [hq'.ext.serverRules c hclt, ← hlevel]
      exact (hempty he).2

/-- All virtual hosts. -/
theorem Reading.fixupVirtualHosts (h : Reading st) (hs : st.moduleConfig 0 = some s)
    (hb : st.dirVector (0, none) = some b) {q : Process} (hq : Fixing st q) (is : List Nat)
    (hi : ∀ i ∈ is, i ≠ 0) :
    Fixing st (fixupVirtualHosts (st.serverRec 0) q (is.map st.serverRec)).2 ∧
    q.Extends (fixupVirtualHosts (st.serverRec 0) q (is.map st.serverRec)).2 ∧
    (∀ sv ∈ (fixupVirtualHosts (st.serverRec 0) q (is.map st.serverRec)).1,
      ServerKind (fixupVirtualHosts (st.serverRec 0) q (is.map st.serverRec)).2 s b sv) ∧
    (fixupVirtualHosts (st.serverRec 0) q (is.map st.serverRec)).1.map (·.moduleConfig) =
      is.map fun i ↦ (st.moduleConfig i).or (some s) := by
  induction is generalizing q with
  | nil => exact ⟨hq, Process.Extends.refl q, by simp [Config.fixupVirtualHosts], rfl⟩
  | cons i is ih =>
    obtain ⟨hi0, hirest⟩ := List.forall_mem_cons.mp hi
    obtain ⟨hq1, he1, hk1⟩ := h.fixupVirtualHost hs hb hq hi0
    obtain ⟨hq2, he2, hk2, hm2⟩ := ih hq1 hirest
    simp only [List.map_cons, Config.fixupVirtualHosts]
    refine ⟨hq2, he1.trans he2, ?_, ?_⟩
    · exact List.forall_mem_cons.mpr ⟨hk1.extends he2, hk2⟩
    · rw [hm2]
      congr 1
      simp only [Config.fixupVirtualHost, serverRec, hs]
      split <;> rfl

/-- Every configuration httpd accepts leaves the child with servers of the known kinds. -/
theorem ready_of_load {conf : StaticConf} {env : ConfigEnv} {servers : List ServerRec}
    {p : Process} (hl : conf.load env = .ok (servers, p)) : ∃ s b, Ready s b servers p := by
  obtain ⟨st, hst, heq⟩ := StaticConf.exists_of_load hl
  have h : Reading st := reading_init.readDirectives hst
  obtain ⟨s, hs⟩ := Option.isSome_iff_exists.mp h.main.1
  obtain ⟨b, hb⟩ := Option.isSome_iff_exists.mp h.main.2
  have hblt := h.dirLt _ b hb
  have hslt := h.confLt _ s hs
  have hr0 : st.serverRec 0 = ⟨some s, some b⟩ := by rw [serverRec, hs, hb]
  have hfix := h.fixupVirtualHosts hs hb h.fixing _ (vhosts_ne_zero conf.vhosts)
  rw [List.map_map, show st.serverRec ∘ (· + 1) = fun i ↦ st.serverRec (i + 1) from rfl] at hfix
  obtain ⟨hq, -, hk, hm⟩ := hfix
  cases heq
  refine ⟨s, b, hq.mergeable, ?_, ?_, ?_, ?_, ?_, fun d hd ↦ ?_, ?_⟩
  · rw [hq.ext.server]
    exact hslt
  · exact Nat.lt_of_lt_of_le hblt hq.ext.size
  · rw [hq.ext.serverRules s hslt, hq.ext.rules b hblt]
    exact h.mainRules hs hb
  · refine List.forall_mem_cons.mpr ⟨?_, hk⟩
    exact ⟨s, b, hr0, by rw [hq.ext.server]; exact hslt, Nat.lt_of_lt_of_le hblt hq.ext.size,
      Or.inl ⟨rfl, Or.inl rfl⟩⟩
  · refine List.pairwise_cons.mpr ⟨fun sv _ _ ↦ by rw [hr0], ?_⟩
    have hp : ((List.range conf.vhosts).map (· + 1)).Pairwise fun i j ↦
        (st.moduleConfig i).or (some s) = (st.moduleConfig j).or (some s) →
          (st.moduleConfig i).or (some s) = some s := by
      rw [List.pairwise_map]
      refine List.Pairwise.imp ?_ List.pairwise_lt_range
      intro i j hij heq
      cases hc : st.moduleConfig (i + 1) with
      | none => rfl
      | some c =>
        rw [hc] at heq
        cases hc' : st.moduleConfig (j + 1) with
        | none => rw [hc'] at heq; exact heq
        | some c' =>
          rw [hc'] at heq
          cases heq
          have := h.confInj _ _ _ hc hc'
          omega
    have hp' := (List.pairwise_map (R := fun x y : Option Nat ↦ x = y → x = some s)
      (f := fun i ↦ (st.moduleConfig i).or (some s))).mpr hp
    rw [← hm] at hp'
    exact List.pairwise_map.mp hp'
  · obtain ⟨hge, hlt⟩ := hq.trackedLt d hd
    exact ⟨hlt, by omega⟩
  · rw [hr0]
    rfl

end Startup
end CorazaApache.Config
