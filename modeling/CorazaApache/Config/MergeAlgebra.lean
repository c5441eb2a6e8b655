import Mathlib.Algebra.BigOperators.Group.List.Basic
import CorazaApache.Base.Override
import CorazaApache.Config.Isolation
import CorazaApache.Config.StartupCoherence

/-!
# The algebra of configuration merges

The settings a merge computes are the product of a monoid: each scalar is the inner one where
it was set, and rules are concatenated. That the code's merge computes this product rests on the
flag `has_rules` being exact, for objects that share rule arrays as for those that do not:
`src/mod_coraza.c:991–1049`. So the result of merging nested scopes does not depend on how
httpd groups the merges.
-/

namespace CorazaApache.Config
open CorazaApache.Base

/-- What a `dir_conf` sets, with its rules by content. -/
@[ext] structure Settings where
  enable : Int
  transactionId : Option CString
  bodyMemLimit : Int
  rules : RuleList
  deriving DecidableEq

namespace Settings

/-- Nothing set. -/
instance : One Settings :=
  ⟨{ enable := -1, transactionId := none, bodyMemLimit := -1, rules := [] }⟩

/-- The settings of an inner scope on top of those of an outer one. -/
instance : Mul Settings where
  mul outer inner :=
    { enable := override (-1) outer.enable inner.enable
      transactionId := override none outer.transactionId inner.transactionId
      bodyMemLimit := override (-1) outer.bodyMemLimit inner.bodyMemLimit
      rules := outer.rules ++ inner.rules }

instance : Monoid Settings where
  mul_assoc a b c := by
    apply Settings.ext
    · exact override_assoc (-1) a.enable b.enable c.enable
    · exact override_assoc none a.transactionId b.transactionId c.transactionId
    · exact override_assoc (-1) a.bodyMemLimit b.bodyMemLimit c.bodyMemLimit
    · exact List.append_assoc a.rules b.rules c.rules
  one_mul a := by
    apply Settings.ext
    · exact override_unset_left (-1) a.enable
    · exact override_unset_left none a.transactionId
    · exact override_unset_left (-1) a.bodyMemLimit
    · exact List.nil_append a.rules
  mul_one a := by
    apply Settings.ext
    · exact override_unset_right (-1) a.enable
    · exact override_unset_right none a.transactionId
    · exact override_unset_right (-1) a.bodyMemLimit
    · exact List.append_nil a.rules

/-- The product over nested scopes: the innermost setting of each kind, and all rules. -/
theorem prod_eq (scopes : List Settings) :
    scopes.prod =
      { enable := innermost (-1) (scopes.map enable)
        transactionId := innermost none (scopes.map transactionId)
        bodyMemLimit := innermost (-1) (scopes.map bodyMemLimit)
        rules := scopes.flatMap rules } := by
  induction scopes with
  | nil => rfl
  | cons s scopes ih =>
    rw [List.prod_cons, ih]
    simp only [List.map_cons, List.flatMap_cons, innermost_cons]
    rfl

end Settings

namespace Process

/-- The settings of the `dir_conf` at an address. -/
def settingsOf (p : Process) (d : Nat) : Settings :=
  { enable := (p.dirConfs.get d).enable
    transactionId := (p.dirConfs.get d).transactionId
    bodyMemLimit := (p.dirConfs.get d).bodyMemLimit
    rules := p.rulesOf d }

/-- A merge computes the product. -/
theorem settingsOf_merge (p : Process) (a b : Nat) :
    (p.corazaMergeDirConf a b).2.settingsOf p.dirConfs.size = p.settingsOf a * p.settingsOf b := by
  have hscalars : (p.mergedDirConf a b).1.enable =
        (mergedScalars (p.dirConfs.get a) (p.dirConfs.get b)).enable ∧
      (p.mergedDirConf a b).1.transactionId =
        (mergedScalars (p.dirConfs.get a) (p.dirConfs.get b)).transactionId ∧
      (p.mergedDirConf a b).1.bodyMemLimit =
        (mergedScalars (p.dirConfs.get a) (p.dirConfs.get b)).bodyMemLimit := by
    unfold mergedDirConf
    dsimp only
    split
    · split <;> exact ⟨rfl, rfl, rfl⟩
    · split <;> exact ⟨rfl, rfl, rfl⟩
  apply Settings.ext
  · rw [settingsOf, get_merge_self]
    exact hscalars.1
  · rw [settingsOf, get_merge_self]
    apply hscalars.2.1.trans
    show (if (p.dirConfs.get b).transactionId.isSome then _ else _) = override none _ _
    rw [override]
    cases hb : (p.settingsOf b).transactionId <;> simp_all [settingsOf]
  · rw [settingsOf, get_merge_self]
    exact hscalars.2.2
  · exact rulesOf_merge_self p a b

/-- Rule arrays are allocated and belong to `dir_conf`s or to server confs. They are shared only
while they have rules, and `has_rules` says exactly whether there are any. -/
structure Consistent (p : Process) : Prop where
  dirArray : ∀ d < p.dirConfs.size, (p.dirConfs.get d).rules < p.arrays.size
  serverArray : ∀ c < p.serverConfs.size, (p.serverConfs.get c).rules < p.arrays.size
  apart : ∀ d < p.dirConfs.size, ∀ c < p.serverConfs.size,
    (p.dirConfs.get d).rules ≠ (p.serverConfs.get c).rules
  shared : ∀ d < p.dirConfs.size, ∀ e < p.dirConfs.size,
    (p.dirConfs.get d).rules = (p.dirConfs.get e).rules → d = e ∨ p.rulesOf d ≠ []
  flag : ∀ d < p.dirConfs.size, ((p.dirConfs.get d).hasRules = true ↔ p.rulesOf d ≠ [])

namespace Consistent

variable {p : Process}

private theorem init : Process.init.Consistent where
  dirArray d hd := absurd hd (Nat.not_lt_zero d)
  serverArray c hc := absurd hc (Nat.not_lt_zero c)
  apart d hd := absurd hd (Nat.not_lt_zero d)
  shared d hd := absurd hd (Nat.not_lt_zero d)
  flag d hd := absurd hd (Nat.not_lt_zero d)

/-- A new object with an array of its own, while the others stay. -/
theorem extend (h : p.Consistent) {q : Process} {m : CorazaDirConf}
    (hdirs : q.dirConfs = p.dirConfs.alloc m) (hservers : q.serverConfs = p.serverConfs)
    (hsize : p.arrays.size ≤ q.arrays.size)
    (hkeep : ∀ i < p.arrays.size, q.arrays.get i = p.arrays.get i)
    (harray : m.rules < q.arrays.size)
    (howner : m.rules = p.arrays.size ∨
      ∃ o < p.dirConfs.size, m.rules = (p.dirConfs.get o).rules ∧ p.rulesOf o ≠ [])
    (hflag : m.hasRules = true ↔ q.arrays.get m.rules ≠ []) : q.Consistent := by
  have hsplit {d : Nat} (hd : d < q.dirConfs.size) : d < p.dirConfs.size ∨ d = p.dirConfs.size := by
    rw [hdirs, Arena.size_alloc] at hd
    omega
  have hold {d : Nat} (hd : d < p.dirConfs.size) : q.dirConfs.get d = p.dirConfs.get d := by
    rw [hdirs, Arena.get_alloc_of_lt _ _ _ hd]
  have hnew : q.dirConfs.get p.dirConfs.size = m := by rw [hdirs, Arena.get_alloc_self]
  have hrules {d : Nat} (hd : d < p.dirConfs.size) : q.rulesOf d = p.rulesOf d := by
    rw [rulesOf, hold hd, hkeep _ (h.dirArray d hd)]
    rfl
  -- An older object with the array of the new one.
  have hboth {d : Nat} (hd : d < p.dirConfs.size) (heq : (p.dirConfs.get d).rules = m.rules) :
      p.rulesOf d ≠ [] := by
    rcases howner with hown | ⟨o, -, hown, hne⟩
    · exact absurd (heq.trans hown) (Nat.ne_of_lt (h.dirArray d hd))
    · rw [rulesOf, heq, hown]
      exact hne
  refine ⟨fun d hd ↦ ?_, fun c hc ↦ ?_, fun d hd c hc ↦ ?_, fun d hd e he heq ↦ ?_,
    fun d hd ↦ ?_⟩
  · rcases hsplit hd with hd | rfl
    · rw [hold hd]
      exact Nat.lt_of_lt_of_le (h.dirArray d hd) hsize
    · rw [hnew]
      exact harray
  · rw [hservers] at hc ⊢
    exact Nat.lt_of_lt_of_le (h.serverArray c hc) hsize
  · rw [hservers] at hc ⊢
    rcases hsplit hd with hd | rfl
    · rw [hold hd]
      exact h.apart d hd c hc
    · rw [hnew]
      rcases howner with hown | ⟨o, ho, hown, -⟩
      · rw [hown]
        exact (Nat.ne_of_lt (h.serverArray c hc)).symm
      · rw [hown]
        exact h.apart o ho c hc
  · rcases hsplit hd with hd | rfl
    · rw [hrules hd]
      rw [hold hd] at heq
      rcases hsplit he with he | rfl
      · rw [hold he] at heq
        exact h.shared d hd e he heq
      · rw [hnew] at heq
        exact Or.inr (hboth hd heq)
    · rcases hsplit he with he | rfl
      · rw [hnew, hold he] at heq
        right
        rw [rulesOf, hnew, heq, hkeep _ (h.dirArray e he)]
        exact hboth he heq.symm
      · exact Or.inl rfl
  · rcases hsplit hd with hd | rfl
    · rw [hold hd, hrules hd]
      exact h.flag d hd
    · rw [rulesOf, hnew]
      exact hflag

private theorem createDirConf (h : p.Consistent) : p.corazaCreateDirConf.2.Consistent := by
  refine h.extend rfl rfl ?_ ?_ ?_ (Or.inl rfl) ?_
  · exact Nat.le_of_lt (Arena.size_alloc p.arrays [] ▸ Nat.lt_succ_self _)
  · intro i hi
    exact Arena.get_alloc_of_lt _ _ _ hi
  · exact Arena.size_alloc p.arrays [] ▸ Nat.lt_succ_self _
  · show false = true ↔ (p.arrays.alloc []).get p.arrays.size ≠ []
    rw [Arena.get_alloc_self]
    simp

private theorem createServerConf (h : p.Consistent) : p.corazaCreateServerConf.2.Consistent := by
  have hrules {d : Nat} (hd : d < p.dirConfs.size) :
      p.corazaCreateServerConf.2.rulesOf d = p.rulesOf d := by
    rw [rulesOf, rulesOf]
    exact Arena.get_alloc_of_lt _ _ _ (h.dirArray d hd)
  have hsize : p.corazaCreateServerConf.2.arrays.size = p.arrays.size + 1 :=
    Arena.size_alloc _ _
  have hget (c : Nat) : p.corazaCreateServerConf.2.serverConfs.get c =
      if c = p.serverConfs.size then
        { rules := p.arrays.size, waf := 0, rulesInline := 0, rulesFile := 0 }
      else p.serverConfs.get c := Arena.get_alloc _ _ _
  have hsplit {c : Nat} (hc : c < p.corazaCreateServerConf.2.serverConfs.size)
      (hne : c ≠ p.serverConfs.size) : c < p.serverConfs.size := by
    simp only [corazaCreateServerConf, Arena.size_alloc] at hc
    omega
  refine ⟨fun d hd ↦ ?_, fun c hc ↦ ?_, fun d hd c hc ↦ ?_, fun d hd e he heq ↦ ?_,
    fun d hd ↦ ?_⟩
  · rw [hsize]
    exact Nat.lt_succ_of_lt (h.dirArray d hd)
  · rw [hsize, hget]
    split
    · exact Nat.lt_succ_self _
    · next hne => exact Nat.lt_succ_of_lt (h.serverArray c (hsplit hc hne))
  · rw [hget]
    split
    · exact Nat.ne_of_lt (h.dirArray d hd)
    · next hne => exact h.apart d hd c (hsplit hc hne)
  · rw [hrules hd]
    exact h.shared d hd e he heq
  · rw [hrules hd]
    exact h.flag d hd

private theorem updateDirConf (h : p.Consistent) {f : CorazaDirConf → CorazaDirConf} (hf : Benign f)
    (dcf : Nat) : (p.updateDirConf dcf f).Consistent := by
  have hs : (p.updateDirConf dcf f).dirConfs.size = p.dirConfs.size := Arena.size_set _ _ _
  have hr (d : Nat) := (get_updateDirConf_of_benign hf p dcf d).1
  have hrules (d : Nat) := rulesOf_updateDirConf_of_benign hf p dcf d
  refine ⟨fun d hd ↦ ?_, h.serverArray, fun d hd c hc ↦ ?_, fun d hd e he heq ↦ ?_,
    fun d hd ↦ ?_⟩
  · rw [hr d]
    exact h.dirArray d (hs ▸ hd)
  · rw [hr d]
    exact h.apart d (hs ▸ hd) c hc
  · rw [hr d, hr e] at heq
    rw [hrules d]
    exact h.shared d (hs ▸ hd) e (hs ▸ he) heq
  · rw [(get_updateDirConf_of_benign hf p dcf d).2.1, hrules d]
    exact h.flag d (hs ▸ hd)

/-- A rule stored in a shared array is seen by all its objects, and all have their flag. -/
theorem storeRule (h : p.Consistent) (cmd : CmdParms) (e : CorazaRuleEntry) {dcf scf : Nat}
    (hdcf : dcf < p.dirConfs.size) (hscf : scf < p.serverConfs.size) :
    (p.storeRule cmd dcf scf e).Consistent := by
  have hr (d : Nat) := (dir_storeRule p cmd dcf scf e d).1
  have hc (c : Nat) := (server_storeRule p cmd dcf scf e c).1
  have hds := size_dirConfs_storeRule p cmd dcf scf e
  have hss := size_serverConfs_storeRule p cmd dcf scf e
  have has := size_arrays_storeRule p cmd dcf scf e
  have hrules {d : Nat} (hd : d < p.dirConfs.size) : (p.storeRule cmd dcf scf e).rulesOf d =
      if (p.dirConfs.get dcf).rules = (p.dirConfs.get d).rules then p.rulesOf d ++ [e]
      else p.rulesOf d :=
    rulesOf_storeRule_of_apart cmd e (h.dirArray d hd) (h.apart d hd scf hscf)
  refine ⟨?_, ?_, ?_, fun d hd o ho heq ↦ ?_, fun d hd ↦ ?_⟩
  · simpa only [hr, hds, has] using h.dirArray
  · simpa only [hc, hss, has] using h.serverArray
  · simpa only [hr, hc, hds, hss] using h.apart
  · rw [hds] at hd ho
    rw [hr, hr] at heq
    rw [hrules hd]
    apply (h.shared d hd o ho heq).imp_right
    intro hne
    split
    · exact List.append_ne_nil_of_right_ne_nil _ (List.cons_ne_nil e [])
    · exact hne
  · rw [hds] at hd
    rw [hasRules_storeRule p cmd dcf scf e d hd, hrules hd]
    by_cases hsame : (p.dirConfs.get dcf).rules = (p.dirConfs.get d).rules
    · have hset : (if d = dcf then true else (p.dirConfs.get d).hasRules) = true := by
        split
        · rfl
        · next hne =>
          have hnonempty := (h.shared d hd dcf hdcf hsame.symm).resolve_left hne
          exact (h.flag d hd).mpr hnonempty
      rw [if_pos hsame]
      exact iff_of_true hset (List.append_ne_nil_of_right_ne_nil _ (List.cons_ne_nil e []))
    · have hne : d ≠ dcf := by
        rintro rfl
        exact hsame rfl
      rw [if_neg hsame, if_neg hne]
      exact h.flag d hd

/-- A merge shares an array only if it has rules, and its flag is exact in all four cases. -/
theorem merge (h : p.Consistent) {a b : Nat} (ha : a < p.dirConfs.size)
    (hb : b < p.dirConfs.size) : (p.corazaMergeDirConf a b).2.Consistent := by
  have hempty {d : Nat} (hn : ¬ 0 < (p.rulesOf d).length) : p.rulesOf d = [] :=
    List.length_eq_zero_iff.mp (Nat.eq_zero_of_not_pos hn)
  have hrules := rulesOf_merge_self p a b
  have harray := rules_merge_lt p a b (h.dirArray a ha) (h.dirArray b hb)
  rw [rulesOf, get_merge_self] at hrules
  rw [get_merge_self] at harray
  obtain ⟨m, hm⟩ : ∃ m, (p.mergedDirConf a b).1 = m := ⟨_, rfl⟩
  have hcases : (m.rules = p.arrays.size ∨
      ∃ o < p.dirConfs.size, m.rules = (p.dirConfs.get o).rules ∧ p.rulesOf o ≠ []) ∧
      (m.hasRules = true ↔ p.rulesOf a ++ p.rulesOf b ≠ []) := by
    unfold mergedDirConf at hm
    dsimp only at hm
    split at hm
    · next hpa =>
      have hne : p.rulesOf a ≠ [] := List.length_pos_iff.mp hpa
      split at hm
      · subst hm
        exact ⟨Or.inl rfl, iff_of_true rfl (List.append_ne_nil_of_left_ne_nil hne _)⟩
      · next hpb =>
        subst hm
        rw [hempty hpb, List.append_nil]
        exact ⟨Or.inr ⟨a, ha, rfl, hne⟩, h.flag a ha⟩
    · next hpa =>
      rw [hempty hpa, List.nil_append]
      split at hm
      · next hpb =>
        subst hm
        exact ⟨Or.inr ⟨b, hb, rfl, List.length_pos_iff.mp hpb⟩, h.flag b hb⟩
      · next hpb =>
        subst hm
        rw [hempty hpb]
        exact ⟨Or.inl rfl, iff_of_false Bool.false_ne_true fun hn ↦ hn rfl⟩
  rw [← hm, ← hrules] at hcases
  exact h.extend rfl rfl (arrays_merge p a b).1 (arrays_merge p a b).2 harray hcases.1 hcases.2

end Consistent

/-- A merge leaves the settings of the objects there were. -/
theorem settingsOf_merge_of_lt {p : Process} (h : p.Consistent) (a b : Nat) {d : Nat}
    (hd : d < p.dirConfs.size) :
    (p.corazaMergeDirConf a b).2.settingsOf d = p.settingsOf d := by
  have hget := get_merge_of_lt p a b d hd
  have hrules : (p.corazaMergeDirConf a b).2.rulesOf d = p.rulesOf d := by
    rw [rulesOf, hget, (arrays_merge p a b).2 _ (h.dirArray d hd)]
    rfl
  rw [settingsOf, hget, hrules]
  rfl

end Process

/-- The processes that creating, directives and merging lead to. -/
inductive Configured (env : ConfigEnv) : Process → Prop
  | init : Configured env Process.init
  | createServerConf {p : Process} (h : Configured env p) :
      Configured env p.corazaCreateServerConf.2
  | createDirConf {p : Process} (h : Configured env p) : Configured env p.corazaCreateDirConf.2
  | directive {p q : Process} {dir : Directive} {path : Bool} {dcf scf : Nat}
      (h : Configured env p) (hdcf : dcf < p.dirConfs.size) (hscf : scf < p.serverConfs.size)
      (hrun : dir.run env p path dcf scf = .ok q) : Configured env q
  | merge {p : Process} {a b : Nat} (h : Configured env p) (ha : a < p.dirConfs.size)
      (hb : b < p.dirConfs.size) : Configured env (p.corazaMergeDirConf a b).2

private theorem Configured.consistent {env : ConfigEnv} {p : Process} (h : Configured env p) :
    p.Consistent := by
  induction h with
  | init => exact .init
  | createServerConf _ ih => exact ih.createServerConf
  | createDirConf _ ih => exact ih.createDirConf
  | directive _ hdcf hscf hrun ih =>
    rcases Process.directive_run_cases hrun with ⟨cmd, e, -, -, rfl⟩ | ⟨f, hf, -, -, rfl⟩
    · exact ih.storeRule cmd e hdcf hscf
    · exact ih.updateDirConf hf _
  | merge _ ha hb ih => exact ih.merge ha hb

/-- A way to group the merges of nested scopes. -/
inductive Grouping where
  | scope (d : Nat)
  | nest (outer inner : Grouping)

namespace Grouping

/-- The scopes, from the outermost to the innermost. -/
def scopes : Grouping → List Nat
  | scope d => [d]
  | nest outer inner => outer.scopes ++ inner.scopes

/-- Merge as grouped. -/
def merge (p : Process) : Grouping → Nat × Process
  | scope d => (d, p)
  | nest outer inner =>
    let (a, p) := outer.merge p
    let (b, p) := inner.merge p
    p.corazaMergeDirConf a b

/-- What merging leaves: the merged object, and all earlier ones as they were. -/
structure Merged (p : Process) (g : Grouping) (m : Nat) (q : Process) : Prop where
  consistent : q.Consistent
  lt : m < q.dirConfs.size
  settings : q.settingsOf m = (g.scopes.map p.settingsOf).prod
  size : p.dirConfs.size ≤ q.dirConfs.size
  keeps : ∀ d < p.dirConfs.size, q.settingsOf d = p.settingsOf d

/-- However the merges are grouped, the settings are the product over the scopes. -/
theorem merged (g : Grouping) {p : Process} (h : p.Consistent)
    (hg : ∀ d ∈ g.scopes, d < p.dirConfs.size) : Merged p g (g.merge p).1 (g.merge p).2 := by
  induction g generalizing p with
  | scope d =>
    refine ⟨h, hg d (List.mem_singleton_self d), ?_, Nat.le_refl _, fun _ _ ↦ rfl⟩
    exact (List.prod_singleton).symm
  | nest outer inner iho ihi =>
    rw [scopes, List.forall_mem_append] at hg
    have ho := iho h hg.1
    have hi := ihi ho.consistent fun d hd ↦ Nat.lt_of_lt_of_le (hg.2 d hd) ho.size
    obtain ⟨a, p₁, hmo⟩ : ∃ a p₁, outer.merge p = (a, p₁) := ⟨_, _, rfl⟩
    rw [hmo] at ho hi
    obtain ⟨b, p₂, hmi⟩ : ∃ b p₂, inner.merge p₁ = (b, p₂) := ⟨_, _, rfl⟩
    rw [hmi] at hi
    rw [merge, hmo]
    dsimp only
    rw [hmi]
    have ha : a < p₂.dirConfs.size := Nat.lt_of_lt_of_le ho.lt hi.size
    have hinner : inner.scopes.map p₁.settingsOf = inner.scopes.map p.settingsOf :=
      List.map_congr_left fun d hd ↦ ho.keeps d (hg.2 d hd)
    refine ⟨hi.consistent.merge ha hi.lt, ?_, ?_, ?_, fun d hd ↦ ?_⟩
    · rw [Process.size_merge]
      exact Nat.lt_succ_self _
    · rw [scopes, List.map_append, List.prod_append, ← ho.settings, ← hinner, ← hi.settings,
        ← hi.keeps a ho.lt]
      exact Process.settingsOf_merge p₂ a b
    · rw [Process.size_merge]
      exact Nat.le_succ_of_le (Nat.le_trans ho.size hi.size)
    · have hd₁ : d < p₁.dirConfs.size := Nat.lt_of_lt_of_le hd ho.size
      have hd₂ : d < p₂.dirConfs.size := Nat.lt_of_lt_of_le hd₁ hi.size
      rw [Process.settingsOf_merge_of_lt hi.consistent a b hd₂, hi.keeps d hd₁, ho.keeps d hd]

end Grouping

namespace Process

/-- What a request is configured with: the settings, and whether the rules count. -/
def effectiveOf (p : Process) (d : Nat) : Settings × Bool :=
  (p.settingsOf d, (p.dirConfs.get d).hasRules)

/-- The flag is no setting of its own. -/
theorem Consistent.effectiveOf {p : Process} (h : p.Consistent) {d : Nat}
    (hd : d < p.dirConfs.size) :
    p.effectiveOf d = (p.settingsOf d, decide ((p.settingsOf d).rules ≠ [])) := by
  apply congrArg (Prod.mk (p.settingsOf d))
  rw [Bool.eq_iff_iff, decide_eq_true_iff]
  exact h.flag d hd

/-- A fresh object sets nothing, and the others are as they were. -/
theorem settingsOf_createDirConf {p : Process} (h : p.Consistent) :
    p.corazaCreateDirConf.2.settingsOf p.corazaCreateDirConf.1 = 1 ∧
      ∀ d < p.dirConfs.size, p.corazaCreateDirConf.2.settingsOf d = p.settingsOf d := by
  constructor
  · rw [settingsOf, rulesOf]
    simp only [corazaCreateDirConf, Arena.get_alloc_self]
    rfl
  · intro d hd
    have hget : p.corazaCreateDirConf.2.dirConfs.get d = p.dirConfs.get d :=
      Arena.get_alloc_of_lt _ _ _ hd
    have hrules : p.corazaCreateDirConf.2.rulesOf d = p.rulesOf d := by
      rw [rulesOf, hget]
      exact Arena.get_alloc_of_lt _ _ _ (h.dirArray d hd)
    rw [settingsOf, hget, hrules]
    rfl

end Process

/-- Merging is a monoid on what a request is configured with, so nested scopes give the
innermost setting of each kind and all their rules, however the merges are grouped. -/
theorem merge_monoid (env : ConfigEnv) (p : Process) (hp : Configured env p) :
    (∀ a b c, a < p.dirConfs.size → b < p.dirConfs.size → c < p.dirConfs.size →
      let ab := p.corazaMergeDirConf a b
      let left := ab.2.corazaMergeDirConf ab.1 c
      let bc := p.corazaMergeDirConf b c
      let right := bc.2.corazaMergeDirConf a bc.1
      left.2.effectiveOf left.1 = right.2.effectiveOf right.1) ∧
    (∀ a < p.dirConfs.size,
      let fresh := p.corazaCreateDirConf
      let left := fresh.2.corazaMergeDirConf fresh.1 a
      let right := fresh.2.corazaMergeDirConf a fresh.1
      left.2.effectiveOf left.1 = p.effectiveOf a ∧
        right.2.effectiveOf right.1 = p.effectiveOf a) ∧
    (∀ d < p.dirConfs.size, ((p.dirConfs.get d).hasRules = true ↔ p.rulesOf d ≠ [])) ∧
    ∀ g : Grouping, (∀ d ∈ g.scopes, d < p.dirConfs.size) →
      (g.merge p).2.effectiveOf (g.merge p).1 =
        ({ enable := innermost (-1) (g.scopes.map fun d ↦ (p.dirConfs.get d).enable)
           transactionId :=
             innermost none (g.scopes.map fun d ↦ (p.dirConfs.get d).transactionId)
           bodyMemLimit :=
             innermost (-1) (g.scopes.map fun d ↦ (p.dirConfs.get d).bodyMemLimit)
           rules := g.scopes.flatMap p.rulesOf },
          decide (g.scopes.flatMap p.rulesOf ≠ [])) := by
  have h := hp.consistent
  have hall (g : Grouping) {q : Process} (hq : q.Consistent)
      (hg : ∀ d ∈ g.scopes, d < q.dirConfs.size) :
      (g.merge q).2.effectiveOf (g.merge q).1 = ((g.scopes.map q.settingsOf).prod,
        decide ((g.scopes.map q.settingsOf).prod.rules ≠ [])) := by
    have hm := g.merged hq hg
    rw [hm.consistent.effectiveOf hm.lt, hm.settings]
  refine ⟨fun a b c ha hb hc ↦ ?_, fun a ha ↦ ?_, h.flag, fun g hg ↦ ?_⟩
  · have hl := hall (.nest (.nest (.scope a) (.scope b)) (.scope c)) h (by
      simp [Grouping.scopes, ha, hb, hc])
    have hr := hall (.nest (.scope a) (.nest (.scope b) (.scope c))) h (by
      simp [Grouping.scopes, ha, hb, hc])
    exact hl.trans hr.symm
  · obtain ⟨hone, hkeep⟩ := Process.settingsOf_createDirConf h
    have hfresh : p.corazaCreateDirConf.1 < p.corazaCreateDirConf.2.dirConfs.size :=
      Arena.size_alloc p.dirConfs _ ▸ Nat.lt_succ_self _
    have ha' : a < p.corazaCreateDirConf.2.dirConfs.size :=
      Arena.size_alloc p.dirConfs _ ▸ Nat.lt_succ_of_lt ha
    have hl := hall (.nest (.scope p.corazaCreateDirConf.1) (.scope a)) h.createDirConf (by
      simp only [Grouping.scopes, List.forall_mem_append, List.forall_mem_singleton]
      exact ⟨hfresh, ha'⟩)
    have hr := hall (.nest (.scope a) (.scope p.corazaCreateDirConf.1)) h.createDirConf (by
      simp only [Grouping.scopes, List.forall_mem_append, List.forall_mem_singleton]
      exact ⟨ha', hfresh⟩)
    simp only [Grouping.scopes, List.map_append, List.map_singleton, List.prod_append,
      List.prod_singleton, hone, hkeep a ha, one_mul, mul_one] at hl hr
    rw [h.effectiveOf ha]
    exact ⟨hl, hr⟩
  · rw [hall g h hg, Settings.prod_eq]
    simp only [List.map_map, List.flatMap_map]
    rfl

/-- A server with a rule, and a section of it that switches the module on. -/
def sectionInServer : Process :=
  (Process.init.corazaCreateServerConf.2.corazaCreateDirConf.2.corazaCreateDirConf.2.storeRule
    ⟨ascii "CorazaRules", false⟩ 0 0 (inlineRule "r")).cmdCorazaEnable 1 true

private theorem configured_sectionInServer : Configured plainEnv sectionInServer := by
  have hcreated : Configured plainEnv
      Process.init.corazaCreateServerConf.2.corazaCreateDirConf.2.corazaCreateDirConf.2 :=
    .createDirConf (.createDirConf (.createServerConf .init))
  have hrules := @Configured.directive _ _ _ (.corazaRules (CString.ofString "r")) false 0 0
    hcreated (by decide) (by decide) rfl
  exact @Configured.directive _ _ _ (.coraza true) true 1 0 hrules (by decide) (by decide) rfl

/-- The section has the rule of the server and its own switch. -/
theorem merge_monoid_section :
    Configured plainEnv sectionInServer ∧
      ((Grouping.nest (.scope 0) (.scope 1)).merge sectionInServer).2.effectiveOf
        ((Grouping.nest (.scope 0) (.scope 1)).merge sectionInServer).1 =
      ({ enable := 1, transactionId := none, bodyMemLimit := -1, rules := [inlineRule "r"] },
        true) := by
  refine ⟨configured_sectionInServer, ?_⟩
  have h := (merge_monoid plainEnv sectionInServer configured_sectionInServer).2.2.2
    (.nest (.scope 0) (.scope 1)) (by decide)
  exact h.trans (by decide)

end CorazaApache.Config
