import CorazaApache.Config.LockSteps

/-!
# The threads of a child

Under the worker and event MPMs the requests of a child run in threads of their own. Each merges
the objects of its request, `src/mod_coraza.c:991–1049`, and creates its context, `:384–472`: it
reads the handle of its `dir_conf`, waits for `g_waf_build_mutex` if there is something to build,
goes through the section step by step, and chooses its WAF after that without the mutex. The
threads take their steps in any order.
-/

namespace CorazaApache.Config
open CorazaApache.Base

/-- Where a thread is in `coraza_create_ctx`, with its `dir_conf` and server conf. `failed` says
that a build of its own returned no handle. -/
inductive Pc where
  | idle
  | check (d scf : Nat)
  | lock (d scf : Nat)
  | inside (d scf : Nat)
  | choose (d scf : Nat) (failed : Bool)
  | create (d scf waf : Nat) (failed : Bool)
  deriving DecidableEq

/-- A context that was created, with the WAF its transaction runs on. -/
structure Context where
  dirConf : Nat
  serverConf : Nat
  waf : Nat
  handle : Nat
  failed : Bool
  deriving DecidableEq

/-- What happens next: a request of a thread gets to `coraza_create_ctx`, a thread takes its next
step, objects are merged, an `.htaccess` file is read. -/
inductive Turn where
  | enter (t d scf : Nat)
  | run (t : Nat)
  | merge (parent child : Nat)
  | htaccess (rules : RuleList) (conf : CorazaDirConf)

/-- A child with its threads. -/
structure Child where
  shared : Locked Nat SectionLocals Process Unlocked
  pc : Nat → Pc
  contexts : List Context

namespace Process

/-- The `dir_conf` has rules to run; `src/mod_coraza.c:404`. -/
def RunsRules (p : Process) (d : Nat) : Prop :=
  (p.dirConfs.get d).hasRules = true ∧ 0 < (p.rulesOf d).length

instance (p : Process) (d : Nat) : Decidable (p.RunsRules d) := inferInstanceAs (Decidable (_ ∧ _))

/-- The object of an `.htaccess` file: no handle and no section, the flag set by its rules. -/
def htaccessObject (rules : RuleList) (conf : CorazaDirConf) : Published where
  rules := some rules
  conf := { conf with hasRules := !rules.isEmpty, waf := 0, mergeChild := none }

/-- A whole section, or what others do. -/
def complete (lib : WafLib) (p : Process) : Nat ⊕ Unlocked → Process
  | .inl d => p.lockedSection lib d
  | .inr e => p.unlocked e

end Process

namespace Child

/-- The state its threads share. -/
def process (s : Child) : Process := s.shared.state

/-- A step on what is shared. -/
def act (lib : WafLib) (s : Child) (a : LockAct Nat Unlocked) : Child :=
  { s with shared := (Process.wafSections lib).step s.shared a }

/-- A thread goes on. -/
def goto (s : Child) (t : Nat) (pc : Pc) : Child := { s with pc := Function.update s.pc t pc }

/-- `coraza_new_transaction` on a WAF, and the context if there is a transaction;
`src/mod_coraza.c:446–471`. -/
def create (lib : WafLib) (s : Child) (d scf waf : Nat) (failed : Bool) : Child :=
  let handle := lib.newTransaction s.process.transactions.length
  let s' := s.act lib (.change (.transaction
    ⟨waf, (s.process.dirConfs.get d).transactionId, handle⟩))
  if handle = 0 then s' else { s' with contexts := s.contexts ++ [⟨d, scf, waf, handle, failed⟩] }

/-- The next step of a thread. -/
def run (lib : WafLib) (s : Child) (t : Nat) : Child :=
  match s.pc t with
  | .idle => s
  | .check d scf =>
    s.goto t (if s.process.wafOf d = 0 ∧ s.process.RunsRules d then .lock d scf
      else .choose d scf false)
  | .lock d scf =>
    match s.shared.owner with
    | none => (s.act lib (.acquire d)).goto t (.inside d scf)
    | some _ => s
  | .inside d scf =>
    match s.shared.owner with
    | none => s
    | some ⟨_, _, _ :: _⟩ => s.act lib .advance
    | some ⟨_, l, []⟩ => (s.act lib .release).goto t (.choose d scf (l.built == some 0))
  | .choose d scf failed => s.goto t (.create d scf (s.process.chosenWaf d scf) failed)
  | .create d scf waf failed =>
    if waf = 0 then s.goto t .idle else (s.create lib d scf waf failed).goto t .idle

/-- One turn. No request holds an address that is no object's. -/
def step (lib : WafLib) (s : Child) : Turn → Child
  | .enter t d scf =>
    if s.pc t = .idle ∧ s.process.isObject d = true then s.goto t (.check d scf) else s
  | .run t => s.run lib t
  | .merge a b => s.act lib (.change (.merged (s.process.mergedObject a b)))
  | .htaccess rules conf =>
    s.act lib (.change (.htaccess (Process.htaccessObject rules conf)))

/-- The child before its first request. -/
def start (p : Process) : Child := ⟨Sections.start p, fun _ ↦ .idle, []⟩

/-- The child after these turns. -/
def reached (lib : WafLib) (p : Process) (turns : List Turn) : Child :=
  turns.foldl (step lib) (start p)

/-! ### What a step keeps -/

/-- Handles, objects and engine calls stay as they are once they are there. -/
structure Kept (p q : Process) : Prop where
  object : ∀ d, p.isObject d = true → q.isObject d = true
  waf : ∀ d, p.wafOf d ≠ 0 → q.wafOf d = p.wafOf d
  server : ∀ c, q.serverWafOf c = p.serverWafOf c
  runs : ∀ d, p.isObject d = true → (q.RunsRules d ↔ p.RunsRules d)
  calls : ∀ c ∈ p.transactions, c ∈ q.transactions

private theorem Kept.refl (p : Process) : Kept p p :=
  ⟨fun _ h ↦ h, fun _ _ ↦ rfl, fun _ ↦ rfl, fun _ _ ↦ Iff.rfl, fun _ h ↦ h⟩

private theorem Kept.trans {p q r : Process} (h : Kept p q) (h' : Kept q r) : Kept p r where
  object d hd := h'.object d (h.object d hd)
  waf d hd := by
    have hq := h.waf d hd
    rw [← hq] at hd ⊢
    exact h'.waf d hd
  server c := (h'.server c).trans (h.server c)
  runs d hd := (h'.runs d (h.object d hd)).trans (h.runs d hd)
  calls c hc := h'.calls c (h.calls c hc)

/-- What is done without the mutex. -/
theorem kept_unlocked (p : Process) (e : Unlocked) : Kept p (p.unlocked e) := by
  have hb := Process.beside_unlocked p e
  constructor
  · intro d hd
    exact hb.isObject hd
  · intro d hd
    exact hb.wafOf (Process.lt_size_of_wafOf hd)
  · intro c
    rw [Process.serverWafOf, hb.servers, Process.serverWafOf]
  · intro d hd
    rw [Process.RunsRules, hb.rulesOf hd, hb.conf d (Process.isObject_iff.mp hd).1,
      Process.RunsRules]
  · intro c hc
    cases e with
    | merged x => exact (Process.transactions_publish p x).symm ▸ hc
    | htaccess x => exact (Process.transactions_publish p x).symm ▸ hc
    | transaction call => exact List.mem_append_left _ hc

/-- What only writes handles, and where there was none. -/
theorem kept_of_fills {p q : Process} (ho : Process.OnlyWafs p q) (hf : Process.Fills p q) :
    Kept p q := by
  constructor
  · intro d hd
    rw [ho.isObject]
    exact hd
  · exact hf.kept
  · intro c
    rw [Process.serverWafOf, ho.serverConfs, Process.serverWafOf]
  · intro d _
    rw [Process.RunsRules, ho.rulesOf, ho.hasRules, Process.RunsRules]
  · intro c hc
    rw [ho.transactions]
    exact hc

variable {lib : WafLib} {p : Process} {s : Child}

/-- The section of whoever holds the mutex has taken its first steps. -/
theorem afterSteps_of_owner (h : Sections.Serial (Process.wafSections lib)
    (fun d q ↦ q.isObject d = true) p s.shared) {d : Nat} {l : SectionLocals}
    {rest : List (SectionLocals × Process → SectionLocals × Process)}
    (ho : s.shared.owner = some ⟨d, l, rest⟩) :
    ∃ q k, q.isObject d = true ∧ ((Process.wafSections lib).body d).drop k = rest ∧ k ≤ 8 ∧
      Process.afterSteps lib d q k = (l, s.process) := by
  have htop := h.onTop
  rw [Sections.OnTop, ho] at htop
  obtain ⟨taken, hbody, hready, htaken⟩ := htop
  refine ⟨_, taken.length, hready, ?_, ?_, ?_⟩
  · rw [hbody, List.drop_left]
  · have hlen : 8 = (taken ++ rest).length := congrArg List.length hbody
    rw [List.length_append] at hlen
    omega
  · rw [Process.afterSteps, hbody, List.take_left]
    exact htaken

/-- A step of the section. -/
theorem kept_advance (h : Sections.Serial (Process.wafSections lib)
    (fun d q ↦ q.isObject d = true) p s.shared) : Kept s.process (s.act lib .advance).process := by
  obtain ⟨⟨state, owner, done⟩, pc, contexts⟩ := s
  cases owner with
  | none => exact Kept.refl _
  | some o =>
    obtain ⟨d, l, rest⟩ := o
    cases rest with
    | nil => exact Kept.refl _
    | cons f rest =>
      obtain ⟨q, k, hq, hrest, -, hk⟩ := afterSteps_of_owner h rfl
      have hf : ((Process.wafSections lib).body d)[k]? = some f := by
        rw [← List.head?_drop, hrest]
        rfl
      have hnext := Process.afterSteps_succ lib d q hf
      have hfills := Process.fills_afterSteps lib hq k
      rw [hnext, hk] at hfills
      exact kept_of_fills (Process.onlyWafs_wafSections (List.mem_of_getElem? hf) l state) hfills

/-! ### Mutual exclusion, and what the threads know -/

/-- No build of the request is to be had for: none is needed, or its own has failed. -/
def Excused (p : Process) (d : Nat) (failed : Bool) : Prop := failed = true ∨ ¬ p.RunsRules d

/-- The WAF is the one of the `dir_conf`, or that of the server for want of one. -/
def Chosen (p : Process) (d scf waf : Nat) (failed : Bool) : Prop :=
  (waf ≠ 0 ∧ p.wafOf d = waf) ∨ (waf = p.serverWafOf scf ∧ Excused p d failed)

/-- What a thread knows where it is. -/
def Knows (p : Process) : Pc → Prop
  | .idle => True
  | .check d _ => p.isObject d = true
  | .lock d _ => p.isObject d = true
  | .inside d _ => p.isObject d = true
  | .choose d _ failed => p.isObject d = true ∧ (p.wafOf d ≠ 0 ∨ Excused p d failed)
  | .create d scf waf failed => p.isObject d = true ∧ Chosen p d scf waf failed

/-- The context has a transaction, on the WAF that was chosen. -/
structure Runs (p : Process) (c : Context) : Prop where
  object : p.isObject c.dirConf = true
  handle : c.handle ≠ 0
  chosen : c.waf ≠ 0 ∧ Chosen p c.dirConf c.serverConf c.waf c.failed
  call : ∃ call ∈ p.transactions, call.waf = c.waf ∧ call.handle = c.handle

private theorem Kept.excused {p q : Process} (h : Kept p q) {d : Nat} {failed : Bool}
    (hd : p.isObject d = true) (he : Excused p d failed) : Excused q d failed := by
  apply he.imp_right
  intro hn hr
  exact hn ((h.runs d hd).mp hr)

private theorem Kept.chosen {p q : Process} (h : Kept p q) {d scf waf : Nat} {failed : Bool}
    (hd : p.isObject d = true) (hc : Chosen p d scf waf failed) : Chosen q d scf waf failed := by
  rcases hc with ⟨hw, hwaf⟩ | ⟨hw, he⟩
  · left
    refine ⟨hw, ?_⟩
    rw [h.waf d (hwaf ▸ hw)]
    exact hwaf
  · right
    rw [h.server]
    exact ⟨hw, h.excused hd he⟩

/-- Others do not change what a thread knows. -/
theorem Kept.knows {p q : Process} (h : Kept p q) {pc : Pc} (hk : Knows p pc) : Knows q pc := by
  cases pc with
  | idle => exact hk
  | check d scf => exact h.object d hk
  | lock d scf => exact h.object d hk
  | inside d scf => exact h.object d hk
  | choose d scf failed =>
    obtain ⟨hd, hw | he⟩ := hk
    · refine ⟨h.object d hd, Or.inl ?_⟩
      rw [h.waf d hw]
      exact hw
    · exact ⟨h.object d hd, Or.inr (h.excused hd he)⟩
  | create d scf waf failed => exact ⟨h.object d hk.1, h.chosen hk.1 hk.2⟩

private theorem Kept.runsOn {p q : Process} (h : Kept p q) {c : Context} (hc : Runs p c) :
    Runs q c where
  object := h.object _ hc.object
  handle := hc.handle
  chosen := ⟨hc.chosen.1, h.chosen hc.object hc.chosen.2⟩
  call := by
    obtain ⟨call, hmem, hcall⟩ := hc.call
    exact ⟨call, h.calls call hmem, hcall⟩

/-- The thread is behind the mutex. -/
def Within (s : Child) (t : Nat) : Prop := ∃ d scf, s.pc t = .inside d scf

/-- The thread, alone, is behind the mutex for this `dir_conf`. -/
def Alone (s : Child) (t d : Nat) : Prop :=
  (∃ scf, s.pc t = .inside d scf) ∧ ∀ u, s.Within u → u = t

/-- The invariant: the mutex is held by the one thread that is behind it, if there is one. -/
structure Orderly (lib : WafLib) (p : Process) (s : Child) : Prop where
  serial : Sections.Serial (Process.wafSections lib) (fun d q ↦ q.isObject d = true) p s.shared
  free : s.shared.owner = none → ∀ t, ¬ s.Within t
  held : ∀ o, s.shared.owner = some o → ∃ t, s.Alone t o.input
  knows : ∀ t, Knows s.process (s.pc t)
  contexts : ∀ c ∈ s.contexts, Runs s.process c

private theorem orderly_start (lib : WafLib) (p : Process) : Orderly lib p (start p) where
  serial := Sections.serial_start p
  free := by
    rintro - t ⟨d, scf, h⟩
    cases h
  held o h := by cases h
  knows _ := trivial
  contexts c hc := by cases hc

/-- Only the thread itself goes on. -/
theorem pc_goto (s : Child) (t u : Nat) (pc : Pc) :
    (s.goto t pc).pc u = if u = t then pc else s.pc u := Function.update_apply s.pc t pc u

private theorem Within.of_goto {t u : Nat} {pc : Pc} (hpc : ∀ d scf, pc ≠ .inside d scf)
    (h : (s.goto t pc).Within u) : u ≠ t ∧ s.Within u := by
  obtain ⟨d, scf, hu⟩ := h
  rw [pc_goto] at hu
  split at hu
  · exact absurd hu (hpc d scf)
  · next hne => exact ⟨hne, d, scf, hu⟩

/-- Outside the mutex a thread goes on alone. -/
theorem Orderly.goto (h : Orderly lib p s) {t : Nat} {pc : Pc} (hs : ¬ s.Within t)
    (hpc : ∀ d scf, pc ≠ .inside d scf) (hk : Knows s.process pc) :
    Orderly lib p (s.goto t pc) where
  serial := h.serial
  free ho u hu := h.free ho u (hu.of_goto hpc).2
  held o ho := by
    obtain ⟨v, ⟨scf, hv⟩, hall⟩ := h.held o ho
    refine ⟨v, ⟨scf, ?_⟩, fun u hu ↦ hall u (hu.of_goto hpc).2⟩
    rw [pc_goto, if_neg]
    · exact hv
    · rintro rfl
      exact hs ⟨o.input, scf, hv⟩
  knows u := by
    rw [pc_goto]
    split
    · exact hk
    · exact h.knows u
  contexts := h.contexts

/-- What is done without the mutex leaves it as it is. -/
theorem Orderly.change (h : Orderly lib p s) (e : Unlocked) :
    Orderly lib p (s.act lib (.change e)) where
  serial := h.serial.step (a := .change e) (Process.wafSections_commutes lib)
    (fun d hd ↦ by cases hd)
  free := h.free
  held := h.held
  knows t := (kept_unlocked s.process e).knows (h.knows t)
  contexts c hc := (kept_unlocked s.process e).runsOn (h.contexts c hc)

/-- A thread takes the mutex. -/
theorem Orderly.acquire (h : Orderly lib p s) (ho : s.shared.owner = none) {t d scf : Nat}
    (ht : s.pc t = .lock d scf) :
    Orderly lib p ((s.act lib (.acquire d)).goto t (.inside d scf)) := by
  have hd : s.process.isObject d = true := by
    have hk := h.knows t
    rw [ht] at hk
    exact hk
  have hact := Sections.step_acquire (Process.wafSections lib) ho d
  have hserial := h.serial.step (a := .acquire d) (Process.wafSections_commutes lib)
    (fun i hi ↦ by cases hi; exact hd)
  constructor
  · exact hserial
  · intro hn
    have hs : ((Process.wafSections lib).step s.shared (.acquire d)).owner = none := hn
    rw [hact] at hs
    cases hs
  · intro o hs
    have hs : ((Process.wafSections lib).step s.shared (.acquire d)).owner = some o := hs
    rw [hact] at hs
    cases hs
    refine ⟨t, ⟨scf, by rw [pc_goto, if_pos rfl]⟩, ?_⟩
    rintro u ⟨e, scf', hu⟩
    rw [pc_goto] at hu
    split at hu
    · next heq => exact heq
    · exact absurd ⟨e, scf', hu⟩ (h.free ho u)
  · intro u
    have hk : Knows s.process (if u = t then .inside d scf else s.pc u) := by
      split
      · exact hd
      · exact h.knows u
    rw [← pc_goto] at hk
    show Knows ((Process.wafSections lib).step s.shared (.acquire d)).state _
    rw [hact]
    exact hk
  · intro c hc
    show Runs ((Process.wafSections lib).step s.shared (.acquire d)).state c
    rw [hact]
    exact h.contexts c hc

/-- A step behind the mutex. -/
theorem Orderly.advance (h : Orderly lib p s) : Orderly lib p (s.act lib .advance) := by
  have hkept := kept_advance h.serial
  have howner := Sections.owner_advance (Process.wafSections lib) s.shared
  constructor
  · exact h.serial.step (a := .advance) (Process.wafSections_commutes lib)
      (fun d hd ↦ by cases hd)
  · intro hn
    have hs : ((Process.wafSections lib).step s.shared .advance).owner = none := hn
    rw [hs] at howner
    exact h.free (Option.map_eq_none_iff.mp howner.symm)
  · intro o hs
    have hs : ((Process.wafSections lib).step s.shared .advance).owner = some o := hs
    rw [hs] at howner
    obtain ⟨o', ho', hinput⟩ := Option.map_eq_some_iff.mp howner.symm
    rw [← hinput]
    exact h.held o' ho'
  · intro t
    exact hkept.knows (h.knows t)
  · intro c hc
    exact hkept.runsOn (h.contexts c hc)

/-- A thread gives the mutex back, behind the last step. -/
theorem Orderly.release (h : Orderly lib p s) {t d scf e : Nat} {l : SectionLocals}
    (ht : s.pc t = .inside d scf) (ho : s.shared.owner = some ⟨e, l, []⟩) :
    Orderly lib p ((s.act lib .release).goto t (.choose d scf (l.built == some 0))) := by
  obtain ⟨v, ⟨scf', hv⟩, hall⟩ := h.held _ ho
  obtain rfl : t = v := hall t ⟨d, scf, ht⟩
  obtain ⟨rfl, -⟩ : d = e ∧ scf = scf' := by
    rw [ht] at hv
    cases hv
    exact ⟨rfl, rfl⟩
  have hact := Sections.step_release (Process.wafSections lib) ho
  have hserial := h.serial.step (a := .release) (Process.wafSections_commutes lib)
    (fun i hi ↦ by cases hi)
  -- All eight steps are behind, so the handle is there or the build has failed.
  obtain ⟨q, k, hq, hrest, hk, hstate⟩ := afterSteps_of_owner h.serial ho
  obtain rfl : k = 8 := by
    have hlen : 8 - k = 0 := by
      rw [← List.length_eq_zero_iff, List.length_drop] at hrest
      exact hrest
    omega
  have hlast := Process.afterSteps_last lib hq
  rw [hstate] at hlast
  have hknows : Knows s.process (.choose d scf (l.built == some 0)) := by
    have hd := h.knows t
    rw [ht] at hd
    refine ⟨hd, ?_⟩
    rcases hlast with ⟨-, hw⟩ | hb
    · exact Or.inl hw
    · by_cases hw : s.process.wafOf d = 0
      · right; left
        rw [hb]
        exact beq_iff_eq.mpr (congrArg some hw)
      · exact Or.inl hw
  constructor
  · exact hserial
  · rintro - u hu
    obtain ⟨hne, hw⟩ := hu.of_goto (by simp)
    exact hne (hall u hw)
  · intro o hs
    have hs : ((Process.wafSections lib).step s.shared .release).owner = some o := hs
    rw [hact] at hs
    cases hs
  · intro u
    have hku : Knows s.process (if u = t then .choose d scf (l.built == some 0) else s.pc u) := by
      split
      · exact hknows
      · exact h.knows u
    rw [← pc_goto] at hku
    show Knows ((Process.wafSections lib).step s.shared .release).state _
    rw [hact]
    exact hku
  · intro c hc
    show Runs ((Process.wafSections lib).step s.shared .release).state c
    rw [hact]
    exact h.contexts c hc

private theorem not_within {t : Nat} {pc : Pc} (ht : s.pc t = pc)
    (hpc : ∀ d scf, pc ≠ .inside d scf) :
    ¬ s.Within t := by
  rintro ⟨d, scf, hu⟩
  exact hpc d scf (ht.symm.trans hu)

private theorem kept_create (lib : WafLib) (s : Child) (d scf waf : Nat) (failed : Bool) :
    Kept s.process (s.create lib d scf waf failed).process := by
  have hkept := kept_unlocked s.process (.transaction ⟨waf,
    (s.process.dirConfs.get d).transactionId, lib.newTransaction s.process.transactions.length⟩)
  unfold Child.create
  dsimp only
  split <;> exact hkept

/-- Creating a transaction moves no thread. -/
theorem pc_create (lib : WafLib) (s : Child) (d scf waf : Nat) (failed : Bool) (t : Nat) :
    (s.create lib d scf waf failed).pc t = s.pc t := by
  unfold Child.create
  dsimp only
  split <;> rfl

/-- A transaction on the WAF that was chosen. -/
theorem Orderly.create (h : Orderly lib p s) {d scf waf : Nat} {failed : Bool} (hw : waf ≠ 0)
    (hd : s.process.isObject d = true) (hc : Chosen s.process d scf waf failed) :
    Orderly lib p (s.create lib d scf waf failed) := by
  unfold Child.create
  dsimp only
  split
  · exact h.change _
  · next hz =>
    have hall := h.change (.transaction ⟨waf, (s.process.dirConfs.get d).transactionId,
      lib.newTransaction s.process.transactions.length⟩)
    refine ⟨hall.serial, hall.free, hall.held, hall.knows, fun c hmem ↦ ?_⟩
    rcases List.mem_append.mp hmem with hmem | hmem
    · exact hall.contexts c hmem
    · obtain rfl := List.mem_singleton.mp hmem
      have hkept := kept_unlocked s.process (.transaction ⟨waf,
        (s.process.dirConfs.get d).transactionId,
        lib.newTransaction s.process.transactions.length⟩)
      refine ⟨hkept.object d hd, hz, ⟨hw, hkept.chosen hd hc⟩, _,
        List.mem_append_right _ (List.mem_singleton.mpr rfl), rfl, rfl⟩

/-- The next step of a thread. -/
theorem Orderly.run (h : Orderly lib p s) (t : Nat) : Orderly lib p (s.run lib t) := by
  have hk := h.knows t
  unfold Child.run
  split
  · exact h
  · next d scf ht =>
    rw [ht] at hk
    apply h.goto (not_within ht (by simp))
    · split <;> simp
    · split
      · exact hk
      · next hskip =>
        refine ⟨hk, ?_⟩
        by_cases hw : s.process.wafOf d = 0
        · exact Or.inr (Or.inr fun hr ↦ hskip ⟨hw, hr⟩)
        · exact Or.inl hw
  · next d scf ht =>
    split
    · next ho => exact h.acquire ho ht
    · exact h
  · next d scf ht =>
    split
    · exact h
    · exact h.advance
    · next ho => exact h.release ht ho
  · next d scf failed ht =>
    rw [ht] at hk
    obtain ⟨hd, hc⟩ := hk
    apply h.goto (not_within ht (by simp)) (by simp)
    refine ⟨hd, ?_⟩
    unfold Process.chosenWaf
    split
    · next hw => exact Or.inl ⟨hw, rfl⟩
    · next hw => exact Or.inr ⟨rfl, hc.resolve_left hw⟩
  · next d scf waf failed ht =>
    rw [ht] at hk
    split
    · exact h.goto (not_within ht (by simp)) (by simp) trivial
    · next hw =>
      have hpc := (pc_create lib s d scf waf failed t).trans ht
      have hidle (d scf : Nat) : Pc.idle ≠ .inside d scf := by simp
      exact (h.create hw hk.1 hk.2).goto (not_within hpc (by simp)) hidle trivial

/-- One turn. -/
theorem Orderly.step (h : Orderly lib p s) (turn : Turn) : Orderly lib p (s.step lib turn) := by
  cases turn with
  | enter t d scf =>
    unfold Child.step
    dsimp only
    split
    · next hin => exact h.goto (not_within hin.1 (by simp)) (by simp) hin.2
    · exact h
  | run t => exact h.run t
  | merge a b => exact h.change _
  | htaccess rules conf => exact h.change _

/-- Turns in any order and number. -/
theorem orderly (lib : WafLib) (p : Process) (turns : List Turn) :
    Orderly lib p (reached lib p turns) := by
  suffices ∀ s, Orderly lib p s → Orderly lib p (turns.foldl (step lib) s) from
    this _ (orderly_start lib p)
  intro s h
  exact (visits_invariant (I := Orderly lib p) (C := fun _ _ ↦ True)
    (fun s turn h _ ↦ h.step turn) h (by simp)).1

/-- And what a turn keeps. -/
theorem Orderly.kept (h : Orderly lib p s) (turn : Turn) :
    Kept s.process (s.step lib turn).process := by
  cases turn with
  | enter t d scf =>
    unfold Child.step
    dsimp only
    split <;> exact Kept.refl _
  | run t =>
    unfold Child.step Child.run
    dsimp only
    split
    · exact Kept.refl _
    · exact Kept.refl _
    · split
      · next d scf ho =>
        show Kept s.process ((Process.wafSections lib).step s.shared (.acquire _)).state
        rw [Sections.step_acquire _ ho]
        exact Kept.refl _
      · exact Kept.refl _
    · split
      · exact Kept.refl _
      · exact kept_advance h.serial
      · next ho =>
        show Kept s.process ((Process.wafSections lib).step s.shared .release).state
        rw [Sections.step_release _ ho]
        exact Kept.refl _
    · exact Kept.refl _
    · split
      · exact Kept.refl _
      · exact kept_create lib s _ _ _ _
  | merge a b => exact kept_unlocked s.process (.merged (s.process.mergedObject a b))
  | htaccess rules conf =>
    exact kept_unlocked s.process (.htaccess (Process.htaccessObject rules conf))

private theorem Orderly.kept_turns (h : Orderly lib p s) (turns : List Turn) :
    Kept s.process (turns.foldl (Child.step lib) s).process := by
  induction turns generalizing s with
  | nil => exact Kept.refl _
  | cons turn turns ih => exact (h.kept turn).trans (ih (h.step turn))

/-- A completed section is the section as one step. -/
theorem complete_eq_atomic (lib : WafLib) :
    Process.complete lib = (Process.wafSections lib).atomic := by
  funext q a
  cases a with
  | inl d => exact (Process.whole_wafSections lib q d).symm
  | inr e => rfl

/-- However the threads take turns, one at most is behind the mutex, and when none is, the state
is the one that whole sections and the other changes lead to in the order of their completion. -/
theorem threads_serializable (lib : WafLib) (p : Process) (turns : List Turn) :
    (∀ t u, (reached lib p turns).Within t → (reached lib p turns).Within u → t = u) ∧
      ((∀ t, ¬ (reached lib p turns).Within t) → (reached lib p turns).process =
        (reached lib p turns).shared.done.foldl (Process.complete lib) p) := by
  obtain ⟨s, hs⟩ : ∃ s, reached lib p turns = s := ⟨_, rfl⟩
  have h : Orderly lib p s := hs ▸ orderly lib p turns
  rw [hs]
  constructor
  · intro t u ht hu
    cases ho : s.shared.owner with
    | none => exact absurd ht (h.free ho t)
    | some o =>
      obtain ⟨v, -, hall⟩ := h.held o ho
      rw [hall t ht, hall u hu]
  · intro hout
    have htop := h.serial.onTop
    cases ho : s.shared.owner with
    | none =>
      rw [Sections.OnTop, ho] at htop
      rw [complete_eq_atomic]
      exact htop
    | some o =>
      obtain ⟨v, ⟨scf, hv⟩, -⟩ := h.held o ho
      exact absurd ⟨o.input, scf, hv⟩ (hout v)

/-- A handle that stands on an object stays there, whatever the threads do later. A context is
created on the one of its `dir_conf`, or on that of its server; then the `dir_conf` had nothing to
build, or the build of this very request has failed. -/
theorem contexts_on_chosen_waf (lib : WafLib) (p : Process) (turns later : List Turn) :
    (∀ d, (reached lib p turns).process.wafOf d ≠ 0 →
        (reached lib p (turns ++ later)).process.wafOf d =
          (reached lib p turns).process.wafOf d) ∧
      ∀ c ∈ (reached lib p turns).contexts, c.waf ≠ 0 ∧ c.handle ≠ 0 ∧
        (∃ call ∈ (reached lib p turns).process.transactions,
          call.waf = c.waf ∧ call.handle = c.handle) ∧
        ((reached lib p (turns ++ later)).process.wafOf c.dirConf = c.waf ∨
          (reached lib p (turns ++ later)).process.serverWafOf c.serverConf = c.waf ∧
            (c.failed = true ∨
              ¬ (reached lib p (turns ++ later)).process.RunsRules c.dirConf)) := by
  have h := orderly lib p turns
  have hkept : Kept (reached lib p turns).process (reached lib p (turns ++ later)).process := by
    rw [reached, reached, List.foldl_append]
    exact h.kept_turns later
  refine ⟨hkept.waf, fun c hc ↦ ?_⟩
  have hruns := h.contexts c hc
  refine ⟨hruns.chosen.1, hruns.handle, hruns.call, ?_⟩
  rcases hkept.chosen hruns.object hruns.chosen.2 with ⟨-, hw⟩ | ⟨hw, he⟩
  · exact Or.inl hw
  · exact Or.inr ⟨hw.symm, he⟩

end Child
end CorazaApache.Config
