import CorazaApache.Config.Threads

/-!
# Every thread gets through

The thread behind `g_waf_build_mutex` waits for nobody, so the mutex is given back, and whoever
waits for it gets it. A thread that has the child to itself does what `coraza_create_ctx` does as
one step.
-/

namespace CorazaApache.Config
open CorazaApache.Base

namespace Child

variable {lib : WafLib} {p : Process} {s : Child} {t : Nat}

/-- Some turns of one thread. -/
def runs (lib : WafLib) (s : Child) (t n : Nat) : Child :=
  (List.replicate n (Turn.run t)).foldl (step lib) s

private theorem runs_succ (lib : WafLib) (s : Child) (t n : Nat) :
    runs lib s t (n + 1) = runs lib (s.run lib t) t n := rfl

private theorem runs_add (lib : WafLib) (s : Child) (t m n : Nat) :
    runs lib s t (m + n) = runs lib (runs lib s t m) t n := by
  rw [runs, List.replicate_add, List.foldl_append]
  rfl

private theorem Orderly.runs (h : Orderly lib p s) (t n : Nat) :
    Orderly lib p (runs lib s t n) := by
  induction n generalizing s with
  | zero => exact h
  | succ n ih => exact ih (h.run t)

/-! ### No deadlock -/

/-- The turns a thread has before it if it does not have to wait, with `rest` steps of the section
to go. -/
def turnsLeft (rest : Nat) : Pc → Nat
  | .idle => 0
  | .create .. => 1
  | .choose .. => 2
  | .inside .. => rest + 3
  | .lock .. => 12
  | .check .. => 13

/-- The steps of the section that are left to whoever is in it. -/
def rest (s : Child) : Nat := s.shared.owner.elim 0 fun o ↦ o.rest.length

/-- The turns left to a thread. -/
def left (s : Child) (t : Nat) : Nat := turnsLeft s.rest (s.pc t)

private theorem left_goto (s : Child) (t : Nat) (pc : Pc) :
    (s.goto t pc).left t = turnsLeft s.rest pc := by
  rw [left, pc_goto, if_pos rfl]
  rfl

/-- Nobody else is behind the mutex. -/
def Unhindered (s : Child) (t : Nat) : Prop := ∀ u, s.Within u → u = t

private theorem Unhindered.goto (h : s.Unhindered t) {pc : Pc} : (s.goto t pc).Unhindered t := by
  rintro u ⟨d, scf, hu⟩
  rw [pc_goto] at hu
  split at hu
  · next heq => exact heq
  · exact h u ⟨d, scf, hu⟩

/-- A thread that need not wait comes nearer to the end with each of its turns. -/
theorem Unhindered.run (h : Orderly lib p s) (hu : s.Unhindered t) :
    (s.run lib t).Unhindered t ∧ (s.run lib t).left t ≤ s.left t - 1 := by
  have hleft {pc : Pc} (ht : s.pc t = pc) : s.left t = turnsLeft s.rest pc := by rw [left, ht]
  unfold Child.run
  split
  · next ht =>
    refine ⟨hu, ?_⟩
    rw [hleft ht]
    exact Nat.le_refl 0
  · next d scf ht =>
    refine ⟨hu.goto, ?_⟩
    rw [left_goto, hleft ht]
    by_cases hneeds : s.process.wafOf d = 0 ∧ s.process.RunsRules d
    · rw [if_pos hneeds]
      exact Nat.le_refl 12
    · rw [if_neg hneeds, turnsLeft, turnsLeft]
      omega
  · next d scf ht =>
    split
    · next ho =>
      have hin : (s.act lib (.acquire d)).Unhindered t := hu
      refine ⟨hin.goto, ?_⟩
      have hrest : (s.act lib (.acquire d)).rest = 8 := by
        rw [rest, act, Sections.step_acquire _ ho]
        rfl
      rw [left_goto, hleft ht, hrest]
      exact Nat.le_refl 11
    · next o ho =>
      obtain ⟨v, ⟨scf', hv⟩, -⟩ := h.held o ho
      rw [hu v ⟨_, _, hv⟩, ht] at hv
      cases hv
  · next d scf ht =>
    split
    · next ho => exact absurd ⟨d, scf, ht⟩ (h.free ho t)
    · next e l f fs ho =>
      refine ⟨hu, ?_⟩
      have hrest : (s.act lib .advance).rest = fs.length := by
        rw [rest, act, Sections.step, ho]
        rfl
      have hnow : s.rest = fs.length + 1 := by
        rw [rest, ho]
        rfl
      have hpc : (s.act lib .advance).left t = turnsLeft (s.act lib .advance).rest (s.pc t) := rfl
      rw [hpc, hleft ht, ht, hrest, hnow, turnsLeft, turnsLeft]
      omega
    · next e l ho =>
      have hin : (s.act lib .release).Unhindered t := hu
      refine ⟨hin.goto, ?_⟩
      rw [left_goto, hleft ht, turnsLeft, turnsLeft]
      omega
  · next d scf failed ht =>
    refine ⟨hu.goto, ?_⟩
    rw [left_goto, hleft ht]
    exact Nat.le_refl 1
  · next d scf waf failed ht =>
    split
    · refine ⟨hu.goto, ?_⟩
      rw [left_goto, hleft ht]
      exact Nat.le_refl 0
    · have hin : (s.create lib d scf waf failed).Unhindered t := by
        rintro u ⟨e, scf', hw⟩
        rw [pc_create] at hw
        exact hu u ⟨e, scf', hw⟩
      refine ⟨hin.goto, ?_⟩
      rw [left_goto, hleft ht]
      exact Nat.le_refl 0

private theorem left_le (h : Orderly lib p s) (t : Nat) : s.left t ≤ 13 := by
  have hrest : s.rest ≤ 8 := by
    unfold rest
    cases ho : s.shared.owner with
    | none => exact Nat.zero_le 8
    | some o =>
      obtain ⟨q, k, -, hdrop, -, -⟩ := afterSteps_of_owner h.serial ho
      rw [Option.elim_some, ← hdrop, List.length_drop]
      exact Nat.sub_le 8 k
  unfold left turnsLeft
  split <;> omega

/-- Without anybody in its way a thread is through after thirteen turns. -/
theorem Unhindered.finishes (h : Orderly lib p s) (hu : s.Unhindered t) :
    (runs lib s t 13).pc t = .idle ∧ (runs lib s t 13).Unhindered t := by
  have hall (n : Nat) : ∀ s, Orderly lib p s → s.Unhindered t → s.left t ≤ n →
      (runs lib s t n).pc t = .idle ∧ (runs lib s t n).Unhindered t := by
    induction n with
    | zero =>
      intro s _ hu hn
      refine ⟨?_, hu⟩
      unfold left turnsLeft at hn
      split at hn
      · next hpc => exact hpc
      all_goals omega
    | succ n ih =>
      intro s hs hu hn
      obtain ⟨hnext, hleft⟩ := hu.run hs
      exact ih (s.run lib t) (hs.run t) hnext (by omega)
  exact hall 13 s h hu (left_le h t)

/-- More turns of one thread. -/
theorem reached_runs (lib : WafLib) (p : Process) (turns : List Turn) (u n : Nat) :
    reached lib p (turns ++ List.replicate n (.run u)) = runs lib (reached lib p turns) u n := by
  rw [reached, List.foldl_append]
  rfl

/-- Nobody is behind the mutex any more once the one thread that was is through. -/
theorem Unhindered.vacates {u : Nat} (h : Orderly lib p s) (hu : s.Unhindered u) (w : Nat) :
    ¬ (Child.runs lib s u 13).Within w := by
  obtain ⟨hidle, hout⟩ := hu.finishes h
  rintro ⟨d, scf, hin⟩
  rw [hout w ⟨d, scf, hin⟩, hidle] at hin
  cases hin

/-- Whatever the threads have done, every one of them can finish its call. The thread behind the
mutex is through after thirteen turns of its own, and any other thread after thirteen more of
that one; where nobody is behind the mutex, a thread waits for no other. -/
theorem no_deadlock (lib : WafLib) (p : Process) (turns : List Turn) :
    (∀ u, (reached lib p turns).Within u →
      (reached lib p (turns ++ List.replicate 13 (.run u))).pc u = .idle ∧
      ∀ t, (reached lib p (turns ++ List.replicate 13 (.run u) ++
        List.replicate 13 (.run t))).pc t = .idle) ∧
    ((∀ u, ¬ (reached lib p turns).Within u) → ∀ t,
      (reached lib p (turns ++ List.replicate 13 (.run t))).pc t = .idle) := by
  have h := orderly lib p turns
  refine ⟨fun u hu ↦ ?_, fun hfree t ↦ ?_⟩
  · -- Whoever is behind the mutex is there alone and goes first.
    have hin : (reached lib p turns).Unhindered u :=
      fun w hw ↦ (threads_serializable lib p turns).1 w u hw hu
    rw [reached_runs]
    refine ⟨(hin.finishes h).1, fun t ↦ ?_⟩
    rw [reached_runs, reached_runs]
    have hfree : (runs lib (reached lib p turns) u 13).Unhindered t :=
      fun w hw ↦ absurd hw (hin.vacates h w)
    exact (hfree.finishes (h.runs u 13)).1
  · have hout : (reached lib p turns).Unhindered t := fun w hw ↦ absurd hw (hfree w)
    rw [reached_runs]
    exact (hout.finishes h).1

/-- Two threads that found no handle; the first has the mutex, the second waits for it. -/
def waitingForMutex : List Turn :=
  [.htaccess [inlineRule "a"] default, .htaccess [inlineRule "b"] default, .enter 7 0 0,
    .enter 8 1 0, .run 7, .run 8, .run 7, .run 8]

/-- Both get through. -/
theorem no_deadlock_waitingForMutex :
    (reached acceptingLib .init waitingForMutex).Within 7 ∧
    (reached acceptingLib .init waitingForMutex).pc 8 = .lock 1 0 ∧
    (reached acceptingLib .init (waitingForMutex ++ List.replicate 13 (.run 7))).pc 7 = .idle ∧
    (reached acceptingLib .init (waitingForMutex ++ List.replicate 13 (.run 7) ++
      List.replicate 13 (.run 8))).pc 8 = .idle := by
  have hin : (reached acceptingLib .init waitingForMutex).Within 7 := ⟨0, 0, by decide⟩
  obtain ⟨hfirst, hsecond⟩ := (no_deadlock acceptingLib .init waitingForMutex).1 7 hin
  exact ⟨hin, by decide, hfirst, hsecond 8⟩

/-! ### A thread alone -/

/-- The rest of the section, and the mutex is given back. -/
theorem runs_section (lib : WafLib) {d scf e : Nat} {l : SectionLocals}
    {fs : List (SectionLocals × Process → SectionLocals × Process)}
    (ht : s.pc t = .inside d scf) (ho : s.shared.owner = some ⟨e, l, fs⟩) :
    runs lib s t (fs.length + 1) =
      ({ s with shared := ⟨(Sections.steps fs (l, s.process)).2, none,
          s.shared.done ++ [Sum.inl e]⟩ } : Child).goto t
        (.choose d scf ((Sections.steps fs (l, s.process)).1.built == some 0)) := by
  induction fs generalizing s l with
  | nil =>
    have hrun : s.run lib t = (s.act lib .release).goto t (.choose d scf (l.built == some 0)) := by
      rw [Child.run, ht]
      dsimp only
      rw [ho]
    rw [runs_succ, hrun, act, Sections.step_release _ ho]
    rfl
  | cons f fs ih =>
    have hrun : s.run lib t = s.act lib .advance := by
      rw [Child.run, ht]
      dsimp only
      rw [ho]
    have hact : (Process.wafSections lib).step s.shared .advance =
        { s.shared with state := (f (l, s.process)).2,
                        owner := some ⟨e, (f (l, s.process)).1, fs⟩ } := by
      rw [Sections.step, ho]
      rfl
    have hnext := ih (s := s.act lib .advance) (l := (f (l, s.process)).1) ht
      (by rw [act, hact])
    rw [List.length_cons, runs_succ, hrun, hnext, act, hact]
    rfl

/-- The call is over. -/
theorem runs_idle (ht : s.pc t = .idle) (n : Nat) : runs lib s t n = s := by
  induction n with
  | zero => rfl
  | succ n ih =>
    have hrun : s.run lib t = s := by
      rw [Child.run, ht]
    rw [runs_succ, hrun]
    exact ih

/-- What a call of `coraza_create_ctx` returns and leaves behind, beside the process. -/
def opened (d scf waf : Nat) (result : Option Nat) : List (Nat × Nat × Nat × Nat) :=
  (result.map fun handle ↦ (d, scf, waf, handle)).toList

/-- The contexts without the ghost flag. -/
def openedAll (s : Child) : List (Nat × Nat × Nat × Nat) :=
  s.contexts.map fun c ↦ (c.dirConf, c.serverConf, c.waf, c.handle)

/-- Behind the lookups and the build. -/
theorem runs_choose (lib : WafLib) {d scf : Nat} {failed : Bool}
    (ht : s.pc t = .choose d scf failed) {q : Process} (hq : s.process = q.resolveWaf lib d) :
    (runs lib s t 2).process = (q.corazaCreateCtx lib d scf).2 ∧
      (runs lib s t 2).openedAll = s.openedAll ++
        opened d scf ((q.resolveWaf lib d).chosenWaf d scf) (q.corazaCreateCtx lib d scf).1 ∧
      (runs lib s t 2).pc = Function.update s.pc t .idle := by
  have hchoose : s.run lib t = s.goto t (.create d scf (s.process.chosenWaf d scf) failed) := by
    rw [Child.run, ht]
  have hcreate : (s.goto t (.create d scf (s.process.chosenWaf d scf) failed)).pc t =
      .create d scf (s.process.chosenWaf d scf) failed := by
    rw [pc_goto, if_pos rfl]
  have htwo : runs lib s t 2 =
      (s.goto t (.create d scf (s.process.chosenWaf d scf) failed)).run lib t := by
    rw [runs_succ, hchoose]
    rfl
  have hpc (s' : Child)
      (h : s'.pc = (s.goto t (.create d scf (s.process.chosenWaf d scf) failed)).pc) :
      (s'.goto t .idle).pc = Function.update s.pc t .idle := by
    rw [goto, h, goto]
    exact Function.update_idem _ _ _
  rw [htwo, Child.run, hcreate, Process.corazaCreateCtx, ← hq]
  dsimp only
  split
  · refine ⟨rfl, (List.append_nil _).symm, hpc _ rfl⟩
  · unfold Child.create
    dsimp only
    split
    · next hz =>
      have hz : lib.newTransaction s.process.transactions.length = 0 := hz
      rw [if_pos hz]
      exact ⟨rfl, (List.append_nil _).symm, hpc _ rfl⟩
    · next hz =>
      have hz : lib.newTransaction s.process.transactions.length ≠ 0 := hz
      rw [if_neg hz]
      refine ⟨rfl, ?_, hpc _ rfl⟩
      exact List.map_append

/-- All turns of a call, from the first look at the handle. -/
theorem runs_check (lib : WafLib) {d scf : Nat} (ht : s.pc t = .check d scf)
    (ho : s.shared.owner = none) :
    (runs lib s t 13).process = (s.process.corazaCreateCtx lib d scf).2 ∧
      (runs lib s t 13).openedAll = s.openedAll ++ opened d scf
        ((s.process.resolveWaf lib d).chosenWaf d scf) (s.process.corazaCreateCtx lib d scf).1 ∧
      (runs lib s t 13).pc = Function.update s.pc t .idle := by
  have hpc (s' : Child) (pc : Pc) : (s'.goto t pc).pc t = pc := by rw [pc_goto, if_pos rfl]
  by_cases hneeds : s.process.wafOf d = 0 ∧ s.process.RunsRules d
  · have hresolve : s.process.resolveWaf lib d = s.process.lockedSection lib d :=
      (Process.resolveWaf_eq_lockedSection s.process lib d).trans (if_pos hneeds)
    have hfirst : s.run lib t = s.goto t (.lock d scf) := by
      rw [Child.run, ht]
      dsimp only
      rw [if_pos hneeds]
    have hsecond : (s.goto t (.lock d scf)).run lib t =
        ((s.goto t (.lock d scf)).act lib (.acquire d)).goto t (.inside d scf) := by
      rw [Child.run, hpc]
      dsimp only
      rw [show (s.goto t (.lock d scf)).shared.owner = none from ho]
    obtain ⟨r, hr⟩ : ∃ r, ((s.goto t (.lock d scf)).act lib (.acquire d)).goto t
        (.inside d scf) = r := ⟨_, rfl⟩
    have hin : r.pc t = .inside d scf := by rw [← hr, hpc]
    have hacquire : r.shared = { s.shared with
        owner := some ⟨d, ⟨0, none⟩, (Process.wafSections lib).body d⟩ } := by
      rw [← hr]
      exact Sections.step_acquire (Process.wafSections lib) ho d
    have hsection := runs_section lib hin (congrArg Locked.owner hacquire)
    have hwhole : (Sections.steps ((Process.wafSections lib).body d) (⟨0, none⟩, r.process)).2 =
        s.process.resolveWaf lib d := by
      have hsame : r.process = s.process := by rw [process, hacquire]; rfl
      rw [hresolve, hsame]
      exact Process.whole_wafSections lib s.process d
    obtain ⟨q, hq⟩ : ∃ q, runs lib r t (((Process.wafSections lib).body d).length + 1) = q :=
      ⟨_, rfl⟩
    rw [hq] at hsection
    have hchoose : q.pc t = .choose d scf ((Sections.steps ((Process.wafSections lib).body d)
        (⟨0, none⟩, r.process)).1.built == some 0) := by rw [hsection, hpc]
    have hresolved : q.process = s.process.resolveWaf lib d := by rw [hsection]; exact hwhole
    obtain ⟨hproc, hopen, hall⟩ := runs_choose lib hchoose hresolved
    rw [runs_succ, hfirst, runs_succ, hsecond, hr]
    have hlast : runs lib r t 11 = runs lib q t 2 := by
      rw [← hq]
      exact runs_add lib r t 9 2
    rw [hlast]
    refine ⟨hproc, ?_, ?_⟩
    · rw [hopen, hsection, ← hr]
      rfl
    · rw [hall, hsection, ← hr]
      simp only [goto, act, Function.update_idem]
  · have hresolve : s.process.resolveWaf lib d = s.process :=
      (Process.resolveWaf_eq_lockedSection s.process lib d).trans (if_neg hneeds)
    have hfirst : s.run lib t = s.goto t (.choose d scf false) := by
      rw [Child.run, ht]
      dsimp only
      rw [if_neg hneeds]
    obtain ⟨hproc, hopen, hall⟩ := runs_choose lib
      (hpc s (.choose d scf false)) hresolve.symm
    have hidle : (runs lib (s.goto t (.choose d scf false)) t 2).pc t = .idle := by
      rw [hall, Function.update_self]
    rw [runs_succ, hfirst, runs_add lib _ t 2 10, runs_idle hidle]
    refine ⟨hproc, hopen, ?_⟩
    rw [hall, goto, Function.update_idem]

/-- A thread that has the child to itself does what the call does as one step. -/
theorem solo_eq_createCtx (lib : WafLib) (p : Process) (turns : List Turn) (t d scf : Nat)
    (s s' : Child) (hs : s = reached lib p turns) (hout : ∀ u, ¬ s.Within u)
    (hidle : s.pc t = .idle) (hd : s.process.isObject d = true)
    (hs' : s' = reached lib p (turns ++ (.enter t d scf :: List.replicate 13 (.run t)))) :
    s'.process = (s.process.corazaCreateCtx lib d scf).2 ∧
      s'.openedAll = s.openedAll ++ opened d scf ((s.process.resolveWaf lib d).chosenWaf d scf)
        (s.process.corazaCreateCtx lib d scf).1 ∧
      s'.pc = s.pc := by
  have h : Orderly lib p s := hs ▸ orderly lib p turns
  have ho : s.shared.owner = none := by
    cases ho : s.shared.owner with
    | none => rfl
    | some o =>
      obtain ⟨v, ⟨scf', hv⟩, -⟩ := h.held o ho
      exact absurd ⟨_, _, hv⟩ (hout v)
  have hall : s' = runs lib (s.goto t (.check d scf)) t 13 := by
    have henter : s.step lib (.enter t d scf) = s.goto t (.check d scf) := by
      rw [Child.step, if_pos ⟨hidle, hd⟩]
    rw [hs', reached, List.foldl_append, List.foldl_cons, ← reached, ← hs, henter]
    rfl
  have hcheck : (s.goto t (.check d scf)).pc t = .check d scf := by rw [pc_goto, if_pos rfl]
  obtain ⟨hproc, hopen, hpc⟩ := runs_check lib hcheck ho
  rw [hall]
  refine ⟨hproc, hopen, ?_⟩
  rw [hpc, goto, Function.update_idem, ← hidle, Function.update_eq_self]

/-- A thread with the object of an `.htaccess` file. -/
theorem solo_eq_createCtx_htaccess :
    ∃ s s' : Child, s = reached acceptingLib .init [.htaccess [inlineRule "a"] default] ∧
      s' = reached acceptingLib .init ([.htaccess [inlineRule "a"] default] ++
        (.enter 7 0 0 :: List.replicate 13 (.run 7))) ∧
      s'.process = (s.process.corazaCreateCtx acceptingLib 0 0).2 ∧
      s'.openedAll = [(0, 0, 1, 1)] := by
  have hsolo := solo_eq_createCtx acceptingLib .init [.htaccess [inlineRule "a"] default] 7 0 0 _ _
    rfl ((orderly acceptingLib .init [.htaccess [inlineRule "a"] default]).free rfl) rfl
    (by decide) rfl
  exact ⟨_, _, rfl, rfl, hsolo.1, by decide⟩

end Child
end CorazaApache.Config
