import CorazaApache.Config.History
import CorazaApache.Http.Refused
import CorazaApache.Http.RedirectOut

/-!
# The audit entry of a chain

A transaction is logged from two places: by an intervention in phases 1 and 2, on the
`request_rec` it was created on, and by the log hook, `src/mod_coraza_log.c:23–50`, which httpd
runs on the first `request_rec` of the chain. The context is shared, so it is never logged
twice; but the log hook looks for it on the first `request_rec` only.
-/

namespace CorazaApache.Http
open CorazaApache.Base CorazaApache.Base.Prog CorazaApache.Config CorazaApache.Apr

/-- An audit entry is written. -/
def Event.isLogging : Event → Bool
  | .call .processLogging _ => true
  | _ => false

/-- How often `coraza_process_logging` is called. -/
def loggings (evs : List Event) : Nat := evs.countP Event.isLogging

namespace Exchange

/-- The first `request_rec` of the chain. -/
def first (s : Exchange) : Request := s.prev.getLastD s.r

/-- The end of a client request: httpd runs the log hook on the first `request_rec`. -/
def finish (e : Engine) (s : Exchange) : Exchange :=
  { s with r := s.first, prev := [] }.corazaLogTransaction e

/-- A client request up to its end: the fixups hook on the first `request_rec`, then the steps
of the chain. -/
def served (e : Engine) (lib : WafLib) (save : SaveEnv) (src : BodySource) (env : OutEnv)
    (s : Exchange) (steps : List ChainStep) : Exchange :=
  steps.foldl (chainStep e lib save src env) (exec (corazaPostReadRequest e lib save src) s).2

end Exchange

/-- A transaction is created on a later `request_rec` of the chain. -/
def CreatesLater (e : Engine) (lib : WafLib) (save : SaveEnv) (src : BodySource) (env : OutEnv)
    (s : Exchange) (steps : List ChainStep) : Prop :=
  ∃ v ∈ visits (Exchange.chainStep e lib save src env) s steps, ∃ r, v.2 = .redirect r ∧
    (v.1.internalRedirect r).Creates lib

/-- An intervention is reported to the fixups hook of a later `request_rec` of the chain. -/
def IntervenesLater (e : Engine) (lib : WafLib) (save : SaveEnv) (src : BodySource) (env : OutEnv)
    (s : Exchange) (steps : List ChainStep) : Prop :=
  ∃ v ∈ visits (Exchange.chainStep e lib save src env) s steps, ∃ r i, v.2 = .redirect r ∧
    .poll (some i) ∈ newEvents v.1 (v.1.followRedirect e lib save src r)

/-! ### Counting -/

/-- The audit entries of two runs add up. -/
@[simp] theorem loggings_append (evs evs' : List Event) :
    loggings (evs ++ evs') = loggings evs + loggings evs' := List.countP_append

/-- Without a logging call there is no entry. -/
theorem loggings_eq_zero {evs : List Event} (h : ∀ rc, .call .processLogging rc ∉ evs) :
    loggings evs = 0 := by
  apply List.countP_eq_zero.mpr
  intro ev hev hlog
  cases ev with
  | call c rc =>
    cases c with
    | processLogging => exact h rc hev
    | _ => cases hlog
  | _ => cases hlog

/-- Logging has the last place. -/
theorem loggings_of_upTo {evs : List Event} (h : UpTo 10 evs) : loggings evs = 0 := by
  apply loggings_eq_zero
  intro rc hmem
  have hle : EngineCall.behind .processLogging 10 ≤ 10 := h .processLogging rc 10 hmem rfl
  exact absurd hle (by decide)

/-- An intervention logs what its early log does. -/
theorem loggings_of_intervenes {earlyLog : Bool} {s : Exchange} {free : Nat} {i : Intervention}
    {evs : List Event} (h : Intervenes earlyLog s free i evs) (hfree : free ≤ 10) :
    loggings evs = if earlyLog = true ∧ s.enabled = true ∧ s.ctx.logged = false then 1 else 0 := by
  obtain ⟨pre, rc, logs, hs, hlog, rfl⟩ := h
  have hpre : loggings pre = 0 := loggings_of_upTo (hs.upTo.mono hfree)
  rw [loggings_append, hpre]
  rcases hlog with ⟨he, hon, hl, rc', rfl⟩ | ⟨hnot, rfl⟩
  · rw [if_pos ⟨he, hon, hl⟩]
    rfl
  · rw [if_neg hnot]
    rfl

/-! ### The steps of a chain -/

section

variable {e : Engine} {lib : WafLib} {save : SaveEnv} {src : BodySource} {env : OutEnv}
  {s y : Exchange} {bb : Brigade}

/-- The filter logs nothing. -/
theorem FilterEnds.unlogged {base : List Event} {st : FilterStatus}
    (h : FilterEnds env bb base s st y) :
    y.ctx.logged = s.ctx.logged ∧ ∃ evs, y.trace = base ++ evs ∧ loggings evs = 0 := by
  have hanswers {status : Int} {z y : Exchange} {evs : List Event}
      (htrace : z.trace = base ++ evs) (hlog : loggings evs = 0) (ha : Answers status z st y) :
      ∃ evs, y.trace = base ++ evs ∧ loggings evs = 0 := by
    rcases ha.answer with ⟨-, hdie⟩ | ⟨-, hsame, -⟩
    · refine ⟨evs ++ [.die status], ?_, ?_⟩
      · rw [hdie, htrace, List.append_assoc]
      · rw [loggings_append, hlog]
        rfl
    · exact ⟨evs, hsame.trans htrace, hlog⟩
  cases h with
  | carried hw =>
    obtain ⟨evs, htrace, hs⟩ := hw.script
    exact ⟨hw.logged, evs, htrace, loggings_of_upTo hs.upTo⟩
  | failed htrace _ hupTo _ _ _ hlogged _ hexit =>
    exact ⟨hexit.logged.trans hlogged, hanswers htrace (loggings_of_upTo hupTo) hexit⟩
  | enforced htrace hi _ _ hlogged hexit =>
    have hlog := loggings_of_intervenes hi (Nat.le_refl 10)
    rw [if_neg fun h ↦ Bool.false_ne_true h.1] at hlog
    split at hexit
    · exact ⟨hexit.logged.trans hlogged, _, hexit.answer.2.trans htrace, hlog⟩
    · exact ⟨hexit.logged.trans hlogged, hanswers htrace hlog hexit⟩

/-- A brigade logs nothing. -/
theorem passOutput_unlogged (e : Engine) (env : OutEnv) (bb : Brigade)
    (hc : y.r.outFilter = true → y.r.requestConfig = true) :
    (y.passOutput e env bb).ctx.logged = y.ctx.logged ∧
      ∃ evs, (y.passOutput e env bb).trace = y.trace ++ evs ∧ loggings evs = 0 := by
  have hbypass (hy : y.Spent) : (y.passOutput e env bb).ctx.logged = y.ctx.logged ∧
      ∃ evs, (y.passOutput e env bb).trace = y.trace ++ evs ∧ loggings evs = 0 := by
    obtain ⟨-, hctx, evs, htrace, hevs⟩ := passOutput_spent e env bb hy
    refine ⟨by rw [hctx], evs, htrace, loggings_eq_zero fun rc hmem ↦ hevs _ hmem⟩
  cases hon : y.r.outFilter with
  | false => exact hbypass (Or.inl hon)
  | true =>
    cases ht : y.ctx.interventionTriggered with
    | true => exact hbypass (Or.inr ht)
    | false =>
      have hends := corazaOutputFilter_ends e env bb (walk_start (s := y.arrive bb) (hc hon) ht)
      obtain ⟨hlogged, evs, htrace, hlog⟩ := hends.unlogged
      rw [passOutput_on e env bb hon]
      refine ⟨hlogged, [.receive bb] ++ evs ++ [.returned
        (exec (corazaOutputFilter e env bb) (y.arrive bb)).1], ?_, ?_⟩
      · rw [Exchange.log_trace, htrace, Exchange.arrive_trace]
        simp
      · rw [loggings_append, loggings_append, hlog]
        rfl

/-- No `request_rec` of the chain has a transaction, and nothing was logged since `base`. -/
structure Vacant (base : List Event) (y : Exchange) : Prop where
  config : y.r.requestConfig = false
  prev : corazaCtxFromPrev y.prev = false
  filter : y.r.outFilter = false
  log : ∃ evs, y.trace = base ++ evs ∧ loggings evs = 0

/-- The chain has a transaction, and the mark on it says whether it was logged since `base`; it
was if an intervention was reported in phases 1 and 2. -/
structure Entry (base : List Event) (reported : Prop) (y : Exchange) : Prop where
  ctx : HasCtx y
  filter : y.r.outFilter = true → y.r.requestConfig = true
  log : ∃ evs, y.trace = base ++ evs ∧ loggings evs = if y.ctx.logged = true then 1 else 0
  logged : y.ctx.logged = true ↔ reported

variable {base : List Event} {reported : Prop}

/-- The module is on or off by the `dir_conf` alone. -/
theorem enabled_congr (hdir : y.r.perDirConfig = s.r.perDirConfig)
    (henable : ∀ o, (y.process.dirConfs.get o).enable = (s.process.dirConfs.get o).enable) :
    y.enabled = s.enabled := by
  unfold Exchange.enabled
  rw [hdir]
  split
  · rfl
  · next d _ => rw [henable d]

/-- A hook that has created a transaction logs it if it reports an intervention. -/
theorem HookEnds.logs {v : Int} (h : HookEnds base s v y) (hon : s.enabled = true)
    (hl : s.ctx.logged = false) :
    y.r.requestConfig = true ∧ ∃ evs, y.trace = base ++ evs ∧
      (loggings evs = if y.ctx.logged = true then 1 else 0) ∧
      (y.ctx.logged = true ↔ ∃ i, .poll (some i) ∈ evs) := by
  have hquiet {evs : List Event} (hlogged : y.ctx.logged = s.ctx.logged) (hupTo : UpTo 6 evs)
      (hsilent : ∀ i, .poll (some i) ∉ evs) :
      (loggings evs = if y.ctx.logged = true then 1 else 0) ∧
      (y.ctx.logged = true ↔ ∃ i, .poll (some i) ∈ evs) := by
    rw [hlogged, hl, if_neg Bool.false_ne_true]
    refine ⟨loggings_of_upTo (hupTo.mono (by decide)), fun h ↦ absurd h Bool.false_ne_true, ?_⟩
    rintro ⟨i, hi⟩
    exact absurd hi (hsilent i)
  cases h with
  | plain hw =>
    obtain ⟨evs, htrace, hs⟩ := hw.script
    exact ⟨hw.config, evs, htrace, hquiet hw.logged hs.upTo hs.silent⟩
  | failed htrace _ hupTo hsilent _ hconfig _ hlogged =>
    exact ⟨hconfig, _, htrace, hquiet hlogged hupTo hsilent⟩
  | @enforced _ _ evs i htrace hi hconfig _ hlogged _ =>
    have hlog := loggings_of_intervenes hi (by decide)
    rw [if_pos ⟨rfl, hon, hl⟩] at hlog
    refine ⟨hconfig, evs, htrace, ?_, fun _ ↦ ⟨i, ?_⟩, fun _ ↦ hlogged⟩
    · rw [hlog, if_pos hlogged]
    · obtain ⟨pre, rc, logs, -, -, rfl⟩ := hi
      simp

/-- What the hook does on a chain without a transaction. -/
theorem Vacant.hook (h : Vacant base s) {v : Int} (hrun : HookRun lib s v y) :
    ¬ s.Creates lib ∧ Vacant base y ∧ y.trace = s.trace ∨
    s.Creates lib ∧ Entry base (∃ i, .poll (some i) ∈ newEvents s y) y ∧ y.prev = s.prev ∧
      y.r.requestConfig = true ∧ y.enabled = true ∧ ∃ evs, y.trace = s.trace ++ evs := by
  cases hrun with
  | skipped hidle => exact Or.inl ⟨fun hc ↦ hidle hc.1, h, rfl⟩
  | reused _ hp => exact absurd (h.prev.symm.trans hp) Bool.false_ne_true
  | refused _ _ hcreate =>
    refine Or.inl ⟨fun hc ↦ ?_, ⟨h.config, h.prev, h.filter, h.log⟩, rfl⟩
    have hsome := hc.2.2
    rw [hcreate] at hsome
    cases hsome
  | @ran v y handle p hstarts _ hcreate hends hchanges =>
    have hp : p = (s.process.corazaCreateCtx lib (s.r.perDirConfig.getD 0) s.r.serverConf).2 := by
      rw [hcreate]
    have henabled : (s.created handle p).enabled = true := by
      refine (enabled_congr (y := s.created handle p) (s := s) rfl fun o ↦ ?_).trans hstarts.2.1
      subst hp
      exact Process.enable_corazaCreateCtx _ _ _ _ o
    have hfixed := hchanges.1.fixed
    have hdir : y.r.perDirConfig = s.r.perDirConfig := congrArg (·.2.2.perDirConfig) hfixed
    have hprocess : y.process = p := congrArg (·.2.1) hfixed
    have hon : y.enabled = true := by
      rw [enabled_congr (s := s.created handle p) hdir fun o ↦ by rw [hprocess]; rfl]
      exact henabled
    obtain ⟨hconfig, evs, htrace, hcount, hlogged⟩ := hends.logs henabled rfl
    obtain ⟨before, hbefore, hzero⟩ := h.log
    have hcreates : s.Creates lib := ⟨hstarts, h.prev, by rw [hcreate]; rfl⟩
    refine Or.inr ⟨hcreates, ⟨Or.inl hconfig, fun _ ↦ hconfig, ?_, ?_⟩, congrArg Prod.fst hfixed,
      hconfig, hon, evs, htrace⟩
    · refine ⟨before ++ evs, ?_, ?_⟩
      · rw [htrace, hbefore, List.append_assoc]
      · rw [loggings_append, hzero, hcount, Nat.zero_add]
    · rw [newEvents_eq htrace]
      exact hlogged

/-- The log hook finds the context on the first `request_rec`, and the module on there. -/
def Exchange.firstOn (s : Exchange) : Bool :=
  { s with r := s.first }.enabled && s.first.requestConfig

/-- What is never written decides what the log hook finds. -/
theorem firstOn_congr (h : y.fixed = s.fixed) : y.firstOn = s.firstOn := by
  have hprev : y.prev = s.prev := congrArg Prod.fst h
  have hprocess : y.process = s.process := congrArg (·.2.1) h
  have hdir : y.r.perDirConfig = s.r.perDirConfig := congrArg (·.2.2.perDirConfig) h
  have hconfig : y.r.requestConfig = s.r.requestConfig := congrArg (·.2.2.requestConfig) h
  have hfirst : y.first.perDirConfig = s.first.perDirConfig ∧
      y.first.requestConfig = s.first.requestConfig := by
    unfold Exchange.first
    rw [hprev]
    cases s.prev with
    | nil => exact ⟨hdir, hconfig⟩
    | cons r rs => exact ⟨rfl, rfl⟩
  unfold Exchange.firstOn
  rw [hfirst.2, enabled_congr (s := { s with r := s.first }) hfirst.1 fun o ↦ by rw [hprocess]]

/-- A brigade on a chain without a transaction. -/
theorem Vacant.output (h : Vacant base y) (e : Engine) (env : OutEnv) (bb : Brigade) :
    Vacant base (y.passOutput e env bb) := by
  obtain ⟨evs, htrace, hlog⟩ := h.log
  rw [passOutput_off e env bb h.filter]
  refine ⟨h.config, h.prev, h.filter, evs ++ [.receive bb, .direct bb], ?_, ?_⟩
  · rw [Exchange.log_trace, Exchange.arrive_trace, htrace]
    simp
  · rw [loggings_append, hlog]
    rfl

/-- A redirect on a chain without a transaction, before the hook. -/
theorem Vacant.redirect (h : Vacant base y) (r : Request) : Vacant base (y.internalRedirect r) := by
  obtain ⟨evs, htrace, hlog⟩ := h.log
  refine ⟨rfl, ?_, rfl, evs ++ [.redirect], ?_, ?_⟩
  · show (y.r.requestConfig || corazaCtxFromPrev y.prev) = false
    rw [h.config, h.prev]
    rfl
  · show y.trace ++ [.redirect] = _
    rw [htrace, List.append_assoc]
  · rw [loggings_append, hlog]
    rfl

/-- Without a transaction there is none on the first `request_rec`. -/
theorem Vacant.first (h : Vacant base y) : y.first.requestConfig = false := by
  have hmem : y.first ∈ y.r :: y.prev := List.getLastD_mem_cons
  rcases List.mem_cons.mp hmem with hr | hp
  · rw [hr]
    exact h.config
  · exact Bool.eq_false_iff.mpr (List.any_eq_false.mp h.prev _ hp)

/-- A brigade keeps the entry. -/
theorem Entry.output (h : Entry base reported y) (e : Engine) (env : OutEnv) (bb : Brigade) :
    Entry base reported (y.passOutput e env bb) := by
  obtain ⟨evs, htrace, hlog⟩ := h.log
  obtain ⟨hlogged, new, hnew, hzero⟩ := passOutput_unlogged e env bb h.filter
  have hfixed := (changes_passOutput e env y bb).fixed
  have hprev : (y.passOutput e env bb).prev = y.prev := congrArg Prod.fst hfixed
  have hconfig : (y.passOutput e env bb).r.requestConfig = y.r.requestConfig :=
    congrArg (·.2.2.requestConfig) hfixed
  refine ⟨?_, fun hon ↦ ?_, ⟨evs ++ new, ?_, ?_⟩, ?_⟩
  · rw [HasCtx, hconfig, hprev]
    exact h.ctx
  · rw [hconfig]
    apply h.filter
    by_contra hoff
    rw [passOutput_off e env bb (Bool.eq_false_iff.mpr hoff)] at hon
    exact hoff hon
  · rw [hnew, htrace, List.append_assoc]
  · rw [loggings_append, hlog, hzero, hlogged, Nat.add_zero]
  · rw [hlogged]
    exact h.logged

/-- A redirect keeps the entry, and nothing is reported. -/
theorem Entry.redirect (h : Entry base reported y) (e : Engine) (lib : WafLib) (save : SaveEnv)
    (src : BodySource) (r : Request) :
    Entry base reported (y.followRedirect e lib save src r) ∧
    (y.followRedirect e lib save src r).firstOn = y.firstOn ∧
    ∀ i, .poll (some i) ∉ newEvents y (y.followRedirect e lib save src r) := by
  obtain ⟨evs, htrace, hlog⟩ := h.log
  obtain ⟨on, hfollow⟩ := followRedirect_cases e lib save src h.ctx r
  have hnew : newEvents y (y.followRedirect e lib save src r) = [.redirect] :=
    newEvents_eq (by rw [hfollow]; rfl)
  refine ⟨?_, ?_, fun i ↦ by rw [hnew]; simp⟩
  · rw [hfollow]
    refine ⟨Or.inr (h.ctx.redirect r), fun hon ↦ hon, ⟨evs ++ [.redirect], ?_, ?_⟩, h.logged⟩
    · show y.trace ++ [.redirect] = _
      rw [htrace, List.append_assoc]
    · rw [loggings_append, hlog]
      rfl
  · have hfirst : (y.followRedirect e lib save src r).first = y.first := by
      rw [hfollow]
      exact List.getLastD_cons ..
    unfold Exchange.firstOn
    rw [hfirst, hfollow]
    rfl

/-! ### Whole chains -/

private theorem createsLater_cons (st : ChainStep) (steps : List ChainStep) :
    CreatesLater e lib save src env y (st :: steps) ↔
      (∃ r, st = .redirect r ∧ (y.internalRedirect r).Creates lib) ∨
      CreatesLater e lib save src env (y.chainStep e lib save src env st) steps := by
  simp only [CreatesLater, visits_cons, List.exists_mem_cons_iff]

private theorem intervenesLater_cons (st : ChainStep) (steps : List ChainStep) :
    IntervenesLater e lib save src env y (st :: steps) ↔
      (∃ r i, st = .redirect r ∧
        .poll (some i) ∈ newEvents y (y.followRedirect e lib save src r)) ∨
      IntervenesLater e lib save src env (y.chainStep e lib save src env st) steps := by
  simp only [IntervenesLater, visits_cons, List.exists_mem_cons_iff]

/-- Once there is a transaction, the chain keeps its entry. -/
theorem Entry.run (h : Entry base reported y) (e : Engine) (lib : WafLib) (save : SaveEnv)
    (src : BodySource) (env : OutEnv) (steps : List ChainStep) :
    Entry base reported (steps.foldl (Exchange.chainStep e lib save src env) y) ∧
    (steps.foldl (Exchange.chainStep e lib save src env) y).firstOn = y.firstOn ∧
    ¬ IntervenesLater e lib save src env y steps := by
  induction steps generalizing y with
  | nil =>
    refine ⟨h, rfl, ?_⟩
    rintro ⟨v, hv, -⟩
    cases hv
  | cons st steps ih =>
    rw [List.foldl_cons, intervenesLater_cons]
    cases st with
    | output bb =>
      obtain ⟨hentry, hfirst, hlater⟩ := ih (h.output e env bb)
      refine ⟨hentry, hfirst.trans (firstOn_congr (changes_passOutput e env y bb).fixed), ?_⟩
      rintro (⟨r, i, hst, -⟩ | hl)
      · cases hst
      · exact hlater hl
    | redirect r =>
      obtain ⟨hnext, hon, hsilent⟩ := h.redirect e lib save src r
      obtain ⟨hentry, hfirst, hlater⟩ := ih hnext
      refine ⟨hentry, hfirst.trans hon, ?_⟩
      rintro (⟨r', i, hst, hi⟩ | hl)
      · cases hst
        exact hsilent i hi
      · exact hlater hl

/-- A chain that begins without a transaction on its first `request_rec`. -/
theorem Vacant.run (h : Vacant base y) (e : Engine) (lib : WafLib) (save : SaveEnv)
    (src : BodySource) (env : OutEnv) (steps : List ChainStep) :
    ¬ CreatesLater e lib save src env y steps ∨
    Entry base (IntervenesLater e lib save src env y steps)
      (steps.foldl (Exchange.chainStep e lib save src env) y) ∧
    (steps.foldl (Exchange.chainStep e lib save src env) y).firstOn = false := by
  induction steps generalizing y with
  | nil =>
    apply Or.inl
    rintro ⟨v, hv, -⟩
    cases hv
  | cons st steps ih =>
    rw [List.foldl_cons, intervenesLater_cons, createsLater_cons]
    cases st with
    | output bb =>
      have hnext : Vacant base (y.chainStep e lib save src env (.output bb)) :=
        h.output e env bb
      simpa using ih hnext
    | redirect r =>
      have hrun := corazaPostReadRequest_run e lib save src (y.internalRedirect r)
      rcases (h.redirect r).hook hrun with ⟨hnot, hvacant, htrace⟩ |
        ⟨-, hentry, hprev, -, -, evs, htrace⟩
      · have hnext : Vacant base (y.chainStep e lib save src env (.redirect r)) := hvacant
        have hnew : newEvents y (y.followRedirect e lib save src r) = [.redirect] :=
          newEvents_eq htrace
        simpa [hnew, hnot] using ih hnext
      · have hnew : newEvents y (y.followRedirect e lib save src r) = .redirect :: evs :=
          newEvents_eq (htrace.trans (List.append_assoc _ _ _))
        rw [newEvents_eq htrace] at hentry
        obtain ⟨hlast, hfirst, hlater⟩ := hentry.run e lib save src env steps
        have hoff : (y.followRedirect e lib save src r).first.requestConfig = false := by
          rw [Exchange.first, Exchange.followRedirect, hprev]
          show ((y.r :: y.prev).getLastD _).requestConfig = false
          rw [List.getLastD_cons]
          exact h.first
        refine Or.inr ⟨⟨hlast.ctx, hlast.filter, hlast.log, hlast.logged.trans ⟨?_, ?_⟩⟩, ?_⟩
        · rintro ⟨i, hi⟩
          exact Or.inl ⟨r, i, rfl, by rw [hnew]; exact List.mem_cons_of_mem _ hi⟩
        · rintro (⟨r', i, hst, hi⟩ | hl)
          · cases hst
            rw [hnew] at hi
            exact ⟨i, by simpa using hi⟩
          · exact absurd hl hlater
        · apply hfirst.trans
          show (_ && (y.followRedirect e lib save src r).first.requestConfig) = false
          rw [hoff, Bool.and_false]

/-- Behind the log hook. -/
theorem Entry.finish (h : Entry s.trace reported y) (e : Engine) :
    loggings (newEvents s (y.finish e)) = 1 ↔ y.firstOn = true ∨ reported := by
  obtain ⟨evs, htrace, hlog⟩ := h.log
  rw [← h.logged]
  cases hc : y.first.requestConfig with
  | false =>
    have hoff : y.firstOn = false := by rw [Exchange.firstOn, hc, Bool.and_false]
    have hsame : (y.finish e).trace = s.trace ++ evs := by
      rw [← htrace]
      unfold Exchange.finish Exchange.corazaLogTransaction
      simp [hc]
    rw [newEvents_eq hsame, hlog, hoff]
    simp
  | true =>
    have hon : y.firstOn = { y with r := y.first, prev := [] }.enabled := by
      rw [Exchange.firstOn, hc, Bool.and_true]
      rfl
    unfold Exchange.finish
    rw [Exchange.corazaLogTransaction_eq e _ hc, ← hon]
    split
    · next hdo =>
      have hnew : newEvents s (({ y with r := y.first, prev := [] }.updCtx fun c ↦
          { c with logged := true }).log (.call .processLogging (e.ret y.trace .processLogging))) =
          evs ++ [.call .processLogging (e.ret y.trace .processLogging)] :=
        newEvents_eq (by rw [← List.append_assoc, ← htrace]; rfl)
      rw [hnew, loggings_append, hlog, hdo.1, hdo.2]
      simp [loggings, Event.isLogging]
    · next hdo =>
      have hsame : newEvents s { y with r := y.first, prev := [] } = evs := newEvents_eq htrace
      rw [hsame, hlog]
      cases hl : y.ctx.logged with
      | true => simp
      | false =>
        have hoff : y.firstOn = false := Bool.eq_false_iff.mpr fun hf ↦ hdo ⟨hf, hl⟩
        simp [hoff]

end

/-- A transaction created anywhere in a chain of internal redirects is logged exactly once by
the end of the request if it was created on the first `request_rec`, or if an intervention was
reported to the fixups hook that created it; otherwise it is not logged at all. -/
theorem one_audit_entry_iff (e : Engine) (lib : WafLib) (save : SaveEnv) (src : BodySource)
    (env : OutEnv) (s : Exchange) (steps : List ChainStep) (hp : s.prev = [])
    (hc : s.r.requestConfig = false) (ho : s.r.outFilter = false)
    (hcreates : s.Creates lib ∨ CreatesLater e lib save src env
      (exec (corazaPostReadRequest e lib save src) s).2 steps) :
    loggings (newEvents s ((s.served e lib save src env steps).finish e)) = 1 ↔
      s.Creates lib ∨ IntervenesLater e lib save src env
        (exec (corazaPostReadRequest e lib save src) s).2 steps := by
  have hstart : Vacant s.trace s :=
    ⟨hc, by rw [hp]; rfl, ho, [], (List.append_nil _).symm, rfl⟩
  rcases hstart.hook (corazaPostReadRequest_run e lib save src s) with
    ⟨hnot, hvacant, -⟩ | ⟨hfirst, hentry, hprev, hconfig, hon, -⟩
  · rcases hvacant.run e lib save src env steps with hnever | ⟨hentry, hoff⟩
    · exact absurd hcreates (not_or.mpr ⟨hnot, hnever⟩)
    · have hcount := hentry.finish e
      rw [hoff] at hcount
      refine hcount.trans ⟨fun h ↦ ?_, fun h ↦ ?_⟩
      · exact Or.inr (h.resolve_left Bool.false_ne_true)
      · exact Or.inr (h.resolve_left hnot)
  · obtain ⟨hlast, hkept, -⟩ := hentry.run e lib save src env steps
    have hthere : (exec (corazaPostReadRequest e lib save src) s).2.firstOn = true := by
      unfold Exchange.firstOn Exchange.first
      rw [hprev, hp]
      show (_ && _) = true
      rw [List.getLastD_nil, hconfig, Bool.and_true]
      exact hon
    refine ⟨fun _ ↦ Or.inl hfirst, fun _ ↦ (hlast.finish e).mpr (Or.inl ?_)⟩
    exact hkept.trans hthere

/-- A request to a section with the module on is logged once, redirected or not. -/
theorem plainExchange_logged_once : plainExchange.Creates acceptingLib ∧
    loggings (newEvents plainExchange ((plainExchange.served quietEngine acceptingLib plainSave
      plainBody plainOut [.redirect plainRequest, .output [.eos]]).finish quietEngine)) = 1 := by
  have hcreates : plainExchange.Creates acceptingLib := by decide +kernel
  exact ⟨hcreates, (one_audit_entry_iff quietEngine acceptingLib plainSave plainBody plainOut
    plainExchange [.redirect plainRequest, .output [.eos]] rfl rfl rfl (Or.inl hcreates)).mpr
    (Or.inl hcreates)⟩

/-- A request to a section with the module off, beside one with it on. -/
def offExchange : Exchange :=
  { plainExchange with
    r := { plainRequest with perDirConfig := some 1 }
    process := (Process.ofSections [[inlineRule "a"], []]).updateDirConf 1 fun c ↦
      { c with enable := 0 } }

/-- Redirected to the section with the module on, it gets a transaction that is never logged. -/
theorem offExchange_not_logged :
    CreatesLater quietEngine acceptingLib plainSave plainBody plainOut
      (exec (corazaPostReadRequest quietEngine acceptingLib plainSave plainBody) offExchange).2
      [.redirect plainRequest, .output [.eos]] ∧
    loggings (newEvents offExchange ((offExchange.served quietEngine acceptingLib plainSave
      plainBody plainOut [.redirect plainRequest, .output [.eos]]).finish quietEngine)) = 0 := by
  refine ⟨⟨_, List.mem_cons_self, plainRequest, rfl, ?_⟩, ?_⟩
  · decide +kernel
  · decide +kernel

end CorazaApache.Http
