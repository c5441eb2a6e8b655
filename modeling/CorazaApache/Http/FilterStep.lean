import CorazaApache.Http.Response

/-!
# The filter makes the transitions of the response machine

Every invocation of the filter in a state that stands for an active mode is a transition of
that mode, and leaves a state that stands for the next one. The blocks of the filter are
executed as those of the fixups hook are: from a state `y.after evs`, where `y` is the state at
the start of the invocation with the assignments made since.
-/

namespace CorazaApache.Http
open CorazaApache.Base CorazaApache.Base.Prog CorazaApache.Config CorazaApache.Apr

/-- What an invocation from `s` in mode `m` ends with. Unless the response is refused, the
`request_rec` is as before but for the filter. -/
structure Stepped (env : OutEnv) (bb : Brigade) (m : Mode) (s : Exchange) (st : FilterStatus)
    (evs : List Event) (m' : Mode) (s' : Exchange) : Prop where
  invoked : Invoked env s.r bb m evs st m'
  mode : InMode m' s'
  trace : s'.trace = s.trace ++ evs
  prev : s'.prev = s.prev
  process : s'.process = s.process
  config : s'.r.requestConfig = true
  req : m' ≠ .refused → s'.r = { s.r with outFilter := m'.active }

/-- The postcondition of an invocation. -/
def StepTo (env : OutEnv) (bb : Brigade) (m : Mode) (s : Exchange) (st : FilterStatus)
    (s' : Exchange) : Prop :=
  ∃ evs m', Stepped env bb m s st evs m' s'

/-- The state `y` of an invocation from `s`, its events taken off. -/
structure Stage (m : Mode) (s y : Exchange) : Prop where
  active : m.active = true
  prev : y.prev = s.prev
  process : y.process = s.process
  trace : y.trace = s.trace
  config : y.r.requestConfig = true
  idle : y.ctx.headersDelayed = false → y.ctx.pendingBrigade.getD [] = []
  sent : m = .streaming → y.ctx.headersDelayed = false

section

variable {e : Engine} {env : OutEnv} {bb : Brigade} {m : Mode} {s y : Exchange}
  {evs : List Event}

/-! ### Refusing -/

/-- An exit of the filter refuses: from any stage whose events give a cause. -/
def Refuses (env : OutEnv) (bb : Brigade) (m : Mode) (s : Exchange)
    (exit : Exchange → FilterStatus × Exchange) (ok : Exchange → Prop) : Prop :=
  ∀ y evs, Stage m s y → ok y → (∀ ev ∈ evs, ev.Inner m) →
    (¬ Clean evs ∨ Uninspectable env s.r bb) →
    StepTo env bb m s (exit (y.after evs)).1 (exit (y.after evs)).2

/-- What the state of a refused response has to be. -/
theorem inMode_refused {x : Exchange} (hf : x.r.outFilter = false)
    (ht : x.ctx.interventionTriggered = true) (hd : x.ctx.headersDelayed = false)
    (hp : x.ctx.pendingBrigade.getD [] = []) : InMode .refused x where
  filter := hf
  config h := (by cases h)
  triggered := ht
  phase3 h := absurd rfl h
  delayed := hd
  pending := hp
  len h := (by cases h)
  cap := Nat.zero_le _
  noEos := rfl
  processable h := (by cases h)

/-- Assemble a refusal from its final state. -/
theorem stepTo_of_refusal {st : FilterStatus} {x : Exchange} {dies : List Event}
    (hy : Stage m s y) (hi : ∀ ev ∈ evs, ev.Inner m)
    (hc : ¬ Clean evs ∨ Uninspectable env s.r bb) (hst : st.IsError)
    (hd : dies = [] ∨ ∃ status, dies = [.die status] ∧ st = .filterError ∧ m ≠ .streaming)
    (hmode : InMode .refused x) (htrace : x.trace = (y.after evs).trace ++ dies)
    (hprev : x.prev = y.prev) (hprocess : x.process = y.process)
    (hconfig : x.r.requestConfig = y.r.requestConfig) : StepTo env bb m s st x := by
  refine ⟨evs ++ dies, .refused, .refuse ⟨hy.active, hst, ?_, evs, dies, rfl, hi, hd⟩, hmode,
    ?_, hprev.trans hy.prev, hprocess.trans hy.process, hconfig.trans hy.config,
    fun h ↦ absurd rfl h⟩
  · exact hc.imp_left fun hn hclean ↦ hn (clean_append.mp hclean).1
  · rw [htrace, Exchange.after_trace, hy.trace, List.append_assoc]

/-- The pending brigade is empty after it was cleaned up. -/
theorem getD_map_nil (p : Option Brigade) : (p.map fun _ ↦ ([] : Brigade)).getD [] = [] := by
  cases p <;> rfl

/-- Before the body nothing is delayed, and the error page is made. -/
theorem refuses_denyHeaders (status : Int) :
    Refuses env bb .fresh s (Exchange.denyHeaders status)
      (fun y ↦ y.ctx.headersDelayed = false) := by
  intro y evs hy hnd hi hc
  exact stepTo_of_refusal hy hi hc (Or.inl rfl)
    (Or.inr ⟨status, rfl, rfl, fun h ↦ (by cases h)⟩)
    (inMode_refused rfl rfl hnd (hy.idle hnd)) rfl rfl rfl rfl

private theorem refuses_corazaFailClosedHeaders :
    Refuses env bb .fresh s Exchange.corazaFailClosedHeaders
      (fun y ↦ y.ctx.headersDelayed = false) :=
  refuses_denyHeaders httpInternalServerError

private theorem refuses_denyResponse (status : Int) :
    Refuses env bb m s (Exchange.denyResponse status) (fun _ ↦ True) := by
  intro y evs hy _ hi hc
  unfold Exchange.denyResponse
  dsimp only
  split
  · next hd =>
    have hdelayed : y.ctx.headersDelayed = true := hd
    refine stepTo_of_refusal hy hi hc (Or.inl rfl) (Or.inr ⟨status, rfl, rfl, fun h ↦ ?_⟩)
      (inMode_refused rfl rfl rfl (getD_map_nil _)) rfl rfl rfl rfl
    exact Bool.false_ne_true ((hy.sent h).symm.trans hdelayed)
  · next hd =>
    have hnd : y.ctx.headersDelayed = false := Bool.eq_false_iff.mpr hd
    exact stepTo_of_refusal hy hi hc (Or.inr (Or.inl rfl)) (Or.inl rfl)
      (inMode_refused rfl rfl hnd (hy.idle hnd)) (List.append_nil _).symm rfl rfl rfl

private theorem refuses_corazaFailClosedResponse :
    Refuses env bb m s Exchange.corazaFailClosedResponse (fun _ ↦ True) := by
  intro y evs hy _ hi hc
  unfold Exchange.corazaFailClosedResponse
  dsimp only
  split
  · next hd =>
    have hdelayed : y.ctx.headersDelayed = true := hd
    refine stepTo_of_refusal hy hi hc (Or.inl rfl) (Or.inr ⟨_, rfl, rfl, fun h ↦ ?_⟩)
      (inMode_refused rfl rfl rfl (getD_map_nil _)) rfl rfl rfl rfl
    exact Bool.false_ne_true ((hy.sent h).symm.trans hdelayed)
  · next hd =>
    have hnd : y.ctx.headersDelayed = false := Bool.eq_false_iff.mpr hd
    exact stepTo_of_refusal hy hi hc (Or.inr (Or.inl rfl)) (Or.inl rfl)
      (inMode_refused rfl rfl hnd (hy.idle hnd)) (List.append_nil _).symm rfl rfl rfl

private theorem refuses_corazaDropResponse :
    Refuses env bb m s Exchange.corazaDropResponse (fun _ ↦ True) := by
  intro y evs hy _ hi hc
  unfold Exchange.corazaDropResponse
  dsimp only
  split
  · exact stepTo_of_refusal hy hi hc (Or.inr (Or.inr rfl)) (Or.inl rfl)
      (inMode_refused rfl rfl rfl (getD_map_nil _)) (List.append_nil _).symm rfl rfl rfl
  · next hd =>
    have hnd : y.ctx.headersDelayed = false := Bool.eq_false_iff.mpr hd
    exact stepTo_of_refusal hy hi hc (Or.inr (Or.inr rfl)) (Or.inl rfl)
      (inMode_refused rfl rfl hnd (hy.idle hnd)) (List.append_nil _).symm rfl rfl rfl

/-! ### The blocks -/

/-- Both parts are made of inner events. -/
theorem inner_append {a b : List Event} :
    (∀ ev ∈ a ++ b, ev.Inner m) ↔ (∀ ev ∈ a, ev.Inner m) ∧ ∀ ev ∈ b, ev.Inner m :=
  List.forall_mem_append

/-- Leaving through a refusing exit. -/
theorem ends_leave {α : Type} {exit : Exchange → FilterStatus × Exchange} {ok : Exchange → Prop}
    {Q : α → Exchange → Prop} (h : Refuses env bb m s exit ok) (hy : Stage m s y) (hok : ok y)
    (hi : ∀ ev ∈ evs, ev.Inner m) (hc : ¬ Clean evs ∨ Uninspectable env s.r bb) :
    Ends (leave exit) (y.after evs) Q (StepTo env bb m s) :=
  h y evs hy hok hi hc

/-- The last event of a list makes it bad. -/
theorem not_clean_append {ev : Event} (h : ev.Bad) : ¬ Clean (evs ++ [ev]) := fun hc ↦
  hc ev (List.mem_append_right _ (List.mem_singleton_self ev)) h

/-- A checked `process` call of the filter. -/
theorem ends_processOr {c : EngineCall} {exit : Exchange → FilterStatus × Exchange}
    {ok : Exchange → Prop} {Q : Unit → Exchange → Prop} (hexit : Refuses env bb m s exit ok)
    (hy : Stage m s y) (hok : ok y) (hi : ∀ ev ∈ evs, ev.Inner m)
    (hbad : ∀ rc, rc < 0 → c.failed rc)
    (h : ∀ rc, 0 ≤ rc → Q () (y.after (evs ++ [.call c rc]))) :
    Ends (processOr e c exit) (y.after evs) Q (StepTo env bb m s) := by
  simp only [processOr, ends_bind, ends_engineCall, ends_when, Exchange.log_after]
  constructor
  · intro hf
    refine ends_leave hexit hy hok (inner_append.mpr ⟨hi, ?_⟩) (Or.inl (not_clean_append ?_))
    · simp [Event.Inner]
    · exact hbad _ (of_decide_eq_true hf)
  · intro hf
    exact h _ (corazaProcessFailed_eq_false.mp hf)

/-- What a poll that found something leaves is a stage with more events. -/
theorem stage_of_polled {i : Intervention} {s' : Exchange} (hy : Stage m s y)
    (hp : Exchange.Polled i (y.after evs) s') (mark : CorazaRequestCtx → CorazaRequestCtx)
    (hm : ∀ c, (mark c).headersDelayed = c.headersDelayed ∧
      (mark c).pendingBrigade = c.pendingBrigade) :
    ∃ z calls, s'.updCtx mark = z.after (evs ++ .poll (some i) :: calls) ∧ Stage m s z ∧
      z.ctx.headersDelayed = y.ctx.headersDelayed ∧ ∀ ev ∈ calls, ev.Inner m := by
  obtain ⟨calls, htrace, hcalls⟩ := hp.trace
  obtain ⟨drop, logged, hctx⟩ := hp.ctx
  obtain ⟨ho, hr⟩ := hp.req
  have hdel : (mark s'.ctx).headersDelayed = y.ctx.headersDelayed := by
    rw [(hm _).1, hctx]
    rfl
  have hpend : (mark s'.ctx).pendingBrigade = y.ctx.pendingBrigade := by
    rw [(hm _).2, hctx]
    rfl
  refine ⟨{ s'.updCtx mark with trace := s.trace }, calls, ?_, ⟨hy.active, ?_, ?_, rfl, ?_,
    fun h ↦ ?_, fun h ↦ ?_⟩, hdel, fun ev hev ↦ ?_⟩
  · rw [Exchange.after_trace, hy.trace, List.append_assoc] at htrace
    rw [Exchange.after, ← htrace]
    rfl
  · exact hp.prev.trans hy.prev
  · exact hp.process.trans hy.process
  · rw [Exchange.updCtx_r, hr]
    exact hy.config
  · exact hpend ▸ hy.idle (hdel ▸ h)
  · exact hdel.trans (hy.sent h)
  · obtain ⟨c, rc, rfl, -⟩ := hcalls ev hev
    trivial

/-- A poll of the filter falls through only if it finds nothing. -/
theorem ends_pollFilter (ok : Exchange → Prop) {mark : CorazaRequestCtx → CorazaRequestCtx}
    {deny : Int → Exchange → FilterStatus × Exchange}
    {Q : Unit → Exchange → Prop} (hdeny : ∀ status, Refuses env bb m s (deny status) ok)
    (hm : ∀ c, (mark c).headersDelayed = c.headersDelayed ∧
      (mark c).pendingBrigade = c.pendingBrigade)
    (hok : ∀ z, z.ctx.headersDelayed = y.ctx.headersDelayed → ok z)
    (hy : Stage m s y) (hi : ∀ ev ∈ evs, ev.Inner m) (h : Q () (y.after (evs ++ [.poll none]))) :
    Ends (pollFilter e mark deny) (y.after evs) Q (StepTo env bb m s) := by
  rcases Exchange.corazaProcessIntervention_cases e false (y.after evs) hy.config with
    ⟨-, hp⟩ | ⟨i, s', -, hp, hpolled⟩
  · simp only [Ends, pollFilter, hp, Exchange.log_after]
    exact h
  · have hpos := Exchange.enforcedStatus_pos i
    obtain ⟨z, calls, hz, hstage, hdel, hcalls⟩ := stage_of_polled hy hpolled mark hm
    have hinner : ∀ ev ∈ evs ++ .poll (some i) :: calls, ev.Inner m :=
      inner_append.mpr ⟨hi, List.forall_mem_cons.mpr ⟨trivial, hcalls⟩⟩
    have hbad : ¬ Clean (evs ++ .poll (some i) :: calls) := fun hc ↦
      hc (.poll (some i)) (List.mem_append_right _ List.mem_cons_self) (Option.some_ne_none i)
    simp only [Ends, pollFilter, hp, if_pos hpos, hz, leave]
    split
    · exact refuses_corazaDropResponse z _ hstage trivial hinner (Or.inl hbad)
    · exact hdeny _ z _ hstage (hok z hdel) hinner (Or.inl hbad)

/-! ### Phase 3 -/

/-- Asking about the body adds the questions and their answers. -/
theorem ends_askProcessable {Q : Bool → Exchange → Prop} {E : FilterStatus → Exchange → Prop}
    (h : ∀ processable asked, Asked processable asked → Q processable (y.after (evs ++ asked))) :
    Ends (askProcessable e) (y.after evs) Q E := by
  rw [askProcessable, ends_bind, ends_engineCall, Exchange.log_after]
  split
  · next ha =>
    rw [ends_bind, ends_engineCall, Exchange.log_after, ends_pure, List.append_assoc]
    exact h _ _ (Or.inr ⟨_, _, ha, rfl, rfl⟩)
  · next ha =>
    rw [ends_pure, not_not.mp ha]
    exact h _ _ (Or.inl ⟨rfl, rfl⟩)

/-- Handing on the last brigade the filter sees, from a stage in which nothing is pending. -/
theorem ends_stepOut {α : Type} {Q : α → Exchange → Prop} (hy : Stage m s y)
    (hr : y.r = s.r) (hp : y.ctx.phase3Done = true)
    (ht : y.ctx.interventionTriggered = false)
    (hd : y.ctx.headersDelayed = false) {out : Brigade}
    (hi : Invoked env s.r bb m (evs ++ [.pass out]) .passed .out) :
    Ends (stepOut out) (y.after evs) Q (StepTo env bb m s) := by
  simp only [stepOut, passBrigade, ends_bind, ends_modify]
  refine ⟨_, _, hi, ?_, ?_, hy.prev, hy.process, hy.config, fun _ ↦ ?_⟩
  · exact
      { filter := rfl
        config := fun h ↦ (by cases h)
        triggered := ht
        phase3 := fun _ ↦ hp
        delayed := hd
        pending := hy.idle hd
        len := fun h ↦ (by cases h)
        cap := Nat.zero_le _
        noEos := rfl
        processable := fun h ↦ (by cases h) }
  · show y.trace ++ evs ++ [.pass out] = _
    rw [hy.trace, List.append_assoc]
  · show { y.r with outFilter := false } = _
    rw [hr]
    rfl

private theorem inner_submitted {bulk : List UInt8 → Nat → Nat → EngineCall}
    {single : HeaderPair → EngineCall} {pairs : List HeaderPair}
    (h : Submitted bulk single pairs evs) : ∀ ev ∈ evs, ev.Inner m := by
  have hcall : ∀ ev ∈ evs, ∃ c rc, ev = .call c rc := by
    rcases h with ⟨-, rfl⟩ | ⟨packed, len, -, rfl⟩ | ⟨before, hbefore, rfl⟩
    · simp
    · simp
    · refine List.forall_mem_append.mpr ⟨?_, by simp⟩
      rcases hbefore with rfl | ⟨packed, len, rc, -, rfl⟩
      · simp
      · simp
  intro ev hev
  obtain ⟨c, rc, rfl⟩ := hcall ev hev
  trivial

private theorem inner_asked {processable : Bool} (h : Asked processable evs) :
    ∀ ev ∈ evs, ev.Inner m := by
  rcases h with ⟨-, rfl⟩ | ⟨access, answer, -, -, rfl⟩
  · simp [Event.Inner]
  · simp [Event.Inner]

/-- Phase 3 is made of inner events. -/
theorem inner_phase3 {r : Request} {processable : Bool} (h : Phase3Done r processable evs) :
    ∀ ev ∈ evs, ev.Inner m := by
  obtain ⟨headers, rc, asked, ⟨pairs, -, hheaders⟩, -, hasked, rfl⟩ := h
  refine inner_append.mpr ⟨inner_submitted hheaders, List.forall_mem_cons.mpr ⟨trivial,
    inner_append.mpr ⟨inner_asked hasked, ?_⟩⟩⟩
  simp [Event.Inner]

/-- Phase 4 of an uninspected body never falls through. -/
theorem ends_finishUninspected {Q : Unit → Exchange → Prop} (hy : Stage .fresh s y)
    (hr : y.r = s.r) (h3 : y.ctx.phase3Done = true)
    (ht : y.ctx.interventionTriggered = false) (hd : y.ctx.headersDelayed = false)
    (hp : Phase3Done s.r false evs) :
    Ends (finishUninspected e bb) (y.after evs) Q (StepTo env bb .fresh s) := by
  have hstage : Stage .fresh s (y.updCtx fun c ↦ { c with phase4Done := true }) :=
    ⟨rfl, hy.prev, hy.process, hy.trace, hy.config, hy.idle, hy.sent⟩
  have hi : ∀ ev ∈ evs, ev.Inner .fresh := inner_phase3 hp
  rw [finishUninspected, ends_bind]
  refine ends_processOr refuses_corazaFailClosedHeaders hy hd hi (fun _ h ↦ h) fun rc hrc ↦ ?_
  rw [ends_bind, ends_modify, ends_bind]
  refine ends_pollFilter (fun y ↦ y.ctx.headersDelayed = false)
    (y := y.updCtx fun c ↦ { c with phase4Done := true }) refuses_denyHeaders (fun _ ↦ ⟨rfl, rfl⟩)
    (fun z hz ↦ hz.trans hd) hstage (inner_append.mpr ⟨hi, by simp [Event.Inner]⟩) ?_
  refine ends_stepOut hstage hr h3 ht hd ?_
  rw [List.append_assoc, List.append_assoc]
  exact .uninspected hp hrc

/-- The last block of phase 3 delays the headers or not. -/
theorem ends_beginDelay {Q : Unit → Exchange → Prop} {evs : List Event} (hm : InMode .fresh s)
    (hdone : Phase3Done s.r true evs) (hsse : corazaIsSseResponse s.r = false)
    (h : ∀ y new m₁, Opens env s.r .fresh new m₁ → InMode m₁ y → Stage .fresh s y → y.r = s.r →
      (∀ ev ∈ new, ev.Inner .fresh) → Q () (y.after new)) :
    Ends (beginDelay env) ((s.updCtx fun c ↦ { c with
      phase3Done := true, responseBodyProcessable := true }).after evs) Q
      (StepTo env bb .fresh s) := by
  have hconfig := hm.config rfl
  have hlen : s.ctx.pendingLen = 0 := hm.len rfl
  simp only [beginDelay, ends_bind, ends_get, ends_when, ends_modify]
  constructor
  · intro hc
    obtain ⟨hskips, hcreate⟩ := Bool.and_eq_true_iff.mp hc
    rw [Bool.not_eq_true'] at hskips
    have hlog : (((s.updCtx fun c ↦ { c with
        phase3Done := true, responseBodyProcessable := true }).after evs).updCtx fun c ↦
        { c with pendingBrigade := some [], headersDelayed := true }).log .delay =
        (s.updCtx fun c ↦ { c with
          phase3Done := true, responseBodyProcessable := true, pendingBrigade := some [],
          headersDelayed := true }).after (evs ++ [.delay]) := by
      simp [Exchange.log, Exchange.after, Exchange.updCtx]
    rw [hlog]
    refine h _ _ _ (.delay hdone hsse hskips hcreate) ?_ ?_ rfl
      (inner_append.mpr ⟨inner_phase3 hdone, by simp [Event.Inner]⟩)
    · exact ⟨hm.filter, fun _ ↦ hconfig, hm.triggered, fun _ ↦ rfl, rfl, rfl, fun _ ↦ hlen,
        Nat.zero_le _, rfl, fun _ _ ↦ rfl⟩
    · exact ⟨rfl, rfl, rfl, rfl, hconfig, fun _ ↦ rfl, fun h ↦ (by cases h)⟩
  · intro hc
    have hskips : skipsDelay s.r = true ∨ env.brigadeCreateOk = false := by
      rcases Bool.and_eq_false_iff.mp hc with hk | hk
      · exact Or.inl (by simpa using hk)
      · exact Or.inr hk
    refine h _ _ _ (.stream hdone hsse hskips) ?_ ?_ rfl (inner_phase3 hdone)
    · exact ⟨hm.filter, fun _ ↦ hconfig, hm.triggered, fun _ ↦ rfl, hm.delayed, hm.pending,
        fun _ ↦ hlen, Nat.zero_le _, rfl, fun _ _ ↦ rfl⟩
    · exact ⟨rfl, rfl, rfl, rfl, hconfig, fun _ ↦ hm.pending, fun h ↦ (by cases h)⟩

/-- Phase 3 falls through with the response opened in one of the inspecting modes. -/
theorem ends_phase3 {Q : Unit → Exchange → Prop} (hm : InMode .fresh s)
    (h : ∀ y new m₁, Opens env s.r .fresh new m₁ → InMode m₁ y → Stage .fresh s y → y.r = s.r →
      (∀ ev ∈ new, ev.Inner .fresh) → Q () (y.after new)) :
    Ends (phase3 e env bb) s Q (StepTo env bb .fresh s) := by
  have hd : s.ctx.headersDelayed = false := hm.delayed
  have ht : s.ctx.interventionTriggered = false := hm.triggered
  have hstage (f : CorazaRequestCtx → CorazaRequestCtx)
      (hf : (f s.ctx).headersDelayed = s.ctx.headersDelayed ∧
        (f s.ctx).pendingBrigade = s.ctx.pendingBrigade) : Stage .fresh s (s.updCtx f) :=
    ⟨rfl, rfl, rfl, rfl, hm.config rfl, fun _ ↦ by rw [Exchange.updCtx_ctx, hf.2, hm.pending]; rfl,
      fun h ↦ (by cases h)⟩
  have hs3 := hstage (fun c ↦ { c with phase3Done := true }) ⟨rfl, rfl⟩
  simp only [phase3, ends_bind, ends_modify, ends_get, ends_when]
  rw [← Exchange.after_nil (s.updCtx _)]
  refine ends_submitHeaders (fun new Q' hcalls hfail ↦ ?_) fun headers hheaders ↦ ?_
  · refine ends_leave refuses_corazaFailClosedHeaders hs3 hd (fun ev hev ↦ ?_) ?_
    · obtain ⟨c, rc, rfl⟩ := hcalls ev hev
      trivial
    · rcases hfail with hlong | ⟨p, hp, rc, hrc, hmem⟩
      · exact Or.inr (Or.inl hlong)
      · exact Or.inl fun hclean ↦ hclean _ hmem hrc
  · rw [List.nil_append]
    refine ends_processOr refuses_corazaFailClosedHeaders hs3 hd (inner_submitted hheaders)
      (fun _ h ↦ h) fun rc hrc ↦ ?_
    refine ends_askProcessable fun processable asked hasked ↦ ?_
    have hs4 := hstage (fun c ↦ { c with
      phase3Done := true, responseBodyProcessable := processable }) ⟨rfl, rfl⟩
    refine ends_pollFilter (fun y ↦ y.ctx.headersDelayed = false) (y := s.updCtx fun c ↦ { c with
      phase3Done := true, responseBodyProcessable := processable }) refuses_denyHeaders
      (fun _ ↦ ⟨rfl, rfl⟩) (fun z hz ↦ hz.trans hd) hs4 (inner_append.mpr ⟨inner_append.mpr
        ⟨inner_submitted hheaders, by simp [Event.Inner]⟩, inner_asked hasked⟩) ?_
    have hdone : Phase3Done s.r processable (headers ++ [.call (.processResponseHeaders s.r.status
        (s.r.protocol.getD (CString.ofString "HTTP/1.1"))) rc] ++ asked ++ [.poll none]) :=
      ⟨headers, rc, asked, ⟨_, responseHeaderSet_iff.mpr rfl, hheaders⟩, hrc, hasked,
        by simp⟩
    constructor
    · intro hp
      rw [Bool.not_eq_true'] at hp
      rw [hp] at hdone hs4 ⊢
      exact ends_finishUninspected hs4 rfl rfl ht hd hdone
    · intro hp
      rw [Bool.not_eq_false'] at hp
      rw [hp] at hdone hs4 ⊢
      constructor
      · intro hsse
        exact ends_stepOut hs4 rfl rfl ht hd (.sse hdone hsse)
      · intro hsse
        exact ends_beginDelay hm hdone hsse h

/-! ### The body -/

/-- The state with the given count of delayed bytes. -/
def Exchange.withLen (y : Exchange) (n : Nat) : Exchange :=
  y.updCtx fun c ↦ { c with pendingLen := n }

/-- The count of delayed bytes after some buckets of the brigade. -/
def lenAfter (m₁ : Mode) (before : Brigade) : Nat :=
  (dataBytes m₁.held).length + if m₁.delays then (dataBytes before).length else 0

private theorem Stage.withLen (hy : Stage m s y) (n : Nat) : Stage m s (y.withLen n) :=
  ⟨hy.active, hy.prev, hy.process, hy.trace, hy.config, hy.idle, hy.sent⟩

/-- So is the inspection of a body. -/
theorem inner_inspected (before : Brigade) :
    ∀ ev ∈ before.flatMap inspectedBucket, ev.Inner m := by
  intro ev hev
  obtain ⟨b, -, hev⟩ := List.mem_flatMap.mp hev
  unfold inspectedBucket at hev
  split at hev
  · cases hev
  · rcases List.mem_pair.mp hev with rfl | rfl <;> trivial

/-- A chunk falls through only inspected, clean and of a length the engine takes. -/
theorem ends_appendChunk {b : Bucket} {Q : Unit → Exchange → Prop} (hy : Stage m s y)
    (hi : ∀ ev ∈ evs, ev.Inner m) (hb : b ∈ bb) (hne : b.bytes ≠ [])
    (h : b.bytes.length ≤ intMax → Q () (y.after (evs ++ inspectedBucket b))) :
    Ends (appendChunk e b.bytes) (y.after evs) Q (StepTo env bb m s) := by
  simp only [appendChunk, ends_bind, ends_when, ends_engineCall, Exchange.log_after]
  refine ⟨fun hlong ↦ ?_, fun hshort ↦ ⟨fun hf ↦ ?_, fun hf ↦ ?_⟩⟩
  · exact ends_leave refuses_corazaFailClosedResponse hy trivial hi
      (Or.inr (Or.inr (Or.inl ⟨b, hb, Or.inr (of_decide_eq_true hlong)⟩)))
  · refine ends_leave refuses_corazaFailClosedResponse hy trivial
      (inner_append.mpr ⟨hi, by simp [Event.Inner]⟩) (Or.inl (not_clean_append ?_))
    show e.ret _ _ ≠ 0
    exact of_decide_eq_true hf
  · refine ends_pollFilter (fun _ ↦ True) refuses_denyResponse (fun _ ↦ ⟨rfl, rfl⟩)
      (fun _ _ ↦ trivial) hy (inner_append.mpr ⟨hi, by simp [Event.Inner]⟩) ?_
    have hq := h (Nat.not_lt.mp (of_decide_eq_false hshort))
    rw [inspectedBucket, if_neg hne] at hq
    rw [corazaCallFailed_eq_false.mp hf, List.append_assoc]
    exact hq

/-- Counting a chunk falls through below the cap; past it the response is flushed. -/
theorem ends_countDelayed {held before after : Brigade} {b : Bucket} {new : List Event}
    {Q : Unit → Exchange → Prop} (hy : Stage m s y) (hr : y.r = s.r)
    (hm : InMode (.delaying held) y) (ho : Opens env s.r m new (.delaying held))
    (hsplit : bb = before ++ b :: after) (hread : ∀ b ∈ before, b.readable = true)
    (hbelow : (dataBytes (held ++ before)).length ≤ maxDelayedBody)
    (h : ((dataBytes (held ++ before)).length + b.bytes.length) % sizeModulus ≤ maxDelayedBody →
      Q () ((y.withLen (((dataBytes (held ++ before)).length + b.bytes.length) %
        sizeModulus)).after (new ++ before.flatMap inspectedBucket))) :
    Ends (countDelayed bb b.bytes.length)
      ((y.withLen (dataBytes (held ++ before)).length).after
        (new ++ before.flatMap inspectedBucket)) Q (StepTo env bb m s) := by
  simp only [countDelayed, ends_bind, ends_modify, ends_get, ends_when]
  refine ⟨fun hover ↦ ?_, fun hunder ↦ h (Nat.not_lt.mp (of_decide_eq_false hunder))⟩
  have hpend : y.ctx.pendingBrigade.getD [] = held := hm.pending
  have habove : maxDelayedBody < (dataBytes (held ++ before)).length + b.bytes.length :=
    Nat.lt_of_lt_of_le (of_decide_eq_true hover) (Nat.mod_le _ _)
  refine ⟨_, _, .carry ho (.flush hsplit hread hbelow habove), ?_, ?_, hy.prev, hy.process,
    hy.config, fun _ ↦ ?_⟩
  · exact ⟨rfl, fun h ↦ (by cases h), hm.triggered, fun _ ↦ hm.phase3 (by simp), rfl, rfl,
      fun h ↦ (by cases h), Nat.zero_le _, rfl, fun h ↦ (by cases h)⟩
  · show y.trace ++ (new ++ before.flatMap inspectedBucket) ++
      [.pass (y.ctx.pendingBrigade.getD [] ++ bb)] = _
    rw [hy.trace, hpend, List.append_assoc, List.append_assoc]
  · show { y.r with outFilter := false } = _
    rw [hr]
    rfl

/-- The state of the body loop after the buckets of `before`, opened with the events `new`. -/
structure Looping (m₁ : Mode) (y : Exchange) (new : List Event) (before : Brigade)
    (sawEos : Bool) (t : Exchange) : Prop where
  eos : sawEos = hasEos before
  readable : ∀ b ∈ before, b.readable = true
  below : m₁.delays = true → (dataBytes (m₁.held ++ before)).length ≤ maxDelayedBody
  state : t = (y.withLen (lenAfter m₁ before)).after (new ++ before.flatMap inspectedBucket)

/-- A bucket without data changes nothing but the mark for the end of stream. -/
theorem Looping.skip {m₁ : Mode} {new : List Event} {before : Brigade} {sawEos : Bool}
    {t : Exchange} (h : Looping m₁ y new before sawEos t) {b : Bucket} (hb : b.bytes = [])
    (hr : b.readable = true) {sawEos' : Bool} (he : sawEos' = (sawEos || b.isEos)) :
    Looping m₁ y new (before ++ [b]) sawEos' t := by
  have hdata : dataBytes (before ++ [b]) = dataBytes before := by simp [hb]
  refine ⟨?_, ?_, fun hd ↦ ?_, ?_⟩
  · rw [he, h.eos, hasEos_append, hasEos_cons, hasEos_nil, Bool.or_false]
  · exact List.forall_mem_append.mpr ⟨h.readable, List.forall_mem_singleton.mpr hr⟩
  · have hbelow := h.below hd
    rwa [dataBytes_append, hdata, ← dataBytes_append]
  · have hnone : [b].flatMap inspectedBucket = [] := by simp [inspectedBucket, hb]
    rw [h.state, List.flatMap_append, hnone, List.append_nil, lenAfter, lenAfter, hdata]

/-- An inspected chunk is added to the count and to the events. -/
theorem Looping.chunk {m₁ : Mode} {new : List Event} {before : Brigade} {sawEos : Bool}
    {t t' : Exchange} (h : Looping m₁ y new before sawEos t) {b : Bucket} {storage : Storage}
    (hb : b = .data storage b.bytes)
    (hbelow : m₁.delays = true →
      (dataBytes (m₁.held ++ before)).length + b.bytes.length ≤ maxDelayedBody)
    (ht : t' = (y.withLen (lenAfter m₁ before + if m₁.delays then b.bytes.length else 0)).after
      (new ++ before.flatMap inspectedBucket ++ inspectedBucket b)) :
    Looping m₁ y new (before ++ [b]) sawEos t' := by
  have hdata : dataBytes (before ++ [b]) = dataBytes before ++ b.bytes := by simp
  refine ⟨?_, ?_, fun hd ↦ ?_, ?_⟩
  · rw [h.eos, hasEos_append, hb]
    simp [Bucket.isEos]
  · refine List.forall_mem_append.mpr ⟨h.readable, List.forall_mem_singleton.mpr ?_⟩
    rw [hb]
    rfl
  · have hle := hbelow hd
    rw [dataBytes_append, List.length_append] at hle
    rw [dataBytes_append, hdata, List.length_append, List.length_append]
    omega
  · rw [ht, List.flatMap_append, List.flatMap_singleton, ← List.append_assoc]
    congr 2
    rw [lenAfter, lenAfter, hdata, List.length_append]
    split <;> omega

/-- One round of the body loop. -/
theorem ends_bodyBucket {m₁ : Mode} {new : List Event} {before after : Brigade} {b : Bucket}
    {sawEos : Bool} {t : Exchange} (hy : Stage m s y) (hr : y.r = s.r) (hm : InMode m₁ y)
    (hactive : m₁.active = true) (hfresh : m₁ ≠ .fresh) (ho : Opens env s.r m new m₁)
    (hnew : ∀ ev ∈ new, ev.Inner m) (hsplit : bb = before ++ b :: after)
    (hl : Looping m₁ y new before sawEos t) :
    Ends (bodyBucket e bb sawEos b) t
      (fun l t' ↦ Looping m₁ y new (before ++ [b]) l t') (StepTo env bb m s) := by
  have hmem : b ∈ bb := by rw [hsplit]; exact List.mem_append_right _ List.mem_cons_self
  have hinner : ∀ ev ∈ new ++ before.flatMap inspectedBucket, ev.Inner m :=
    inner_append.mpr ⟨hnew, inner_inspected before⟩
  cases b with
  | eos =>
    rw [bodyBucket, ends_pure]
    exact hl.skip rfl rfl (Bool.or_true _).symm
  | metadata id =>
    rw [bodyBucket, ends_pure]
    exact hl.skip rfl rfl (Bool.or_false _).symm
  | unreadable id =>
    rw [bodyBucket, hl.state]
    exact ends_leave refuses_corazaFailClosedResponse (hy.withLen _) trivial hinner
      (Or.inr (Or.inr (Or.inl ⟨_, hmem, Or.inl rfl⟩)))
  | data storage bytes =>
    by_cases hz : bytes = []
    · have hskip := hl.skip (b := .data storage bytes) hz rfl (Bool.or_false _).symm
      simpa [bodyBucket, hz] using hskip
    · have hpos : 0 < bytes.length := List.length_pos_iff.mpr hz
      have hproc : t.ctx.responseBodyProcessable = true := by
        rw [hl.state]
        exact hm.processable hactive hfresh
      have hdelayed : t.ctx.headersDelayed = m₁.delays := by
        rw [hl.state]
        exact hm.delayed
      simp only [bodyBucket, ends_bind, ends_get, ends_when, ends_pure, hproc, hdelayed,
        decide_eq_true hpos, Bool.and_true]
      have happend (n : Nat) (hn : bytes.length ≤ intMax →
          Looping m₁ y new (before ++ [Bucket.data storage bytes]) sawEos
            ((y.withLen n).after (new ++ before.flatMap inspectedBucket ++
              inspectedBucket (.data storage bytes)))) :
          Ends (appendChunk e bytes)
            ((y.withLen n).after (new ++ before.flatMap inspectedBucket))
            (fun _ t' ↦ Looping m₁ y new (before ++ [Bucket.data storage bytes]) sawEos t')
            (StepTo env bb m s) :=
        ends_appendChunk (b := .data storage bytes) (hy.withLen n) hinner hmem hz hn
      refine ⟨fun hd ↦ ?_, fun hd ↦ ⟨fun _ ↦ ?_, fun h ↦ (by cases h)⟩⟩
      · obtain ⟨held, rfl⟩ : ∃ held, m₁ = .delaying held := by
          cases m₁ with
          | delaying held => exact ⟨held, rfl⟩
          | fresh => cases hd
          | streaming => cases hd
          | out => cases hd
          | refused => cases hd
        have hlen : lenAfter (.delaying held) before = (dataBytes (held ++ before)).length := by
          simp [lenAfter, Mode.held, Mode.delays]
        have hbelow : (dataBytes (held ++ before)).length ≤ maxDelayedBody := hl.below rfl
        rw [hl.state, hlen]
        refine ends_countDelayed (b := .data storage bytes) hy hr hm ho hsplit hl.readable hbelow
          fun hcount ↦ ⟨fun _ ↦ happend _ fun hmax ↦ ?_, fun h ↦ (by cases h)⟩
        have hmod : ((dataBytes (held ++ before)).length + bytes.length) % sizeModulus =
            (dataBytes (held ++ before)).length + bytes.length := by
          refine Nat.mod_eq_of_lt ?_
          simp only [maxDelayedBody, intMax, sizeModulus] at *
          omega
        refine hl.chunk (b := .data storage bytes) rfl (fun _ ↦ ?_) ?_
        · exact hmod ▸ hcount
        · rw [hlen]
          show (y.withLen ((_ + bytes.length) % sizeModulus)).after _ = _
          rw [hmod]
          rfl
      · rw [hl.state]
        refine happend _ fun _ ↦ hl.chunk (b := .data storage bytes) rfl
          (fun h ↦ absurd (hd.symm.trans h) Bool.false_ne_true) ?_
        rw [hd]
        rfl

/-- The end of the response never falls through. -/
theorem ends_finishResponse {m₁ : Mode} {new : List Event} {t : Exchange}
    {Q : Unit → Exchange → Prop} (hy : Stage m s y) (hr : y.r = s.r) (hm : InMode m₁ y)
    (hactive : m₁.active = true) (hfresh : m₁ ≠ .fresh) (ho : Opens env s.r m new m₁)
    (hnew : ∀ ev ∈ new, ev.Inner m) (hl : Looping m₁ y new bb true t) :
    Ends (finishResponse e bb) t Q (StepTo env bb m s) := by
  have hinner : ∀ ev ∈ new ++ bb.flatMap inspectedBucket, ev.Inner m :=
    inner_append.mpr ⟨hnew, inner_inspected bb⟩
  have ht : y.ctx.interventionTriggered = false := by
    rw [hm.triggered]
    exact decide_eq_false (Mode.ne_refused_of_active hactive)
  have h3 : y.ctx.phase3Done = true := by
    rw [hm.phase3 (Mode.ne_refused_of_active hactive)]
    exact decide_eq_true hfresh
  rw [hl.state, finishResponse, ends_bind]
  refine ends_processOr refuses_corazaFailClosedResponse (hy.withLen _) trivial hinner
    (fun _ h ↦ h) fun rc hrc ↦ ?_
  rw [ends_bind]
  refine ends_pollFilter (fun _ ↦ True) refuses_denyResponse (fun _ ↦ ⟨rfl, rfl⟩)
    (fun _ _ ↦ trivial) (hy.withLen _) (inner_append.mpr ⟨hinner, by simp [Event.Inner]⟩) ?_
  simp only [ends_bind, ends_modify, ends_get, ends_when]
  cases m₁ with
  | fresh => exact absurd rfl hfresh
  | out => cases hactive
  | refused => cases hactive
  | delaying held =>
    have hd : y.ctx.headersDelayed = true := hm.delayed
    have hpend : y.ctx.pendingBrigade.getD [] = held := hm.pending
    refine ⟨fun _ ↦ ?_, fun h ↦ absurd ((show y.ctx.headersDelayed = false from h).symm.trans hd)
      Bool.false_ne_true⟩
    show Ends (stepOut (y.ctx.pendingBrigade.getD [] ++ bb)) _ _ _
    rw [hpend]
    refine ends_stepOut (y := y.updCtx fun c ↦ { c with
      pendingLen := lenAfter (.delaying held) bb, phase4Done := true, headersDelayed := false,
      pendingBrigade := some [] }) ⟨hy.active, hy.prev, hy.process, hy.trace, hy.config,
        fun _ ↦ rfl, fun _ ↦ rfl⟩ hr h3 ht rfl ?_
    have hi := Invoked.carry ho (.release hl.readable hl.eos.symm (hl.below rfl) hrc)
    simpa using hi
  | streaming =>
    have hd : y.ctx.headersDelayed = false := hm.delayed
    refine ⟨fun h ↦ absurd (hd.symm.trans (show y.ctx.headersDelayed = true from h))
      Bool.false_ne_true, fun _ ↦ ?_⟩
    refine ends_stepOut (y := y.updCtx fun c ↦ { c with
      pendingLen := lenAfter .streaming bb, phase4Done := true }) ⟨hy.active, hy.prev, hy.process,
        hy.trace, hy.config, hy.idle, hy.sent⟩ hr h3 ht hd ?_
    have hi := Invoked.carry ho (.finish hl.readable hl.eos.symm hrc)
    simpa using hi

/-- A brigade without the end of stream is held or handed on. -/
theorem ends_holdOrPass {m₁ : Mode} {new : List Event} {t : Exchange}
    {Q : FilterStatus → Exchange → Prop} (hy : Stage m s y) (hr : y.r = s.r) (hm : InMode m₁ y)
    (hactive : m₁.active = true) (hfresh : m₁ ≠ .fresh) (ho : Opens env s.r m new m₁)
    (hnew : ∀ ev ∈ new, ev.Inner m) (hl : Looping m₁ y new bb false t) :
    Ends (do
      let s ← get
      when s.ctx.headersDelayed (holdBrigade env bb)
      passBrigade bb) t Q (StepTo env bb m s) := by
  have hinner : ∀ ev ∈ new ++ bb.flatMap inspectedBucket, ev.Inner m :=
    inner_append.mpr ⟨hnew, inner_inspected bb⟩
  have hout : s.r.outFilter = true := by rw [← hr, hm.filter, hactive]
  simp only [ends_bind, ends_get, ends_when, holdBrigade, ends_modify, ends_ret, hl.state]
  cases m₁ with
  | fresh => exact absurd rfl hfresh
  | out => cases hactive
  | refused => cases hactive
  | delaying held =>
    have hd : y.ctx.headersDelayed = true := hm.delayed
    have hpend : y.ctx.pendingBrigade.getD [] = held := hm.pending
    refine ⟨fun _ ↦ ⟨fun hsave ↦ ?_, fun hsave ↦ ?_⟩, fun h ↦
      absurd ((show y.ctx.headersDelayed = false from h).symm.trans hd) Bool.false_ne_true⟩
    · exact ends_leave refuses_corazaFailClosedResponse (hy.withLen _) trivial hinner
        (Or.inr (Or.inr (Or.inr ⟨_, by simpa using hsave⟩)))
    · refine ⟨_, _, .carry ho (.hold hl.readable hl.eos.symm (hl.below rfl)), ?_, ?_, hy.prev,
        hy.process, hy.config, fun _ ↦ ?_⟩
      · refine ⟨hm.filter, hm.config, hm.triggered, fun _ ↦ hm.phase3 (fun h ↦ (by cases h)),
          hm.delayed, ?_, fun _ ↦ ?_, hl.below rfl, ?_, fun _ _ ↦ hm.processable rfl hfresh⟩
        · show y.ctx.pendingBrigade.getD [] ++ bb = held ++ bb
          rw [hpend]
        · show lenAfter (.delaying held) bb = (dataBytes (held ++ bb)).length
          simp [lenAfter, Mode.held, Mode.delays]
        · have hno : hasEos held = false := hm.noEos
          show hasEos (held ++ bb) = false
          rw [hasEos_append, hno, ← hl.eos]
          rfl
      · show y.trace ++ (new ++ bb.flatMap inspectedBucket) = _
        rw [hy.trace]
      · show y.r = { s.r with outFilter := true }
        rw [hr, ← hout]
  | streaming =>
    have hd : y.ctx.headersDelayed = false := hm.delayed
    refine ⟨fun h ↦ absurd (hd.symm.trans (show y.ctx.headersDelayed = true from h))
      Bool.false_ne_true, fun _ ↦ ?_⟩
    refine ⟨_, _, .carry ho (.stream hl.readable hl.eos.symm), ?_, ?_, hy.prev, hy.process,
      hy.config, fun _ ↦ ?_⟩
    · exact ⟨hm.filter, hm.config, hm.triggered, hm.phase3, hm.delayed, hm.pending,
        fun _ ↦ rfl, hm.cap, hm.noEos, hm.processable⟩
    · show y.trace ++ (new ++ bb.flatMap inspectedBucket) ++ [.pass bb] = _
      rw [hy.trace, List.append_assoc, List.append_assoc]
    · show y.r = { s.r with outFilter := true }
      rw [hr, ← hout]

/-- The body loop and what follows it, from an opened response. -/
theorem ends_phase4 {m₁ : Mode} {new : List Event} {t : Exchange}
    {Q : FilterStatus → Exchange → Prop}
    (hy : Stage m s y) (hr : y.r = s.r) (hm : InMode m₁ y) (hactive : m₁.active = true)
    (hfresh : m₁ ≠ .fresh) (ho : Opens env s.r m new m₁) (hnew : ∀ ev ∈ new, ev.Inner m)
    (ht : t = y.after new) : Ends (phase4 e env bb) t Q (StepTo env bb m s) := by
  subst ht
  have hstart : Looping m₁ y new [] false (y.after new) := by
    refine ⟨rfl, by simp, fun _ ↦ ?_, ?_⟩
    · rw [List.append_nil]
      exact hm.cap
    · have hlen : lenAfter m₁ [] = y.ctx.pendingLen := by
        rw [hm.len hactive, lenAfter]
        split <;> rfl
      rw [hlen, List.flatMap_nil, List.append_nil]
      rfl
  rw [phase4, ends_bind]
  refine (ends_foldEach (fun before sawEos t ↦ Looping m₁ y new before sawEos t) hstart
    fun before b after sawEos t hsplit hl ↦ ?_).mono (fun sawEos t hl ↦ ?_) fun _ _ h ↦ h
  · exact ends_bodyBucket hy hr hm hactive hfresh ho hnew hsplit hl
  · rw [ends_bind, ends_when]
    refine ⟨fun heos ↦ ?_, fun heos ↦ ?_⟩
    · subst heos
      exact ends_finishResponse hy hr hm hactive hfresh ho hnew hl
    · subst heos
      exact ends_holdOrPass hy hr hm hactive hfresh ho hnew hl

/-- Every invocation in an active mode is a transition of the response machine. -/
theorem ends_corazaOutputFilter (e : Engine) (env : OutEnv) (bb : Brigade)
    (hm : InMode m s) (hactive : m.active = true) :
    Ends (corazaOutputFilter e env bb) s (StepTo env bb m s) (StepTo env bb m s) := by
  have ht : s.ctx.interventionTriggered = false := by
    rw [hm.triggered]
    exact decide_eq_false (Mode.ne_refused_of_active hactive)
  rw [corazaOutputFilter, ends_bind, ends_get, ends_bind, ends_when, ht]
  refine ⟨fun h ↦ (by cases h), fun _ ↦ ?_⟩
  rw [ends_bind]
  by_cases hfresh : m = .fresh
  · subst hfresh
    have hp : s.ctx.phase3Done = false := hm.phase3 (fun h ↦ (by cases h))
    rw [ends_when, hp]
    refine ⟨fun _ ↦ ends_phase3 hm fun y new m₁ ho hm₁ hy hr hnew ↦ ?_, fun h ↦ (by cases h)⟩
    have hopen : m₁.active = true ∧ m₁ ≠ .fresh := by
      cases ho with
      | again hact hne => exact absurd rfl hne
      | delay => exact ⟨rfl, fun h ↦ (by cases h)⟩
      | stream => exact ⟨rfl, fun h ↦ (by cases h)⟩
    exact ends_phase4 hy hr hm₁ hopen.1 hopen.2 ho hnew rfl
  · have hp : s.ctx.phase3Done = true := by
      rw [hm.phase3 (Mode.ne_refused_of_active hactive)]
      exact decide_eq_true hfresh
    have hy : Stage m s s := by
      refine ⟨hactive, rfl, rfl, rfl, hm.config hactive, fun h ↦ ?_, fun h ↦ ?_⟩
      · rw [hm.pending]
        exact Mode.held_of_not_delays (hm.delayed ▸ h)
      · rw [hm.delayed, h]
        rfl
    rw [ends_when, hp]
    refine ⟨fun h ↦ (by cases h), fun _ ↦ ?_⟩
    exact ends_phase4 hy rfl hm hactive hfresh (.again hactive hfresh) (by simp)
      (Exchange.after_nil s).symm

end

/-- The transitions of the machine as the output chain sees them: an active filter is invoked,
and a brigade that meets no filter goes by. -/
inductive Output (env : OutEnv) (r : Request) (bb : Brigade) :
    Mode → List Event → Mode → Prop
  | filter {m m' : Mode} {evs : List Event} {st : FilterStatus}
      (invoked : Invoked env r bb m evs st m') :
      Output env r bb m (.receive bb :: evs ++ [.returned st]) m'
  | direct {m : Mode} (off : m.active = false) : Output env r bb m [.receive bb, .direct bb] m

/-- What a brigade passed down the chain in mode `m` ends with. -/
structure PassedTo (env : OutEnv) (bb : Brigade) (m : Mode) (s : Exchange) (evs : List Event)
    (m' : Mode) (s' : Exchange) : Prop where
  output : Output env s.r bb m evs m'
  mode : InMode m' s'
  trace : s'.trace = s.trace ++ evs
  prev : s'.prev = s.prev
  process : s'.process = s.process
  config : s'.r.requestConfig = s.r.requestConfig
  req : m' ≠ .refused → s'.r = { s.r with outFilter := m'.active }

/-- The mode does not depend on what was recorded. -/
theorem InMode.log {m : Mode} {s : Exchange} (hm : InMode m s) (ev : Event) :
    InMode m (s.log ev) :=
  ⟨hm.filter, hm.config, hm.triggered, hm.phase3, hm.delayed, hm.pending, hm.len, hm.cap,
    hm.noEos, hm.processable⟩

/-- The arrival of a brigade does not change the mode. -/
theorem InMode.arrive {m : Mode} {s : Exchange} (hm : InMode m s) (bb : Brigade) :
    InMode m (s.arrive bb) :=
  ⟨hm.filter, hm.config, hm.triggered, hm.phase3, hm.delayed, hm.pending, hm.len, hm.cap,
    hm.noEos, hm.processable⟩

/-- Passing output is a transition of the machine in every mode. -/
theorem passOutput_step (e : Engine) (env : OutEnv) {m : Mode} {s : Exchange} (hm : InMode m s)
    (bb : Brigade) : ∃ evs m', PassedTo env bb m s evs m' (s.passOutput e env bb) := by
  cases hactive : m.active with
  | true =>
    obtain ⟨evs, m', hstep⟩ := exec_of_ends
      (ends_corazaOutputFilter e env bb (hm.arrive bb) hactive)
    rw [passOutput_on e env bb (hm.filter.trans hactive)]
    refine ⟨_, m', .filter hstep.invoked, hstep.mode.log _, ?_, hstep.prev, hstep.process,
      hstep.config.trans (hm.config hactive).symm, hstep.req⟩
    rw [Exchange.log_trace, hstep.trace]
    simp
  | false =>
    rw [passOutput_off e env bb (hm.filter.trans hactive)]
    refine ⟨_, m, .direct hactive, (hm.arrive bb).log _, by simp, rfl, rfl, rfl, fun _ ↦ ?_⟩
    rw [← hm.filter]
    rfl

end CorazaApache.Http
