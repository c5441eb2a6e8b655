import CorazaApache.Http.Release

/-!
# What the hook and the filter leave alone

Neither writes to the earlier `request_rec`s of the chain or to the configuration, and the hook
leaves the part of the context alone that belongs to the response, and tells the engine nothing
about the response. No chunk is handed to the
engine whose length an `int` cannot say, and the filter sends nothing on unless it says so.
-/

namespace CorazaApache.Http
open CorazaApache.Base CorazaApache.Base.Prog CorazaApache.Config CorazaApache.Apr

/-- What neither the hook nor the filter writes once there is a context; the fields of the
`request_rec` they write are blanked. -/
def Exchange.fixed (s : Exchange) : List Request × Process × Request :=
  (s.prev, s.process, { s.r with
    headersOut := []
    status := 0
    readLength := 0
    outFilter := false
    inFilter := false })

/-- The part of the context that belongs to the response; the rest is blanked. -/
def CorazaRequestCtx.responseSide (c : CorazaRequestCtx) : CorazaRequestCtx :=
  { c with
    phase2Done := false
    savedBody := none
    logged := false
    interventionTriggered := false
    dropConnection := false }

/-- A chunk of the response is handed over only with a length an `int` can say. -/
def Event.Short : Event → Prop
  | .call (.appendResponseBody bytes) _ => bytes.length ≤ intMax
  | _ => True

/-- A call about the response. -/
def EngineCall.ofResponse : EngineCall → Bool
  | .addResponseHeaders _ _ _ | .addResponseHeader _ | .processResponseHeaders _ _
  | .isResponseBodyAccessible | .isResponseBodyProcessable | .appendResponseBody _
  | .processResponseBody => true
  | _ => false

/-- No call about the response. -/
def Event.RequestSide : Event → Prop
  | .call c _ => c.ofResponse = false
  | _ => True

/-- The changes the module makes to an exchange with a context, with the events `P` allows. -/
structure Changes (P : Event → Prop) (s s' : Exchange) : Prop where
  fixed : s'.fixed = s.fixed
  events : ∃ evs, s'.trace = s.trace ++ evs ∧ ∀ ev ∈ evs, P ev

section

variable {P : Event → Prop} {s s' s'' : Exchange}

/-- Changes compose. -/
theorem Changes.trans (h : Changes P s s') (h' : Changes P s' s'') : Changes P s s'' := by
  obtain ⟨evs, htrace, hevs⟩ := h.events
  obtain ⟨evs', htrace', hevs'⟩ := h'.events
  refine ⟨h'.fixed.trans h.fixed, evs ++ evs', ?_, List.forall_mem_append.mpr ⟨hevs, hevs'⟩⟩
  rw [htrace', htrace, List.append_assoc]

private theorem Changes.mono (h : Changes P s s') {P' : Event → Prop} (hp : ∀ ev, P ev → P' ev) :
    Changes P' s s' := by
  obtain ⟨evs, htrace, hevs⟩ := h.events
  exact ⟨h.fixed, evs, htrace, fun ev hev ↦ hp ev (hevs ev hev)⟩

/-- A change that records nothing. -/
theorem changes_of_fixed (h : s'.fixed = s.fixed) (ht : s'.trace = s.trace) : Changes P s s' :=
  ⟨h, [], by rw [ht, List.append_nil], by simp⟩

/-- An event is recorded. -/
theorem changes_log (s : Exchange) {ev : Event} (h : P ev) : Changes P s (s.log ev) :=
  ⟨rfl, [ev], rfl, by simpa using h⟩

end

/-- A poll marks the context, sets `Location` and makes calls. -/
theorem changes_poll {P : Event → Prop} (e : Engine) (earlyLog : Bool) (s : Exchange)
    (hpoll : ∀ i, P (.poll i))
    (hcall : ∀ c rc, (∃ status, c = .updateStatusCode status) ∨ c = .processLogging →
      P (.call c rc)) :
    Changes P s (s.corazaProcessIntervention e earlyLog).2 ∧
      (s.corazaProcessIntervention e earlyLog).2.ctx.responseSide = s.ctx.responseSide := by
  by_cases hc : s.r.requestConfig = true
  · rcases Exchange.corazaProcessIntervention_cases e earlyLog s hc with
      ⟨-, hp⟩ | ⟨i, s', -, hp, hpolled⟩
    · rw [hp]
      exact ⟨changes_log s (hpoll none), rfl⟩
    · obtain ⟨calls, htrace, hcalls⟩ := hpolled.trace
      obtain ⟨drop, logged, hctx⟩ := hpolled.ctx
      obtain ⟨headersOut, hreq⟩ := hpolled.req
      rw [hp]
      refine ⟨⟨?_, .poll (some i) :: calls, htrace, List.forall_mem_cons.mpr ⟨hpoll _, ?_⟩⟩, ?_⟩
      · rw [Exchange.fixed, Exchange.fixed, hpolled.prev, hpolled.process, hreq]
      · intro ev hev
        obtain ⟨c, rc, rfl, hc | hc⟩ := hcalls ev hev
        · exact hcall c rc (Or.inl ⟨_, hc⟩)
        · exact hcall c rc (Or.inr hc)
      · rw [hctx]
        rfl
  · have hp : s.corazaProcessIntervention e earlyLog = (httpInternalServerError, s) := by
      rw [Exchange.corazaProcessIntervention, Bool.eq_false_iff.mpr hc]
      rfl
    rw [hp]
    exact ⟨changes_of_fixed rfl rfl, rfl⟩

section

variable {e : Engine} {α ρ : Type}

/-- Header submission makes calls and takes the exit it is given. -/
theorem within_submitHeaders {R : Effect Exchange ρ}
    {bulk : List UInt8 → Nat → Nat → EngineCall} {single : HeaderPair → EngineCall}
    {fail : Hook ρ Unit} {pairs : List HeaderPair}
    (hbulk : ∀ packed len count, Within R (engineCall e (bulk packed len count)))
    (hsingle : ∀ p, Within R (engineCall e (single p))) (hfail : Within R fail) :
    Within R (submitHeaders e bulk single fail pairs) := by
  refine within_bind ?_ fun _ ↦ within_when (within_forEach fun p ↦ ?_)
  · unfold submitBulk
    split
    · exact within_pure _
    · split
      · exact within_pure _
      · exact within_bind (hbulk _ _ _) fun _ ↦ within_pure _
  · exact within_bind (within_when hfail) fun _ ↦ within_bind (hsingle p) fun _ ↦
      within_when hfail

/-! ### The hook -/

/-- The effect of the hook: nothing but the request side of the context, calls about the request
and polls. -/
def hookEffect : Effect Exchange Int where
  next s s' := Changes Event.RequestSide s s' ∧ s'.ctx.responseSide = s.ctx.responseSide
  ret _ s s' := Changes Event.RequestSide s s' ∧ s'.ctx.responseSide = s.ctx.responseSide
  refl _ := ⟨changes_of_fixed rfl rfl, rfl⟩
  trans h h' := ⟨h.1.trans h'.1, h'.2.trans h.2⟩
  comp h h' := ⟨h.1.trans h'.1, h'.2.trans h.2⟩

private theorem within_hook_engineCall {c : EngineCall} (hc : c.ofResponse = false) :
    Within hookEffect (engineCall e c) :=
  fun s ↦ ⟨changes_log s hc, rfl⟩

/-- Assignments to the request side. -/
theorem within_hook_modify {f : Exchange → Exchange} (h : ∀ s, (f s).fixed = s.fixed ∧
    (f s).trace = s.trace ∧ (f s).ctx.responseSide = s.ctx.responseSide) :
    Within hookEffect (modify f) :=
  within_modify fun s ↦ ⟨changes_of_fixed (h s).1 (h s).2.1, (h s).2.2⟩

private theorem within_hook_ret {v : Int} : Within hookEffect (Prog.ret v : Hook Int α) :=
  within_ret hookEffect.refl

private theorem within_failClosed : Within hookEffect (failClosed : Hook Int α) :=
  within_bind (within_hook_modify fun _ ↦ ⟨rfl, rfl, rfl⟩) fun _ ↦ within_hook_ret

private theorem within_checkProcess {c : EngineCall} (hc : c.ofResponse = false) :
    Within hookEffect (checkProcess e c) :=
  within_bind (within_hook_engineCall hc) fun _ ↦ within_when within_failClosed

private theorem within_checkCall {c : EngineCall} (hc : c.ofResponse = false) :
    Within hookEffect (checkCall e c) :=
  within_bind (within_hook_engineCall hc) fun _ ↦ within_when within_failClosed

/-- A poll of the hook that returns has marked the context. -/
theorem changes_pollHook {P : Event → Prop} (e : Engine) (s : Exchange)
    (hpoll : ∀ i, P (.poll i))
    (hcall : ∀ c rc, (∃ status, c = .updateStatusCode status) ∨ c = .processLogging →
      P (.call c rc)) :
    Ends (pollHook e) s
      (fun _ s' ↦ Changes P s s' ∧ s'.ctx.responseSide = s.ctx.responseSide)
      (fun _ s' ↦ (Changes P s s' ∧ s'.ctx.responseSide = s.ctx.responseSide) ∧
        s'.ctx.interventionTriggered = true) := by
  have hp := changes_poll e true s hpoll hcall
  unfold Ends pollHook
  cases h : s.corazaProcessIntervention e true with
  | mk ret s' =>
    rw [h] at hp
    dsimp only
    by_cases hr : 0 < ret
    · rw [if_pos hr]
      have hmarked : Changes P s' (s'.corazaEnforceIntervention ret).2 ∧
          (s'.corazaEnforceIntervention ret).2.ctx.responseSide = s'.ctx.responseSide ∧
          (s'.corazaEnforceIntervention ret).2.ctx.interventionTriggered = true := by
        unfold Exchange.corazaEnforceIntervention
        dsimp only
        split
        · exact ⟨changes_of_fixed rfl rfl, rfl, rfl⟩
        · exact ⟨changes_of_fixed rfl rfl, rfl, rfl⟩
      exact ⟨⟨hp.1.trans hmarked.1, hmarked.2.1.trans hp.2⟩, hmarked.2.2⟩
    · rw [if_neg hr]
      exact hp

/-- The poll of the hook. -/
theorem within_pollHook : Within hookEffect (pollHook e) := by
  intro s
  refine (changes_pollHook e s (fun _ ↦ trivial) ?_).mono (fun _ _ h ↦ h) fun _ _ h ↦ h.1
  rintro c rc (⟨status, rfl⟩ | rfl)
  · rfl
  · rfl

private theorem within_phase1 : Within hookEffect (phase1 e) := by
  refine within_bind within_get fun s ↦ within_bind (within_checkProcess rfl) fun _ ↦ ?_
  refine within_bind within_pollHook fun _ ↦ within_bind (within_checkProcess rfl) fun _ ↦ ?_
  refine within_bind within_pollHook fun _ ↦ within_bind ?_ fun _ ↦ ?_
  · exact within_submitHeaders (fun _ _ _ ↦ within_hook_engineCall rfl)
      (fun _ ↦ within_hook_engineCall rfl) within_failClosed
  · exact within_bind (within_checkProcess rfl) fun _ ↦ within_pollHook

private theorem within_bodyChunk {env : SaveEnv} {memLimit : Int} {inspect : Bool} {l : BodyLocals}
    {chunk : BodyChunk} : Within hookEffect (bodyChunk e env memLimit inspect l chunk) := by
  refine within_bind ?_ fun _ ↦ within_bind (within_when ?_) fun _ ↦ within_pure _
  · exact within_bind within_get fun s ↦ within_bind (within_when within_failClosed) fun _ ↦
      within_bind (within_hook_modify fun _ ↦ ⟨rfl, rfl, rfl⟩) fun _ ↦ within_pure _
  · exact within_bind (within_checkCall rfl) fun _ ↦ within_pollHook

private theorem within_readBody {env : SaveEnv} {src : BodySource} :
    Within hookEffect (readBody e env src) := by
  refine within_bind within_get fun s ↦ within_bind (within_hook_engineCall rfl) fun _ ↦ ?_
  refine within_bind (within_hook_modify fun _ ↦ ⟨rfl, rfl, rfl⟩) fun _ ↦ ?_
  refine within_bind (within_foldEach fun _ _ ↦ within_bodyChunk) fun _ ↦ ?_
  refine within_bind (within_when within_hook_ret) fun _ ↦ ?_
  exact within_bind (within_hook_modify fun _ ↦ ⟨rfl, rfl, rfl⟩) fun _ ↦
    within_hook_modify fun _ ↦ ⟨rfl, rfl, rfl⟩

/-- Phase 2. -/
theorem within_phase2 {env : SaveEnv} {src : BodySource} :
    Within hookEffect (phase2 e env src) := by
  refine within_bind (within_when within_hook_ret) fun _ ↦
    within_bind (within_when within_readBody) fun _ ↦ ?_
  exact within_bind (within_checkProcess rfl) fun _ ↦
    within_bind (within_hook_modify fun _ ↦ ⟨rfl, rfl, rfl⟩) fun _ ↦ within_pollHook

/-- Both phases of the hook, with the output filter added in between. -/
theorem within_phases {env : SaveEnv} {src : BodySource} :
    Within hookEffect (do
      phase1 e
      modify fun s ↦ s.updReq fun r ↦ { r with outFilter := true }
      phase2 e env src) :=
  within_bind within_phase1 fun _ ↦
    within_bind (within_hook_modify fun _ ↦ ⟨rfl, rfl, rfl⟩) fun _ ↦ within_phase2

/-! ### The filter -/

/-- What the filter records before it returns. -/
def Event.Quiet (ev : Event) : Prop := ev.Short ∧ ¬ ev.Sends

/-- What the filter records until it has returned `st`. -/
def Event.Until (st : FilterStatus) (ev : Event) : Prop :=
  ev.Short ∧ (st ≠ .passed → ¬ ev.Sends)

private theorem Event.Quiet.until {ev : Event} (h : ev.Quiet) (st : FilterStatus) : ev.Until st :=
  ⟨h.1, fun _ ↦ h.2⟩

/-- The effect of the filter: it sends something on only where it answers for the next one. -/
def filterEffect : Effect Exchange FilterStatus where
  next s s' := Changes Event.Quiet s s'
  ret st s s' := Changes (Event.Until st) s s'
  refl _ := changes_of_fixed rfl rfl
  trans h h' := h.trans h'
  comp h h' := (h.mono fun _ hev ↦ hev.until _).trans h'

private theorem within_filter_engineCall {c : EngineCall}
    (h : ∀ bytes, c = .appendResponseBody bytes →
    bytes.length ≤ intMax) : Within filterEffect (engineCall e c) := by
  intro s
  refine changes_log s ⟨?_, id⟩
  cases c <;> first | trivial | exact h _ rfl

private theorem within_filter_modify {f : Exchange → Exchange} (h : ∀ s, (f s).fixed = s.fixed ∧
    (f s).trace = s.trace) : Within filterEffect (modify f) :=
  within_modify fun s ↦ changes_of_fixed (h s).1 (h s).2

/-- An exit of the filter that sends nothing. -/
theorem within_leave {exit : Exchange → FilterStatus × Exchange}
    (h : ∀ s, Changes Event.Quiet s (exit s).2) :
    Within filterEffect (leave exit : Hook FilterStatus α) :=
  fun s ↦ (h s).mono fun _ hev ↦ hev.until _

private theorem quiet_die (status : Int) : ∀ ev ∈ [Event.die status], ev.Quiet := by
  simp [Event.Quiet, Event.Short, Event.Sends]

private theorem changes_refuse (s : Exchange) :
    Changes Event.Quiet s s.refuse := changes_of_fixed rfl rfl

private theorem changes_status (status : Int) (s : Exchange) :
    Changes Event.Quiet s (s.updReq fun r ↦ { r with status := status }) :=
  changes_of_fixed rfl rfl

private theorem changes_discardPending (s : Exchange) : Changes Event.Quiet s s.discardPending :=
  changes_of_fixed rfl rfl

private theorem changes_corazaDie (status : Int) (s : Exchange) :
    Changes Event.Quiet s (s.corazaDie status) :=
  ⟨rfl, [.die status], rfl, quiet_die status⟩

/-- Denying a response in phase 3 sends nothing. -/
theorem changes_denyHeaders (status : Int) (s : Exchange) :
    Changes Event.Quiet s (s.denyHeaders status).2 :=
  (changes_refuse s).trans (changes_corazaDie status _)

private theorem changes_denyResponse (status : Int) (s : Exchange) :
    Changes Event.Quiet s (s.denyResponse status).2 := by
  have hrefuse := changes_refuse s
  unfold Exchange.denyResponse
  dsimp only
  split
  · exact (hrefuse.trans (changes_discardPending _)).trans (changes_corazaDie status _)
  · exact hrefuse.trans (changes_status status _)

private theorem changes_corazaFailClosedResponse (s : Exchange) :
    Changes Event.Quiet s s.corazaFailClosedResponse.2 := by
  have hstatus := (changes_refuse s).trans (changes_status httpInternalServerError s.refuse)
  unfold Exchange.corazaFailClosedResponse
  dsimp only
  split
  · exact (hstatus.trans (changes_discardPending _)).trans (changes_corazaDie _ _)
  · exact hstatus

private theorem changes_corazaDropResponse (s : Exchange) :
    Changes Event.Quiet s s.corazaDropResponse.2 := by
  unfold Exchange.corazaDropResponse
  dsimp only
  split
  · exact changes_of_fixed rfl rfl
  · exact changes_of_fixed rfl rfl

private theorem within_passBrigade {bb : Brigade} :
    Within filterEffect (passBrigade bb : Hook FilterStatus α) :=
  fun s ↦ changes_log s ⟨trivial, fun h ↦ absurd rfl h⟩

private theorem within_stepOut {bb : Brigade} :
    Within filterEffect (stepOut bb : Hook FilterStatus α) :=
  within_bind (within_filter_modify fun _ ↦ ⟨rfl, rfl⟩) fun _ ↦ within_passBrigade

private theorem within_processOr {c : EngineCall} {exit : Exchange → FilterStatus × Exchange}
    (h : ∀ bytes, c ≠ .appendResponseBody bytes)
    (hexit : ∀ s, Changes Event.Quiet s (exit s).2) :
    Within filterEffect (processOr e c exit) :=
  within_bind (within_filter_engineCall fun bytes hc ↦ absurd hc (h bytes)) fun _ ↦
    within_when (within_leave hexit)

private theorem within_pollFilter {mark : CorazaRequestCtx → CorazaRequestCtx}
    {deny : Int → Exchange → FilterStatus × Exchange}
    (hdeny : ∀ status s, Changes Event.Quiet s (deny status s).2) :
    Within filterEffect (pollFilter e mark deny) := by
  intro s
  have hcall (c : EngineCall) (rc : Int)
      (h : (∃ status, c = .updateStatusCode status) ∨ c = .processLogging) :
      (Event.call c rc).Quiet := by
    rcases h with ⟨status, rfl⟩ | rfl
    · exact ⟨trivial, id⟩
    · exact ⟨trivial, id⟩
  have hp := (changes_poll e false s (fun _ ↦ ⟨trivial, id⟩) hcall).1
  unfold Ends pollFilter
  cases h : s.corazaProcessIntervention e false with
  | mk ret s' =>
    rw [h] at hp
    dsimp only
    by_cases hr : 0 < ret
    · rw [if_pos hr]
      have hmarked : Changes Event.Quiet s (s'.updCtx mark) := hp.trans (changes_of_fixed rfl rfl)
      apply filterEffect.comp hmarked
      split
      · exact within_leave (α := Unit) changes_corazaDropResponse (s'.updCtx mark)
      · exact within_leave (α := Unit) (hdeny ret) (s'.updCtx mark)
    · rw [if_neg hr]
      exact hp

private theorem within_askProcessable : Within filterEffect (askProcessable e) := by
  refine within_bind (within_filter_engineCall fun _ h ↦ (by cases h)) fun access ↦ ?_
  split
  · exact within_bind (within_filter_engineCall fun _ h ↦ (by cases h)) fun _ ↦ within_pure _
  · exact within_pure _

private theorem within_finishUninspected {bb : Brigade} :
    Within filterEffect (finishUninspected e bb) := by
  refine within_bind (within_processOr (fun _ h ↦ (by cases h)) (changes_denyHeaders _)) fun _ ↦ ?_
  refine within_bind (within_filter_modify fun _ ↦ ⟨rfl, rfl⟩) fun _ ↦ ?_
  exact within_bind (within_pollFilter changes_denyHeaders) fun _ ↦ within_stepOut

private theorem within_beginDelay {env : OutEnv} : Within filterEffect (beginDelay env) := by
  refine within_bind within_get fun _ ↦ within_when (within_modify fun s ↦ ?_)
  exact ⟨rfl, [.delay], rfl, by simp [Event.Quiet, Event.Short, Event.Sends]⟩

/-- What phase 3 does once the headers are processed. -/
theorem within_phase3_rest {env : OutEnv} {bb : Brigade} {sse : Bool} :
    Within filterEffect (do
      let processable ← askProcessable e
      modify fun s ↦ s.updCtx fun c ↦ { c with responseBodyProcessable := processable }
      pollFilter e id Exchange.denyHeaders
      when (!processable) (finishUninspected e bb)
      when sse (stepOut bb)
      beginDelay env) := by
  refine within_bind within_askProcessable fun processable ↦ ?_
  refine within_bind (within_filter_modify fun _ ↦ ⟨rfl, rfl⟩) fun _ ↦ ?_
  refine within_bind (within_pollFilter changes_denyHeaders) fun _ ↦ ?_
  refine within_bind (within_when within_finishUninspected) fun _ ↦ ?_
  exact within_bind (within_when within_stepOut) fun _ ↦ within_beginDelay

private theorem within_phase3 {env : OutEnv} {bb : Brigade} :
    Within filterEffect (phase3 e env bb) := by
  refine within_bind (within_filter_modify fun _ ↦ ⟨rfl, rfl⟩) fun _ ↦
    within_bind within_get fun s ↦ within_bind (within_submitHeaders (fun _ _ _ ↦ ?_)
      (fun _ ↦ ?_) (within_leave (changes_denyHeaders _))) fun _ ↦ ?_
  · exact within_filter_engineCall fun _ h ↦ (by cases h)
  · exact within_filter_engineCall fun _ h ↦ (by cases h)
  exact within_bind (within_processOr (fun _ h ↦ (by cases h)) (changes_denyHeaders _)) fun _ ↦
    within_phase3_rest

/-- The guard in front of the call keeps its promise. -/
theorem within_appendChunk {bytes : List UInt8} : Within filterEffect (appendChunk e bytes) := by
  by_cases hlong : intMax < bytes.length
  · intro s
    have hexit : appendChunk e bytes s =
        (.ret s.corazaFailClosedResponse.1, s.corazaFailClosedResponse.2) := by
      rw [appendChunk, decide_eq_true hlong]
      rfl
    rw [Ends, hexit]
    exact (changes_corazaFailClosedResponse s).mono fun _ hev ↦ hev.until _
  · refine within_bind (within_when (within_leave changes_corazaFailClosedResponse)) fun _ ↦ ?_
    refine within_bind (within_filter_engineCall fun bytes' h ↦ ?_) fun _ ↦ ?_
    · obtain rfl := EngineCall.appendResponseBody.inj h
      exact Nat.not_lt.mp hlong
    · exact within_bind (within_when (within_leave changes_corazaFailClosedResponse)) fun _ ↦
        within_pollFilter changes_denyResponse

private theorem within_countDelayed {bb : Brigade} {len : Nat} :
    Within filterEffect (countDelayed bb len) := by
  refine within_bind (within_filter_modify fun _ ↦ ⟨rfl, rfl⟩) fun _ ↦
    within_bind within_get fun _ ↦ within_when ?_
  exact within_bind (within_filter_modify fun _ ↦ ⟨rfl, rfl⟩) fun _ ↦ within_passBrigade

private theorem within_bodyBucket {bb : Brigade} {sawEos : Bool} {b : Bucket} :
    Within filterEffect (bodyBucket e bb sawEos b) := by
  cases b with
  | eos => exact within_pure _
  | metadata id => exact within_pure _
  | unreadable id => exact within_leave changes_corazaFailClosedResponse
  | data storage bytes =>
    exact within_bind within_get fun s ↦ within_bind (within_when within_countDelayed) fun _ ↦
      within_bind (within_when within_appendChunk) fun _ ↦ within_pure _

private theorem within_finishResponse {bb : Brigade} :
    Within filterEffect (finishResponse e bb) := by
  refine within_bind (within_processOr (fun _ h ↦ (by cases h)) changes_corazaFailClosedResponse)
    fun _ ↦ within_bind (within_pollFilter changes_denyResponse) fun _ ↦ ?_
  refine within_bind (within_filter_modify fun _ ↦ ⟨rfl, rfl⟩) fun _ ↦
    within_bind within_get fun _ ↦ within_bind (within_when ?_) fun _ ↦ within_stepOut
  exact within_bind (within_filter_modify fun _ ↦ ⟨rfl, rfl⟩) fun _ ↦ within_stepOut

private theorem within_holdBrigade {env : OutEnv} {bb : Brigade} :
    Within filterEffect (holdBrigade env bb) := by
  refine within_bind within_get fun _ ↦
    within_bind (within_when (within_leave changes_corazaFailClosedResponse)) fun _ ↦ ?_
  exact within_bind (within_filter_modify fun _ ↦ ⟨rfl, rfl⟩) fun _ ↦
    within_ret fun _ ↦ changes_of_fixed rfl rfl

/-- Phase 4. -/
theorem within_phase4 {env : OutEnv} {bb : Brigade} : Within filterEffect (phase4 e env bb) := by
  refine within_bind (within_foldEach fun _ _ ↦ within_bodyBucket) fun _ ↦ ?_
  refine within_bind (within_when within_finishResponse) fun _ ↦ within_bind within_get fun _ ↦ ?_
  exact within_bind (within_when within_holdBrigade) fun _ ↦ within_passBrigade

end

/-- The filter makes no other changes in any state. -/
theorem changes_corazaOutputFilter (e : Engine) (env : OutEnv) (bb : Brigade) (s : Exchange) :
    Changes (Event.Until (exec (corazaOutputFilter e env bb) s).1) s
      (exec (corazaOutputFilter e env bb) s).2 := by
  have hwithin : Within filterEffect (corazaOutputFilter e env bb) :=
    within_bind within_get fun _ ↦ within_bind (within_when within_stepOut) fun _ ↦
      within_bind (within_when within_phase3) fun _ ↦ within_phase4
  refine exec_of_ends (R := fun st s' ↦ Changes (Event.Until st) s s') ?_
  exact (hwithin s).mono (fun st _ h ↦ h.mono fun _ hev ↦ hev.until st) fun _ _ h ↦ h

/-- A brigade passed down the chain. -/
theorem changes_passOutput (e : Engine) (env : OutEnv) (s : Exchange) (bb : Brigade) :
    Changes Event.Short s (s.passOutput e env bb) := by
  have harrive : Changes Event.Short s (s.arrive bb) :=
    ⟨rfl, [.receive bb], rfl, by simp [Event.Short]⟩
  unfold Exchange.passOutput
  dsimp only
  split
  · have hfilter : Changes Event.Short (s.arrive bb)
        (exec (corazaOutputFilter e env bb) (s.arrive bb)).2 :=
      (changes_corazaOutputFilter e env bb (s.arrive bb)).mono fun _ hev ↦ hev.1
    exact (harrive.trans hfilter).trans (changes_log _ trivial)
  · exact harrive.trans (changes_log _ trivial)

end CorazaApache.Http
