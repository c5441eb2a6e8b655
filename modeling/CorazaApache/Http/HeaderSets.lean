import CorazaApache.Base.Run
import CorazaApache.Http.Packing
import CorazaApache.Http.Refused

/-!
# The header sets the engine works on

A header set is handed over in one packed call, or header by header where the packed call cannot
be made or is rejected. Whichever way it goes, the engine has the whole set, in the order of the
tables and each header once, before it is told to process it; otherwise the request fails
closed and is not processed.
-/

namespace CorazaApache.Http
open CorazaApache.Base CorazaApache.Base.Prog CorazaApache.Config CorazaApache.Apr

/-! ### What the engine has been given -/

/-- The two header sets of a transaction. -/
inductive HeaderSide where
  | request
  | response
  deriving DecidableEq, Repr

namespace HeaderSide

/-- The packed call. -/
def bulk : HeaderSide → List UInt8 → Nat → Nat → EngineCall
  | request => .addRequestHeaders
  | response => .addResponseHeaders

/-- The call for one header. -/
def single : HeaderSide → HeaderPair → EngineCall
  | request => .addRequestHeader
  | response => .addResponseHeader

/-- The call that has the set processed. -/
def processes : HeaderSide → EngineCall → Bool
  | request, .processRequestHeaders => true
  | response, .processResponseHeaders _ _ => true
  | _, _ => false

/-- A call that hands over headers. -/
def submits : HeaderSide → EngineCall → Bool
  | request, .addRequestHeaders _ _ _ => true
  | request, .addRequestHeader _ => true
  | response, .addResponseHeaders _ _ _ => true
  | response, .addResponseHeader _ => true
  | _, _ => false

/-- The headers in a call that hands them over. -/
def carried : HeaderSide → EngineCall → List HeaderPair
  | request, .addRequestHeaders packed len count => (unpackHeaders packed len count).getD []
  | request, .addRequestHeader p => [p]
  | response, .addResponseHeaders packed len count => (unpackHeaders packed len count).getD []
  | response, .addResponseHeader p => [p]
  | _, _ => []

/-- What an event adds to the set: an accepted call what it carries, a rejected one nothing. -/
def added (side : HeaderSide) : Event → List HeaderPair
  | .call c rc => if corazaCallFailed rc then [] else side.carried c
  | _ => []

/-- The set the engine has, in the order it was given. -/
def headers (side : HeaderSide) (evs : List Event) : List HeaderPair := evs.flatMap side.added

/-- The engine is not told to process the set. -/
def Unprocessed (side : HeaderSide) (evs : List Event) : Prop :=
  ∀ c rc, .call c rc ∈ evs → side.processes c = false

/-- No header is handed over, accepted or not. -/
def Unsubmitted (side : HeaderSide) (evs : List Event) : Prop :=
  ∀ c rc, .call c rc ∈ evs → side.submits c = false

/-- Whenever the engine is told to process the set, it has been given exactly `pairs`, before
these events or in them. -/
def GivenBefore (side : HeaderSide) (pairs : List HeaderPair) (past evs : List Event) : Prop :=
  ∀ pre c rc post, evs = pre ++ .call c rc :: post → side.processes c = true →
    side.headers (past ++ pre) = pairs

/-- The sets of two runs, one after the other. -/
@[simp] theorem headers_append (side : HeaderSide) (evs evs' : List Event) :
    side.headers (evs ++ evs') = side.headers evs ++ side.headers evs' := List.flatMap_append

private theorem headers_accepted {side : HeaderSide} {c : EngineCall} {rc : Int}
    (h : corazaCallFailed rc = false) : side.headers [.call c rc] = side.carried c := by
  rw [headers, List.flatMap_singleton, added, h]
  rfl

private theorem headers_rejected {side : HeaderSide} {c : EngineCall} {rc : Int}
    (h : corazaCallFailed rc = true) : side.headers [.call c rc] = [] := by
  rw [headers, List.flatMap_singleton, added, h]
  rfl

private theorem unprocessed_append {side : HeaderSide} {evs evs' : List Event}
    (h : side.Unprocessed evs)
    (h' : side.Unprocessed evs') : side.Unprocessed (evs ++ evs') := by
  intro c rc hmem
  rcases List.mem_append.mp hmem with hmem | hmem
  · exact h c rc hmem
  · exact h' c rc hmem

private theorem carried_of_not_submits {side : HeaderSide} {c : EngineCall}
    (h : side.submits c = false) :
    side.carried c = [] := by
  cases side <;> cases c <;> first | rfl | cases h

private theorem headers_of_unsubmitted {side : HeaderSide} {evs : List Event}
    (h : side.Unsubmitted evs) : side.headers evs = [] := by
  apply List.flatMap_eq_nil_iff.mpr
  intro ev hev
  cases ev with
  | call c rc =>
    rw [added, carried_of_not_submits (h c rc hev)]
    exact ite_self []
  | _ => rfl

/-- A call that hands headers over does not have them processed. -/
theorem unprocessed_of_submits {side : HeaderSide} {evs : List Event}
    (h : ∀ ev ∈ evs, ∃ c rc, ev = .call c rc ∧ side.submits c = true) : side.Unprocessed evs := by
  intro c rc hmem
  obtain ⟨c', rc', hev, hsubmits⟩ := h _ hmem
  obtain ⟨rfl, rfl⟩ := Event.call.inj hev
  cases side <;> cases c <;> first | rfl | cases hsubmits

/-- The packed call hands headers over. -/
@[simp] theorem submits_bulk (side : HeaderSide) (packed : List UInt8) (len count : Nat) :
    side.submits (side.bulk packed len count) = true := by
  cases side <;> rfl

/-- So does the call for one header. -/
@[simp] theorem submits_single (side : HeaderSide) (p : HeaderPair) :
    side.submits (side.single p) = true := by
  cases side <;> rfl

/-- The packed call carries what its buffer reads back as. -/
@[simp] theorem carried_bulk (side : HeaderSide) (packed : List UInt8) (len count : Nat) :
    side.carried (side.bulk packed len count) = (unpackHeaders packed len count).getD [] := by
  cases side <;> rfl

/-- The call for one header carries it. -/
@[simp] theorem carried_single (side : HeaderSide) (p : HeaderPair) :
    side.carried (side.single p) = [p] := by
  cases side <;> rfl

end HeaderSide

/-! ### Header submission -/

section

variable {e : Engine} {y : Exchange} {ρ : Type}

/-- Whichever way the packed call goes, submission falls through with the whole set accepted,
in order and each header once; on its way it makes no calls but those that hand headers over. -/
theorem ends_submitHeaders_whole (side : HeaderSide) {fail : Hook ρ Unit}
    {pairs : List HeaderPair} {Q : Unit → Exchange → Prop} {E : ρ → Exchange → Prop}
    (hfail : ∀ new, (∀ ev ∈ new, ∃ c rc, ev = .call c rc ∧ side.submits c = true) →
      Ends fail (y.after new) (fun _ _ ↦ False) E)
    (h : ∀ new, (∀ ev ∈ new, ∃ c rc, ev = .call c rc ∧ side.submits c = true) →
      side.headers new = pairs → Q () (y.after new)) :
    Ends (submitHeaders e side.bulk side.single fail pairs) y Q E := by
  have hsubmits (p : HeaderPair) (rc : Int) :
      ∃ c rc', Event.call (side.single p) rc = .call c rc' ∧ side.submits c = true :=
    ⟨_, rc, rfl, side.submits_single p⟩
  -- What was handled one by one has been given, and nothing else.
  have hone {handled : List HeaderPair} {new : List Event}
      (hnew : OneByOne side.bulk side.single pairs handled new) :
      (∀ ev ∈ new, ∃ c rc, ev = .call c rc ∧ side.submits c = true) ∧
        side.headers new = handled := by
    obtain ⟨before, hbefore, rfl⟩ := hnew
    have hsingles : side.headers (handled.map fun p ↦ .call (side.single p) 0) = handled := by
      rw [HeaderSide.headers, List.flatMap_map]
      simp [HeaderSide.added, corazaCallFailed]
    rw [HeaderSide.headers_append, hsingles]
    have hmap : ∀ ev ∈ handled.map fun p ↦ Event.call (side.single p) 0,
        ∃ c rc, ev = .call c rc ∧ side.submits c = true := by
      intro ev hev
      obtain ⟨p, -, rfl⟩ := List.mem_map.mp hev
      exact hsubmits p 0
    rcases hbefore with rfl | ⟨packed, len, rc, hrc, rfl⟩
    · exact ⟨hmap, rfl⟩
    · rw [HeaderSide.headers_rejected (decide_eq_true hrc)]
      refine ⟨List.forall_mem_append.mpr ⟨?_, hmap⟩, rfl⟩
      exact List.forall_mem_singleton.mpr ⟨_, rc, rfl, side.submits_bulk _ _ _⟩
  refine ends_submitHeaders_cases (fun hnil ↦ ?_) (fun packed len hpack ↦ ?_)
    (fun handled p new _ hnew _ ↦ hfail new (hone hnew).1)
    (fun handled p new rc _ hnew _ ↦ ?_) fun new hnew ↦ h new (hone hnew).1 (hone hnew).2
  · have hdone := h [] (by simp) hnil.symm
    rwa [Exchange.after_nil] at hdone
  · obtain ⟨-, -, hread⟩ := unpackHeaders_corazaPackHeaders hpack
    refine h [_] (List.forall_mem_singleton.mpr ⟨_, 0, rfl, side.submits_bulk _ _ _⟩) ?_
    rw [HeaderSide.headers_accepted rfl, HeaderSide.carried_bulk, hread]
    rfl
  · rw [Exchange.log_after]
    refine hfail _ (List.forall_mem_append.mpr ⟨(hone hnew).1, ?_⟩)
    exact List.forall_mem_singleton.mpr (hsubmits p rc)

/-! ### The request headers -/

/-- The engine was told to process the set when it had been given `pairs`. -/
def HeaderSide.Processed (side : HeaderSide) (pairs : List HeaderPair) (evs : List Event) : Prop :=
  ∃ pre c rc post, evs = pre ++ .call c rc :: post ∧ side.processes c = true ∧
    side.headers pre = pairs

private theorem HeaderSide.Processed.append {side : HeaderSide} {pairs : List HeaderPair}
    {evs : List Event} (h : side.Processed pairs evs) (new : List Event) :
    side.Processed pairs (evs ++ new) := by
  obtain ⟨pre, c, rc, post, rfl, hc, hpre⟩ := h
  exact ⟨pre, c, rc, post ++ new, by simp, hc, hpre⟩

/-- What follows makes no difference. -/
theorem processed_of_changes {side : HeaderSide} {pairs : List HeaderPair} {base : List Event}
    {P : Event → Prop} {y' : Exchange}
    (h : ∃ evs, y.trace = base ++ evs ∧ side.Processed pairs evs) (hc : Changes P y y') :
    ∃ evs, y'.trace = base ++ evs ∧ side.Processed pairs evs := by
  obtain ⟨evs, htrace, hdone⟩ := h
  obtain ⟨new, hnew, -⟩ := hc.events
  exact ⟨evs ++ new, by rw [hnew, htrace, List.append_assoc], hdone.append new⟩

/-- Nothing is done about the request headers. -/
def Event.BeforeHeaders (ev : Event) : Prop :=
  ∀ c rc, ev = .call c rc →
    HeaderSide.request.submits c = false ∧ HeaderSide.request.processes c = false

/-- The effect of the hook before it comes to the headers: where it returns, it blocks. -/
def beforeHeadersEffect : Effect Exchange Int where
  next s s' := Changes Event.BeforeHeaders s s'
  ret _ s s' := Changes Event.BeforeHeaders s s' ∧ s'.ctx.interventionTriggered = true
  refl _ := changes_of_fixed rfl rfl
  trans h h' := h.trans h'
  comp h h' := ⟨h.trans h'.1, h'.2⟩

private theorem beforeHeaders_call {c : EngineCall} (hs : HeaderSide.request.submits c = false)
    (hp : HeaderSide.request.processes c = false) (rc : Int) :
    (Event.call c rc).BeforeHeaders := by
  intro c' rc' hev
  obtain ⟨rfl, rfl⟩ := Event.call.inj hev
  exact ⟨hs, hp⟩

private theorem within_before_checkProcess {c : EngineCall}
    (hs : HeaderSide.request.submits c = false)
    (hp : HeaderSide.request.processes c = false) :
    Within beforeHeadersEffect (checkProcess e c) := by
  refine within_bind (fun s ↦ changes_log s (beforeHeaders_call hs hp _)) fun _ ↦
    within_when fun s ↦ ?_
  exact ⟨changes_of_fixed rfl rfl, rfl⟩

private theorem within_before_pollHook : Within beforeHeadersEffect (pollHook e) := by
  intro s
  refine (changes_pollHook e s ?_ ?_).mono (fun _ _ h ↦ h.1) fun _ _ h ↦ ⟨h.1.1, h.2⟩
  · intro i c rc hev
    cases hev
  · rintro c rc (⟨status, rfl⟩ | rfl)
    · exact beforeHeaders_call rfl rfl rc
    · exact beforeHeaders_call rfl rfl rc

/-- How the hook leaves the request headers, its events counted from `base`: processed as a
whole; or it blocks, before it comes to them or because it could not hand them over. -/
def RequestHeadersLeft (base : List Event) (pairs : List HeaderPair) (v : Int)
    (y : Exchange) : Prop :=
  ∃ evs, y.trace = base ++ evs ∧ (HeaderSide.request.Processed pairs evs ∨
    HeaderSide.request.Unprocessed evs ∧ y.ctx.interventionTriggered = true ∧
      (HeaderSide.request.Unsubmitted evs ∨ v = httpInternalServerError))

/-- Phase 1 falls through with the headers processed. -/
theorem ends_phase1_headers (s : Exchange) :
    Ends (phase1 e) s
      (fun _ y ↦ ∃ evs, y.trace = s.trace ++ evs ∧
        HeaderSide.request.Processed (collectPairs s.r.headersIn) evs)
      (RequestHeadersLeft s.trace (collectPairs s.r.headersIn)) := by
  have hblocked (v : Int) (y : Exchange) (h : beforeHeadersEffect.ret v s y) :
      RequestHeadersLeft s.trace (collectPairs s.r.headersIn) v y := by
    obtain ⟨evs, htrace, hevs⟩ := h.1.events
    exact ⟨evs, htrace, Or.inr ⟨fun c rc hmem ↦ (hevs _ hmem c rc rfl).2, h.2,
      Or.inl fun c rc hmem ↦ (hevs _ hmem c rc rfl).1⟩⟩
  rw [phase1, ends_bind, ends_get, ends_bind]
  refine (within_before_checkProcess rfl rfl).ends (beforeHeadersEffect.refl s) (fun _ y₁ h₁ ↦ ?_)
    hblocked
  rw [ends_bind]
  refine within_before_pollHook.ends h₁ (fun _ y₂ h₂ ↦ ?_) hblocked
  rw [ends_bind]
  refine (within_before_checkProcess rfl rfl).ends h₂ (fun _ y₃ h₃ ↦ ?_) hblocked
  rw [ends_bind]
  refine within_before_pollHook.ends h₃ (fun _ y₄ h₄ ↦ ?_) hblocked
  obtain ⟨before, hbefore, hleave⟩ := h₄.events
  have hunprocessed : HeaderSide.request.Unprocessed before :=
    fun c rc hmem ↦ (hleave _ hmem c rc rfl).2
  have hnone : HeaderSide.request.headers before = [] :=
    HeaderSide.headers_of_unsubmitted fun c rc hmem ↦ (hleave _ hmem c rc rfl).1
  rw [ends_bind]
  refine ends_submitHeaders_whole .request (fun new hnew ↦ ?_) fun new hnew hgiven ↦ ?_
  · refine ⟨before ++ new, ?_, Or.inr ⟨?_, rfl, Or.inr rfl⟩⟩
    · show y₄.trace ++ new = _
      rw [hbefore, List.append_assoc]
    · exact HeaderSide.unprocessed_append hunprocessed (HeaderSide.unprocessed_of_submits hnew)
  · have hprocessed (rc : Int) : ∃ evs, ((y₄.after new).log
        (.call .processRequestHeaders rc)).trace = s.trace ++ evs ∧
        HeaderSide.request.Processed (collectPairs s.r.headersIn) evs := by
      refine ⟨before ++ new ++ [.call .processRequestHeaders rc], ?_, before ++ new, _, rc, [], rfl,
        rfl, ?_⟩
      · show y₄.trace ++ new ++ _ = _
        rw [hbefore]
        simp
      · rw [HeaderSide.headers_append, hnone, hgiven, List.nil_append]
    simp only [checkProcess, ends_bind, ends_engineCall, ends_when]
    refine ⟨fun _ ↦ ?_, fun _ ↦ ?_⟩
    · obtain ⟨evs, htrace, hdone⟩ := hprocessed _
      exact ⟨evs, htrace, Or.inl hdone⟩
    · refine (within_pollHook _).mono (fun _ y h ↦ processed_of_changes (hprocessed _) h.1)
        fun _ y h ↦ ?_
      obtain ⟨evs, htrace, hdone⟩ := processed_of_changes (hprocessed _) h.1
      exact ⟨evs, htrace, Or.inl hdone⟩

/-- The hook on a request it creates a transaction for. -/
theorem requestHeadersLeft (e : Engine) (lib : WafLib) (save : SaveEnv) (src : BodySource)
    {s : Exchange} (h : s.Creates lib) :
    RequestHeadersLeft s.trace (collectPairs s.r.headersIn)
      (exec (corazaPostReadRequest e lib save src) s).1
      (exec (corazaPostReadRequest e lib save src) s).2 := by
  obtain ⟨⟨hmain, hon, hconfig⟩, hprev, hsome⟩ := h
  obtain ⟨handle, hhandle⟩ := Option.isSome_iff_exists.mp hsome
  obtain ⟨p, hcreated⟩ : ∃ p, createCtx lib s = (.next (), s.created handle p) := by
    cases hcreate : s.process.corazaCreateCtx lib (s.r.perDirConfig.getD 0) s.r.serverConf with
    | mk result p =>
      rw [hcreate] at hhandle
      subst hhandle
      exact ⟨p, by simp only [createCtx, hcreate]; rfl⟩
  apply exec_of_ends (R := RequestHeadersLeft s.trace (collectPairs s.r.headersIn))
  simp only [corazaPostReadRequest, ends_bind, ends_get, ends_when, ends_modify, hmain, hon,
    hconfig, hprev]
  refine ⟨fun hf ↦ (by cases hf), fun _ ↦ ⟨fun hf ↦ (by cases hf), fun _ ↦
    ⟨fun hf ↦ (by cases hf), fun _ ↦ ⟨fun hf ↦ (by cases hf), fun _ ↦ ?_⟩⟩⟩⟩
  rw [Ends, hcreated]
  refine (ends_phase1_headers (s.created handle p)).mono (fun _ y₁ h₁ ↦ ?_) fun _ _ h ↦ h
  have hleft (v : Int) (y₂ : Exchange)
      (h₂ : Changes Event.RequestSide (y₁.updReq fun r ↦ { r with outFilter := true }) y₂) :
      RequestHeadersLeft s.trace (collectPairs s.r.headersIn) v y₂ := by
    obtain ⟨evs, htrace, hdone⟩ :=
      processed_of_changes (y := y₁.updReq fun r ↦ { r with outFilter := true }) h₁ h₂
    exact ⟨evs, htrace, Or.inl hdone⟩
  exact (within_phase2 _).mono (fun _ y₂ h₂ ↦ hleft retDeclined y₂ h₂.1) fun v y₂ h₂ ↦
    hleft v y₂ h₂.1

/-! ### The response headers -/

/-- How an invocation that comes to phase 3 leaves the response headers: processed as a whole,
or it fails closed with an error page. -/
def ResponseHeadersLeft (base : List Event) (pairs : List HeaderPair) (st : FilterStatus)
    (y : Exchange) : Prop :=
  ∃ evs, y.trace = base ++ evs ∧ (HeaderSide.response.Processed pairs evs ∨
    HeaderSide.response.Unprocessed evs ∧ st = .filterError ∧
      .die httpInternalServerError ∈ evs ∧ y.ctx.interventionTriggered = true ∧
      y.r.outFilter = false)

private theorem responseHeadersLeft (e : Engine) (env : OutEnv) (bb : Brigade) {s : Exchange}
    (ht : s.ctx.interventionTriggered = false) (h3 : s.ctx.phase3Done = false) :
    ResponseHeadersLeft s.trace (responsePairs s.r) (exec (corazaOutputFilter e env bb) s).1
      (exec (corazaOutputFilter e env bb) s).2 := by
  apply exec_of_ends (R := ResponseHeadersLeft s.trace (responsePairs s.r))
  rw [corazaOutputFilter, ends_bind, ends_get, ends_bind, ends_when, ht]
  refine ⟨fun hf ↦ (by cases hf), fun _ ↦ ?_⟩
  rw [ends_bind, ends_when, h3]
  refine ⟨fun _ ↦ ?_, fun hf ↦ (by cases hf)⟩
  rw [phase3, ends_bind, ends_modify, ends_bind, ends_get, ends_bind]
  refine ends_submitHeaders_whole .response (fun new hnew ↦ ?_) fun new hnew hgiven ↦ ?_
  · refine ⟨new ++ [.die httpInternalServerError], ?_, Or.inr ⟨?_, rfl, by simp, rfl, rfl⟩⟩
    · show s.trace ++ new ++ _ = _
      rw [List.append_assoc]
    · apply HeaderSide.unprocessed_append (HeaderSide.unprocessed_of_submits hnew)
      intro c rc hmem
      cases List.mem_singleton.mp hmem
  · have hprocessed (c : EngineCall) (rc : Int) (hc : HeaderSide.response.processes c = true) :
        ∃ evs, (((s.updCtx fun c ↦ { c with phase3Done := true }).after new).log
          (.call c rc)).trace = s.trace ++ evs ∧
        HeaderSide.response.Processed (responsePairs s.r) evs := by
      refine ⟨new ++ [.call c rc], ?_, new, c, rc, [], rfl, hc, hgiven⟩
      show s.trace ++ new ++ _ = _
      rw [List.append_assoc]
    have hleft {P : Event → Prop} {z z' : Exchange} (st : FilterStatus)
        (hz : ∃ evs, z.trace = s.trace ++ evs ∧
          HeaderSide.response.Processed (responsePairs s.r) evs) (hc : Changes P z z') :
        ResponseHeadersLeft s.trace (responsePairs s.r) st z' := by
      obtain ⟨evs, htrace, hdone⟩ := processed_of_changes hz hc
      exact ⟨evs, htrace, Or.inl hdone⟩
    rw [ends_bind, processOr, ends_bind, ends_engineCall, ends_when]
    refine ⟨fun _ ↦ ?_, fun _ ↦ ?_⟩
    · exact hleft _ (hprocessed _ _ rfl) (changes_denyHeaders _ _)
    · refine (within_phase3_rest _).mono (fun _ y₁ h₁ ↦ ?_) fun st y₁ h₁ ↦
        hleft st (hprocessed _ _ rfl) h₁
      have hrest := processed_of_changes (hprocessed _ _ rfl) h₁
      exact (within_phase4 y₁).mono (fun st y₂ h₂ ↦ hleft st hrest h₂) fun st y₂ h₂ ↦
        hleft st hrest h₂

end

/-! ### Each set once -/

section

variable {side : HeaderSide} {pairs : List HeaderPair} {past evs base : List Event} {y : Exchange}

/-- The place of the processing call. -/
theorem HeaderSide.place_of_processes {c : EngineCall} (h : side.processes c = true) :
    c.place = some (if side = .request then 3 else 7) ∧ c.runsPhase = true := by
  cases side <;> cases c <;> first | exact ⟨rfl, rfl⟩ | cases h

/-- A set is processed once. -/
theorem HeaderSide.not_processes_again (hrule : Along ProtocolRule evs) {c c' : EngineCall}
    {rc rc' : Int} {pre post : List Event} (hsplit : evs = pre ++ .call c rc :: post)
    (hmem : .call c' rc' ∈ pre) (hc : side.processes c = true) (hc' : side.processes c' = true) :
    False := by
  obtain ⟨hplace, hruns⟩ := side.place_of_processes hc
  have hbefore := (hrule pre _ post hsplit c rc _ rfl hplace).1 c' rc' _ hmem
    (side.place_of_processes hc').1
  rcases hbefore with hlt | ⟨-, hagain⟩
  · exact absurd hlt (Nat.lt_irrefl _)
  · exact absurd (hagain.symm.trans hruns) Bool.false_ne_true

/-- One processing call with the set before it is every such call. -/
theorem HeaderSide.Processed.givenBefore (h : side.Processed pairs evs)
    (hrule : Along ProtocolRule (past ++ evs)) (hnone : side.headers past = []) :
    side.GivenBefore pairs past evs := by
  obtain ⟨pre', c', rc', post', hsplit', hc', hgiven⟩ := h
  intro pre c rc post hsplit hc
  have hfirst {pre more post : List Event} {c c' : EngineCall} {rc rc' : Int}
      (hsplit : evs = pre ++ .call c rc :: more ++ .call c' rc' :: post)
      (hc : side.processes c = true) (hc' : side.processes c' = true) : False := by
    have hwhole : past ++ evs = past ++ (pre ++ .call c rc :: more) ++ .call c' rc' :: post := by
      rw [hsplit, List.append_assoc past]
    have hmem : .call c rc ∈ past ++ (pre ++ .call c rc :: more) := by simp
    exact side.not_processes_again hrule hwhole hmem hc' hc
  have hpre : pre = pre' := by
    rcases List.append_eq_append_iff.mp (hsplit.symm.trans hsplit') with
      ⟨more, rfl, hmore⟩ | ⟨more, rfl, hmore⟩
    · cases more with
      | nil => rw [List.append_nil]
      | cons ev more =>
        obtain ⟨rfl, -⟩ := List.cons.inj hmore
        exact (hfirst hsplit' hc hc').elim
    · cases more with
      | nil => rw [List.append_nil]
      | cons ev more =>
        obtain ⟨rfl, -⟩ := List.cons.inj hmore
        exact (hfirst hsplit hc' hc).elim
  rw [HeaderSide.headers_append, hnone, hpre, hgiven, List.nil_append]

/-- Nothing is processed. -/
theorem HeaderSide.Unprocessed.givenBefore (h : side.Unprocessed evs) :
    side.GivenBefore pairs past evs := by
  intro pre c rc post hsplit hc
  have hmem : .call c rc ∈ evs := by
    rw [hsplit]
    simp
  exact absurd ((h c rc hmem).symm.trans hc) Bool.false_ne_true

end

/-! ### Whole runs -/

/-- What a handler sets of the response before it passes a brigade. -/
structure ResponseTables where
  headersOut : Table
  contentType : Option CString
  errHeadersOut : Table

namespace Exchange

/-- The handler sets up the response. -/
def setTables (s : Exchange) (t : ResponseTables) : Exchange :=
  s.updReq fun r ↦ { r with
    headersOut := t.headersOut
    contentType := t.contentType
    errHeadersOut := t.errHeadersOut }

/-- The handler sets up the response and passes a brigade. -/
def respond (e : Engine) (env : OutEnv) (s : Exchange) (step : ResponseTables × Brigade) :
    Exchange :=
  (s.setTables step.1).passOutput e env step.2

end Exchange

/-- Where the response headers stand: the filter is done with, it has not come to them, or they
have been processed. -/
inductive ResponseHeadersAt (evs : List Event) (y : Exchange) : Prop
  | spent (done : y.Spent)
  | waiting (phase3 : y.ctx.phase3Done = false)
      (unsubmitted : HeaderSide.response.Unsubmitted evs)
  | processed {c : EngineCall} {rc : Int} (mem : .call c rc ∈ evs)
      (process : HeaderSide.response.processes c = true)

section

variable {base evs : List Event} {y : Exchange}

/-- Nothing is done with the brigade. -/
theorem passOutput_spent_headers (e : Engine) (env : OutEnv) (bb : Brigade) (hy : y.Spent)
    {new : List Event} (hnew : (y.passOutput e env bb).trace = y.trace ++ new) :
    (y.passOutput e env bb).Spent ∧ HeaderSide.response.Unprocessed new := by
  obtain ⟨hspent, -, new', hnew', hbypass⟩ := passOutput_spent e env bb hy
  cases List.append_cancel_left (hnew.symm.trans hnew')
  refine ⟨hspent, fun c rc hmem ↦ ?_⟩
  exact (hbypass _ hmem).elim

/-- An invocation that comes to phase 3, with what is recorded of its arrival and return. -/
theorem passOutput_headers (e : Engine) (env : OutEnv) (bb : Brigade)
    (hon : y.r.outFilter = true) (ht : y.ctx.interventionTriggered = false)
    (h3 : y.ctx.phase3Done = false) {new : List Event}
    (hnew : (y.passOutput e env bb).trace = y.trace ++ new) :
    HeaderSide.response.Processed (responsePairs y.r) new ∨
    HeaderSide.response.Unprocessed new ∧ (y.passOutput e env bb).Spent := by
  obtain ⟨inner, htrace, hinner⟩ := responseHeadersLeft (s := y.arrive bb) e env bb ht h3
  obtain ⟨st, rfl⟩ : ∃ st, new = .receive bb :: inner ++ [.returned st] := by
    refine ⟨(exec (corazaOutputFilter e env bb) (y.arrive bb)).1,
      List.append_cancel_left (hnew.symm.trans ?_)⟩
    rw [passOutput_on e env bb hon, Exchange.log_trace, htrace, Exchange.arrive_trace]
    simp
  rcases hinner with ⟨pre, c, rc, post, rfl, hc, hgiven⟩ | ⟨hnot, -, -, htriggered, -⟩
  · exact Or.inl ⟨.receive bb :: pre, c, rc, post ++ [.returned st], by simp, hc, hgiven⟩
  · refine Or.inr ⟨fun c rc hmem ↦ ?_, ?_⟩
    · have hinner : .call c rc ∈ inner := by simpa using hmem
      exact hnot c rc hinner
    · rw [passOutput_on e env bb hon]
      exact Or.inr htriggered

/-- Whatever the handler sets, the engine has the whole set before it processes it. -/
theorem respond_headers (e : Engine) (env : OutEnv) (step : ResponseTables × Brigade)
    (h : Ordered base y evs) (hat : ResponseHeadersAt evs y) :
    ∃ new, (y.respond e env step).trace = y.trace ++ new ∧
      Ordered base (y.respond e env step) (evs ++ new) ∧
      ResponseHeadersAt (evs ++ new) (y.respond e env step) ∧
      HeaderSide.response.GivenBefore (responsePairs (y.setTables step.1).r) evs new := by
  have hset : Ordered base (y.setTables step.1) evs :=
    ⟨h.trace, h.rule, h.unlogged, h.clean, h.filter⟩
  obtain ⟨evs', hnext⟩ := hset.output e env step.2
  obtain ⟨new, hnew, -⟩ := (changes_passOutput e env (y.setTables step.1) step.2).events
  have hevs : base ++ evs' = base ++ (evs ++ new) := by
    rw [← hnext.trace, hnew, ← List.append_assoc, ← h.trace]
    rfl
  cases List.append_cancel_left hevs
  refine ⟨new, hnew, hnext, ?_⟩
  by_cases hspent : (y.setTables step.1).Spent
  · obtain ⟨hy, hnot⟩ := passOutput_spent_headers e env step.2 hspent hnew
    exact ⟨.spent hy, hnot.givenBefore⟩
  · obtain ⟨hoff, ht⟩ := not_or.mp hspent
    cases hat with
    | spent hy => exact absurd hy hspent
    | waiting h3 hnone =>
      rcases passOutput_headers (y := y.setTables step.1) e env step.2 (eq_true_of_ne_false hoff)
        (Bool.eq_false_iff.mpr ht) h3 hnew with hdone | ⟨hnot, hy⟩
      · have hgiven := hdone.givenBefore hnext.rule (HeaderSide.headers_of_unsubmitted hnone)
        obtain ⟨pre, c, rc, post, rfl, hc, -⟩ := hdone
        have hmem : .call c rc ∈ evs ++ (pre ++ .call c rc :: post) := by simp
        exact ⟨.processed hmem hc, hgiven⟩
      · exact ⟨.spent hy, hnot.givenBefore⟩
    | processed hmem hc =>
      refine ⟨.processed (List.mem_append_left _ hmem) hc, fun pre c' rc' post hsplit hc' ↦ ?_⟩
      have hwhole : evs ++ new = evs ++ pre ++ .call c' rc' :: post := by
        rw [hsplit, List.append_assoc]
      exact (HeaderSide.not_processes_again hnext.rule hwhole (List.mem_append_left _ hmem) hc'
        hc).elim

end

/-- The request headers in the run of the hook that creates the transaction. -/
theorem request_headers_given (e : Engine) (lib : WafLib) (save : SaveEnv) (src : BodySource)
    {s : Exchange} (hcreates : s.Creates lib) (ho : s.r.outFilter = false) :
    HeaderSide.request.GivenBefore (collectPairs s.r.headersIn) []
      (newEvents s (exec (corazaPostReadRequest e lib save src) s).2) := by
  have hrun := corazaPostReadRequest_run e lib save src s
  obtain ⟨evs, htrace, hleft⟩ := requestHeadersLeft e lib save src hcreates
  obtain ⟨evs', hordered⟩ := ordered_of_hookRun ho hrun
  cases List.append_cancel_left (htrace.symm.trans hordered.trace)
  rw [newEvents_eq htrace]
  rcases hleft with hdone | ⟨hnot, -⟩
  · exact hdone.givenBefore hordered.rule rfl
  · exact hnot.givenBefore

/-- A hook that creates a transaction runs. -/
theorem HookRun.of_creates {lib : WafLib} {s : Exchange} {v : Int} {y : Exchange}
    (h : HookRun lib s v y) (hcreates : s.Creates lib) :
    ∃ handle p, HookEnds s.trace (s.created handle p) v y ∧
      hookEffect.next (s.created handle p) y := by
  cases h with
  | skipped hidle => exact absurd hcreates.1 hidle
  | reused _ hp => exact absurd (hcreates.2.1.symm.trans hp) Bool.false_ne_true
  | refused _ _ hcreate =>
    have hsome := hcreates.2.2
    rw [hcreate] at hsome
    cases hsome
  | @ran _ _ handle p _ _ _ hends hchanges => exact ⟨handle, p, hends, hchanges⟩

/-- A hook that does not have them processed blocks the request. -/
theorem request_headers_blocked {lib : WafLib} {s : Exchange} {v : Int} {y : Exchange}
    {pairs : List HeaderPair} (hrun : HookRun lib s v y) (hcreates : s.Creates lib)
    (hleft : RequestHeadersLeft s.trace pairs v y)
    (hnot : HeaderSide.request.Unprocessed (newEvents s y)) :
    v = httpInternalServerError ∧ y.ctx.interventionTriggered = true ∨
    HeaderSide.request.Unsubmitted (newEvents s y) ∧ ∃ i, .poll (some i) ∈ newEvents s y := by
  obtain ⟨handle, p, hends, -⟩ := hrun.of_creates hcreates
  obtain ⟨evs, htrace, hleft⟩ := hleft
  rw [newEvents_eq htrace] at hnot ⊢
  rcases hleft with ⟨pre, c, rc, post, rfl, hc, -⟩ | ⟨-, ht, hunsubmitted | hv⟩
  · exact absurd ((hnot c rc (by simp)).symm.trans hc) Bool.false_ne_true
  · cases hends with
    | plain hw => exact absurd (hw.triggered.symm.trans ht) Bool.false_ne_true
    | failed => exact Or.inl ⟨rfl, ht⟩
    | @enforced _ _ evs' i htrace' hi =>
      cases List.append_cancel_left (htrace.symm.trans htrace')
      obtain ⟨pre, rc, logs, -, -, rfl⟩ := hi
      exact Or.inr ⟨hunsubmitted, i, by simp⟩
  · exact Or.inl ⟨hv, ht⟩

/-- The hook leaves the response headers alone. -/
theorem responseHeadersAt_of_hookRun {lib : WafLib} {s : Exchange} {v : Int} {y : Exchange}
    (hrun : HookRun lib s v y) (hcreates : s.Creates lib) {evs : List Event}
    (htrace : y.trace = s.trace ++ evs) : ResponseHeadersAt evs y := by
  obtain ⟨handle, p, -, hchanges, hside⟩ := hrun.of_creates hcreates
  obtain ⟨evs', htrace', hevs⟩ := hchanges.events
  cases List.append_cancel_left (htrace.symm.trans htrace')
  refine .waiting (congrArg (·.phase3Done) hside) fun c rc hmem ↦ ?_
  have hrequest : c.ofResponse = false := hevs _ hmem
  cases c <;> first | rfl | cases hrequest

/-- A header set reaches the engine as a whole. When the hook has the request headers
processed, the engine has been given exactly the header set of the table; otherwise the hook has
failed closed, or an intervention ended it before any header. In every run on the `request_rec`,
whatever the handler sets, the same holds of the header set of the response; and an invocation
that comes to it without having it processed fails closed. -/
theorem header_sets_whole (e : Engine) (lib : WafLib) (save : SaveEnv) (src : BodySource)
    (env : OutEnv) (s : Exchange) (hcreates : s.Creates lib) (ho : s.r.outFilter = false) :
    (∃ pairs, HeaderSet s.r.headersIn pairs ∧ HeaderSide.request.GivenBefore pairs []
      (newEvents s (exec (corazaPostReadRequest e lib save src) s).2)) ∧
    (HeaderSide.request.Unprocessed
        (newEvents s (exec (corazaPostReadRequest e lib save src) s).2) →
      (exec (corazaPostReadRequest e lib save src) s).1 = httpInternalServerError ∧
        (exec (corazaPostReadRequest e lib save src) s).2.ctx.interventionTriggered = true ∨
      HeaderSide.request.Unsubmitted
          (newEvents s (exec (corazaPostReadRequest e lib save src) s).2) ∧
        ∃ i, .poll (some i) ∈ newEvents s (exec (corazaPostReadRequest e lib save src) s).2) ∧
    (∀ steps, ∀ v ∈ visits (Exchange.respond e env)
        (exec (corazaPostReadRequest e lib save src) s).2 steps,
      ∃ pairs, ResponseHeaderSet (v.1.setTables v.2.1).r pairs ∧
        HeaderSide.response.GivenBefore pairs (newEvents s v.1)
          (newEvents v.1 (v.1.respond e env v.2))) ∧
    ∀ (x : Exchange) bb, x.r.requestConfig = true → x.ctx.interventionTriggered = false →
      x.ctx.phase3Done = false →
      (∃ pairs, ResponseHeaderSet x.r pairs ∧ HeaderSide.response.GivenBefore pairs []
        (newEvents x (exec (corazaOutputFilter e env bb) x).2)) ∧
      (HeaderSide.response.Unprocessed (newEvents x (exec (corazaOutputFilter e env bb) x).2) →
        (exec (corazaOutputFilter e env bb) x).1 = .filterError ∧
          .die httpInternalServerError ∈ newEvents x (exec (corazaOutputFilter e env bb) x).2 ∧
          (exec (corazaOutputFilter e env bb) x).2.ctx.interventionTriggered = true ∧
          (exec (corazaOutputFilter e env bb) x).2.r.outFilter = false) := by
  have hrun := corazaPostReadRequest_run e lib save src s
  refine ⟨⟨_, headerSet_iff.mpr rfl, request_headers_given e lib save src hcreates ho⟩,
    request_headers_blocked hrun hcreates (requestHeadersLeft e lib save src hcreates),
    fun steps v hv ↦ ?_, fun x bb hc ht h3 ↦ ?_⟩
  · have hstart : ∃ evs, Ordered s.trace (exec (corazaPostReadRequest e lib save src) s).2 evs ∧
        ResponseHeadersAt evs (exec (corazaPostReadRequest e lib save src) s).2 := by
      obtain ⟨evs, hordered⟩ := ordered_of_hookRun ho hrun
      exact ⟨evs, hordered, responseHeadersAt_of_hookRun hrun hcreates hordered.trace⟩
    have hstep (y : Exchange) (step : ResponseTables × Brigade)
        (hy : ∃ evs, Ordered s.trace y evs ∧ ResponseHeadersAt evs y) (_ : True) :
        ∃ evs, Ordered s.trace (y.respond e env step) evs ∧
          ResponseHeadersAt evs (y.respond e env step) := by
      obtain ⟨evs, hordered, hat⟩ := hy
      obtain ⟨new, -, hnext, hat', -⟩ := respond_headers e env step hordered hat
      exact ⟨_, hnext, hat'⟩
    obtain ⟨evs, hordered, hat⟩ := (visits_invariant hstep hstart fun _ _ ↦ trivial).2 v hv
    obtain ⟨new, hnew, -, -, hgiven⟩ := respond_headers e env v.2 hordered hat
    rw [newEvents_eq hordered.trace, newEvents_eq hnew]
    exact ⟨_, responseHeaderSet_iff.mpr rfl, hgiven⟩
  · obtain ⟨evs, htrace, hleft⟩ := responseHeadersLeft e env bb ht h3
    obtain ⟨evs', hordered⟩ :=
      ordered_of_filterEnds (corazaOutputFilter_ends e env bb (walk_start hc ht))
    cases List.append_cancel_left (htrace.symm.trans hordered.trace)
    rw [newEvents_eq htrace]
    have hset : ResponseHeaderSet x.r (responsePairs x.r) := responseHeaderSet_iff.mpr rfl
    rcases hleft with hdone | ⟨hnot, hclosed⟩
    · refine ⟨⟨_, hset, hdone.givenBefore hordered.rule rfl⟩, fun hnot ↦ ?_⟩
      obtain ⟨pre, c, rc, post, rfl, hc, -⟩ := hdone
      exact absurd ((hnot c rc (by simp)).symm.trans hc) Bool.false_ne_true
    · exact ⟨⟨_, hset, hnot.givenBefore⟩, fun _ ↦ hclosed⟩

/-- An engine that rejects every packed call and accepts the rest. -/
def rejectingEngine : Engine where
  ret past
    | .addRequestHeaders _ _ _ => 1
    | .addResponseHeaders _ _ _ => 1
    | c => quietEngine.ret past c
  intervention _ := none

/-- A response with an entry without a key, one without a value, a content type, and a header
that is kept on errors. -/
def mixedResponse : ResponseTables where
  headersOut := [(some (CString.ofString "A"), some (CString.ofString "1")),
    (none, some (CString.ofString "x")), (some (CString.ofString "B"), none)]
  contentType := some (CString.ofString "text/plain")
  errHeadersOut := [(some (CString.ofString "C"), some (CString.ofString "2"))]

/-- Rejected as a batch, the headers of the request and of the response are given one by one
before they are processed. -/
theorem plainExchange_headers_given :
    plainExchange.Creates acceptingLib ∧ plainExchange.r.outFilter = false ∧
    ∃ y, y = (exec (corazaPostReadRequest rejectingEngine acceptingLib plainSave plainBody)
        plainExchange).2 ∧
      .call .processRequestHeaders 0 ∈ newEvents plainExchange y ∧
      (∃ pairs, HeaderSet plainRequest.headersIn pairs ∧
        HeaderSide.request.GivenBefore pairs [] (newEvents plainExchange y)) ∧
      .call (.processResponseHeaders 200 (CString.ofString "HTTP/1.1")) 0 ∈
        newEvents y (y.respond rejectingEngine plainOut (mixedResponse, [.eos])) ∧
      (∃ pairs, ResponseHeaderSet (y.setTables mixedResponse).r pairs ∧
        HeaderSide.response.GivenBefore pairs (newEvents plainExchange y)
          (newEvents y (y.respond rejectingEngine plainOut (mixedResponse, [.eos])))) ∧
      HeaderSide.response.headers
          (newEvents y (y.respond rejectingEngine plainOut (mixedResponse, [.eos]))) =
        [⟨[0x41], [0x31]⟩, ⟨[0x42], []⟩,
          ⟨(CString.ofString "Content-Type").bytes, (CString.ofString "text/plain").bytes⟩,
          ⟨[0x43], [0x32]⟩] := by
  have hcreates : plainExchange.Creates acceptingLib := by decide +kernel
  obtain ⟨hrequest, -, hresponse, -⟩ := header_sets_whole rejectingEngine acceptingLib plainSave
    plainBody plainOut plainExchange hcreates rfl
  obtain ⟨y, hy⟩ : ∃ y, y = (exec (corazaPostReadRequest rejectingEngine acceptingLib plainSave
      plainBody) plainExchange).2 := ⟨_, rfl⟩
  rw [← hy] at hrequest hresponse
  have hgiven := hresponse [(mixedResponse, [.eos])] (y, mixedResponse, [.eos])
    (by rw [visits_cons]; exact List.mem_cons_self)
  refine ⟨hcreates, rfl, y, hy, ?_, hrequest, ?_, hgiven, ?_⟩
  · rw [hy]
    decide +kernel
  · rw [hy]
    decide +kernel
  · rw [hy]
    decide +kernel

end CorazaApache.Http
