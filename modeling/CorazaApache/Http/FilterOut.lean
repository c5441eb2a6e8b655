import CorazaApache.Http.Phase1

/-!
# The output filter: phases 3 and 4

`src/mod_coraza_filter_out.c`. The first brigade of a response triggers phase 3. If the engine
wants the body, the response is held back until its end has been inspected, so that a block can
still be answered with an error page; past a cap it is released and the filter steps out.

The guard against a `NULL` context is not modelled: both places that add the filter pass the
context they have just checked.
-/

namespace CorazaApache.Http
open CorazaApache.Base CorazaApache.Base.Prog CorazaApache.Config CorazaApache.Apr

/-- `CORAZA_MAX_DELAYED_BODY`. -/
def maxDelayedBody : Nat := 1024 * 1024

/-- The values of an `apr_size_t` are below this. -/
def sizeModulus : Nat := 2 ^ 64

/-- What httpd and APR answer the filter: whether a brigade can be created, and whether
`ap_save_brigade` can set the buckets of a brigade aside. -/
structure OutEnv where
  brigadeCreateOk : Bool
  saveBrigadeOk : List Event → Brigade → Bool

/-- `coraza_is_sse_response`; `src/mod_coraza_filter_out.c:39–61`. -/
def corazaIsSseResponse (r : Request) : Bool :=
  let sse := (CString.ofString "text/event-stream").bytes
  match r.contentType with
  | none => false
  | some ct =>
    if ct.bytes.length < sse.length ∨ (ct.bytes.take sse.length).map asciiLower ≠ sse then false
    else
      match (ct.bytes.drop sse.length).dropWhile (fun c ↦ c = 0x20 ∨ c = 0x09) with
      | [] => true
      | c :: _ => c = 0x3b

/-- The response headers the client will see; `src/mod_coraza_filter_out.c:197–224`. -/
def responsePairs (r : Request) : List HeaderPair :=
  collectPairs r.headersOut ++
    (match r.contentType with
      | some ct => [⟨(CString.ofString "Content-Type").bytes, ct.bytes⟩]
      | none => []) ++
    collectPairs r.errHeadersOut

namespace Exchange

/-- `ap_remove_output_filter`. -/
def removeOutputFilter (s : Exchange) : Exchange := s.updReq fun r ↦ { r with outFilter := false }

/-- `coraza_die`; `src/mod_coraza_filter_out.c:72–77`. -/
def corazaDie (status : Int) (s : Exchange) : Exchange :=
  (s.updReq fun r ↦ { r with status := httpOk }).log (.die status)

/-- `ctx->headers_delayed = 0; apr_brigade_cleanup(ctx->pending_brigade);`. -/
def discardPending (s : Exchange) : Exchange :=
  s.updCtx fun c ↦
    { c with headersDelayed := false, pendingBrigade := c.pendingBrigade.map fun _ ↦ [] }

/-- `ctx->intervention_triggered = 1; ap_remove_output_filter(f); apr_brigade_cleanup(bb);`,
common to all refusals. -/
def refuse (s : Exchange) : Exchange :=
  { (s.updCtx fun c ↦ { c with interventionTriggered := true }).removeOutputFilter with
    brigade := [] }

/-- `coraza_fail_closed_response`; `src/mod_coraza_filter_out.c:85–103`. -/
def corazaFailClosedResponse (s : Exchange) : FilterStatus × Exchange :=
  let s := s.refuse.updReq fun r ↦ { r with status := httpInternalServerError }
  if s.ctx.headersDelayed then
    (.filterError, s.discardPending.corazaDie httpInternalServerError)
  else (.eGeneral, s)

/-- `coraza_fail_closed_headers`; `src/mod_coraza_filter_out.c:109–118`. -/
def corazaFailClosedHeaders (s : Exchange) : FilterStatus × Exchange :=
  (.filterError, s.refuse.corazaDie httpInternalServerError)

/-- `coraza_drop_response`; `src/mod_coraza_filter_out.c:131–144`. -/
def corazaDropResponse (s : Exchange) : FilterStatus × Exchange :=
  let s := s.refuse
  let s := if s.ctx.headersDelayed then s.discardPending else s
  (.eConnAborted, s.corazaDropConnection)

/-- A deny before anything was sent; `src/mod_coraza_filter_out.c:292–296,331–335`. -/
def denyHeaders (status : Int) (s : Exchange) : FilterStatus × Exchange :=
  (.filterError, s.refuse.corazaDie status)

/-- A deny on the body; `src/mod_coraza_filter_out.c:453–466,482–494`. -/
def denyResponse (status : Int) (s : Exchange) : FilterStatus × Exchange :=
  let s := s.refuse
  if s.ctx.headersDelayed then (.filterError, s.discardPending.corazaDie status)
  else (.eGeneral, s.updReq fun r ↦ { r with status := status })

end Exchange

/-- Return what a state function answers. -/
def leave {α : Type} (f : Exchange → FilterStatus × Exchange) : Hook FilterStatus α := fun s ↦
  (.ret (f s).1, (f s).2)

/-- `return ap_pass_brigade(f->next, bb);`. -/
def passBrigade {α : Type} (bb : Brigade) : Hook FilterStatus α :=
  leave fun s ↦ (.passed, s.log (.pass bb))

/-- `ap_remove_output_filter(f); return ap_pass_brigade(f->next, bb);`. -/
def stepOut {α : Type} (bb : Brigade) : Hook FilterStatus α := do
  modify Exchange.removeOutputFilter
  passBrigade bb

/-- A `coraza_process_*` call of the filter with its check and its fail-closed exit. -/
def processOr (e : Engine) (c : EngineCall) (exit : Exchange → FilterStatus × Exchange) :
    Hook FilterStatus Unit := do
  let rc ← engineCall e c
  when (corazaProcessFailed rc) (leave exit)

/-- The poll of the filter: an intervention drops the connection or denies; `mark` is what the
caller sets on the context first. -/
def pollFilter (e : Engine) (mark : CorazaRequestCtx → CorazaRequestCtx)
    (deny : Int → Exchange → FilterStatus × Exchange) : Hook FilterStatus Unit := fun s ↦
  let (ret, s) := s.corazaProcessIntervention e false
  if 0 < ret then
    let s := s.updCtx mark
    leave (if s.ctx.dropConnection then Exchange.corazaDropResponse else deny ret) s
  else (.next (), s)

/-- Whether the engine wants the body; the second predicate is asked only if the first holds.
`src/mod_coraza_filter_out.c:282–284`. -/
def askProcessable (e : Engine) : Hook FilterStatus Bool := do
  let access ← engineCall e .isResponseBodyAccessible
  if access ≠ 0 then
    let processable ← engineCall e .isResponseBodyProcessable
    pure (processable ≠ 0)
  else pure false

/-- Phase 4 of a response whose body is not inspected; `src/mod_coraza_filter_out.c:318–340`. -/
def finishUninspected (e : Engine) (bb : Brigade) : Hook FilterStatus Unit := do
  processOr e .processResponseBody Exchange.corazaFailClosedHeaders
  modify fun s ↦ s.updCtx fun c ↦ { c with phase4Done := true }
  pollFilter e id Exchange.denyHeaders
  stepOut bb

/-- Whether the header delay is skipped; `src/mod_coraza_filter_out.c:361`. -/
def skipsDelay (r : Request) : Bool := r.headerOnly ∨ r.main ∨ 400 ≤ r.status

/-- Begin the header delay; `src/mod_coraza_filter_out.c:361–369`. -/
def beginDelay (env : OutEnv) : Hook FilterStatus Unit := do
  let s ← get
  when (!skipsDelay s.r && env.brigadeCreateOk) do
    modify fun s ↦ (s.updCtx fun c ↦
      { c with pendingBrigade := some [], headersDelayed := true }).log .delay

/-- Phase 3; `src/mod_coraza_filter_out.c:169–370`. -/
def phase3 (e : Engine) (env : OutEnv) (bb : Brigade) : Hook FilterStatus Unit := do
  modify fun s ↦ s.updCtx fun c ↦ { c with phase3Done := true }
  let s ← get
  submitHeaders e .addResponseHeaders .addResponseHeader
    (leave Exchange.corazaFailClosedHeaders) (responsePairs s.r)
  processOr e (.processResponseHeaders s.r.status
    (s.r.protocol.getD (CString.ofString "HTTP/1.1"))) Exchange.corazaFailClosedHeaders
  let processable ← askProcessable e
  modify fun s ↦ s.updCtx fun c ↦ { c with responseBodyProcessable := processable }
  pollFilter e id Exchange.denyHeaders
  when (!processable) (finishUninspected e bb)
  when (corazaIsSseResponse s.r) (stepOut bb)
  beginDelay env

/-- Count a chunk against the cap while the headers are delayed; past it release everything and
step out. `src/mod_coraza_filter_out.c:411–428`. -/
def countDelayed (bb : Brigade) (len : Nat) : Hook FilterStatus Unit := do
  modify fun s ↦ s.updCtx fun c ↦ { c with pendingLen := (c.pendingLen + len) % sizeModulus }
  let s ← get
  when (maxDelayedBody < s.ctx.pendingLen) do
    modify fun s ↦ (s.updCtx fun c ↦
      { c with headersDelayed := false, pendingBrigade := none }).removeOutputFilter
    passBrigade (s.ctx.pendingBrigade.getD [] ++ bb)

/-- Hand a chunk of the body to the engine; `src/mod_coraza_filter_out.c:430–467`. -/
def appendChunk (e : Engine) (bytes : List UInt8) : Hook FilterStatus Unit := do
  when (intMax < bytes.length) (leave Exchange.corazaFailClosedResponse)
  let rc ← engineCall e (.appendResponseBody bytes)
  when (corazaCallFailed rc) (leave Exchange.corazaFailClosedResponse)
  pollFilter e id Exchange.denyResponse

/-- One round of the body loop; the local variable is `has_eos`.
`src/mod_coraza_filter_out.c:373–468`. -/
def bodyBucket (e : Engine) (bb : Brigade) (sawEos : Bool) : Bucket → Hook FilterStatus Bool
  | .eos => pure true
  | .metadata _ => pure sawEos
  | .unreadable _ => leave Exchange.corazaFailClosedResponse
  | .data _ bytes => do
    let s ← get
    when (s.ctx.headersDelayed && 0 < bytes.length) (countDelayed bb bytes.length)
    when (0 < bytes.length && s.ctx.responseBodyProcessable) (appendChunk e bytes)
    pure sawEos

/-- The end of the response; `src/mod_coraza_filter_out.c:470–512`. -/
def finishResponse (e : Engine) (bb : Brigade) : Hook FilterStatus Unit := do
  processOr e .processResponseBody Exchange.corazaFailClosedResponse
  pollFilter e (fun c ↦ { c with phase4Done := true }) Exchange.denyResponse
  modify fun s ↦ s.updCtx fun c ↦ { c with phase4Done := true }
  let s ← get
  when s.ctx.headersDelayed do
    modify fun s ↦ s.updCtx fun c ↦ { c with headersDelayed := false, pendingBrigade := some [] }
    stepOut (s.ctx.pendingBrigade.getD [] ++ bb)
  stepOut bb

/-- Keep the brigade while the headers are delayed; `src/mod_coraza_filter_out.c:515–534`. -/
def holdBrigade (env : OutEnv) (bb : Brigade) : Hook FilterStatus Unit := do
  let s ← get
  when (!env.saveBrigadeOk s.trace bb) (leave Exchange.corazaFailClosedResponse)
  modify fun s ↦ { s with
    ctx := { s.ctx with pendingBrigade := some (s.ctx.pendingBrigade.getD [] ++ bb) }
    brigade := [] }
  Prog.ret .success

/-- Phase 4; `src/mod_coraza_filter_out.c:372–536`. -/
def phase4 (e : Engine) (env : OutEnv) (bb : Brigade) : Hook FilterStatus FilterStatus := do
  let sawEos ← foldEach (bodyBucket e bb) false bb
  when sawEos (finishResponse e bb)
  let s ← get
  when s.ctx.headersDelayed (holdBrigade env bb)
  passBrigade bb

/-- `coraza_output_filter`; `src/mod_coraza_filter_out.c:154–537`. -/
def corazaOutputFilter (e : Engine) (env : OutEnv) (bb : Brigade) :
    Hook FilterStatus FilterStatus := do
  let s ← get
  when s.ctx.interventionTriggered (stepOut bb)
  when (!s.ctx.phase3Done) (phase3 e env bb)
  phase4 e env bb

namespace Exchange

/-- A brigade arrives at the output chain. -/
def arrive (s : Exchange) (bb : Brigade) : Exchange := { s.log (.receive bb) with brigade := bb }

/-- A brigade arrives without a change to the `request_rec`. -/
@[simp] theorem arrive_r (s : Exchange) (bb : Brigade) : (s.arrive bb).r = s.r := rfl

/-- It leaves the context. -/
@[simp] theorem arrive_ctx (s : Exchange) (bb : Brigade) : (s.arrive bb).ctx = s.ctx := rfl

/-- Its arrival is recorded. -/
@[simp] theorem arrive_trace (s : Exchange) (bb : Brigade) :
    (s.arrive bb).trace = s.trace ++ [.receive bb] := rfl

/-- A handler passes a brigade down the output chain: through the filter while it is on it. -/
def passOutput (e : Engine) (env : OutEnv) (s : Exchange) (bb : Brigade) : Exchange :=
  let s := s.arrive bb
  if s.r.outFilter then
    let (st, s) := exec (corazaOutputFilter e env bb) s
    s.log (.returned st)
  else s.log (.direct bb)

/-- A handler passes one brigade after the other. -/
def passOutputs (e : Engine) (env : OutEnv) (s : Exchange) (bbs : List Brigade) : Exchange :=
  bbs.foldl (passOutput e env) s

end Exchange

section

variable {y : Exchange}

/-- On a response that was refused or denied the filter takes itself off. -/
theorem corazaOutputFilter_triggered (e : Engine) (env : OutEnv) (bb : Brigade)
    (ht : y.ctx.interventionTriggered = true) :
    exec (corazaOutputFilter e env bb) y = (.passed, y.removeOutputFilter.log (.pass bb)) := by
  have hends : Ends (corazaOutputFilter e env bb) y
      (fun st z ↦ (st, z) = (.passed, y.removeOutputFilter.log (.pass bb)))
      (fun st z ↦ (st, z) = (.passed, y.removeOutputFilter.log (.pass bb))) := by
    rw [corazaOutputFilter, ends_bind, ends_get, ends_bind, ends_when, ht]
    exact ⟨fun _ ↦ rfl, fun h ↦ (by cases h)⟩
  exact exec_of_ends hends

/-- A brigade that meets no filter. -/
theorem passOutput_off (e : Engine) (env : OutEnv) (bb : Brigade) (hoff : y.r.outFilter = false) :
    y.passOutput e env bb = (y.arrive bb).log (.direct bb) :=
  if_neg (by rw [Exchange.arrive_r, hoff]; exact Bool.false_ne_true)

/-- A brigade that meets the filter. -/
theorem passOutput_on (e : Engine) (env : OutEnv) (bb : Brigade) (hon : y.r.outFilter = true) :
    y.passOutput e env bb = (exec (corazaOutputFilter e env bb) (y.arrive bb)).2.log
      (.returned (exec (corazaOutputFilter e env bb) (y.arrive bb)).1) :=
  if_pos hon

/-- A brigade that meets the filter of such a response. -/
theorem passOutput_triggered (e : Engine) (env : OutEnv) (bb : Brigade)
    (ht : y.ctx.interventionTriggered = true) (hon : y.r.outFilter = true) :
    y.passOutput e env bb = ((y.arrive bb).removeOutputFilter.log (.pass bb)).log
      (.returned .passed) := by
  rw [passOutput_on e env bb hon, corazaOutputFilter_triggered (y := y.arrive bb) e env bb ht]

end

end CorazaApache.Http
