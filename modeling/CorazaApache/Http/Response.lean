import CorazaApache.Http.FailClosed
import CorazaApache.Http.FilterOut

/-!
# What the output filter is for

The filter as a machine with five modes. A response is fresh until its first brigade; then it
is held back, streamed under inspection, or let go; and it may be refused at any brigade. An
invocation of the filter is a labelled transition: the label is what is observed of it.
`InMode` says which states of the exchange a mode stands for.
-/

namespace CorazaApache.Http
open CorazaApache.Base CorazaApache.Base.Prog CorazaApache.Config CorazaApache.Apr

/-- How far a response has come. -/
inductive Mode where
  | fresh
  | delaying (held : Brigade)
  | streaming
  | out
  | refused
  deriving DecidableEq

namespace Mode

/-- The filter is still on the chain. -/
def active : Mode → Bool
  | out | refused => false
  | _ => true

/-- What is held back. -/
def held : Mode → Brigade
  | delaying held => held
  | _ => []

/-- The headers are delayed. -/
def delays : Mode → Bool
  | delaying _ => true
  | _ => false

/-- Only the filter holds something back. -/
theorem held_of_off {m : Mode} (h : m.active = false) : m.held = [] := by
  cases m with
  | delaying held => cases h
  | fresh => rfl
  | streaming => rfl
  | out => rfl
  | refused => rfl

/-- Only a delayed response is held back. -/
theorem held_of_not_delays {m : Mode} (h : m.delays = false) : m.held = [] := by
  cases m with
  | delaying held => cases h
  | fresh => rfl
  | streaming => rfl
  | out => rfl
  | refused => rfl

/-- A refused response is over. -/
theorem ne_refused_of_active {m : Mode} (h : m.active = true) : m ≠ .refused := by
  rintro rfl
  cases h

/-- A delayed one is not. -/
theorem active_of_delays {m : Mode} (h : m.delays = true) : m.active = true := by
  cases m with
  | delaying held => rfl
  | fresh => cases h
  | streaming => cases h
  | out => cases h
  | refused => cases h

end Mode

/-- The results with which the filter refuses a response. -/
def FilterStatus.IsError (st : FilterStatus) : Prop :=
  st = .filterError ∨ st = .eGeneral ∨ st = .eConnAborted

/-- The state of the exchange stands for the mode of the response. -/
structure InMode (m : Mode) (s : Exchange) : Prop where
  filter : s.r.outFilter = m.active
  config : m.active = true → s.r.requestConfig = true
  triggered : s.ctx.interventionTriggered = decide (m = .refused)
  phase3 : m ≠ .refused → s.ctx.phase3Done = decide (m ≠ .fresh)
  delayed : s.ctx.headersDelayed = m.delays
  pending : s.ctx.pendingBrigade.getD [] = m.held
  len : m.active = true → s.ctx.pendingLen = (dataBytes m.held).length
  cap : (dataBytes m.held).length ≤ maxDelayedBody
  noEos : hasEos m.held = false
  processable : m.active = true → m ≠ .fresh → s.ctx.responseBodyProcessable = true

/-! ### One invocation -/

/-- What is observed inside an invocation from mode `m` while it has neither passed nor refused
anything. -/
def Event.Inner (m : Mode) : Event → Prop
  | .call _ _ | .poll _ => True
  | .delay => m = .fresh
  | _ => False

/-- A chunk of the body that was inspected and found clean. -/
def inspectedBucket (b : Bucket) : List Event :=
  if b.bytes = [] then [] else [.call (.appendResponseBody b.bytes) 0, .poll none]

/-- The engine was asked whether it wants the body. -/
def Asked (processable : Bool) (evs : List Event) : Prop :=
  (processable = false ∧ evs = [.call .isResponseBodyAccessible 0]) ∨
  ∃ access answer, access ≠ 0 ∧ processable = decide (answer ≠ 0) ∧
    evs = [.call .isResponseBodyAccessible access, .call .isResponseBodyProcessable answer]

/-- The header set of a response: that of `headers_out`, then `Content-Type` if it is set, then
that of `err_headers_out`. -/
def ResponseHeaderSet (r : Request) (pairs : List HeaderPair) : Prop :=
  ∃ out contentType errOut, HeaderSet r.headersOut out ∧ HeaderSet r.errHeadersOut errOut ∧
    (r.contentType = none ∧ contentType = [] ∨
      ∃ ct, r.contentType = some ct ∧
        contentType = [⟨(CString.ofString "Content-Type").bytes, ct.bytes⟩]) ∧
    pairs = out ++ contentType ++ errOut

/-- The loops over the two tables and what stands between them collect it, and a response has no
other. -/
theorem responseHeaderSet_iff {r : Request} {pairs : List HeaderPair} :
    ResponseHeaderSet r pairs ↔ pairs = responsePairs r := by
  constructor
  · rintro ⟨out, contentType, errOut, hout, herr, htype, rfl⟩
    rw [headerSet_iff.mp hout, headerSet_iff.mp herr, responsePairs]
    rcases htype with ⟨hnone, rfl⟩ | ⟨ct, hsome, rfl⟩
    · rw [hnone]
    · rw [hsome]
  · rintro rfl
    refine ⟨_, _, _, headerSet_iff.mpr rfl, headerSet_iff.mpr rfl, ?_, rfl⟩
    cases r.contentType with
    | none => exact Or.inl ⟨rfl, rfl⟩
    | some ct => exact Or.inr ⟨ct, rfl, rfl⟩

/-- The events of phase 3 on a response of `r`: its header set submitted, the headers processed
without failure, the engine asked about the body, and a poll that found nothing. -/
def Phase3Done (r : Request) (processable : Bool) (evs : List Event) : Prop :=
  ∃ headers rc asked,
    (∃ pairs, ResponseHeaderSet r pairs ∧
      Submitted .addResponseHeaders .addResponseHeader pairs headers) ∧ 0 ≤ rc ∧
    Asked processable asked ∧
    evs = headers ++ .call (.processResponseHeaders r.status
      (r.protocol.getD (CString.ofString "HTTP/1.1"))) rc :: (asked ++ [.poll none])

/-- Something the filter cannot inspect or keep, whatever the engine says. -/
def Uninspectable (env : OutEnv) (r : Request) (bb : Brigade) : Prop :=
  (∃ p ∈ responsePairs r, intMax < p.name.length ∨ intMax < p.value.length) ∨
  (∃ b ∈ bb, b.readable = false ∨ intMax < b.bytes.length) ∨
  ∃ past, env.saveBrigadeOk past bb = false

/-- A refused brigade: there is a cause, nothing is passed, and at most one error page is made,
and only if nothing was sent before. -/
structure Refusal (env : OutEnv) (r : Request) (bb : Brigade) (m : Mode) (st : FilterStatus)
    (evs : List Event) : Prop where
  active : m.active = true
  error : st.IsError
  cause : ¬ Clean evs ∨ Uninspectable env r bb
  events : ∃ inner dies, evs = inner ++ dies ∧ (∀ ev ∈ inner, ev.Inner m) ∧
    (dies = [] ∨ ∃ status, dies = [.die status] ∧ st = .filterError ∧ m ≠ .streaming)

/-- Phase 3 of a response whose body is inspected, or nothing if it is behind. -/
inductive Opens (env : OutEnv) (r : Request) : Mode → List Event → Mode → Prop
  | again {m : Mode} (active : m.active = true) (ne : m ≠ .fresh) : Opens env r m [] m
  | delay {evs : List Event} (done : Phase3Done r true evs) (sse : corazaIsSseResponse r = false)
      (skips : skipsDelay r = false) (create : env.brigadeCreateOk = true) :
      Opens env r .fresh (evs ++ [.delay]) (.delaying [])
  | stream {evs : List Event} (done : Phase3Done r true evs) (sse : corazaIsSseResponse r = false)
      (skips : skipsDelay r = true ∨ env.brigadeCreateOk = false) :
      Opens env r .fresh evs .streaming

/-- The body loop on a brigade and what follows it. Everything that is passed on as inspected
was readable. -/
inductive Carries (bb : Brigade) : Mode → List Event → FilterStatus → Mode → Prop
  | flush {held before after : Brigade} {b : Bucket} (split : bb = before ++ b :: after)
      (readable : ∀ b ∈ before, b.readable = true)
      (below : (dataBytes (held ++ before)).length ≤ maxDelayedBody)
      (above : maxDelayedBody < (dataBytes (held ++ before)).length + b.bytes.length) :
      Carries bb (.delaying held) (before.flatMap inspectedBucket ++ [.pass (held ++ bb)])
        .passed .out
  | release {held : Brigade} {rc : Int} (readable : ∀ b ∈ bb, b.readable = true)
      (eos : hasEos bb = true)
      (below : (dataBytes (held ++ bb)).length ≤ maxDelayedBody) (ok : 0 ≤ rc) :
      Carries bb (.delaying held) (bb.flatMap inspectedBucket ++
        [.call .processResponseBody rc, .poll none, .pass (held ++ bb)]) .passed .out
  | hold {held : Brigade} (readable : ∀ b ∈ bb, b.readable = true) (eos : hasEos bb = false)
      (below : (dataBytes (held ++ bb)).length ≤ maxDelayedBody) :
      Carries bb (.delaying held) (bb.flatMap inspectedBucket) .success (.delaying (held ++ bb))
  | finish {rc : Int} (readable : ∀ b ∈ bb, b.readable = true) (eos : hasEos bb = true)
      (ok : 0 ≤ rc) :
      Carries bb .streaming (bb.flatMap inspectedBucket ++
        [.call .processResponseBody rc, .poll none, .pass bb]) .passed .out
  | stream (readable : ∀ b ∈ bb, b.readable = true) (eos : hasEos bb = false) :
      Carries bb .streaming (bb.flatMap inspectedBucket ++ [.pass bb]) .passed .streaming

/-- An invocation of the filter with the brigade `bb` on the `request_rec` `r`. -/
inductive Invoked (env : OutEnv) (r : Request) (bb : Brigade) :
    Mode → List Event → FilterStatus → Mode → Prop
  | refuse {m : Mode} {evs : List Event} {st : FilterStatus}
      (refusal : Refusal env r bb m st evs) : Invoked env r bb m evs st .refused
  | uninspected {evs : List Event} {rc : Int} (done : Phase3Done r false evs) (ok : 0 ≤ rc) :
      Invoked env r bb .fresh
        (evs ++ [.call .processResponseBody rc, .poll none, .pass bb]) .passed .out
  | sse {evs : List Event} (done : Phase3Done r true evs) (sse : corazaIsSseResponse r = true) :
      Invoked env r bb .fresh (evs ++ [.pass bb]) .passed .out
  | carry {m m₁ m₂ : Mode} {evs evs' : List Event} {st : FilterStatus}
      (opened : Opens env r m evs m₁) (carried : Carries bb m₁ evs' st m₂) :
      Invoked env r bb m (evs ++ evs') st m₂

end CorazaApache.Http
