import CorazaApache.Base.Part
import CorazaApache.Http.ProtocolRun
import CorazaApache.Http.Replay

/-!
# A handler that reads and writes

Between the hook and the end of a response a handler reads the request body through the input
filter and passes brigades through the output filter, in any order. The two filters share a
context, but the output filter never looks at the saved body, and the input filter writes
nothing else; only a refusal of the response is seen on the other side.
-/

namespace CorazaApache.Http
open CorazaApache.Base CorazaApache.Base.Prog CorazaApache.Config CorazaApache.Apr

/-- A step of a handler: a read of the request body, or a brigade of the response. -/
inductive HandlerStep where
  | read (rd : Read)
  | write (bb : Brigade)
  deriving DecidableEq

namespace HandlerStep

/-- The step is a brigade. -/
def isWrite : HandlerStep → Bool
  | write _ => true
  | read _ => false

/-- The brigades among the steps. -/
def writes (steps : List HandlerStep) : List Brigade :=
  steps.filterMap fun
    | write bb => some bb
    | read _ => none

/-- The reads among the steps. -/
def reads (steps : List HandlerStep) : List Read :=
  steps.filterMap fun
    | write _ => none
    | read rd => some rd

private theorem filter_isWrite (steps : List HandlerStep) :
    steps.filter isWrite = (writes steps).map write := by
  induction steps with
  | nil => rfl
  | cons step steps ih =>
    cases step with
    | read rd => exact ih
    | write bb => exact congrArg (write bb :: ·) ih

private theorem filter_not_isWrite (steps : List HandlerStep) :
    steps.filter (fun step ↦ !step.isWrite) = (reads steps).map read := by
  induction steps with
  | nil => rfl
  | cons step steps ih =>
    cases step with
    | read rd => exact congrArg (read rd :: ·) ih
    | write bb => exact ih

end HandlerStep

/-- What the input filter works on: the saved body, and whether the filter is on. -/
def replayPart : Part Exchange (Option Brigade × Bool) where
  get s := (s.ctx.savedBody, s.r.inFilter)
  put t s := { s with ctx := { s.ctx with savedBody := t.1 }, r := { s.r with inFilter := t.2 } }
  get_put _ _ := rfl
  put_get _ := rfl
  put_put _ _ _ := rfl

/-! ### The output filter does not see the saved body -/

section

variable {α ρ : Type} {e : Engine} {env : OutEnv}

private theorem blind_engineCall (c : EngineCall) :
    Blind replayPart (engineCall e c : Hook ρ Int) := fun _ _ ↦ rfl

private theorem blind_leave {f : Exchange → FilterStatus × Exchange}
    (h : ∀ t s, f (replayPart.put t s) = ((f s).1, replayPart.put t (f s).2)) :
    Blind replayPart (leave f : Hook FilterStatus α) := by
  intro t s
  unfold leave
  rw [h t s]

private theorem blind_passBrigade {bb : Brigade} :
    Blind replayPart (passBrigade bb : Hook FilterStatus α) := blind_leave fun _ _ ↦ rfl

private theorem blind_stepOut {bb : Brigade} :
    Blind replayPart (stepOut bb : Hook FilterStatus α) :=
  blind_bind (blind_modify fun _ _ ↦ rfl) fun _ ↦ blind_passBrigade

private theorem put_denyHeaders (status : Int) (t : Option Brigade × Bool) (s : Exchange) :
    (replayPart.put t s).denyHeaders status =
      ((s.denyHeaders status).1, replayPart.put t (s.denyHeaders status).2) := rfl

private theorem put_denyResponse (status : Int) (t : Option Brigade × Bool) (s : Exchange) :
    (replayPart.put t s).denyResponse status =
      ((s.denyResponse status).1, replayPart.put t (s.denyResponse status).2) := by
  have hsame : (replayPart.put t s).refuse.ctx.headersDelayed = s.refuse.ctx.headersDelayed := rfl
  unfold Exchange.denyResponse
  dsimp only
  rw [hsame]
  split
  · rfl
  · rfl

private theorem put_corazaFailClosedResponse (t : Option Brigade × Bool) (s : Exchange) :
    (replayPart.put t s).corazaFailClosedResponse =
      (s.corazaFailClosedResponse.1, replayPart.put t s.corazaFailClosedResponse.2) := by
  have hsame : (replayPart.put t s).refuse.ctx.headersDelayed = s.refuse.ctx.headersDelayed := rfl
  unfold Exchange.corazaFailClosedResponse
  cases h : s.refuse.ctx.headersDelayed with
  | true =>
    simp only [Exchange.updReq_ctx, hsame, h, if_true]
    rfl
  | false =>
    simp only [Exchange.updReq_ctx, hsame, h, Bool.false_eq_true, if_false]
    rfl

private theorem put_corazaDropResponse (t : Option Brigade × Bool) (s : Exchange) :
    (replayPart.put t s).corazaDropResponse =
      (s.corazaDropResponse.1, replayPart.put t s.corazaDropResponse.2) := by
  have hsame : (replayPart.put t s).refuse.ctx.headersDelayed = s.refuse.ctx.headersDelayed := rfl
  unfold Exchange.corazaDropResponse
  dsimp only
  rw [hsame]
  split
  · rfl
  · rfl

/-- A poll does not see the saved body. -/
theorem put_corazaProcessIntervention (t : Option Brigade × Bool) (s : Exchange) :
    (replayPart.put t s).corazaProcessIntervention e false =
      ((s.corazaProcessIntervention e false).1,
        replayPart.put t (s.corazaProcessIntervention e false).2) := by
  have hconfig : (replayPart.put t s).r.requestConfig = s.r.requestConfig := rfl
  have htrace : (replayPart.put t s).trace = s.trace := rfl
  unfold Exchange.corazaProcessIntervention
  rw [hconfig, htrace]
  cases s.r.requestConfig with
  | false => rfl
  | true =>
    cases e.intervention s.trace with
    | none => rfl
    | some i =>
      dsimp only
      cases hd : Exchange.isDrop i with
      | true =>
        cases i.data with
        | none => rfl
        | some data => rfl
      | false =>
        cases i.data with
        | none => rfl
        | some data => rfl

private theorem blind_pollFilter {mark : CorazaRequestCtx → CorazaRequestCtx}
    {deny : Int → Exchange → FilterStatus × Exchange}
    (hmark : replayPart.Outside fun s ↦ s.updCtx mark)
    (hdeny : ∀ status t s, deny status (replayPart.put t s) =
      ((deny status s).1, replayPart.put t (deny status s).2)) :
    Blind replayPart (pollFilter e mark deny) := by
  intro t s
  have hpoll := put_corazaProcessIntervention (e := e) t s
  unfold pollFilter
  rw [hpoll]
  cases s.corazaProcessIntervention e false with
  | mk ret s' =>
    dsimp only
    split
    · have hput := hmark t s'
      dsimp only at hput
      have hdrop : ((replayPart.put t s').updCtx mark).ctx.dropConnection =
          (s'.updCtx mark).ctx.dropConnection := by
        rw [hput]
        rfl
      rw [hdrop, hput]
      split
      · exact blind_leave (α := Unit) put_corazaDropResponse t _
      · exact blind_leave (α := Unit) (hdeny ret) t _
    · rfl

private theorem blind_processOr {c : EngineCall} {exit : Exchange → FilterStatus × Exchange}
    (hexit : ∀ t s, exit (replayPart.put t s) = ((exit s).1, replayPart.put t (exit s).2)) :
    Blind replayPart (processOr e c exit) :=
  blind_bind (blind_engineCall c) fun _ ↦ blind_when (blind_leave hexit)

private theorem blind_submitHeaders {bulk : List UInt8 → Nat → Nat → EngineCall}
    {single : HeaderPair → EngineCall} {fail : Hook ρ Unit} (hfail : Blind replayPart fail)
    (pairs : List HeaderPair) : Blind replayPart (submitHeaders e bulk single fail pairs) := by
  refine blind_bind ?_ fun _ ↦ blind_when (blind_forEach fun p ↦ ?_)
  · unfold submitBulk
    split
    · exact blind_pure true
    · split
      · exact blind_pure false
      · exact blind_bind (blind_engineCall _) fun _ ↦ blind_pure _
  · exact blind_bind (blind_when hfail) fun _ ↦
      blind_bind (blind_engineCall _) fun _ ↦ blind_when hfail

private theorem blind_askProcessable : Blind replayPart (askProcessable e) := by
  refine blind_bind (blind_engineCall _) fun access ↦ ?_
  split
  · exact blind_bind (blind_engineCall _) fun _ ↦ blind_pure _
  · exact blind_pure _

private theorem blind_finishUninspected {bb : Brigade} :
    Blind replayPart (finishUninspected e bb) := by
  refine blind_bind (blind_processOr fun _ _ ↦ rfl) fun _ ↦ ?_
  refine blind_bind (blind_modify fun _ _ ↦ rfl) fun _ ↦ ?_
  exact blind_bind (blind_pollFilter (fun _ _ ↦ rfl) put_denyHeaders) fun _ ↦ blind_stepOut

private theorem blind_beginDelay : Blind replayPart (beginDelay env) :=
  blind_get_bind (fun _ _ ↦ rfl) fun _ ↦ blind_when (blind_modify fun _ _ ↦ rfl)

private theorem blind_phase3 {bb : Brigade} : Blind replayPart (phase3 e env bb) := by
  refine blind_bind (blind_modify fun _ _ ↦ rfl) fun _ ↦
    blind_get_bind (fun _ _ ↦ rfl) fun s ↦ ?_
  refine blind_bind (blind_submitHeaders (blind_leave fun _ _ ↦ rfl) _) fun _ ↦ ?_
  refine blind_bind (blind_processOr fun _ _ ↦ rfl) fun _ ↦ ?_
  refine blind_bind blind_askProcessable fun processable ↦ ?_
  refine blind_bind (blind_modify fun _ _ ↦ rfl) fun _ ↦ ?_
  refine blind_bind (blind_pollFilter (fun _ _ ↦ rfl) put_denyHeaders) fun _ ↦ ?_
  refine blind_bind (blind_when blind_finishUninspected) fun _ ↦ ?_
  exact blind_bind (blind_when blind_stepOut) fun _ ↦ blind_beginDelay

private theorem blind_bodyBucket {bb : Brigade} {sawEos : Bool} {b : Bucket} :
    Blind replayPart (bodyBucket e bb sawEos b) := by
  cases b with
  | eos => exact blind_pure _
  | metadata id => exact blind_pure _
  | unreadable id => exact blind_leave put_corazaFailClosedResponse
  | data storage bytes =>
    refine blind_get_bind (fun _ _ ↦ rfl) fun s ↦ blind_bind (blind_when ?_) fun _ ↦
      blind_bind (blind_when ?_) fun _ ↦ blind_pure _
    · refine blind_bind (blind_modify fun _ _ ↦ rfl) fun _ ↦
        blind_get_bind (fun _ _ ↦ rfl) fun _ ↦ blind_when ?_
      exact blind_bind (blind_modify fun _ _ ↦ rfl) fun _ ↦ blind_passBrigade
    · refine blind_bind (blind_when (blind_leave put_corazaFailClosedResponse)) fun _ ↦
        blind_bind (blind_engineCall _) fun _ ↦ ?_
      exact blind_bind (blind_when (blind_leave put_corazaFailClosedResponse)) fun _ ↦
        blind_pollFilter (fun _ _ ↦ rfl) put_denyResponse

private theorem blind_finishResponse {bb : Brigade} : Blind replayPart (finishResponse e bb) := by
  refine blind_bind (blind_processOr put_corazaFailClosedResponse) fun _ ↦ ?_
  refine blind_bind (blind_pollFilter (fun _ _ ↦ rfl) put_denyResponse) fun _ ↦ ?_
  refine blind_bind (blind_modify fun _ _ ↦ rfl) fun _ ↦
    blind_get_bind (fun _ _ ↦ rfl) fun s ↦ ?_
  refine blind_bind (blind_when ?_) fun _ ↦ blind_stepOut
  exact blind_bind (blind_modify fun _ _ ↦ rfl) fun _ ↦ blind_stepOut

private theorem blind_holdBrigade {bb : Brigade} : Blind replayPart (holdBrigade env bb) := by
  refine blind_get_bind (fun _ _ ↦ rfl) fun s ↦
    blind_bind (blind_when (blind_leave put_corazaFailClosedResponse)) fun _ ↦ ?_
  exact blind_bind (blind_modify fun _ _ ↦ rfl) fun _ ↦ blind_ret _

private theorem blind_phase4 {bb : Brigade} : Blind replayPart (phase4 e env bb) := by
  refine blind_bind (blind_foldEach fun _ _ ↦ blind_bodyBucket) fun _ ↦ ?_
  refine blind_bind (blind_when blind_finishResponse) fun _ ↦
    blind_get_bind (fun _ _ ↦ rfl) fun s ↦ ?_
  exact blind_bind (blind_when blind_holdBrigade) fun _ ↦ blind_passBrigade

end

/-- The output filter does not see the saved body. -/
theorem blind_corazaOutputFilter (e : Engine) (env : OutEnv) (bb : Brigade) :
    Blind replayPart (corazaOutputFilter e env bb) := by
  refine blind_get_bind (fun _ _ ↦ rfl) fun s ↦ ?_
  exact blind_bind (blind_when blind_stepOut) fun _ ↦
    blind_bind (blind_when blind_phase3) fun _ ↦ blind_phase4

/-- A brigade passes the chain alike whatever is left of the request body. -/
theorem outside_passOutput (e : Engine) (env : OutEnv) (bb : Brigade) :
    replayPart.Outside fun s ↦ s.passOutput e env bb := by
  intro t s
  dsimp only
  cases hon : s.r.outFilter with
  | false =>
    rw [passOutput_off e env bb hon, passOutput_off e env bb (y := replayPart.put t s) hon]
    rfl
  | true =>
    have hput : (replayPart.put t s).arrive bb = replayPart.put t (s.arrive bb) := rfl
    rw [passOutput_on e env bb hon, passOutput_on e env bb (y := replayPart.put t s) hon, hput,
      (blind_corazaOutputFilter e env bb).exec]
    rfl

/-! ### Reads write nothing else -/

/-- What a read is answered, and what it leaves of the part it works on. -/
abbrev ReadAnswer := ReadStatus × Brigade × (Option Brigade × Bool)

/-- A read is answered from the part alone, and writes nothing else. -/
def FromPart (a : Option Brigade × Bool → ReadAnswer)
    (f : Exchange → ReadStatus × Brigade × Exchange) : Prop :=
  ∀ s, f s = ((a (replayPart.get s)).1, (a (replayPart.get s)).2.1,
    replayPart.put (a (replayPart.get s)).2.2 s)

private theorem fromPart_replaySpeculative (ops : BrigadeOps) (readbytes : Int) (saved : Brigade) :
    ∃ a, FromPart a (Exchange.replaySpeculative ops readbytes saved) := by
  unfold Exchange.replaySpeculative
  split
  · split
    all_goals exact ⟨fun t ↦ (_, _, (some _, t.2)), fun _ ↦ rfl⟩
  · exact ⟨fun t ↦ (_, _, t), fun _ ↦ rfl⟩

private theorem fromPart_corazaReplaySavedBody (ops : BrigadeOps) (rd : Read) (saved : Brigade) :
    ∃ a, FromPart a (Exchange.corazaReplaySavedBody ops rd saved) := by
  unfold Exchange.corazaReplaySavedBody
  split
  · exact ⟨fun _ ↦ (_, _, (none, false)), fun _ ↦ rfl⟩
  · split
    · exact ⟨fun t ↦ (_, _, t), fun _ ↦ rfl⟩
    · split
      · exact ⟨fun t ↦ (_, _, (some _, t.2)), fun _ ↦ rfl⟩
      · split
        · exact fromPart_replaySpeculative ops rd.readbytes saved
        · split
          · exact ⟨fun t ↦ (_, _, (some _, t.2)), fun _ ↦ rfl⟩
          · split
            all_goals exact ⟨fun t ↦ (_, _, (some _, t.2)), fun _ ↦ rfl⟩

/-- The same with the flag that a refusal of the response sets. -/
theorem handlerRead_fromPart (ops : BrigadeOps) (rd : Read) :
    ∃ a : Bool → Option Brigade × Bool → ReadAnswer, ∀ s : Exchange,
      s.handlerRead ops rd =
        ((a s.ctx.interventionTriggered (replayPart.get s)).1,
          (a s.ctx.interventionTriggered (replayPart.get s)).2.1,
          replayPart.put (a s.ctx.interventionTriggered (replayPart.get s)).2.2 s) := by
  choose replay hreplay using fromPart_corazaReplaySavedBody ops rd
  refine ⟨fun triggered t ↦ if t.2 = false then (.below, rd.below, t)
    else t.1.elim (.below, rd.below, (none, false)) fun saved ↦
      if triggered = true then (.below, rd.below, (some saved, false)) else replay saved t,
    fun s ↦ ?_⟩
  have hpart : replayPart.get s = (s.ctx.savedBody, s.r.inFilter) := rfl
  unfold Exchange.handlerRead Exchange.corazaInputFilter
  rw [hpart]
  cases hon : s.r.inFilter with
  | false =>
    have hsame : replayPart.put (s.ctx.savedBody, false) s = s := by
      rw [← hon]
      exact replayPart.put_get s
    refine Prod.ext rfl (Prod.ext rfl ?_)
    exact hsame.symm
  | true =>
    have hput : s.updReq (fun r ↦ { r with inFilter := false }) =
        replayPart.put (s.ctx.savedBody, false) s := rfl
    rw [if_pos rfl, hput]
    cases hsaved : s.ctx.savedBody with
    | none => rfl
    | some saved =>
      cases ht : s.ctx.interventionTriggered with
      | true => rfl
      | false =>
        have hanswer := hreplay saved s
        rw [hpart, hsaved, hon] at hanswer
        exact hanswer

namespace Exchange

/-- A handler does a step. -/
def handlerStep (e : Engine) (env : OutEnv) (ops : BrigadeOps) (s : Exchange) :
    HandlerStep → Exchange
  | .read rd => (s.handlerRead ops rd).2.2
  | .write bb => s.passOutput e env bb

/-- A handler does one step after the other. -/
def handled (e : Engine) (env : OutEnv) (ops : BrigadeOps) (s : Exchange)
    (steps : List HandlerStep) : Exchange :=
  steps.foldl (handlerStep e env ops) s

/-- What a step is answered, if it is a read. -/
def answer (ops : BrigadeOps) (s : Exchange) : HandlerStep → List (Read × ReadStatus × Brigade)
  | .read rd => [(rd, (s.handlerRead ops rd).1, (s.handlerRead ops rd).2.1)]
  | .write _ => []

/-- What the reads among the steps are answered. -/
def answers (e : Engine) (env : OutEnv) (ops : BrigadeOps) (s : Exchange)
    (steps : List HandlerStep) : List (Read × ReadStatus × Brigade) :=
  (visits (handlerStep e env ops) s steps).flatMap fun v ↦ answer ops v.1 v.2

variable {e : Engine} {env : OutEnv} {ops : BrigadeOps} {s : Exchange}

private theorem handled_writes (ops : BrigadeOps) (bbs : List Brigade) :
    s.handled e env ops (bbs.map .write) = s.passOutputs e env bbs := List.foldl_map

private theorem handled_reads (e : Engine) (env : OutEnv) (reads : List Read) :
    s.handled e env ops (reads.map .read) = s.afterReads ops reads := List.foldl_map

/-- Reads leave the flag of a refusal alone. -/
theorem handlerRead_triggered (rd : Read) :
    (s.handlerRead ops rd).2.2.ctx.interventionTriggered = s.ctx.interventionTriggered := by
  obtain ⟨a, ha⟩ := handlerRead_fromPart ops rd
  rw [ha]
  rfl

/-- A refusal is not taken back. -/
theorem handlerStep_triggered (step : HandlerStep) (h : s.ctx.interventionTriggered = true) :
    (s.handlerStep e env ops step).ctx.interventionTriggered = true := by
  cases step with
  | read rd => exact (handlerRead_triggered rd).trans h
  | write bb =>
    obtain ⟨-, hctx, -⟩ := passOutput_spent e env bb (Or.inr h)
    rw [handlerStep, hctx]
    exact h

private theorem handled_triggered (e : Engine) (env : OutEnv) (ops : BrigadeOps)
    (steps : List HandlerStep) (h : s.ctx.interventionTriggered = true) :
    (s.handled e env ops steps).ctx.interventionTriggered = true := by
  induction steps generalizing s with
  | nil => exact h
  | cons step steps ih => exact ih (handlerStep_triggered step h)

/-- Behind a refusal a read goes below. -/
theorem handlerRead_refused (ops : BrigadeOps) (rd : Read)
    (h : s.ctx.interventionTriggered = true) :
    (s.handlerRead ops rd).1 = .below ∧ (s.handlerRead ops rd).2.1 = rd.below := by
  unfold handlerRead corazaInputFilter
  split
  · split
    · rw [h]
      exact ⟨rfl, rfl⟩
    · exact ⟨rfl, rfl⟩
  · exact ⟨rfl, rfl⟩

private theorem answers_refused (steps : List HandlerStep)
    (h : s.ctx.interventionTriggered = true) :
    ∀ x ∈ s.answers e env ops steps, x.2 = (.below, x.1.below) := by
  induction steps generalizing s with
  | nil =>
    intro x hx
    cases hx
  | cons step steps ih =>
    intro x hx
    rw [answers, visits_cons, List.flatMap_cons, List.mem_append] at hx
    rcases hx with hx | hx
    · cases step with
      | read rd =>
        obtain ⟨hst, hbb⟩ := handlerRead_refused ops rd h
        rw [List.mem_singleton.mp hx, hst, hbb]
      | write bb => cases hx
    · exact ih (handlerStep_triggered step h) x hx

private theorem outside_handlerStep {step : HandlerStep} (h : step.isWrite = true) :
    replayPart.Outside fun s ↦ s.handlerStep e env ops step := by
  cases step with
  | read rd => cases h
  | write bb => exact outside_passOutput e env bb

private theorem inside_handlerStep {step : HandlerStep} (h : step.isWrite = false) :
    replayPart.Inside fun s ↦ s.handlerStep e env ops step := by
  cases step with
  | read rd =>
    obtain ⟨a, ha⟩ := handlerRead_fromPart ops rd
    exact Part.inside_of_put fun s ↦ ⟨_, congrArg (·.2.2) (ha s)⟩
  | write bb => cases h

/-- But for the saved body, a run is one of its brigades. -/
theorem handled_eq_put (e : Engine) (env : OutEnv) (ops : BrigadeOps) (s : Exchange)
    (steps : List HandlerStep) : ∃ t, s.handled e env ops steps =
      replayPart.put t (s.passOutputs e env (HandlerStep.writes steps)) := by
  have hout (step : HandlerStep) (h : step.isWrite = true) :
      replayPart.Outside fun s ↦ s.handlerStep e env ops step := outside_handlerStep h
  have hrun := Part.foldl_outer hout (fun _ ↦ inside_handlerStep) steps s
  rw [HandlerStep.filter_isWrite] at hrun
  refine ⟨replayPart.get (s.handled e env ops steps), ?_⟩
  rw [← handled_writes ops, handled, handled, ← hrun, replayPart.put_put,
    replayPart.put_get]

end Exchange

/-- The directions do not mix. Whatever the engine does, and in whatever order a handler reads and
writes: but for the saved body, the exchange is as if it had only written; as long as the response
is not refused, it reads as if it had only read; and behind a refusal no read is answered from the
saved body any more. -/
theorem handler_directions_independent (e : Engine) (env : OutEnv) (ops : BrigadeOps)
    (s : Exchange) (steps : List HandlerStep) :
    (∃ t, s.handled e env ops steps =
      replayPart.put t (s.passOutputs e env (HandlerStep.writes steps))) ∧
    ((s.handled e env ops steps).ctx.interventionTriggered = false →
      replayPart.get (s.handled e env ops steps) =
        replayPart.get (s.afterReads ops (HandlerStep.reads steps)) ∧
      s.answers e env ops steps =
        s.answers e env ops ((HandlerStep.reads steps).map .read)) ∧
    ∀ done rest, steps = done ++ rest →
      (s.handled e env ops done).ctx.interventionTriggered = true →
      ∀ x ∈ (s.handled e env ops done).answers e env ops rest, x.2 = (.below, x.1.below) := by
  refine ⟨Exchange.handled_eq_put e env ops s steps, fun hclear ↦ ?_,
    fun done rest _ ht ↦ Exchange.answers_refused rest ht⟩
  have hout (step : HandlerStep) (h : step.isWrite = true) :
      replayPart.Outside fun s ↦ s.handlerStep e env ops step := Exchange.outside_handlerStep h
  have hflag (s : Exchange) (step : HandlerStep)
      (h : (s.handlerStep e env ops step).ctx.interventionTriggered = false) :
      s.ctx.interventionTriggered = false := by
    by_contra ht
    rw [Exchange.handlerStep_triggered step (Bool.not_eq_false _ ▸ ht)] at h
    cases h
  have hinner (s : Exchange) (step : HandlerStep) (hi : step.isWrite = false)
      (h : s.ctx.interventionTriggered = false) :
      (s.handlerStep e env ops step).ctx.interventionTriggered = false := by
    cases step with
    | read rd => exact (Exchange.handlerRead_triggered rd).trans h
    | write bb => cases hi
  have hsilent (s : Exchange) (step : HandlerStep) (hi : step.isWrite = true) :
      Exchange.answer ops s step = [] := by
    cases step with
    | read rd => cases hi
    | write bb => rfl
  have hpart (s s' : Exchange) (step : HandlerStep) (hi : step.isWrite = false)
      (h : s.ctx.interventionTriggered = false) (h' : s'.ctx.interventionTriggered = false)
      (hsame : replayPart.get s = replayPart.get s') :
      replayPart.get (s.handlerStep e env ops step) =
          replayPart.get (s'.handlerStep e env ops step) ∧
        Exchange.answer ops s step = Exchange.answer ops s' step := by
    cases step with
    | read rd =>
      obtain ⟨a, ha⟩ := handlerRead_fromPart ops rd
      rw [Exchange.handlerStep, Exchange.handlerStep, Exchange.answer, Exchange.answer, ha s,
        ha s', h, h', hsame, replayPart.get_put, replayPart.get_put]
      exact ⟨rfl, rfl⟩
    | write bb => cases hi
  have hstart : s.ctx.interventionTriggered = false := by
    by_contra ht
    rw [Exchange.handled_triggered e env ops steps (Bool.not_eq_false _ ▸ ht)] at hclear
    cases hclear
  have hrun := Part.visits_inner (C := fun s ↦ s.ctx.interventionTriggered = false)
    hout hflag
    hinner hsilent hpart steps s s rfl hstart hclear
  rw [HandlerStep.filter_not_isWrite] at hrun
  rw [← Exchange.handled_reads e env]
  exact hrun

/-! ### What a handler reads -/

/-- What an answered read takes from the saved body. -/
def consumed (x : Read × ReadStatus × Brigade) : List Symbol :=
  if x.1.mode ≠ .speculative ∧ x.2.1 = .success then symbols x.2.2 else []

namespace Exchange

variable {e : Engine} {env : OutEnv} {ops : BrigadeOps} {s : Exchange}

/-- A read that initialises is answered like one of bytes. -/
theorem handlerRead_init {rd : Read} (h : rd.mode = .init) :
    s.handlerRead ops rd = s.handlerRead ops { rd with mode := .readBytes } := by
  simp [handlerRead, corazaInputFilter, corazaReplaySavedBody, h]

/-- A read of the line break before a request goes below and takes nothing. -/
theorem handlerRead_eatCrlf (ops : BrigadeOps) (hs : s.Replaying) {rd : Read}
    (h : rd.mode = .eatCrlf) :
    (s.handlerRead ops rd).1 = .below ∧ (s.handlerRead ops rd).2.2.Replaying ∧
      (s.handlerRead ops rd).2.2.left = s.left := by
  have hclear := hs.clear
  unfold handlerRead corazaInputFilter
  split
  · split
    · next saved hsaved =>
      rw [hclear, Bool.not_false, if_pos rfl]
      unfold corazaReplaySavedBody
      by_cases hempty : saved = []
      · rw [if_pos hempty]
        have hleft : s.left = [] := by
          rw [left, hsaved, hempty]
          rfl
        refine ⟨rfl, ⟨hclear, fun hne ↦ absurd rfl hne, fun _ hn ↦ (by cases hn)⟩, ?_⟩
        rw [hleft]
        rfl
      · rw [if_neg hempty, if_pos h]
        exact ⟨rfl, hs, rfl⟩
    · next hsaved =>
      exact ⟨rfl, ⟨hclear, fun hne ↦ absurd hsaved hne, hs.last⟩, rfl⟩
  · exact ⟨rfl, hs, rfl⟩

/-- Whatever the mode, a read takes from the front of what is left. -/
theorem consumed_read (hops : ops.Documented) (hs : s.Replaying) (rd : Read) :
    (s.handlerRead ops rd).2.2.Replaying ∧
      consumed (rd, (s.handlerRead ops rd).1, (s.handlerRead ops rd).2.1) ++
        (s.handlerRead ops rd).2.2.left = s.left := by
  have hbody (rd : Read) (hm : BodyMode rd.mode) : (s.handlerRead ops rd).2.2.Replaying ∧
      consumed (rd, (s.handlerRead ops rd).1, (s.handlerRead ops rd).2.1) ++
        (s.handlerRead ops rd).2.2.left = s.left := by
    have hstep := readStep hops hs hm
    refine ⟨hstep.replaying, ?_⟩
    by_cases hspec : rd.mode = .speculative
    · rw [consumed, if_neg fun h ↦ h.1 hspec, hstep.peek hspec]
      rfl
    · rw [consumed, ← hstep.consume hspec]
      simp only [hspec, ne_eq, not_false_eq_true, true_and]
  cases hm : rd.mode with
  | readBytes => exact hbody rd (Or.inl hm)
  | exhaustive => exact hbody rd (Or.inr (Or.inl hm))
  | getLine => exact hbody rd (Or.inr (Or.inr (Or.inl hm)))
  | speculative => exact hbody rd (Or.inr (Or.inr (Or.inr hm)))
  | init =>
    have hread := hbody { rd with mode := .readBytes } (Or.inl rfl)
    rw [handlerRead_init hm]
    simpa [consumed, hm] using hread
  | eatCrlf =>
    obtain ⟨hst, hreplaying, hleft⟩ := handlerRead_eatCrlf ops hs hm
    refine ⟨hreplaying, ?_⟩
    rw [consumed, hst, hleft, if_neg fun h ↦ by cases h.2]
    rfl

/-- A brigade takes nothing of the body. -/
theorem passOutput_left (e : Engine) (env : OutEnv) (bb : Brigade) :
    (s.passOutput e env bb).left = s.left := by
  have hget : replayPart.get (s.passOutput e env bb) = replayPart.get s :=
    (outside_passOutput e env bb).get_eq s
  exact congrArg (fun t ↦ symbols (t.1.getD [])) hget

private theorem Replaying.output (hs : s.Replaying) (bb : Brigade)
    (hclear : (s.passOutput e env bb).ctx.interventionTriggered = false) :
    (s.passOutput e env bb).Replaying := by
  have hget : replayPart.get (s.passOutput e env bb) = replayPart.get s :=
    (outside_passOutput e env bb).get_eq s
  obtain ⟨hsaved, hon⟩ := Prod.mk.inj hget
  refine ⟨hclear, fun hne ↦ ?_, fun saved h ↦ ?_⟩
  · rw [hon]
    exact hs.onChain (hsaved ▸ hne)
  · exact hs.last saved (hsaved ▸ h)

/-- Reads take from the front of what is left, in whatever order they come with brigades. -/
theorem consumed_answers (hops : ops.Documented) (hs : s.Replaying) (steps : List HandlerStep) :
    (s.answers e env ops steps).flatMap consumed <+: s.left ∧
      ((s.handled e env ops steps).ctx.interventionTriggered = false →
        (s.answers e env ops steps).flatMap consumed ++ (s.handled e env ops steps).left =
          s.left) := by
  induction steps generalizing s with
  | nil => exact ⟨List.nil_prefix, fun _ ↦ rfl⟩
  | cons step steps ih =>
    cases step with
    | read rd =>
      obtain ⟨hreplaying, htaken⟩ := consumed_read hops hs rd
      have hcons : s.answers e env ops (.read rd :: steps) =
          (rd, (s.handlerRead ops rd).1, (s.handlerRead ops rd).2.1) ::
            (s.handlerRead ops rd).2.2.answers e env ops steps := rfl
      obtain ⟨hfront, hwhole⟩ := ih hreplaying
      rw [hcons, List.flatMap_cons, ← htaken]
      refine ⟨(List.prefix_append_right_inj _).mpr hfront, fun hclear ↦ ?_⟩
      rw [List.append_assoc]
      exact congrArg _ (hwhole hclear)
    | write bb =>
      have hcons : s.answers e env ops (.write bb :: steps) =
          (s.passOutput e env bb).answers e env ops steps := rfl
      rw [hcons, ← passOutput_left e env bb]
      cases ht : (s.passOutput e env bb).ctx.interventionTriggered with
      | false => exact ih (hs.output bb ht)
      | true =>
        have hnone : ((s.passOutput e env bb).answers e env ops steps).flatMap consumed = [] := by
          refine List.flatMap_eq_nil_iff.mpr fun x hx ↦ ?_
          have hbelow := answers_refused steps ht x hx
          rw [consumed, hbelow, if_neg fun h ↦ by cases h.2]
        rw [hnone]
        refine ⟨List.nil_prefix, fun hclear ↦ ?_⟩
        have hkept := handled_triggered e env ops steps ht
        exact absurd (hclear.symm.trans hkept) Bool.false_ne_true

end Exchange

/-- Between the hook and the end of the response, whatever a handler does and in whatever order,
and whatever the engine says to the response: what it takes from the saved body is a front part
of the body the client sent, and as long as the response is not refused the rest is still
there. -/
theorem handler_reads_front_of_body (e : Engine) (lib : WafLib) (save : SaveEnv)
    (src : BodySource) (env : OutEnv) (s : Exchange) (steps : List HandlerStep)
    (hops : save.ops.Documented)
    (hsetup : src.setupClientBlock = retOk ∨ 0 < src.setupClientBlock)
    (hmain : s.r.main = false) (hon : s.enabled = true) (hctx : s.r.requestConfig = false)
    (hprev : corazaCtxFromPrev s.prev = false) (hb : src.shouldClientBlock = true)
    (hret : (exec (corazaPostReadRequest e lib save src) s).1 = retDeclined) :
    let s' := (exec (corazaPostReadRequest e lib save src) s).2
    let taken := (s'.answers e env save.ops steps).flatMap consumed
    taken <+: (bodyBytes src.chunks).map .byte ++ [.eos] ∧
    ((s'.handled e env save.ops steps).ctx.interventionTriggered = false →
      taken ++ (s'.handled e env save.ops steps).left =
        (bodyBytes src.chunks).map .byte ++ [.eos]) := by
  intro s' taken
  obtain ⟨-, -, -, hstate⟩ :=
    admitted_of_declined e lib save src s hops hsetup hmain hon hctx hprev hb hret
  rw [← hstate.left]
  exact Exchange.consumed_answers hops hstate.replaying steps

/-- A handler that writes its response between two reads has read the body of `plainExchange`. -/
theorem handler_reads_front_of_plainBody :
    ((exec (corazaPostReadRequest quietEngine acceptingLib plainSave plainBody)
      plainExchange).2.answers quietEngine plainOut plainSave.ops
        [.read ⟨.readBytes, 2, []⟩, .write [.data .heap [7], .eos],
          .read ⟨.exhaustive, 0, []⟩]).flatMap consumed <+:
    [.byte 1, .byte 2, .byte 3, .eos] :=
  (handler_reads_front_of_body quietEngine acceptingLib plainSave plainBody plainOut plainExchange
    [.read ⟨.readBytes, 2, []⟩, .write [.data .heap [7], .eos], .read ⟨.exhaustive, 0, []⟩]
    documented_listOps (Or.inl rfl) rfl rfl rfl rfl rfl (by decide)).1

end CorazaApache.Http
