import CorazaApache.Http.HookOrder
import CorazaApache.Http.FilterStep

/-!
# The output filter keeps the protocol

The blocks of `coraza_output_filter`, walked as those of the hook are. An invocation passes or
keeps its brigade, having met nothing it could not inspect, or it leaves through one of its
error paths. All of these leave the same state; they differ in the answer, in the error page
and in what happens to the connection.
-/

namespace CorazaApache.Http
open CorazaApache.Base CorazaApache.Base.Prog CorazaApache.Config CorazaApache.Apr

/-! ### The error paths -/

/-- The state every error path leaves: nothing of the response is kept, and the filter is off. -/
structure Closed (y : Exchange) : Prop where
  brigade : y.brigade = []
  pending : y.ctx.pendingBrigade.getD [] = []
  delayed : y.ctx.headersDelayed = false
  triggered : y.ctx.interventionTriggered = true
  filter : y.r.outFilter = false

/-- An error path with a status: the error page if nothing has been sent, else an error. -/
structure Answers (status : Int) (y : Exchange) (st : FilterStatus) (y' : Exchange) : Prop where
  triggered : y'.ctx.interventionTriggered = true
  filter : y'.r.outFilter = false
  conn : y'.conn = y.conn
  config : y'.r.requestConfig = y.r.requestConfig
  logged : y'.ctx.logged = y.ctx.logged
  answer : (st = .filterError ∧ y'.trace = y.trace ++ [.die status]) ∨
    (st = .eGeneral ∧ y'.trace = y.trace ∧ y'.r.status = status)

/-- An error path that closes the connection. -/
structure Drops (y : Exchange) (st : FilterStatus) (y' : Exchange) : Prop where
  triggered : y'.ctx.interventionTriggered = true
  filter : y'.r.outFilter = false
  conn : y'.conn = { y.conn with keepaliveClose := true, aborted := true }
  config : y'.r.requestConfig = y.r.requestConfig
  logged : y'.ctx.logged = y.ctx.logged
  answer : st = .eConnAborted ∧ y'.trace = y.trace

namespace CorazaRequestCtx

/-- Nothing is pending unless the headers are delayed. -/
def Idle (c : CorazaRequestCtx) : Prop :=
  c.headersDelayed = false → c.pendingBrigade.getD [] = []

/-- The headers are not delayed and nothing is pending. -/
def Unopened (c : CorazaRequestCtx) : Prop :=
  c.headersDelayed = false ∧ c.pendingBrigade.getD [] = []

/-- A context between two invocations of the filter. -/
def Proper (c : CorazaRequestCtx) : Prop := if c.phase3Done then c.Idle else c.Unopened

private theorem Unopened.idle {c : CorazaRequestCtx} (h : c.Unopened) : c.Idle := fun _ ↦ h.2

end CorazaRequestCtx

/-- An exit answers with the status, and closes a context that satisfies `K`. -/
def ExitsWith (K : CorazaRequestCtx → Prop) (status : Int)
    (exit : Exchange → FilterStatus × Exchange) : Prop :=
  ∀ y, Answers status y (exit y).1 (exit y).2 ∧ (K y.ctx → Closed (exit y).2)

private theorem exitsWith_denyHeaders (status : Int) :
    ExitsWith CorazaRequestCtx.Unopened status (Exchange.denyHeaders status) := by
  intro y
  exact ⟨⟨rfl, rfl, rfl, rfl, rfl, Or.inl ⟨rfl, rfl⟩⟩, fun h ↦ ⟨rfl, h.2, h.1, rfl, rfl⟩⟩

private theorem exitsWith_corazaFailClosedHeaders :
    ExitsWith CorazaRequestCtx.Unopened httpInternalServerError
      Exchange.corazaFailClosedHeaders := exitsWith_denyHeaders httpInternalServerError

private theorem exitsWith_denyResponse (status : Int) :
    ExitsWith CorazaRequestCtx.Idle status (Exchange.denyResponse status) := by
  intro y
  unfold Exchange.denyResponse
  dsimp only
  split
  · exact ⟨⟨rfl, rfl, rfl, rfl, rfl, Or.inl ⟨rfl, rfl⟩⟩, fun _ ↦
      ⟨rfl, getD_map_nil _, rfl, rfl, rfl⟩⟩
  · next hd =>
    have hnd : y.ctx.headersDelayed = false := Bool.eq_false_iff.mpr hd
    exact ⟨⟨rfl, rfl, rfl, rfl, rfl, Or.inr ⟨rfl, rfl, rfl⟩⟩, fun h ↦
      ⟨rfl, h hnd, hnd, rfl, rfl⟩⟩

private theorem exitsWith_corazaFailClosedResponse :
    ExitsWith CorazaRequestCtx.Idle httpInternalServerError
      Exchange.corazaFailClosedResponse := by
  intro y
  unfold Exchange.corazaFailClosedResponse
  dsimp only
  split
  · exact ⟨⟨rfl, rfl, rfl, rfl, rfl, Or.inl ⟨rfl, rfl⟩⟩, fun _ ↦
      ⟨rfl, getD_map_nil _, rfl, rfl, rfl⟩⟩
  · next hd =>
    have hnd : y.ctx.headersDelayed = false := Bool.eq_false_iff.mpr hd
    exact ⟨⟨rfl, rfl, rfl, rfl, rfl, Or.inr ⟨rfl, rfl, rfl⟩⟩, fun h ↦
      ⟨rfl, h hnd, hnd, rfl, rfl⟩⟩

private theorem drops_corazaDropResponse (y : Exchange) :
    Drops y y.corazaDropResponse.1 y.corazaDropResponse.2 ∧
      (y.ctx.Idle → Closed y.corazaDropResponse.2) := by
  unfold Exchange.corazaDropResponse
  dsimp only
  split
  · exact ⟨⟨rfl, rfl, rfl, rfl, rfl, rfl, rfl⟩, fun _ ↦ ⟨rfl, getD_map_nil _, rfl, rfl, rfl⟩⟩
  · next hd =>
    have hnd : y.ctx.headersDelayed = false := Bool.eq_false_iff.mpr hd
    exact ⟨⟨rfl, rfl, rfl, rfl, rfl, rfl, rfl⟩, fun h ↦ ⟨rfl, h hnd, hnd, rfl, rfl⟩⟩

/-! ### How an invocation ends -/

/-- How an invocation of the filter that began in `s` ends, its events counted from `base`. -/
inductive FilterEnds (env : OutEnv) (bb : Brigade) (base : List Event) (s : Exchange) :
    FilterStatus → Exchange → Prop
  | carried {st : FilterStatus} {y : Exchange} (walk : Walk base s 10 y)
      (status : st = .passed ∨ st = .success) (phase3 : y.ctx.phase3Done = true)
      (left : y.r.outFilter = true → Walk base s 8 y)
      (saved : st = .success → env.saveBrigadeOk y.trace bb = true) :
      FilterEnds env bb base s st y
  | failed {st : FilterStatus} {y y' : Exchange} {evs : List Event}
      (trace : y.trace = base ++ evs) (rule : Along ProtocolRule evs) (upTo : UpTo 10 evs)
      (silent : ∀ i, .poll (some i) ∉ evs) (conn : y.conn = s.conn)
      (config : y.r.requestConfig = true) (logged : y.ctx.logged = s.ctx.logged)
      (cause : ¬ Clean evs ∨ Uninspectable env s.r bb)
      (exit : Answers httpInternalServerError y st y') (closed : s.ctx.Proper → Closed y') :
      FilterEnds env bb base s st y'
  | enforced {st : FilterStatus} {y y' : Exchange} {evs : List Event} {i : Intervention}
      (trace : y.trace = base ++ evs) (events : Intervenes false s 10 i evs)
      (conn : y.conn = s.conn) (config : y.r.requestConfig = true)
      (logged : y.ctx.logged = s.ctx.logged)
      (exit : if s.ctx.dropConnection || Exchange.isDrop i then Drops y st y'
        else Answers (Exchange.enforcedStatus i) y st y') (closed : s.ctx.Proper → Closed y') :
      FilterEnds env bb base s st y'

/-- A stage of an invocation: a walk with phase 3 begun and `K` kept. -/
structure Leg (K : CorazaRequestCtx → Prop) (base : List Event) (s : Exchange) (free : Nat)
    (y : Exchange) : Prop where
  walk : Walk base s free y
  phase3 : y.ctx.phase3Done = true
  kept : s.ctx.Proper → K y.ctx

section

variable {K : CorazaRequestCtx → Prop} {e : Engine} {env : OutEnv} {bb : Brigade}
  {base : List Event} {s y : Exchange} {free : Nat}

/-! ### The blocks -/

/-- Failing closed on some new events, or on what cannot be inspected. -/
theorem leg_leave {α : Type} {Q : α → Exchange → Prop}
    {exit : Exchange → FilterStatus × Exchange} (hexit : ExitsWith K httpInternalServerError exit)
    (hl : Leg K base s free y) {new : List Event}
    (hrule : ∀ evs, Script free evs → Along ProtocolRule (evs ++ new) ∧ UpTo 10 (evs ++ new))
    (hnew : ∀ i, .poll (some i) ∉ new) (hcause : ¬ Clean new ∨ Uninspectable env s.r bb) :
    Ends (leave exit) (y.after new) Q (FilterEnds env bb base s) := by
  obtain ⟨evs, htrace, hs⟩ := hl.walk.script
  have hfinal : (y.after new).trace = base ++ (evs ++ new) := by
    rw [Exchange.after_trace, htrace, List.append_assoc]
  refine .failed hfinal (hrule evs hs).1 (hrule evs hs).2 (fun i hi ↦ ?_) hl.walk.conn
    hl.walk.config hl.walk.logged (hcause.imp_left fun hn hc ↦ hn (clean_append.mp hc).2)
    (hexit _).1 fun hp ↦ (hexit _).2 (hl.kept hp)
  rcases List.mem_append.mp hi with hi | hi
  · exact hs.silent i hi
  · exact hnew i hi

private theorem leg_leave_plain {α : Type} {Q : α → Exchange → Prop}
    {exit : Exchange → FilterStatus × Exchange} (hexit : ExitsWith K httpInternalServerError exit)
    (hl : Leg K base s free y) (hfree : free ≤ 10) (hcause : Uninspectable env s.r bb) :
    Ends (leave exit) y Q (FilterEnds env bb base s) := by
  have hf : Ends (leave exit) (y.after []) Q (FilterEnds env bb base s) :=
    leg_leave hexit hl (fun evs hs ↦ by
      rw [List.append_nil]
      exact ⟨hs.rule, hs.upTo.mono hfree⟩) (by simp) (Or.inr hcause)
  rwa [Exchange.after_nil] at hf

/-- A call whose failure fails closed. -/
theorem leg_failedCall {α : Type} {Q : α → Exchange → Prop}
    {exit : Exchange → FilterStatus × Exchange} (hexit : ExitsWith K httpInternalServerError exit)
    (hl : Leg K base s free y) {c : EngineCall} (n next : Nat) (hn : c.place = some n)
    (hnext : c.behind n = next) (hfree : free ≤ n) (hmax : next ≤ 10) {rc : Int}
    (hbad : c.failed rc) :
    Ends (leave exit) (y.log (.call c rc)) Q (FilterEnds env bb base s) := by
  refine leg_leave hexit hl (fun evs hs ↦ ?_) (by simp) (Or.inl fun hc ↦ ?_)
  · exact ⟨hs.rule_call hn hfree rc, (hs.upTo.call hn hfree rc).mono (hnext ▸ hmax)⟩
  · exact hc _ (List.mem_singleton_self _) hbad

private theorem leg_processOr {Q : Unit → Exchange → Prop}
    {exit : Exchange → FilterStatus × Exchange}
    (hexit : ExitsWith K httpInternalServerError exit) (hl : Leg K base s free y) {c : EngineCall}
    (n next : Nat) (hn : c.place = some n) (hnext : c.behind n = next) (hfree : free ≤ n)
    (hmax : next ≤ 10) (hfail : ∀ rc, c.failed rc ↔ rc < 0)
    (h : ∀ y', Leg K base s next y' → Q () y') :
    Ends (processOr e c exit) y Q (FilterEnds env bb base s) := by
  simp only [processOr, ends_bind, ends_engineCall, ends_when]
  constructor
  · intro hf
    exact leg_failedCall hexit hl n next hn hnext hfree hmax
      ((hfail _).mpr (of_decide_eq_true hf))
  · intro hf
    refine h _ ⟨hnext ▸ hl.walk.call hn hfree fun hbad ↦ ?_, hl.phase3, hl.kept⟩
    exact absurd ((hfail _).mp hbad) (Int.not_lt.mpr (corazaProcessFailed_eq_false.mp hf))

/-- A poll falls through only if it finds nothing. -/
theorem leg_pollFilter {Q : Unit → Exchange → Prop} {mark : CorazaRequestCtx → CorazaRequestCtx}
    {deny : Int → Exchange → FilterStatus × Exchange}
    (hdeny : ∀ status, ExitsWith K status (deny status)) (hidle : ∀ c, K c → c.Idle)
    (hmark : ∀ c drop logged, K c → K (mark { c with dropConnection := drop, logged := logged }))
    (hdrop : ∀ c, (mark c).dropConnection = c.dropConnection)
    (hlogged : ∀ c, (mark c).logged = c.logged)
    (hl : Leg K base s free y) (hfree : free ≤ 10)
    (h : ∀ y', Leg K base s free y' → Q () y') :
    Ends (pollFilter e mark deny) y Q (FilterEnds env bb base s) := by
  cases hi : e.intervention y.trace with
  | none =>
    have hp : y.corazaProcessIntervention e false = (retOk, y.log (.poll none)) := by
      rcases Exchange.corazaProcessIntervention_cases e false y hl.walk.config with
        ⟨-, hp⟩ | ⟨i, s', hsome, -⟩
      · exact hp
      · rw [hi] at hsome
        cases hsome
    simp only [Ends, pollFilter, hp]
    exact h _ ⟨hl.walk.skip (placeless_poll _) (fun hb ↦ hb rfl), hl.phase3, hl.kept⟩
  | some i =>
    obtain ⟨s', hp, hr⟩ := Exchange.corazaProcessIntervention_reported false hl.walk.config hi
    obtain ⟨rc, logs, hearly, htrace⟩ := hr.trace
    obtain ⟨evs, hevs, hs⟩ := hl.walk.script
    rw [hevs, List.append_assoc] at htrace
    have hearly' : Exchange.EarlyLog false s logs := by
      rw [Exchange.EarlyLog, ← hl.walk.enabled_eq, ← hl.walk.logged]
      exact hearly
    have hint : Intervenes false s 10 i (evs ++ (.poll (some i) ::
        .call (.updateStatusCode (Exchange.enforcedStatus i)) rc :: logs)) :=
      ⟨evs, rc, logs, hs.mono hfree, hearly', rfl⟩
    have hconfig : (s'.updCtx mark).r.requestConfig = true := by
      rw [Exchange.updCtx_r, hr.req]
      exact hl.walk.config
    have hlog : (s'.updCtx mark).ctx.logged = s.ctx.logged := by
      rw [Exchange.updCtx_ctx, hlogged, hr.ctx, ← hl.walk.logged]
      exact Bool.or_false _
    have hconn : (s'.updCtx mark).conn = s.conn := hr.conn.trans hl.walk.conn
    have hdropped : (s'.updCtx mark).ctx.dropConnection =
        (s.ctx.dropConnection || Exchange.isDrop i) := by
      rw [Exchange.updCtx_ctx, hdrop, hr.ctx, ← hl.walk.drop]
    have hevents : (s'.updCtx mark).trace = base ++ (evs ++ (.poll (some i) ::
        .call (.updateStatusCode (Exchange.enforcedStatus i)) rc :: logs)) := htrace
    have hkept (hproper : s.ctx.Proper) : K (s'.updCtx mark).ctx := by
      rw [Exchange.updCtx_ctx, hr.ctx]
      exact hmark _ _ _ (hl.kept hproper)
    simp only [Ends, pollFilter, hp, if_pos (Exchange.enforcedStatus_pos i), leave]
    split
    · next hd =>
      rw [hdropped] at hd
      obtain ⟨hdrops, hclosed⟩ := drops_corazaDropResponse (s'.updCtx mark)
      exact .enforced hevents hint hconn hconfig hlog (by rw [if_pos hd]; exact hdrops)
        fun hproper ↦ hclosed (hidle _ (hkept hproper))
    · next hd =>
      rw [hdropped] at hd
      obtain ⟨hanswers, hclosed⟩ := hdeny (Exchange.enforcedStatus i) (s'.updCtx mark)
      exact .enforced hevents hint hconn hconfig hlog (by rw [if_neg hd]; exact hanswers)
        fun hproper ↦ hclosed (hkept hproper)

/-- Handing a brigade on. -/
theorem leg_passBrigade {α : Type} {Q : α → Exchange → Prop} (hl : Leg K base s free y)
    (hfree : free ≤ 10) (hleft : y.r.outFilter = true → free ≤ 8) (out : Brigade) :
    Ends (passBrigade out) y Q (FilterEnds env bb base s) := by
  have hpassed : Walk base s free (y.log (.pass out)) :=
    hl.walk.skip (fun c rc h ↦ (by cases h)) (fun hb ↦ hb)
  exact .carried (hpassed.mono hfree) (Or.inl rfl) hl.phase3
    (fun hon ↦ hpassed.mono (hleft hon)) fun h ↦ (by cases h)

/-- Handing on the last brigade the filter sees. -/
theorem leg_stepOut {α : Type} {Q : α → Exchange → Prop} (hl : Leg K base s free y)
    (hfree : free ≤ 10) (out : Brigade) :
    Ends (stepOut out) y Q (FilterEnds env bb base s) := by
  rw [stepOut, ends_bind, ends_modify]
  have hoff : Leg K base s free y.removeOutputFilter :=
    ⟨hl.walk.updReq (f := fun r ↦ { r with outFilter := false }) rfl rfl, hl.phase3, hl.kept⟩
  exact leg_passBrigade hoff hfree (fun h ↦ (by cases h)) out

/-! ### Phase 3 -/

private theorem leg_askProcessable {Q : Bool → Exchange → Prop} {E : FilterStatus → Exchange → Prop}
    (hl : Leg K base s free y)
    (h : ∀ processable y', Leg K base s free y' → Q processable y') :
    Ends (askProcessable e) y Q E := by
  have hasked {c : EngineCall} (rc : Int) {z : Exchange} (hz : Leg K base s free z)
      (hc : c.place = none) (hf : ¬ c.failed rc) : Leg K base s free (z.log (.call c rc)) :=
    ⟨hz.walk.skip (placeless_call hc) hf, hz.phase3, hz.kept⟩
  have hfirst := hasked (c := .isResponseBodyAccessible) (e.ret y.trace .isResponseBodyAccessible)
    hl rfl fun hb ↦ hb
  rw [askProcessable, ends_bind, ends_engineCall]
  split
  · rw [ends_bind, ends_engineCall, ends_pure]
    exact h _ _ (hasked _ hfirst rfl fun hb ↦ hb)
  · exact h _ _ hfirst

/-- Phase 4 of an uninspected body never falls through. -/
theorem leg_finishUninspected {Q : Unit → Exchange → Prop}
    (hl : Leg CorazaRequestCtx.Unopened base s 8 y) :
    Ends (finishUninspected e bb) y Q (FilterEnds env bb base s) := by
  rw [finishUninspected, ends_bind]
  refine leg_processOr exitsWith_corazaFailClosedHeaders hl 9 10 rfl rfl (by decide) (by decide)
    (fun _ ↦ Iff.rfl) fun y₁ h₁ ↦ ?_
  rw [ends_bind, ends_modify, ends_bind]
  have hdone : Leg CorazaRequestCtx.Unopened base s 10
      (y₁.updCtx fun c ↦ { c with phase4Done := true }) :=
    ⟨h₁.walk.updCtx rfl rfl rfl, h₁.phase3, h₁.kept⟩
  refine leg_pollFilter exitsWith_denyHeaders (fun _ h ↦ h.idle) (fun _ _ _ h ↦ h) (fun _ ↦ rfl)
    (fun _ ↦ rfl) hdone (by decide) fun y₂ h₂ ↦ ?_
  exact leg_stepOut h₂ (by decide) bb

/-- The last block of phase 3 delays the headers or not. -/
theorem leg_beginDelay {Q : Unit → Exchange → Prop} {E : FilterStatus → Exchange → Prop}
    (hl : Leg CorazaRequestCtx.Unopened base s free y)
    (h : ∀ y', Leg CorazaRequestCtx.Idle base s free y' → Q () y') :
    Ends (beginDelay env) y Q E := by
  simp only [beginDelay, ends_bind, ends_get, ends_when, ends_modify]
  constructor
  · intro _
    have hdelayed : Walk base s free (y.updCtx fun c ↦
        { c with pendingBrigade := some [], headersDelayed := true }) :=
      hl.walk.updCtx rfl rfl rfl
    exact h _ ⟨hdelayed.skip (fun c rc h ↦ (by cases h)) (fun hb ↦ hb), hl.phase3, fun _ _ ↦ rfl⟩
  · intro _
    exact h _ ⟨hl.walk, hl.phase3, fun hproper ↦ (hl.kept hproper).idle⟩

/-- Phase 3 falls through at the place of the response body. -/
theorem leg_phase3 {Q : Unit → Exchange → Prop} (hw : Walk base s 6 s)
    (h3 : s.ctx.phase3Done = false)
    (h : ∀ y', Leg CorazaRequestCtx.Idle base s 8 y' → Q () y') :
    Ends (phase3 e env bb) s Q (FilterEnds env bb base s) := by
  simp only [phase3, ends_bind, ends_modify, ends_get, ends_when]
  have hunopened (hproper : s.ctx.Proper) : s.ctx.Unopened := by
    rw [CorazaRequestCtx.Proper, h3] at hproper
    exact hproper
  have hkept {y : Exchange} (hw : Walk base s 6 y)
      (hctx : y.ctx = { s.ctx with phase3Done := true }) :
      Leg CorazaRequestCtx.Unopened base s 6 y := by
    refine ⟨hw, by rw [hctx], fun hproper ↦ ?_⟩
    rw [hctx]
    exact hunopened hproper
  have hw3 : Walk base s 6 (s.updCtx fun c ↦ { c with phase3Done := true }) :=
    hw.updCtx rfl rfl rfl
  refine walk_submitHeaders (n := 6) (fun _ _ _ ↦ ⟨rfl, rfl, fun _ hb ↦ hb⟩)
    (fun _ ↦ ⟨rfl, rfl, fun _ hb ↦ hb⟩) hw3 (by decide) (fun y hy hctx hlong ↦ ?_)
    (fun y p rc hy hctx hrc ↦ ?_) fun y₁ h₁ hctx ↦ ?_
  · exact leg_leave_plain exitsWith_corazaFailClosedHeaders (hkept hy hctx) (by decide)
      (Or.inl hlong)
  · exact leg_failedCall exitsWith_corazaFailClosedHeaders (hkept hy hctx) 6 6 rfl rfl (by decide)
      (by decide) hrc
  refine leg_processOr exitsWith_corazaFailClosedHeaders (hkept h₁ hctx) 7 8 rfl rfl (by decide)
    (by decide) (fun _ ↦ Iff.rfl) fun y₂ h₂ ↦ ?_
  refine leg_askProcessable h₂ fun processable y₃ h₃ ↦ ?_
  have hmarked : Leg CorazaRequestCtx.Unopened base s 8
      (y₃.updCtx fun c ↦ { c with responseBodyProcessable := processable }) :=
    ⟨h₃.walk.updCtx rfl rfl rfl, h₃.phase3, h₃.kept⟩
  refine leg_pollFilter exitsWith_denyHeaders (fun _ h ↦ h.idle) (fun _ _ _ h ↦ h) (fun _ ↦ rfl)
    (fun _ ↦ rfl) hmarked (by decide) fun y₄ h₄ ↦ ?_
  exact ⟨fun _ ↦ leg_finishUninspected h₄, fun _ ↦
    ⟨fun _ ↦ leg_stepOut h₄ (by decide) bb, fun _ ↦ leg_beginDelay h₄ h⟩⟩

/-! ### The body -/

private theorem leg_appendChunk {Q : Unit → Exchange → Prop} {bytes : List UInt8} {b : Bucket}
    (hb : b ∈ bb) (hbytes : b.bytes = bytes) (hl : Leg CorazaRequestCtx.Idle base s 8 y)
    (h : ∀ y', Leg CorazaRequestCtx.Idle base s 8 y' → Q () y') :
    Ends (appendChunk e bytes) y Q (FilterEnds env bb base s) := by
  simp only [appendChunk, ends_bind, ends_when, ends_engineCall]
  refine ⟨fun hlong ↦ ?_, fun _ ↦ ⟨fun hf ↦ ?_, fun hf ↦ ?_⟩⟩
  · refine leg_leave_plain exitsWith_corazaFailClosedResponse hl (by decide)
      (Or.inr (Or.inl ⟨b, hb, Or.inr ?_⟩))
    rw [hbytes]
    exact of_decide_eq_true hlong
  · exact leg_failedCall exitsWith_corazaFailClosedResponse hl 8 8 rfl rfl (by decide) (by decide)
      (of_decide_eq_true hf)
  · have hnext : Leg CorazaRequestCtx.Idle base s 8 (y.log (.call (.appendResponseBody bytes)
        (e.ret y.trace (.appendResponseBody bytes)))) :=
      ⟨hl.walk.call (c := .appendResponseBody bytes) rfl (Nat.le_refl 8) fun hbad ↦
        hbad (corazaCallFailed_eq_false.mp hf), hl.phase3, hl.kept⟩
    exact leg_pollFilter exitsWith_denyResponse (fun _ h ↦ h) (fun _ _ _ h ↦ h) (fun _ ↦ rfl)
      (fun _ ↦ rfl) hnext (by decide) h

/-- Counting a chunk falls through below the cap; past it the filter steps out. -/
theorem leg_countDelayed {Q : Unit → Exchange → Prop} {len : Nat}
    (hl : Leg CorazaRequestCtx.Idle base s 8 y)
    (h : ∀ y', Leg CorazaRequestCtx.Idle base s 8 y' → Q () y') :
    Ends (countDelayed bb len) y Q (FilterEnds env bb base s) := by
  simp only [countDelayed, ends_bind, ends_modify, ends_get, ends_when]
  have hcounted : Leg CorazaRequestCtx.Idle base s 8
      (y.updCtx fun c ↦ { c with pendingLen := (c.pendingLen + len) % sizeModulus }) :=
    ⟨hl.walk.updCtx rfl rfl rfl, hl.phase3, hl.kept⟩
  refine ⟨fun _ ↦ ?_, fun _ ↦ h _ hcounted⟩
  have hreleased : Walk base s 8 ((y.updCtx fun c ↦
      { c with pendingLen := (c.pendingLen + len) % sizeModulus }).updCtx fun c ↦
      { c with headersDelayed := false, pendingBrigade := none }) :=
    hcounted.walk.updCtx rfl rfl rfl
  refine leg_passBrigade (K := CorazaRequestCtx.Idle) ⟨hreleased.updReq
    (f := fun r ↦ { r with outFilter := false }) rfl rfl, hl.phase3, fun _ _ ↦ rfl⟩ (by decide)
    (fun h ↦ (by cases h)) _

private theorem leg_bodyBucket {b : Bucket} (hb : b ∈ bb) {sawEos : Bool}
    (hl : Leg CorazaRequestCtx.Idle base s 8 y) :
    Ends (bodyBucket e bb sawEos b) y (fun _ y' ↦ Leg CorazaRequestCtx.Idle base s 8 y')
      (FilterEnds env bb base s) := by
  cases b with
  | eos => exact hl
  | metadata id => exact hl
  | unreadable id =>
    exact leg_leave_plain exitsWith_corazaFailClosedResponse hl (by decide)
      (Or.inr (Or.inl ⟨_, hb, Or.inl rfl⟩))
  | data storage bytes =>
    simp only [bodyBucket, ends_bind, ends_get, ends_when, ends_pure]
    have happend {y' : Exchange} (h : Leg CorazaRequestCtx.Idle base s 8 y') :
        Ends (appendChunk e bytes) y' (fun _ y' ↦ Leg CorazaRequestCtx.Idle base s 8 y')
          (FilterEnds env bb base s) := leg_appendChunk hb rfl h fun _ h ↦ h
    refine ⟨fun _ ↦ leg_countDelayed hl fun y₁ h₁ ↦ ?_, fun _ ↦ ⟨fun _ ↦ happend hl, fun _ ↦ hl⟩⟩
    exact ⟨fun _ ↦ happend h₁, fun _ ↦ h₁⟩

/-- The end of the response never falls through. -/
theorem leg_finishResponse {Q : Unit → Exchange → Prop}
    (hl : Leg CorazaRequestCtx.Idle base s 8 y) :
    Ends (finishResponse e bb) y Q (FilterEnds env bb base s) := by
  rw [finishResponse, ends_bind]
  refine leg_processOr exitsWith_corazaFailClosedResponse hl 9 10 rfl rfl (by decide) (by decide)
    (fun _ ↦ Iff.rfl) fun y₁ h₁ ↦ ?_
  rw [ends_bind]
  refine leg_pollFilter exitsWith_denyResponse (fun _ h ↦ h) (fun _ _ _ h ↦ h) (fun _ ↦ rfl)
    (fun _ ↦ rfl) h₁ (by decide) fun y₂ h₂ ↦ ?_
  simp only [ends_bind, ends_modify, ends_get, ends_when]
  have hdone : Leg CorazaRequestCtx.Idle base s 10
      (y₂.updCtx fun c ↦ { c with phase4Done := true }) :=
    ⟨h₂.walk.updCtx rfl rfl rfl, h₂.phase3, h₂.kept⟩
  refine ⟨fun _ ↦ ?_, fun _ ↦ leg_stepOut hdone (Nat.le_refl _) bb⟩
  have hreleased : Leg CorazaRequestCtx.Idle base s 10
      ((y₂.updCtx fun c ↦ { c with phase4Done := true }).updCtx fun c ↦
        { c with headersDelayed := false, pendingBrigade := some [] }) :=
    ⟨hdone.walk.updCtx rfl rfl rfl, h₂.phase3, fun _ _ ↦ rfl⟩
  exact leg_stepOut hreleased (Nat.le_refl _) _

private theorem leg_holdBrigade {Q : Unit → Exchange → Prop}
    (hl : Leg CorazaRequestCtx.Idle base s 8 y) :
    Ends (holdBrigade env bb) y Q (FilterEnds env bb base s) := by
  simp only [holdBrigade, ends_bind, ends_get, ends_when, ends_modify, ends_ret]
  refine ⟨fun hsave ↦ ?_, fun hsave ↦ ?_⟩
  · exact leg_leave_plain exitsWith_corazaFailClosedResponse hl (by decide)
      (Or.inr (Or.inr ⟨_, by simpa using hsave⟩))
  · have hheld : Walk base s 8 (y.updCtx fun c ↦
        { c with pendingBrigade := some (c.pendingBrigade.getD [] ++ bb) }) :=
      hl.walk.updCtx rfl rfl rfl
    have hkept : Walk base s 8 { y with
        ctx := { y.ctx with pendingBrigade := some (y.ctx.pendingBrigade.getD [] ++ bb) }
        brigade := [] } :=
      ⟨hheld.script, hheld.conn, hheld.process, hheld.dirConf, hheld.config, hheld.triggered,
        hheld.logged, hheld.drop⟩
    exact .carried (hkept.mono (by decide)) (Or.inr rfl) hl.phase3 (fun _ ↦ hkept) fun _ ↦ by
      simpa using hsave

private theorem leg_phase4 (hl : Leg CorazaRequestCtx.Idle base s 8 y) :
    Ends (phase4 e env bb) y (FilterEnds env bb base s) (FilterEnds env bb base s) := by
  rw [phase4, ends_bind]
  refine (ends_foldEach (fun _ _ y ↦ Leg CorazaRequestCtx.Idle base s 8 y) hl
    fun done b rest sawEos y hsplit hy ↦ ?_).mono (fun sawEos y₁ h₁ ↦ ?_) fun _ _ h ↦ h
  · refine leg_bodyBucket ?_ hy
    rw [hsplit]
    exact List.mem_append_right _ List.mem_cons_self
  · rw [ends_bind, ends_when]
    refine ⟨fun _ ↦ leg_finishResponse h₁, fun _ ↦ ?_⟩
    simp only [ends_bind, ends_get, ends_when]
    exact ⟨fun _ ↦ leg_holdBrigade h₁, fun _ ↦
      leg_passBrigade h₁ (by decide) (fun _ ↦ Nat.le_refl _) bb⟩

/-- The start of an invocation, its events counted from there. -/
theorem walk_start (hc : s.r.requestConfig = true) (ht : s.ctx.interventionTriggered = false) :
    Walk s.trace s (if s.ctx.phase3Done then 8 else 6) s :=
  ⟨⟨[], (List.append_nil _).symm, script_nil _⟩, rfl, rfl, rfl, hc, ht, rfl, rfl⟩

/-- Every invocation on a response that is not refused keeps the protocol, if the events before
it leave it its places. -/
theorem corazaOutputFilter_ends (e : Engine) (env : OutEnv) (bb : Brigade)
    (hw : Walk base s (if s.ctx.phase3Done then 8 else 6) s) :
    FilterEnds env bb base s (exec (corazaOutputFilter e env bb) s).1
      (exec (corazaOutputFilter e env bb) s).2 := by
  apply exec_of_ends (R := FilterEnds env bb base s)
  rw [corazaOutputFilter, ends_bind, ends_get, ends_bind, ends_when, hw.triggered]
  refine ⟨fun h ↦ (by cases h), fun _ ↦ ?_⟩
  rw [ends_bind, ends_when]
  cases h3 : s.ctx.phase3Done with
  | false =>
    rw [h3] at hw
    exact ⟨fun _ ↦ leg_phase3 hw h3 fun y h ↦ leg_phase4 h, fun h ↦ (by cases h)⟩
  | true =>
    rw [h3] at hw
    refine ⟨fun h ↦ (by cases h), fun _ ↦ leg_phase4 ⟨hw, h3, fun hproper ↦ ?_⟩⟩
    rw [CorazaRequestCtx.Proper, h3] at hproper
    exact hproper

end

end CorazaApache.Http
