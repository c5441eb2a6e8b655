import CorazaApache.Http.Protocol
import CorazaApache.Http.Frame

/-!
# The fixups hook keeps the protocol

Each block of `coraza_post_read_request` makes its calls at the next free place. It falls
through only if nothing failed and nothing was reported; what it returns otherwise depends on
the cause.
-/

namespace CorazaApache.Http
open CorazaApache.Base CorazaApache.Base.Prog CorazaApache.Config CorazaApache.Apr

/-- A stage of a hook or filter that began in `s`, its events counted from `base` on: nothing
has failed or been reported, and the places from `free` on are left. -/
structure Walk (base : List Event) (s : Exchange) (free : Nat) (y : Exchange) : Prop where
  script : ∃ evs, y.trace = base ++ evs ∧ Script free evs
  conn : y.conn = s.conn
  process : y.process = s.process
  dirConf : y.r.perDirConfig = s.r.perDirConfig
  config : y.r.requestConfig = true
  triggered : y.ctx.interventionTriggered = false
  logged : y.ctx.logged = s.ctx.logged
  drop : y.ctx.dropConnection = s.ctx.dropConnection

namespace Walk

variable {base : List Event} {s y : Exchange} {free : Nat}

/-- The places that are left may begin later. -/
theorem mono (h : Walk base s free y) {free' : Nat} (hle : free ≤ free') :
    Walk base s free' y := by
  obtain ⟨evs, htrace, hs⟩ := h.script
  exact ⟨⟨evs, htrace, hs.mono hle⟩, h.conn, h.process, h.dirConf, h.config, h.triggered, h.logged,
    h.drop⟩

/-- Some harmless events more. -/
theorem after (h : Walk base s free y) {new : List Event} {free' : Nat}
    (hnew : ∀ evs, Script free evs → Script free' (evs ++ new)) :
    Walk base s free' (y.after new) := by
  obtain ⟨evs, htrace, hs⟩ := h.script
  refine ⟨⟨evs ++ new, ?_, hnew evs hs⟩, h.conn, h.process, h.dirConf, h.config, h.triggered,
    h.logged, h.drop⟩
  rw [Exchange.after_trace, htrace, List.append_assoc]

/-- A call at a free place that does not fail. -/
theorem call (h : Walk base s free y) {c : EngineCall} {n : Nat} (hn : c.place = some n)
    (hfree : free ≤ n) {rc : Int} (hok : ¬ c.failed rc) :
    Walk base s (c.behind n) (y.log (.call c rc)) :=
  h.after fun _ hs ↦ hs.call hn hfree hok

/-- An event without a place. -/
theorem skip (h : Walk base s free y) {ev : Event} (hp : ev.Placeless) (hb : ¬ ev.Bad) :
    Walk base s free (y.log ev) :=
  h.after fun _ hs ↦ hs.skip (by simpa using hp) (by simpa [Clean] using hb)

/-- An assignment to the context that keeps the marks keeps the walk. -/
theorem updCtx (h : Walk base s free y) {f : CorazaRequestCtx → CorazaRequestCtx}
    (ht : (f y.ctx).interventionTriggered = y.ctx.interventionTriggered)
    (hl : (f y.ctx).logged = y.ctx.logged)
    (hd : (f y.ctx).dropConnection = y.ctx.dropConnection) : Walk base s free (y.updCtx f) :=
  ⟨h.script, h.conn, h.process, h.dirConf, h.config, ht.trans h.triggered, hl.trans h.logged,
    hd.trans h.drop⟩

/-- So does one to the `request_rec` that keeps its context and its scope. -/
theorem updReq (h : Walk base s free y) {f : Request → Request}
    (hc : (f y.r).requestConfig = y.r.requestConfig)
    (hd : (f y.r).perDirConfig = y.r.perDirConfig) : Walk base s free (y.updReq f) :=
  ⟨h.script, h.conn, h.process, hd.trans h.dirConf, hc.trans h.config, h.triggered, h.logged,
    h.drop⟩

/-- On the way the module stays enabled or not. -/
theorem enabled_eq (h : Walk base s free y) : y.enabled = s.enabled := by
  unfold Exchange.enabled
  rw [h.dirConf, h.process]

end Walk

/-- A poll has no place of its own. -/
theorem placeless_poll (i : Option Intervention) : (Event.poll i).Placeless := by
  intro c rc h
  cases h

/-- Neither has a call outside the phases. -/
theorem placeless_call {c : EngineCall} {rc : Int} (h : c.place = none) :
    (Event.call c rc).Placeless := by
  intro c' rc' hc'
  obtain ⟨rfl, rfl⟩ := Event.call.inj hc'
  exact h

/-! ### How the hook returns -/

/-- An intervention was reported at the end of the script, and nothing was called since but for
its status and the log. -/
def Intervenes (earlyLog : Bool) (s : Exchange) (free : Nat) (i : Intervention)
    (evs : List Event) : Prop :=
  ∃ pre rc logs, Script free pre ∧ Exchange.EarlyLog earlyLog s logs ∧ evs = pre ++
    (.poll (some i) :: .call (.updateStatusCode (Exchange.enforcedStatus i)) rc :: logs)

/-- The early log is in order, wherever the intervention came. -/
theorem Intervenes.rule {earlyLog : Bool} {s : Exchange} {free : Nat} {i : Intervention}
    {evs : List Event} (h : Intervenes earlyLog s free i evs) (hfree : free ≤ 10) :
    Along ProtocolRule evs := by
  obtain ⟨pre, rc, logs, hs, hlog, rfl⟩ := h
  have hplaceless : ∀ ev ∈ [Event.poll (some i), .call (.updateStatusCode
      (Exchange.enforcedStatus i)) rc], ev.Placeless :=
    List.forall_mem_cons.mpr ⟨placeless_poll _, List.forall_mem_singleton.mpr (placeless_call rfl)⟩
  have hrule := along_placeless hs.rule hplaceless
  have hupTo := hs.upTo.placeless hplaceless
  rcases hlog with ⟨-, -, -, rc', rfl⟩ | ⟨-, rfl⟩
  · rw [show pre ++ (.poll (some i) :: .call (.updateStatusCode (Exchange.enforcedStatus i)) rc ::
      [.call .processLogging rc']) = pre ++ [.poll (some i), .call (.updateStatusCode
        (Exchange.enforcedStatus i)) rc] ++ [.call .processLogging rc'] by simp]
    refine along_append.mpr ⟨hrule, alongFrom_cons.mpr ⟨?_, alongFrom_nil _⟩⟩
    exact rule_of_upTo hupTo rfl hfree (fun hn ↦ absurd rfl hn) rc'
  · exact hrule

/-- What the hook returns, with the state it leaves. -/
inductive HookEnds (base : List Event) (s : Exchange) : Int → Exchange → Prop
  | plain {v : Int} {y : Exchange} (walk : Walk base s 6 y) : HookEnds base s v y
  | failed {y : Exchange} {evs : List Event} (trace : y.trace = base ++ evs)
      (rule : Along ProtocolRule evs) (upTo : UpTo 6 evs)
      (silent : ∀ i, .poll (some i) ∉ evs) (conn : y.conn = s.conn)
      (config : y.r.requestConfig = true) (triggered : y.ctx.interventionTriggered = true)
      (logged : y.ctx.logged = s.ctx.logged) : HookEnds base s httpInternalServerError y
  | enforced {v : Int} {y : Exchange} {evs : List Event} {i : Intervention}
      (trace : y.trace = base ++ evs) (events : Intervenes true s 6 i evs)
      (config : y.r.requestConfig = true) (triggered : y.ctx.interventionTriggered = true)
      (logged : y.ctx.logged = true)
      (outcome : if s.ctx.dropConnection || Exchange.isDrop i then
          v = retDone ∧ y.conn = { s.conn with keepaliveClose := true, aborted := true }
        else v = Exchange.enforcedStatus i ∧ y.conn = s.conn) : HookEnds base s v y

/-! ### The blocks -/

section

variable {e : Engine} {base : List Event} {s y : Exchange} {free : Nat}

/-- Nothing was reported on the way. -/
theorem Script.silent {evs : List Event} (h : Script free evs) (i : Intervention) :
    .poll (some i) ∉ evs := fun hi ↦ h.clean _ hi (Option.some_ne_none i)

/-- Failing closed on a call, or on something that is no call. -/
theorem walk_failClosed {α : Type} {Q : α → Exchange → Prop} (hw : Walk base s free y)
    {new : List Event}
    (hrule : ∀ evs, Script free evs → Along ProtocolRule (evs ++ new) ∧ UpTo 6 (evs ++ new))
    (hnew : ∀ i, .poll (some i) ∉ new) :
    Ends failClosed (y.after new) Q (HookEnds base s) := by
  obtain ⟨evs, htrace, hs⟩ := hw.script
  simp only [failClosed, ends_bind, ends_modify, ends_ret]
  have hfinal : (y.after new).trace = base ++ (evs ++ new) := by
    rw [Exchange.after_trace, htrace, List.append_assoc]
  refine .failed hfinal (hrule evs hs).1 (hrule evs hs).2 (fun i hi ↦ ?_) hw.conn hw.config rfl
    hw.logged
  rcases List.mem_append.mp hi with hi | hi
  · exact hs.silent i hi
  · exact hnew i hi

private theorem walk_failClosed_plain {α : Type} {Q : α → Exchange → Prop} (hw : Walk base s free y)
    (hfree : free ≤ 6) : Ends failClosed y Q (HookEnds base s) := by
  have hf : Ends failClosed (y.after []) Q (HookEnds base s) :=
    walk_failClosed hw (fun evs hs ↦ by
      rw [List.append_nil]
      exact ⟨hs.rule, hs.upTo.mono hfree⟩) (by simp)
  rwa [Exchange.after_nil] at hf

/-- A call whose failure fails closed. -/
theorem walk_failedCall {α : Type} {Q : α → Exchange → Prop} (hw : Walk base s free y)
    {c : EngineCall} (n next : Nat) (hn : c.place = some n) (hnext : c.behind n = next)
    (hfree : free ≤ n) (hmax : next ≤ 6) (rc : Int) :
    Ends failClosed (y.log (.call c rc)) Q (HookEnds base s) := by
  refine walk_failClosed hw (fun evs hs ↦ ?_) (by simp)
  exact ⟨hs.rule_call hn hfree rc, (hs.upTo.call hn hfree rc).mono (hnext ▸ hmax)⟩

private theorem walk_checkProcess {Q : Unit → Exchange → Prop} (hw : Walk base s free y)
    {c : EngineCall}
    (n next : Nat) (hn : c.place = some n) (hnext : c.behind n = next) (hfree : free ≤ n)
    (hmax : next ≤ 6)
    (hfail : ∀ rc, c.failed rc → rc < 0)
    (h : ∀ y', Walk base s next y' → Q () y') :
    Ends (checkProcess e c) y Q (HookEnds base s) := by
  simp only [checkProcess, ends_bind, ends_engineCall, ends_when]
  constructor
  · intro _
    exact walk_failedCall hw n next hn hnext hfree hmax _
  · intro hf
    refine h _ (hnext ▸ hw.call hn hfree fun hbad ↦ ?_)
    exact absurd (hfail _ hbad) (Int.not_lt.mpr (corazaProcessFailed_eq_false.mp hf))

private theorem walk_checkCall {Q : Unit → Exchange → Prop} (hw : Walk base s free y)
    {c : EngineCall}
    (n next : Nat) (hn : c.place = some n) (hnext : c.behind n = next) (hfree : free ≤ n)
    (hmax : next ≤ 6)
    (hfail : ∀ rc, c.failed rc → rc ≠ 0)
    (h : ∀ y', Walk base s next y' → Q () y') :
    Ends (checkCall e c) y Q (HookEnds base s) := by
  simp only [checkCall, ends_bind, ends_engineCall, ends_when]
  constructor
  · intro _
    exact walk_failedCall hw n next hn hnext hfree hmax _
  · intro hf
    refine h _ (hnext ▸ hw.call hn hfree fun hbad ↦ ?_)
    exact hfail _ hbad (corazaCallFailed_eq_false.mp hf)

/-- A poll falls through only if it finds nothing. -/
theorem walk_pollHook {Q : Unit → Exchange → Prop} (hw : Walk base s free y) (hfree : free ≤ 6)
    (h : ∀ y', Walk base s free y' → Q () y') :
    Ends (pollHook e) y Q (HookEnds base s) := by
  cases hi : e.intervention y.trace with
  | none =>
    have hp : y.corazaProcessIntervention e true = (retOk, y.log (.poll none)) := by
      rcases Exchange.corazaProcessIntervention_cases e true y hw.config with
        ⟨-, hp⟩ | ⟨i, s', hsome, -⟩
      · exact hp
      · rw [hi] at hsome
        cases hsome
    simp only [Ends, pollHook, hp]
    exact h _ (hw.skip (placeless_poll _) (fun hb ↦ hb rfl))
  | some i =>
    obtain ⟨s', hp, hr⟩ := Exchange.corazaProcessIntervention_reported true hw.config hi
    obtain ⟨rc, logs, hearly, htrace⟩ := hr.trace
    obtain ⟨evs, hevs, hs⟩ := hw.script
    rw [hevs, List.append_assoc] at htrace
    have hearly' : Exchange.EarlyLog true s logs := by
      rw [Exchange.EarlyLog, ← hw.enabled_eq, ← hw.logged]
      exact hearly
    have hint : Intervenes true s 6 i (evs ++ (.poll (some i) ::
        .call (.updateStatusCode (Exchange.enforcedStatus i)) rc :: logs)) :=
      ⟨evs, rc, logs, hs.mono hfree, hearly', rfl⟩
    have hconfig : s'.r.requestConfig = true := by
      rw [hr.req]
      exact hw.config
    have hlogged : s'.ctx.logged = true := by
      rw [hr.ctx]
      exact Bool.or_true _
    have hdrop : s'.ctx.dropConnection = (s.ctx.dropConnection || Exchange.isDrop i) := by
      rw [hr.ctx, ← hw.drop]
    have hconn : s'.conn = s.conn := hr.conn.trans hw.conn
    simp only [Ends, pollHook, hp, if_pos (Exchange.enforcedStatus_pos i),
      Exchange.corazaEnforceIntervention, Exchange.updCtx_ctx]
    split
    · next hd =>
      rw [hdrop] at hd
      refine .enforced htrace hint hconfig rfl hlogged ?_
      rw [if_pos hd, ← hconn]
      exact ⟨rfl, rfl⟩
    · next hd =>
      rw [hdrop] at hd
      refine .enforced htrace hint hconfig rfl hlogged ?_
      rw [if_neg hd]
      exact ⟨rfl, hconn⟩

/-- The headers are submitted at one place; the context stays as it is. -/
theorem walk_submitHeaders {ρ : Type} {bulk : List UInt8 → Nat → Nat → EngineCall}
    {single : HeaderPair → EngineCall} {fail : Hook ρ Unit} {pairs : List HeaderPair} {n : Nat}
    {Q : Unit → Exchange → Prop} {E : ρ → Exchange → Prop}
    (hbulk : ∀ packed len count, (bulk packed len count).place = some n ∧
      (bulk packed len count).runsPhase = false ∧ ∀ rc, ¬ (bulk packed len count).failed rc)
    (hsingle : ∀ p, (single p).place = some n ∧ (single p).runsPhase = false ∧
      ∀ rc, (single p).failed rc → rc ≠ 0)
    (hw : Walk base s free y) (hfree : free ≤ n)
    (hlong : ∀ y', Walk base s n y' → y'.ctx = y.ctx → (∃ p ∈ pairs, intMax < p.name.length ∨
      intMax < p.value.length) → Ends fail y' (fun _ _ ↦ False) E)
    (hfail : ∀ y' p rc, Walk base s n y' → y'.ctx = y.ctx → rc ≠ 0 →
      Ends fail (y'.log (.call (single p) rc)) (fun _ _ ↦ False) E)
    (h : ∀ y', Walk base s n y' → y'.ctx = y.ctx → Q () y') :
    Ends (submitHeaders e bulk single fail pairs) y Q E := by
  have hbehind {c : EngineCall} (hc : c.runsPhase = false) : c.behind n = n := by
    rw [EngineCall.behind, hc]
    rfl
  have hpacked (packed : List UInt8) (len : Nat) (rc : Int) :
      Walk base s n (y.log (.call (bulk packed len pairs.length) rc)) := by
    have hnext := hw.call (hbulk packed len pairs.length).1 hfree
      ((hbulk packed len pairs.length).2.2 rc)
    rwa [hbehind (hbulk packed len pairs.length).2.1] at hnext
  have hcalls (handled : List HeaderPair) : ∀ evs, Script n evs →
      Script n (evs ++ handled.map fun p ↦ .call (single p) 0) := by
    induction handled with
    | nil =>
      intro evs hs
      rwa [List.map_nil, List.append_nil]
    | cons p handled ih =>
      intro evs hs
      have hnext : Script n (evs ++ [.call (single p) 0]) := by
        have hcall := hs.call (hsingle p).1 (Nat.le_refl n) fun hbad ↦ (hsingle p).2.2 0 hbad rfl
        rwa [hbehind (hsingle p).2.1] at hcall
      have hrest := ih _ hnext
      rwa [List.append_assoc] at hrest
  have hone {handled : List HeaderPair} {new : List Event}
      (hnew : OneByOne bulk single pairs handled new) : Walk base s n (y.after new) := by
    obtain ⟨before, hbefore, rfl⟩ := hnew
    rw [← Exchange.after_after]
    rcases hbefore with rfl | ⟨packed, len, rc, -, rfl⟩
    · rw [Exchange.after_nil]
      exact (hw.mono hfree).after (hcalls handled)
    · exact (hpacked packed len rc).after (hcalls handled)
  refine ends_submitHeaders_cases (fun _ ↦ h y (hw.mono hfree) rfl)
    (fun packed len _ ↦ h _ (hpacked packed len 0) rfl)
    (fun _ p new hp hnew hl ↦ hlong _ (hone hnew) rfl ⟨p, hp, hl⟩)
    (fun _ p new rc _ hnew hrc ↦ hfail _ p rc (hone hnew) rfl hrc)
    fun new hnew ↦ h _ (hone hnew) rfl

/-- One round of the read loop. -/
theorem walk_bodyChunk {env : SaveEnv} {memLimit : Int} {inspect : Bool} {l : BodyLocals}
    {chunk : BodyChunk} {Q : BodyLocals → Exchange → Prop} (hw : Walk base s 4 y)
    (h : ∀ l' y', Walk base s 4 y' → Q l' y') :
    Ends (bodyChunk e env memLimit inspect l chunk) y Q (HookEnds base s) := by
  simp only [bodyChunk, saveChunk, ends_bind, ends_get, ends_when, ends_modify, ends_pure]
  refine ⟨fun _ ↦ walk_failClosed_plain hw (by decide), fun _ ↦ ?_⟩
  obtain ⟨saved, hkept⟩ :
      ∃ saved, (keepChunk env.ops memLimit (l, y.ctx.savedBody.getD []) chunk).2 = saved :=
    ⟨_, rfl⟩
  rw [hkept]
  have hsaved : Walk base s 4 (y.updCtx fun c ↦ { c with savedBody := some saved }) :=
    hw.updCtx rfl rfl rfl
  refine ⟨fun _ ↦ ?_, fun _ ↦ h _ _ hsaved⟩
  refine walk_checkCall hsaved 4 4 rfl rfl (by decide) (by decide) (fun _ hb ↦ hb) fun y₁ h₁ ↦ ?_
  exact walk_pollHook h₁ (by decide) fun y₂ h₂ ↦ h _ y₂ h₂

private theorem walk_readBody {env : SaveEnv} {src : BodySource} {Q : Unit → Exchange → Prop}
    (hw : Walk base s 4 y) (h : ∀ y', Walk base s 4 y' → Q () y') :
    Ends (readBody e env src) y Q (HookEnds base s) := by
  simp only [readBody, ends_bind, ends_get, ends_engineCall, ends_modify]
  have hasked (rc : Int) : Walk base s 4 (y.log (.call .isRequestBodyAccessible rc)) :=
    hw.skip (placeless_call rfl) fun hb ↦ hb
  have hempty (rc : Int) : Walk base s 4 ((y.log (.call .isRequestBodyAccessible rc)).updCtx
      fun c ↦ { c with savedBody := some [] }) := (hasked rc).updCtx rfl rfl rfl
  refine (ends_foldEach (fun _ _ y ↦ Walk base s 4 y) (hempty _)
    fun done chunk rest l y _ hy ↦ ?_).mono (fun l y₁ h₁ ↦ ?_) fun _ _ hb ↦ hb
  · exact walk_bodyChunk hy fun _ _ hy' ↦ hy'
  · rw [ends_when]
    refine ⟨fun _ ↦ .plain (h₁.mono (by decide)), fun _ ↦ h _ ?_⟩
    exact (h₁.updCtx (f := fun c ↦ { c with savedBody := c.savedBody.map (closeBody l) })
      rfl rfl rfl).updReq (f := fun r ↦ { r with readLength := 0, inFilter := true }) rfl rfl

private theorem walk_finishPhase2 {Q : Unit → Exchange → Prop} (hw : Walk base s free y)
    (hfree : free ≤ 5) (h : ∀ y', Walk base s 6 y' → Q () y') :
    Ends (finishPhase2 e) y Q (HookEnds base s) := by
  rw [finishPhase2, ends_bind]
  refine walk_checkProcess hw 5 6 rfl rfl hfree (by decide) (fun _ hb ↦ hb) fun y₁ h₁ ↦ ?_
  rw [ends_bind, ends_modify]
  exact walk_pollHook (h₁.updCtx (f := fun c ↦ { c with phase2Done := true }) rfl rfl rfl)
    (by decide) h

private theorem walk_phase2 {env : SaveEnv} {src : BodySource} {Q : Unit → Exchange → Prop}
    (hw : Walk base s 4 y) (h : ∀ y', Walk base s 6 y' → Q () y') :
    Ends (phase2 e env src) y Q (HookEnds base s) := by
  simp only [phase2, ends_bind, ends_when, ends_ret]
  refine ⟨fun _ ↦ .plain (hw.mono (by decide)), fun _ ↦ ⟨fun _ ↦ ?_, fun _ ↦ ?_⟩⟩
  · exact walk_readBody hw fun y₁ h₁ ↦ walk_finishPhase2 h₁ (by decide) h
  · exact walk_finishPhase2 hw (by decide) h

private theorem walk_phase1 {Q : Unit → Exchange → Prop} (hw : Walk base s 0 y)
    (h : ∀ y', Walk base s 4 y' → Q () y') : Ends (phase1 e) y Q (HookEnds base s) := by
  simp only [phase1, ends_bind, ends_get]
  refine walk_checkProcess hw 0 1 rfl rfl (by decide) (by decide) (fun _ hb ↦ hb) fun y₁ h₁ ↦ ?_
  refine walk_pollHook h₁ (by decide) fun y₂ h₂ ↦ ?_
  refine walk_checkProcess h₂ 1 2 rfl rfl (by decide) (by decide) (fun _ hb ↦ hb) fun y₃ h₃ ↦ ?_
  refine walk_pollHook h₃ (by decide) fun y₄ h₄ ↦ ?_
  refine walk_submitHeaders (n := 2) (fun _ _ _ ↦ ⟨rfl, rfl, fun _ hb ↦ hb⟩)
    (fun _ ↦ ⟨rfl, rfl, fun _ hb ↦ hb⟩) h₄ (by decide) (fun y hy _ _ ↦ ?_)
    (fun y p rc hy _ _ ↦ ?_) fun y₅ h₅ _ ↦ ?_
  · exact walk_failClosed_plain hy (by decide)
  · exact walk_failedCall hy 2 2 rfl rfl (by decide) (by decide) rc
  refine walk_checkProcess h₅ 3 4 rfl rfl (by decide) (by decide) (fun _ hb ↦ hb) fun y₆ h₆ ↦ ?_
  exact walk_pollHook h₆ (by decide) h

end

/-- The hook has something to do on this `request_rec`. -/
def Exchange.Starts (s : Exchange) : Prop :=
  s.r.main = false ∧ s.enabled = true ∧ s.r.requestConfig = false

/-- The hook creates a transaction on this `request_rec`. -/
def Exchange.Creates (lib : WafLib) (s : Exchange) : Prop :=
  s.Starts ∧ corazaCtxFromPrev s.prev = false ∧
    (s.process.corazaCreateCtx lib (s.r.perDirConfig.getD 0) s.r.serverConf).1.isSome = true

instance (s : Exchange) : Decidable s.Starts := inferInstanceAs (Decidable (_ ∧ _ ∧ _))

instance (lib : WafLib) (s : Exchange) : Decidable (s.Creates lib) :=
  inferInstanceAs (Decidable (_ ∧ _ ∧ _))

/-- The transaction has been created. -/
def Exchange.created (s : Exchange) (handle : Nat) (p : Process) : Exchange :=
  { s with
    process := p
    ctx := { (default : CorazaRequestCtx) with transaction := handle }
    r := { s.r with requestConfig := true } }

/-- A run of the hook. -/
inductive HookRun (lib : WafLib) (s : Exchange) : Int → Exchange → Prop
  | skipped (idle : ¬ s.Starts) : HookRun lib s retDeclined s
  | reused (starts : s.Starts) (prev : corazaCtxFromPrev s.prev = true) :
      HookRun lib s retDeclined
        (s.updReq fun r ↦ { r with requestConfig := true, outFilter := true })
  | refused {p : Process} (starts : s.Starts) (alone : corazaCtxFromPrev s.prev = false)
      (create : s.process.corazaCreateCtx lib (s.r.perDirConfig.getD 0) s.r.serverConf =
        (none, p)) : HookRun lib s httpInternalServerError { s with process := p }
  | ran {v : Int} {y : Exchange} {handle : Nat} {p : Process} (starts : s.Starts)
      (alone : corazaCtxFromPrev s.prev = false)
      (create : s.process.corazaCreateCtx lib (s.r.perDirConfig.getD 0) s.r.serverConf =
        (some handle, p))
      (ends : HookEnds s.trace (s.created handle p) v y)
      (changes : hookEffect.next (s.created handle p) y) : HookRun lib s v y

/-- Every run of the hook keeps the protocol. -/
theorem corazaPostReadRequest_run (e : Engine) (lib : WafLib) (env : SaveEnv) (src : BodySource)
    (s : Exchange) :
    HookRun lib s (exec (corazaPostReadRequest e lib env src) s).1
      (exec (corazaPostReadRequest e lib env src) s).2 := by
  apply exec_of_ends (R := HookRun lib s)
  simp only [corazaPostReadRequest, ends_bind, ends_get, ends_when, ends_ret, ends_modify]
  refine ⟨fun hm ↦ .skipped fun hs ↦ ?_, fun hm ↦ ⟨fun he ↦ .skipped fun hs ↦ ?_, fun he ↦
    ⟨fun hc ↦ .skipped fun hs ↦ ?_, fun hc ↦ ?_⟩⟩⟩
  · exact Bool.false_ne_true (hs.1.symm.trans hm)
  · rw [hs.2.1] at he
    cases he
  · exact Bool.false_ne_true (hs.2.2.symm.trans hc)
  have hstarts : s.Starts := ⟨hm, by simpa using he, hc⟩
  refine ⟨fun hp ↦ .reused hstarts hp, fun hp ↦ ?_⟩
  cases hcreate : s.process.corazaCreateCtx lib (s.r.perDirConfig.getD 0) s.r.serverConf with
  | mk result p =>
    cases result with
    | none =>
      have hrefused : HookRun lib s httpInternalServerError { s with process := p } :=
        .refused hstarts hp hcreate
      simpa only [Ends, createCtx, hcreate] using hrefused
    | some handle =>
      have hcreated : createCtx lib s = (.next (), s.created handle p) := by
        simp only [createCtx, hcreate]
        rfl
      rw [Ends, hcreated]
      have hwalk : Walk s.trace (s.created handle p) 0 (s.created handle p) :=
        ⟨⟨[], (List.append_nil _).symm, script_nil 0⟩, rfl, rfl, rfl, rfl, rfl, rfl, rfl⟩
      have hends : Ends (do
          phase1 e
          modify fun s ↦ s.updReq fun r ↦ { r with outFilter := true }
          phase2 e env src) (s.created handle p)
          (fun _ y ↦ HookEnds s.trace (s.created handle p) retDeclined y)
          (HookEnds s.trace (s.created handle p)) := by
        simp only [ends_bind, ends_modify]
        refine walk_phase1 hwalk fun y₁ h₁ ↦ ?_
        refine walk_phase2 ?_ fun y₂ h₂ ↦ .plain h₂
        exact h₁.updReq rfl rfl
      have hboth := hends.and (within_phases (s.created handle p))
      simp only [ends_bind, ends_modify] at hboth
      have hran (v : Int) (y : Exchange) (h : HookEnds s.trace (s.created handle p) v y ∧
          hookEffect.next (s.created handle p) y) : HookRun lib s v y :=
        .ran hstarts hp hcreate h.1 h.2
      refine hboth.mono (fun _ y₁ h₁ ↦ ?_) hran
      exact h₁.mono (fun _ y₂ h₂ ↦ hran _ _ h₂) hran

end CorazaApache.Http
