import CorazaApache.Base.Gate
import CorazaApache.Http.AuditLog

/-!
# What a refusal means for the rest of the request

A request goes through the fixups hook, any number of brigades and any number of internal
redirects, of which the error page of a refusal is one. A drop marks the connection,
`src/mod_coraza.c:226–248`, and from then on httpd writes nothing to it; any other refusal lets the
rest of the chain go by, `src/mod_coraza_filter_out.c:161–167`.
-/

namespace CorazaApache.Http
open CorazaApache.Base CorazaApache.Base.Prog CorazaApache.Config CorazaApache.Apr

/-- The engine reports an intervention that closes the connection. -/
def Event.reportsDrop : Event → Bool
  | .poll (some i) => Exchange.isDrop i
  | _ => false

/-- The connection behind `coraza_drop_connection`; `src/mod_coraza.c:242–248`. -/
def Conn.dropped (c : Conn) : Conn := { c with keepaliveClose := true, aborted := true }

/-- The buckets an event puts on the output chain below the module. -/
def Event.buckets : Event → Brigade
  | .pass bb | .direct bb => bb
  | _ => []

namespace Exchange

section

variable (e : Engine) (lib : WafLib) (save : SaveEnv) (src : BodySource) (env : OutEnv)

/-- The events of one step of a chain. -/
def stepEvents (s : Exchange) (step : ChainStep) : List Event :=
  newEvents s (s.chainStep e lib save src env step)

/-- What reaches the client of a chain: httpd writes nothing to a connection that is aborted. -/
def wire (s : Exchange) (steps : List ChainStep) : Brigade :=
  throughGate (chainStep e lib save src env) (stepEvents e lib save src env) (·.conn.aborted)
    Event.buckets s steps

end

/-- Nobody has attached a context to the chain. -/
structure Alone (y : Exchange) : Prop where
  config : y.r.requestConfig = false
  prev : corazaCtxFromPrev y.prev = false
  filter : y.r.outFilter = false

/-- The context of the chain says that the request was refused. -/
def Denied (y : Exchange) : Prop := HasCtx y ∧ y.ctx.interventionTriggered = true

/-- Where a chain stands. -/
inductive Stands (y : Exchange) : Prop
  | alone (alone : y.Alone)
  | underWay (ctx : HasCtx y) (config : y.r.outFilter = true → y.r.requestConfig = true)
      (triggered : y.ctx.interventionTriggered = false) (drop : y.ctx.dropConnection = false)
  | denied (denied : y.Denied)

/-- What a step does: everything went well, or the request is refused, and the connection closed
if a drop was reported. -/
inductive Settles (y y' : Exchange) (new : List Event) : Prop
  | well (clean : Clean new) (conn : y'.conn = y.conn)
  | refuses (denied : y'.Denied) (silent : ∀ ev ∈ new, ev.buckets = [])
      (conn : y'.conn = if new.any Event.reportsDrop then y.conn.dropped else y.conn)

end Exchange

private theorem sent_eq_buckets (evs : List Event) : sent evs = evs.flatMap Event.buckets := by
  refine congrArg (evs.flatMap ·) (funext fun ev ↦ ?_)
  cases ev <;> rfl

private theorem buckets_of_not_sends {ev : Event} (h : ¬ ev.Sends) : ev.buckets = [] := by
  cases ev <;> first | rfl | exact absurd trivial h

/-- A drop is an intervention. -/
theorem not_reportsDrop_of_silent {evs : List Event} (h : ∀ i, .poll (some i) ∉ evs) :
    evs.any Event.reportsDrop = false := by
  refine List.any_eq_false.mpr fun ev hev hdrop ↦ ?_
  cases ev with
  | poll i =>
    cases i with
    | some i => exact h i hev
    | none => cases hdrop
  | _ => cases hdrop

private theorem silent_of_clean {evs : List Event} (h : Clean evs) (i : Intervention) :
    .poll (some i) ∉ evs := fun hi ↦ h _ hi (Option.some_ne_none i)

/-- What is reported last decides. -/
theorem Intervenes.reportsDrop {earlyLog : Bool} {s : Exchange} {free : Nat} {i : Intervention}
    {evs : List Event} (h : Intervenes earlyLog s free i evs) :
    evs.any Event.reportsDrop = Exchange.isDrop i := by
  obtain ⟨pre, rc, logs, hs, hlog, rfl⟩ := h
  have hlogs : logs.any Event.reportsDrop = false := by
    rcases hlog with ⟨-, -, -, rc', rfl⟩ | ⟨-, rfl⟩
    · rfl
    · rfl
  rw [List.any_append, not_reportsDrop_of_silent hs.silent, List.any_cons, List.any_cons, hlogs]
  exact Bool.or_false _

private theorem reportsDrop_iff {evs : List Event} : evs.any Event.reportsDrop = true ↔
    ∃ i, .poll (some i) ∈ evs ∧ i.Drops := by
  rw [List.any_eq_true]
  constructor
  · rintro ⟨ev, hev, hdrop⟩
    cases ev with
    | poll i =>
      cases i with
      | some i => exact ⟨i, hev, (isDrop_iff i).mp hdrop⟩
      | none => cases hdrop
    | _ => cases hdrop
  · rintro ⟨i, hi, hdrop⟩
    exact ⟨_, hi, (isDrop_iff i).mpr hdrop⟩

/-! ### The hook writes to the engine only -/

section

variable {e : Engine} {lib : WafLib} {save : SaveEnv} {src : BodySource} {α : Type}

/-- A call of the engine or a poll. -/
def Event.ToEngine : Event → Prop
  | .call _ _ | .poll _ => True
  | _ => False

/-- Nothing is recorded but what goes to the engine. -/
def AsksEngine (s s' : Exchange) : Prop :=
  ∃ evs, s'.trace = s.trace ++ evs ∧ ∀ ev ∈ evs, ev.ToEngine

private theorem asks_of_eq {s s' : Exchange} (h : s'.trace = s.trace) : AsksEngine s s' :=
  ⟨[], by rw [h, List.append_nil], by simp⟩

private theorem AsksEngine.trans {s s' s'' : Exchange} (h : AsksEngine s s')
    (h' : AsksEngine s' s'') :
    AsksEngine s s'' := by
  obtain ⟨evs, htrace, hevs⟩ := h
  obtain ⟨evs', htrace', hevs'⟩ := h'
  refine ⟨evs ++ evs', ?_, List.forall_mem_append.mpr ⟨hevs, hevs'⟩⟩
  rw [htrace', htrace, List.append_assoc]

/-- The effect of a block of the hook on the trace. -/
def asksEffect : Effect Exchange Int where
  next := AsksEngine
  ret _ := AsksEngine
  refl _ := asks_of_eq rfl
  trans h h' := h.trans h'
  comp h h' := h.trans h'

private theorem asks_engineCall {c : EngineCall} : Within asksEffect (engineCall e c) :=
  fun _ ↦ ⟨[.call c _], rfl, List.forall_mem_singleton.mpr trivial⟩

private theorem asks_modify {f : Exchange → Exchange} (h : ∀ s, (f s).trace = s.trace) :
    Within asksEffect (modify f) := within_modify fun s ↦ asks_of_eq (h s)

private theorem asks_ret {v : Int} : Within asksEffect (Prog.ret v : Hook Int α) :=
  within_ret fun _ ↦ asks_of_eq rfl

private theorem asks_failClosed : Within asksEffect (failClosed : Hook Int α) :=
  within_bind (asks_modify fun _ ↦ rfl) fun _ ↦ asks_ret

private theorem asks_checkProcess {c : EngineCall} : Within asksEffect (checkProcess e c) :=
  within_bind asks_engineCall fun _ ↦ within_when asks_failClosed

private theorem asks_pollHook : Within asksEffect (pollHook e) := by
  intro s
  have hpoll (i : Option Intervention) : (Event.poll i).ToEngine := trivial
  refine (changes_pollHook e s hpoll fun _ _ _ ↦ trivial).mono ?_ ?_
  · exact fun _ _ h ↦ h.1.events
  · exact fun _ _ h ↦ h.1.1.events

private theorem asks_phase1 : Within asksEffect (phase1 e) := by
  refine within_bind within_get fun s ↦ within_bind asks_checkProcess fun _ ↦ ?_
  refine within_bind asks_pollHook fun _ ↦ within_bind asks_checkProcess fun _ ↦ ?_
  refine within_bind asks_pollHook fun _ ↦ within_bind ?_ fun _ ↦ ?_
  · exact within_submitHeaders (fun _ _ _ ↦ asks_engineCall) (fun _ ↦ asks_engineCall)
      asks_failClosed
  · exact within_bind asks_checkProcess fun _ ↦ asks_pollHook

private theorem asks_bodyChunk {memLimit : Int} {inspect : Bool} {l : BodyLocals}
    {chunk : BodyChunk} :
    Within asksEffect (bodyChunk e save memLimit inspect l chunk) := by
  refine within_bind ?_ fun _ ↦ within_bind (within_when ?_) fun _ ↦ within_pure _
  · exact within_bind within_get fun s ↦ within_bind (within_when asks_failClosed) fun _ ↦
      within_bind (asks_modify fun _ ↦ rfl) fun _ ↦ within_pure _
  · refine within_bind ?_ fun _ ↦ asks_pollHook
    exact within_bind asks_engineCall fun _ ↦ within_when asks_failClosed

private theorem asks_readBody : Within asksEffect (readBody e save src) := by
  refine within_bind within_get fun s ↦ within_bind asks_engineCall fun _ ↦ ?_
  refine within_bind (asks_modify fun _ ↦ rfl) fun _ ↦ ?_
  refine within_bind (within_foldEach fun _ _ ↦ asks_bodyChunk) fun _ ↦ ?_
  refine within_bind (within_when asks_ret) fun _ ↦ ?_
  exact within_bind (asks_modify fun _ ↦ rfl) fun _ ↦ asks_modify fun _ ↦ rfl

private theorem asks_phase2 : Within asksEffect (phase2 e save src) := by
  refine within_bind (within_when asks_ret) fun _ ↦
    within_bind (within_when asks_readBody) fun _ ↦ ?_
  exact within_bind asks_checkProcess fun _ ↦
    within_bind (asks_modify fun _ ↦ rfl) fun _ ↦ asks_pollHook

private theorem asks_createCtx : Within asksEffect (createCtx lib) := by
  intro s
  unfold Ends createCtx
  cases s.process.corazaCreateCtx lib (s.r.perDirConfig.getD 0) s.r.serverConf with
  | mk result p =>
    cases result with
    | none => exact asks_of_eq rfl
    | some handle => exact asks_of_eq rfl

/-- The hook records nothing else. -/
theorem asks_corazaPostReadRequest (e : Engine) (lib : WafLib) (save : SaveEnv)
    (src : BodySource) (s : Exchange) :
    AsksEngine s (exec (corazaPostReadRequest e lib save src) s).2 := by
  have hwithin : Within asksEffect (corazaPostReadRequest e lib save src) := by
    refine within_bind within_get fun s ↦ within_bind (within_when asks_ret) fun _ ↦ ?_
    refine within_bind (within_when asks_ret) fun _ ↦ within_bind (within_when asks_ret) fun _ ↦ ?_
    refine within_bind (within_when ?_) fun _ ↦ within_bind asks_createCtx fun _ ↦ ?_
    · exact within_bind (asks_modify fun _ ↦ rfl) fun _ ↦ asks_ret
    · refine within_bind asks_phase1 fun _ ↦ within_bind (asks_modify fun _ ↦ rfl) fun _ ↦ ?_
      exact within_bind asks_phase2 fun _ ↦ within_pure _
  refine exec_of_ends (R := fun _ s' ↦ AsksEngine s s') ?_
  exact (hwithin s).mono (fun _ _ h ↦ h) fun _ _ h ↦ h

end

/-! ### One step -/

private theorem hasCtx_congr {y z : Exchange} (hconfig : z.r.requestConfig = y.r.requestConfig)
    (hprev : z.prev = y.prev) : HasCtx z ↔ HasCtx y := by
  rw [HasCtx, HasCtx, hconfig, hprev]

section

variable {e : Engine} {lib : WafLib} {save : SaveEnv} {src : BodySource} {env : OutEnv}
  {y z : Exchange} {new : List Event}

/-- Between events that neither report nor send anything. -/
theorem Exchange.Settles.between (h : y.Settles z new) {y' z' : Exchange} (hy : y.conn = y'.conn)
    (hz : z'.conn = z.conn) (hdenied : z.Denied → z'.Denied) {pre post : List Event}
    (hquiet : ∀ ev ∈ pre ++ post, ¬ ev.Bad ∧ ev.buckets = []) :
    y'.Settles z' (pre ++ new ++ post) := by
  have hends : Clean pre ∧ Clean post := clean_append.mp fun ev hev ↦ (hquiet ev hev).1
  obtain ⟨hpre, hpost⟩ := List.forall_mem_append.mp hquiet
  cases h with
  | well clean conn =>
    refine .well (clean_append.mpr ⟨clean_append.mpr ⟨hends.1, clean⟩, hends.2⟩) ?_
    rw [hz, conn, hy]
  | refuses denied silent conn =>
    refine .refuses (hdenied denied) (List.forall_mem_append.mpr
      ⟨List.forall_mem_append.mpr ⟨fun ev hev ↦ (hpre ev hev).2, silent⟩,
        fun ev hev ↦ (hpost ev hev).2⟩) ?_
    rw [List.any_append, List.any_append, not_reportsDrop_of_silent (silent_of_clean hends.1),
      not_reportsDrop_of_silent (silent_of_clean hends.2), Bool.false_or, Bool.or_false, hz, conn,
      hy]

/-- The record makes no difference. -/
theorem Exchange.Stands.congr (h : y.Stands) (hr : z.r = y.r) (hprev : z.prev = y.prev)
    (hctx : z.ctx = y.ctx) : z.Stands := by
  have hhas : HasCtx z ↔ HasCtx y := hasCtx_congr (by rw [hr]) hprev
  cases h with
  | alone h =>
    refine .alone ⟨?_, ?_, ?_⟩
    · rw [hr]
      exact h.config
    · rw [hprev]
      exact h.prev
    · rw [hr]
      exact h.filter
  | underWay ctx config triggered drop =>
    refine .underWay (hhas.mpr ctx) ?_ ?_ ?_
    · rw [hr]
      exact config
    · rw [hctx]
      exact triggered
    · rw [hctx]
      exact drop
  | denied h =>
    refine .denied ⟨hhas.mpr h.1, ?_⟩
    rw [hctx]
    exact h.2

/-- What the hook does on a chain without a context. -/
theorem Exchange.Alone.hook (h : y.Alone) {v : Int} (hrun : HookRun lib y v z)
    (hasks : AsksEngine y z) : z.Stands ∧ y.Settles z (newEvents y z) := by
  obtain ⟨evs, htrace, hevs⟩ := hasks
  have hsilent : ∀ ev ∈ evs, ev.buckets = [] := by
    intro ev hev
    have hask := hevs ev hev
    cases ev <;> first | rfl | exact absurd hask id
  have hnone {x : Exchange} (hx : x.trace = y.trace) : newEvents y x = [] :=
    newEvents_eq (by rw [hx, List.append_nil])
  cases hrun with
  | skipped _ =>
    rw [hnone rfl]
    exact ⟨.alone h, .well clean_nil rfl⟩
  | reused _ hprev => exact absurd (h.prev.symm.trans hprev) Bool.false_ne_true
  | @refused p _ _ _ =>
    rw [hnone (x := { y with process := p }) rfl]
    exact ⟨.alone ⟨h.config, h.prev, h.filter⟩, .well clean_nil rfl⟩
  | @ran _ _ handle p _ _ _ hends _ =>
    rw [newEvents_eq htrace]
    cases hends with
    | plain hw =>
      obtain ⟨evs', htrace', hs⟩ := hw.script
      obtain rfl : evs' = evs := List.append_cancel_left (htrace'.symm.trans htrace)
      exact ⟨.underWay (Or.inl hw.config) (fun _ ↦ hw.config) hw.triggered hw.drop,
        .well hs.clean hw.conn⟩
    | @failed _ evs' htrace' _ _ hno hconn hconfig ht _ =>
      obtain rfl : evs' = evs := List.append_cancel_left (htrace'.symm.trans htrace)
      have hdenied : z.Denied := ⟨Or.inl hconfig, ht⟩
      refine ⟨.denied hdenied, .refuses hdenied hsilent ?_⟩
      rw [not_reportsDrop_of_silent hno]
      exact hconn
    | @enforced _ _ evs' i htrace' hevents hconfig ht _ hout =>
      obtain rfl : evs' = evs := List.append_cancel_left (htrace'.symm.trans htrace)
      have hdenied : z.Denied := ⟨Or.inl hconfig, ht⟩
      refine ⟨.denied hdenied, .refuses hdenied hsilent ?_⟩
      rw [hevents.reportsDrop]
      have hdrop : ((y.created handle p).ctx.dropConnection || Exchange.isDrop i) =
        Exchange.isDrop i := Bool.false_or _
      rw [hdrop] at hout
      split at hout
      · next hd => rw [if_pos hd]; exact hout.2
      · next hd => rw [if_neg hd]; exact hout.2

/-- What the filter does on a response that is under way. -/
theorem FilterEnds.settles {bb : Brigade} {st : FilterStatus} (h : FilterEnds env bb y.trace y st z)
    (hsilent : st ≠ .passed → ∀ ev ∈ newEvents y z, ev.buckets = [])
    (hdrop : y.ctx.dropConnection = false) :
    z.Stands ∧ y.Settles z (newEvents y z) := by
  have hrefused (hst : st ≠ .passed) (hconfig : z.r.requestConfig = true)
      (ht : z.ctx.interventionTriggered = true) : z.Stands ∧ y.Settles z (newEvents y z) := by
    have hdenied : z.Denied := ⟨Or.inl hconfig, ht⟩
    refine ⟨.denied hdenied, .refuses hdenied (hsilent hst) ?_⟩
    obtain ⟨-, ⟨i, hi, hd, -, hconn⟩ | ⟨hnone, hconn⟩⟩ := h.refusal ht
    · have hd : i.Drops := hd.resolve_left fun hd ↦ Bool.false_ne_true (hdrop.symm.trans hd)
      rw [if_pos (reportsDrop_iff.mpr ⟨i, hi, hd⟩)]
      exact hconn
    · rw [if_neg]
      · exact hconn
      · intro hany
        obtain ⟨i, hi, hd⟩ := reportsDrop_iff.mp hany
        exact hnone i hi (Or.inr hd)
  cases h with
  | carried hw =>
    obtain ⟨evs, htrace, hs⟩ := hw.script
    rw [newEvents_eq htrace]
    exact ⟨.underWay (Or.inl hw.config) (fun _ ↦ hw.config) hw.triggered (hw.drop.trans hdrop),
      .well hs.clean hw.conn⟩
  | failed _ _ _ _ _ hconfig _ _ hexit =>
    refine hrefused ?_ (hexit.config.trans hconfig) hexit.triggered
    rcases hexit.answer with ⟨hst, -⟩ | ⟨hst, -, -⟩
    · exact hst ▸ FilterStatus.noConfusion
    · exact hst ▸ FilterStatus.noConfusion
  | enforced _ _ _ hconfig _ hexit =>
    split at hexit
    · refine hrefused ?_ (hexit.config.trans hconfig) hexit.triggered
      exact hexit.answer.1 ▸ FilterStatus.noConfusion
    · refine hrefused ?_ (hexit.config.trans hconfig) hexit.triggered
      rcases hexit.answer with ⟨hst, -⟩ | ⟨hst, -, -⟩
      · exact hst ▸ FilterStatus.noConfusion
      · exact hst ▸ FilterStatus.noConfusion

/-- A brigade on a chain without a filter. -/
theorem settles_direct (bb : Brigade) (hoff : y.r.outFilter = false) :
    y.Settles (y.passOutput e env bb) (newEvents y (y.passOutput e env bb)) := by
  have hnew : newEvents y (y.passOutput e env bb) = [.receive bb, .direct bb] := by
    rw [passOutput_off e env bb hoff]
    exact newEvents_eq (by simp)
  rw [hnew, passOutput_off e env bb hoff]
  exact .well (by simp [Clean, Event.Bad]) rfl

/-- A brigade. -/
theorem Exchange.Stands.output (h : y.Stands) (e : Engine) (env : OutEnv) (bb : Brigade) :
    (y.passOutput e env bb).Stands ∧
      y.Settles (y.passOutput e env bb) (newEvents y (y.passOutput e env bb)) := by
  have hfixed := (changes_passOutput e env y bb).fixed
  have hprev : (y.passOutput e env bb).prev = y.prev := congrArg Prod.fst hfixed
  have hconfig : (y.passOutput e env bb).r.requestConfig = y.r.requestConfig :=
    congrArg (·.2.2.requestConfig) hfixed
  cases h with
  | alone h =>
    refine ⟨.alone ⟨hconfig.trans h.config, ?_, ?_⟩, settles_direct bb h.filter⟩
    · rw [hprev]
      exact h.prev
    · rw [passOutput_off e env bb h.filter]
      exact h.filter
  | denied h =>
    have hctx := (passOutput_denied e env h.2 bb).1
    have hdenied : (y.passOutput e env bb).Denied := by
      refine ⟨(hasCtx_congr hconfig hprev).mpr h.1, ?_⟩
      rw [hctx]
      exact h.2
    refine ⟨.denied hdenied, ?_⟩
    cases hon : y.r.outFilter with
    | false => exact settles_direct bb hon
    | true =>
      have hnew : newEvents y (y.passOutput e env bb) =
          [.receive bb, .pass bb, .returned .passed] := by
        rw [passOutput_triggered e env bb h.2 hon]
        exact newEvents_eq (by simp [Exchange.removeOutputFilter])
      rw [hnew, passOutput_triggered e env bb h.2 hon]
      exact .well (by simp [Clean, Event.Bad]) rfl
  | underWay hctx hcfg ht hd =>
    cases hon : y.r.outFilter with
    | false =>
      refine ⟨?_, settles_direct bb hon⟩
      rw [passOutput_off e env bb hon]
      exact .underWay hctx hcfg ht hd
    | true =>
      have hends := corazaOutputFilter_ends e env bb (walk_start (s := y.arrive bb) (hcfg hon) ht)
      obtain ⟨evs, htrace, hevs⟩ := (changes_corazaOutputFilter e env bb (y.arrive bb)).events
      have hsilent : (exec (corazaOutputFilter e env bb) (y.arrive bb)).1 ≠ .passed →
          ∀ ev ∈ newEvents (y.arrive bb) (exec (corazaOutputFilter e env bb) (y.arrive bb)).2,
            ev.buckets = [] := by
        rw [newEvents_eq htrace]
        exact fun hst ev hev ↦ buckets_of_not_sends ((hevs ev hev).2 hst)
      obtain ⟨hstands, hsettles⟩ := hends.settles hsilent hd
      rw [newEvents_passOutput hon, passOutput_on e env bb hon]
      have hquiet : ∀ ev ∈ [Event.receive bb] ++
          [.returned (exec (corazaOutputFilter e env bb) (y.arrive bb)).1],
          ¬ ev.Bad ∧ ev.buckets = [] := by simp [Event.Bad, Event.buckets]
      have hconn : ((exec (corazaOutputFilter e env bb) (y.arrive bb)).2.log
          (.returned (exec (corazaOutputFilter e env bb) (y.arrive bb)).1)).conn =
          (exec (corazaOutputFilter e env bb) (y.arrive bb)).2.conn := rfl
      have harrive : (y.arrive bb).conn = y.conn := rfl
      exact ⟨hstands.congr rfl rfl rfl, hsettles.between harrive hconn id hquiet⟩

/-- A redirect, with the hook on the new `request_rec`. -/
theorem Exchange.Stands.redirect (h : y.Stands) (e : Engine) (lib : WafLib) (save : SaveEnv)
    (src : BodySource) (r : Request) : (y.followRedirect e lib save src r).Stands ∧
      y.Settles (y.followRedirect e lib save src r)
        (newEvents y (y.followRedirect e lib save src r)) := by
  have hattached (hctx : HasCtx y) : ∃ on : Bool, y.followRedirect e lib save src r =
      (y.internalRedirect r).updReq (fun r ↦ { r with requestConfig := on, outFilter := on }) ∧
      HasCtx (y.followRedirect e lib save src r) ∧
      newEvents y (y.followRedirect e lib save src r) = [.redirect] := by
    obtain ⟨on, hnext⟩ := followRedirect_cases e lib save src hctx r
    refine ⟨on, hnext, ?_, ?_⟩
    · rw [hnext]
      exact Or.inr (hctx.redirect r)
    · rw [hnext]
      exact newEvents_eq rfl
  have hclean : Clean [Event.redirect] := List.forall_mem_singleton.mpr id
  cases h with
  | alone h =>
    have hredirect : (y.internalRedirect r).Alone := by
      refine ⟨rfl, ?_, rfl⟩
      show (y.r.requestConfig || corazaCtxFromPrev y.prev) = false
      rw [h.config, h.prev]
      rfl
    have hasks := asks_corazaPostReadRequest e lib save src (y.internalRedirect r)
    obtain ⟨hstands, hsettles⟩ := hredirect.hook
      (corazaPostReadRequest_run e lib save src (y.internalRedirect r)) hasks
    obtain ⟨evs, htrace, -⟩ := hasks
    have hnew : newEvents y (y.followRedirect e lib save src r) = [.redirect] ++ evs ++ [] :=
      newEvents_eq (by
        rw [List.append_nil, ← List.append_assoc]
        exact htrace)
    rw [newEvents_eq htrace] at hsettles
    rw [hnew]
    have hquiet : ∀ ev ∈ [Event.redirect] ++ [], ¬ ev.Bad ∧ ev.buckets = [] := by
      simp [Event.Bad, Event.buckets]
    have hconn : (y.internalRedirect r).conn = y.conn := rfl
    exact ⟨hstands, hsettles.between hconn rfl id hquiet⟩
  | underWay hctx hcfg ht hd =>
    obtain ⟨on, hnext, hnextCtx, hnew⟩ := hattached hctx
    rw [hnew]
    rw [hnext] at hnextCtx ⊢
    exact ⟨.underWay hnextCtx id ht hd, .well hclean rfl⟩
  | denied h =>
    obtain ⟨on, hnext, hnextCtx, hnew⟩ := hattached h.1
    rw [hnew]
    rw [hnext] at hnextCtx ⊢
    exact ⟨.denied ⟨hnextCtx, h.2⟩, .well hclean rfl⟩

/-- Any step. -/
theorem Exchange.Stands.step (h : y.Stands) (e : Engine) (lib : WafLib) (save : SaveEnv)
    (src : BodySource) (env : OutEnv) (step : ChainStep) :
    (y.chainStep e lib save src env step).Stands ∧
      y.Settles (y.chainStep e lib save src env step)
        (y.stepEvents e lib save src env step) := by
  cases step with
  | output bb => exact h.output e env bb
  | redirect r => exact h.redirect e lib save src r

end

/-! ### Whole requests -/

private theorem Exchange.Settles.conn_eq {y z : Exchange} {new : List Event} (h : y.Settles z new) :
    z.conn = if new.any Event.reportsDrop then y.conn.dropped else y.conn := by
  cases h with
  | well clean conn =>
    rw [not_reportsDrop_of_silent (silent_of_clean clean)]
    exact conn
  | refuses _ _ conn => exact conn

section

variable (e : Engine) (lib : WafLib) (save : SaveEnv) (src : BodySource) (env : OutEnv)
  {s y : Exchange}

/-- A step only adds to the record. -/
theorem chainStep_trace (s : Exchange) (step : ChainStep) :
    (s.chainStep e lib save src env step).trace =
      s.trace ++ s.stepEvents e lib save src env step := by
  have hgrows : ∃ evs, (s.chainStep e lib save src env step).trace = s.trace ++ evs := by
    cases step with
    | output bb =>
      obtain ⟨evs, htrace, -⟩ := (changes_passOutput e env s bb).events
      exact ⟨evs, htrace⟩
    | redirect r =>
      obtain ⟨evs, htrace, -⟩ := asks_corazaPostReadRequest e lib save src (s.internalRedirect r)
      exact ⟨[.redirect] ++ evs, htrace.trans (List.append_assoc _ _ _)⟩
  obtain ⟨evs, htrace⟩ := hgrows
  rw [Exchange.stepEvents, newEvents_eq htrace]
  exact htrace

private theorem chain_trace (s : Exchange) (steps : List ChainStep) :
    (steps.foldl (Exchange.chainStep e lib save src env) s).trace = s.trace ++
      eventsOf (Exchange.chainStep e lib save src env)
        (Exchange.stepEvents e lib save src env) s steps := by
  induction steps generalizing s with
  | nil => exact (List.append_nil _).symm
  | cons step steps ih =>
    rw [List.foldl_cons, ih, chainStep_trace, eventsOf_cons, List.append_assoc]

/-- A drop shuts the gate to the client. -/
theorem Exchange.Stands.gate (h : y.Stands) (step : ChainStep) :
    GateStep (Exchange.chainStep e lib save src env) (Exchange.stepEvents e lib save src env)
      (·.conn.aborted) Event.buckets Event.reportsDrop y step := by
  obtain ⟨-, hsettles⟩ := h.step e lib save src env step
  cases hsettles with
  | well clean conn =>
    refine .uncut (fun ev hev ↦ ?_) (congrArg Conn.aborted conn)
    exact Bool.eq_false_iff.mpr
      (List.any_eq_false.mp (not_reportsDrop_of_silent (silent_of_clean clean)) ev hev)
  | refuses _ silent conn =>
    cases hany : (y.stepEvents e lib save src env step).any Event.reportsDrop with
    | false =>
      rw [hany] at conn
      exact .uncut (fun ev hev ↦ Bool.eq_false_iff.mpr (List.any_eq_false.mp hany ev hev))
        (congrArg Conn.aborted conn)
    | true =>
      rw [hany] at conn
      exact .cut (List.any_eq_true.mp hany) (congrArg Conn.aborted conn) silent

/-- The connection behind a run of steps. -/
theorem Exchange.Stands.conn (h : y.Stands) (steps : List ChainStep) :
    (steps.foldl (Exchange.chainStep e lib save src env) y).conn =
      if (eventsOf (Exchange.chainStep e lib save src env)
        (Exchange.stepEvents e lib save src env) y steps).any Event.reportsDrop
      then y.conn.dropped else y.conn := by
  induction steps generalizing y with
  | nil => rfl
  | cons step steps ih =>
    obtain ⟨hstands, hsettles⟩ := h.step e lib save src env step
    rw [List.foldl_cons, ih hstands, hsettles.conn_eq, eventsOf_cons, List.any_append]
    cases (y.stepEvents e lib save src env step).any Event.reportsDrop with
    | false => rw [Bool.false_or, if_neg Bool.false_ne_true]
    | true =>
      rw [Bool.true_or, if_pos rfl]
      split
      · rfl
      · rfl

/-- The hook on the first `request_rec`. -/
theorem alone_hook (h : s.Alone) :
    (exec (corazaPostReadRequest e lib save src) s).2.Stands ∧
    s.Settles (exec (corazaPostReadRequest e lib save src) s).2
      (newEvents s (exec (corazaPostReadRequest e lib save src) s).2) ∧
    (∀ ev ∈ newEvents s (exec (corazaPostReadRequest e lib save src) s).2, ev.buckets = []) ∧
    ∀ steps, newEvents s (s.served e lib save src env steps) =
      newEvents s (exec (corazaPostReadRequest e lib save src) s).2 ++
        eventsOf (Exchange.chainStep e lib save src env)
          (Exchange.stepEvents e lib save src env)
          (exec (corazaPostReadRequest e lib save src) s).2 steps := by
  have hasks := asks_corazaPostReadRequest e lib save src s
  obtain ⟨hstands, hsettles⟩ := h.hook (corazaPostReadRequest_run e lib save src s) hasks
  obtain ⟨evs, htrace, hevs⟩ := hasks
  refine ⟨hstands, hsettles, ?_, fun steps ↦ newEvents_eq ?_⟩
  · rw [newEvents_eq htrace]
    intro ev hev
    have hask := hevs ev hev
    cases ev <;> first | rfl | exact absurd hask id
  · rw [newEvents_eq htrace, ← List.append_assoc, ← htrace]
    exact chain_trace e lib save src env _ steps

end

/-- A drop ends the connection, and nothing else does. In every request, through the hook, any
number of brigades and any number of internal redirects, the connection is closed and marked
aborted exactly if the engine reported a drop; and what reaches the client is what was passed down
before it was reported. -/
theorem drop_ends_connection (e : Engine) (lib : WafLib) (save : SaveEnv) (src : BodySource)
    (env : OutEnv) (s : Exchange) (steps : List ChainStep) (hc : s.r.requestConfig = false)
    (hp : corazaCtxFromPrev s.prev = false) (ho : s.r.outFilter = false)
    (hopen : s.conn.aborted = false) :
    let hooked := (exec (corazaPostReadRequest e lib save src) s).2
    let t := s.served e lib save src env steps
    t.conn = (if (newEvents s t).any Event.reportsDrop then s.conn.dropped else s.conn) ∧
    hooked.wire e lib save src env steps =
      sent ((newEvents s t).takeWhile fun ev ↦ !ev.reportsDrop) := by
  intro hooked t
  obtain ⟨hstands, hsettles, hsilent, hevents⟩ :=
    alone_hook e lib save src env (s := s) ⟨hc, hp, ho⟩
  have hconn := hsettles.conn_eq
  have hstep (y : Exchange) (step : ChainStep) (hy : y.Stands) :=
    And.intro (hy.step e lib save src env step).1 (hy.gate e lib save src env step)
  rw [sent_eq_buckets, hevents]
  refine ⟨?_, ?_⟩
  · refine (hstands.conn e lib save src env steps).trans ?_
    rw [hconn, List.any_append]
    cases (newEvents s hooked).any Event.reportsDrop with
    | false => rw [Bool.false_or, if_neg Bool.false_ne_true]
    | true =>
      rw [Bool.true_or, if_pos rfl]
      split
      · rfl
      · rfl
  · cases hany : (newEvents s hooked).any Event.reportsDrop with
    | false =>
      rw [hany] at hconn
      have hstill : hooked.conn.aborted = false := (congrArg Conn.aborted hconn).trans hopen
      have hpos : ∀ ev ∈ newEvents s hooked, (!ev.reportsDrop) = true := by
        intro ev hev
        rw [Bool.eq_false_iff.mpr (List.any_eq_false.mp hany ev hev), Bool.not_false]
      rw [List.takeWhile_append_of_pos hpos, List.flatMap_append,
        List.flatMap_eq_nil_iff.mpr hsilent, List.nil_append]
      exact throughGate_eq Exchange.Stands hstep hstands hstill steps
    | true =>
      rw [hany] at hconn
      have hshut : hooked.conn.aborted = true := congrArg Conn.aborted hconn
      rw [takeWhile_append_of_cut (List.any_eq_true.mp hany),
        flatMap_takeWhile_of_silent hsilent]
      exact throughGate_shut Exchange.Stands hstep hstands hshut steps

/-- Nothing follows a drop reported for the second of three brigades, not even the error page of a
redirect. -/
theorem drop_ends_streamedExchange :
    ((exec (corazaPostReadRequest (blockingEngine bareDrop) acceptingLib plainSave plainBody)
      streamedExchange).2.wire (blockingEngine bareDrop) acceptingLib plainSave plainBody plainOut
      [.output [.data .heap [1]], .output [.data .heap [2]], .redirect plainRequest,
        .output [.data .heap [3], .eos]]) = [.data .heap [1]] := by
  obtain ⟨-, hwire⟩ := drop_ends_connection (blockingEngine bareDrop) acceptingLib plainSave
    plainBody plainOut streamedExchange [.output [.data .heap [1]], .output [.data .heap [2]],
      .redirect plainRequest, .output [.data .heap [3], .eos]] rfl rfl rfl rfl
  rw [hwire]
  decide +kernel

/-! ### The rest of a refused request -/

/-- What is recorded of a step that the module takes no part in. -/
def ChainStep.goesBy (on : Bool) : ChainStep → List Event
  | .output bb =>
    if on then [.receive bb, .pass bb, .returned .passed] else [.receive bb, .direct bb]
  | .redirect _ => [.redirect]

private theorem goesBy_output (bb : Brigade) (on : Bool) : (ChainStep.output bb).goesBy on =
    if on then [.receive bb, .pass bb, .returned .passed] else [.receive bb, .direct bb] := rfl

/-- The brigades of a chain, in one. -/
def outputs (steps : List ChainStep) : Brigade :=
  steps.flatMap fun
    | .output bb => bb
    | .redirect _ => []

section

variable (e : Engine) (lib : WafLib) (save : SaveEnv) (src : BodySource) (env : OutEnv)
  {s y : Exchange}

/-- A step of a refused request. -/
structure PassesBy (y z : Exchange) : Prop where
  denied : z.Denied
  ctx : z.ctx = y.ctx
  conn : z.conn = y.conn
  process : z.process = y.process

private theorem PassesBy.trans {x : Exchange} (h : PassesBy x y) {z : Exchange}
    (h' : PassesBy y z) :
    PassesBy x z :=
  ⟨h'.denied, h'.ctx.trans h.ctx, h'.conn.trans h.conn, h'.process.trans h.process⟩

private theorem Exchange.Denied.step (h : y.Denied) (step : ChainStep) :
    PassesBy y (y.chainStep e lib save src env step) ∧
      y.stepEvents e lib save src env step = step.goesBy y.r.outFilter := by
  cases step with
  | output bb =>
    cases hon : y.r.outFilter with
    | false =>
      have hpass : y.chainStep e lib save src env (.output bb) =
          (y.arrive bb).log (.direct bb) := passOutput_off e env bb hon
      rw [Exchange.stepEvents, hpass]
      exact ⟨⟨h, rfl, rfl, rfl⟩, newEvents_eq (by simp [ChainStep.goesBy])⟩
    | true =>
      have hpass : y.chainStep e lib save src env (.output bb) =
          ((y.arrive bb).removeOutputFilter.log (.pass bb)).log (.returned .passed) :=
        passOutput_triggered e env bb h.2 hon
      rw [Exchange.stepEvents, hpass]
      exact ⟨⟨h, rfl, rfl, rfl⟩, newEvents_eq
        (by simp [ChainStep.goesBy, Exchange.removeOutputFilter])⟩
  | redirect r =>
    obtain ⟨on, hnext⟩ := followRedirect_cases e lib save src h.1 r
    have hpass : y.chainStep e lib save src env (.redirect r) = (y.internalRedirect r).updReq
        fun r ↦ { r with requestConfig := on, outFilter := on } := hnext
    rw [Exchange.stepEvents, hpass]
    exact ⟨⟨⟨Or.inr (h.1.redirect r), h.2⟩, rfl, rfl, rfl⟩, newEvents_eq rfl⟩

/-- All the steps that follow. -/
theorem Exchange.Denied.run (h : y.Denied) (steps : List ChainStep) :
    PassesBy y (steps.foldl (Exchange.chainStep e lib save src env) y) ∧
    eventsOf (Exchange.chainStep e lib save src env) (Exchange.stepEvents e lib save src env) y
      steps = (visits (Exchange.chainStep e lib save src env) y steps).flatMap
        fun v ↦ v.2.goesBy v.1.r.outFilter := by
  induction steps generalizing y with
  | nil => exact ⟨⟨h, rfl, rfl, rfl⟩, rfl⟩
  | cons step steps ih =>
    obtain ⟨hstep, hevents⟩ := h.step e lib save src env step
    obtain ⟨hrest, hrestEvents⟩ := ih hstep.denied
    refine ⟨hstep.trans hrest, ?_⟩
    rw [eventsOf_cons, hevents, hrestEvents, visits_cons, List.flatMap_cons]

/-- A run of steps in which something failed or was reported has refused the request. -/
theorem Exchange.Stands.clean_or_denied (h : y.Stands) (steps : List ChainStep) :
    Clean (eventsOf (Exchange.chainStep e lib save src env)
      (Exchange.stepEvents e lib save src env) y steps) ∨
    (steps.foldl (Exchange.chainStep e lib save src env) y).Denied := by
  induction steps generalizing y with
  | nil => exact Or.inl clean_nil
  | cons step steps ih =>
    obtain ⟨hstands, hsettles⟩ := h.step e lib save src env step
    cases hsettles with
    | well clean _ =>
      rw [eventsOf_cons]
      exact (ih hstands).imp_left fun hrest ↦ clean_append.mpr ⟨clean, hrest⟩
    | refuses denied _ _ => exact Or.inr (denied.run e lib save src env steps).1.denied

end

/-- Every brigade goes down as it is. -/
theorem sent_goesBy (step : Exchange → ChainStep → Exchange) (s : Exchange)
    (steps : List ChainStep) :
    sent ((visits step s steps).flatMap fun v ↦ v.2.goesBy v.1.r.outFilter) = outputs steps := by
  induction steps generalizing s with
  | nil => rfl
  | cons st steps ih =>
    have hfirst : sent (st.goesBy s.r.outFilter) = outputs [st] := by
      cases st with
      | output bb =>
        rw [goesBy_output]
        split
        · simp [sent, outputs]
        · simp [sent, outputs]
      | redirect r => rfl
    rw [visits_cons, List.flatMap_cons, sent_append, ih, hfirst]
    exact List.flatMap_append.symm

private theorem not_call_goesBy {step : ChainStep} {on : Bool} {c : EngineCall} {rc : Int} :
    .call c rc ∉ step.goesBy on := by
  cases step with
  | output bb =>
    rw [goesBy_output]
    split
    · simp
    · simp
  | redirect r => simp [ChainStep.goesBy]

/-- The end of a request writes at most one audit entry. -/
theorem finish_logs (e : Engine) (y : Exchange) : ∃ logs, (y.finish e).trace = y.trace ++ logs ∧
    logs.length ≤ 1 ∧ ∀ ev ∈ logs, ∃ rc, ev = .call .processLogging rc := by
  unfold Exchange.finish
  rcases Exchange.corazaLogTransaction_cases e { y with r := y.first, prev := [] } with
    hlog | ⟨-, rc, hlog⟩
  · rw [hlog]
    exact ⟨[], (List.append_nil _).symm, Nat.zero_le 1, fun ev hev ↦ (by cases hev)⟩
  · rw [hlog]
    exact ⟨[.call .processLogging rc], rfl, Nat.le_refl 1,
      List.forall_mem_singleton.mpr ⟨rc, rfl⟩⟩

/-- After a refusal the module is out of the way. Once an engine call failed or an intervention was
reported, in any phase, on any `request_rec` of the chain: through all the brigades and internal
redirects that follow, context, connection and process state stay as they are, every brigade goes
down at once and unchanged, and nothing is asked of the engine but to write the audit entry, once,
when the request ends. -/
theorem refused_chain_goes_by (e : Engine) (lib : WafLib) (save : SaveEnv) (src : BodySource)
    (env : OutEnv) (s : Exchange) (before after : List ChainStep)
    (hc : s.r.requestConfig = false) (hp : corazaCtxFromPrev s.prev = false)
    (ho : s.r.outFilter = false)
    (hbad : ¬ Clean (newEvents s (s.served e lib save src env before))) :
    let t := s.served e lib save src env before
    let u := s.served e lib save src env (before ++ after)
    PassesBy t u ∧ sent (newEvents t u) = outputs after ∧
    newEvents t u = (visits (Exchange.chainStep e lib save src env) t after).flatMap
      (fun v ↦ v.2.goesBy v.1.r.outFilter) ∧
    loggings (newEvents t (u.finish e)) ≤ 1 ∧
    ∀ c rc, .call c rc ∈ newEvents t (u.finish e) → c = .processLogging := by
  intro t u
  obtain ⟨hstands, hsettles, -, hevents⟩ :=
    alone_hook e lib save src env (s := s) ⟨hc, hp, ho⟩
  have hdenied : t.Denied := by
    rw [hevents] at hbad
    cases hsettles with
    | well clean _ =>
      refine (hstands.clean_or_denied e lib save src env before).resolve_left fun hrest ↦ ?_
      exact hbad (clean_append.mpr ⟨clean, hrest⟩)
    | refuses denied _ _ => exact (denied.run e lib save src env before).1.denied
  obtain ⟨hpasses, hgoesBy⟩ := hdenied.run e lib save src env after
  have hu : u = after.foldl (Exchange.chainStep e lib save src env) t := List.foldl_append
  have htrace := chain_trace e lib save src env t after
  rw [← hu, hgoesBy] at htrace
  rw [← hu] at hpasses
  have hcalls : ∀ c rc, .call c rc ∉ newEvents t u := by
    intro c rc hmem
    rw [newEvents_eq htrace] at hmem
    obtain ⟨v, -, hv⟩ := List.mem_flatMap.mp hmem
    exact not_call_goesBy hv
  have hzero : loggings (newEvents t u) = 0 := loggings_eq_zero fun rc ↦ hcalls _ rc
  have hsent : sent (newEvents t u) = outputs after := by
    rw [newEvents_eq htrace]
    exact sent_goesBy _ t after
  obtain ⟨logs, hfinish, hlogs⟩ := finish_logs e u
  have hlast : newEvents t (u.finish e) = newEvents t u ++ logs := by
    rw [newEvents_eq htrace]
    apply newEvents_eq
    rw [hfinish, htrace, List.append_assoc]
  refine ⟨hpasses, hsent, newEvents_eq htrace, ?_, fun c rc hmem ↦ ?_⟩
  · rw [hlast, loggings_append, hzero, Nat.zero_add]
    exact (List.countP_le_length).trans hlogs.1
  · rw [hlast] at hmem
    rcases List.mem_append.mp hmem with hmem | hmem
    · exact absurd hmem (hcalls c rc)
    · obtain ⟨rc', hcall⟩ := hlogs.2 _ hmem
      exact (Event.call.inj hcall).1

/-- The error page of a deny in the second brigade goes down whole. -/
theorem refused_streamedExchange_goes_by :
    sent (newEvents (streamedExchange.served (blockingEngine bareDeny) acceptingLib plainSave
      plainBody plainOut [.output [.data .heap [1]], .output [.data .heap [2]]])
      (streamedExchange.served (blockingEngine bareDeny) acceptingLib plainSave plainBody plainOut
        ([.output [.data .heap [1]], .output [.data .heap [2]]] ++
          [.redirect plainRequest, .output [.data .heap [3], .eos]]))) =
      [.data .heap [3], .eos] :=
  (refused_chain_goes_by (blockingEngine bareDeny) acceptingLib plainSave plainBody plainOut
    streamedExchange [.output [.data .heap [1]], .output [.data .heap [2]]]
    [.redirect plainRequest, .output [.data .heap [3], .eos]] rfl rfl rfl (by decide +kernel)).2.1

end CorazaApache.Http
