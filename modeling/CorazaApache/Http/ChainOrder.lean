import CorazaApache.Http.RefusedChain

/-!
# The engine protocol over a chain of redirects

The marks on the context outlive the `request_rec` they were made on. As long as the filter is
only asked about the response of one of them, the calls of all the hooks and filters of the chain
keep the one order of the engine; `src/mod_coraza_phase1.c:131–149`,
`src/mod_coraza_filter_out.c:169–172`.
-/

namespace CorazaApache.Http
open CorazaApache.Base CorazaApache.Base.Prog CorazaApache.Config CorazaApache.Apr

/-- Events without a place in the protocol that report nothing. -/
def Harmless (evs : List Event) : Prop := ∀ ev ∈ evs, ev.Placeless ∧ ¬ ev.Bad

section

variable {base evs pre : List Event} {y z : Exchange}

private theorem Harmless.placeless (h : Harmless evs) : ∀ ev ∈ evs, ev.Placeless :=
  fun ev hev ↦ (h ev hev).1

private theorem Harmless.clean (h : Harmless evs) : Clean evs := fun ev hev ↦ (h ev hev).2

private theorem Harmless.script (h : Harmless evs) (free : Nat) : Script free evs :=
  (script_nil free).skip h.placeless h.clean

private theorem harmless_append {a b : List Event} : Harmless (a ++ b) ↔ Harmless a ∧ Harmless b :=
  List.forall_mem_append

/-- The rule does not look at them. -/
theorem Harmless.rule (h : Harmless pre) {past : List Event} {ev : Event}
    (hrule : ProtocolRule past ev) : ProtocolRule (pre ++ past) ev := by
  intro c rc n hev hn
  obtain ⟨horder, hclean⟩ := hrule c rc n hev hn
  refine ⟨fun c' rc' n' hmem hn' ↦ ?_, fun hc ↦ clean_append.mpr ⟨h.clean, hclean hc⟩⟩
  rcases List.mem_append.mp hmem with hmem | hmem
  · have hplace := (h _ hmem).1 c' rc' rfl
    rw [hplace] at hn'
    cases hn'
  · exact horder c' rc' n' hmem hn'

private theorem Harmless.along (h : Harmless pre) (hrule : Along ProtocolRule evs) :
    Along ProtocolRule (pre ++ evs) := by
  refine along_append.mpr ⟨(h.script 0).rule, fun a ev b heq ↦ ?_⟩
  exact h.rule (hrule a ev b heq)

private theorem Harmless.upTo (h : Harmless pre) {free : Nat} (hevs : UpTo free evs) :
    UpTo free (pre ++ evs) := by
  intro c rc n hmem hn
  rcases List.mem_append.mp hmem with hmem | hmem
  · have hplace := (h _ hmem).1 c rc rfl
    rw [hplace] at hn
    cases hn
  · exact hevs c rc n hmem hn

/-- What the marks on the context say about the chain since `base`. The filter is only ever asked
about one response, so the free place behind phase 3 is promised where a brigade of the current
`request_rec` has come to it. -/
structure ChainOrdered (base : List Event) (y : Exchange) (evs : List Event) : Prop where
  trace : y.trace = base ++ evs
  ctx : HasCtx y
  config : y.r.outFilter = true → y.r.requestConfig = true
  rule : Along ProtocolRule evs
  unlogged : y.ctx.logged = false → UpTo 10 evs
  clean : y.ctx.interventionTriggered = false → Script 10 evs
  early : y.ctx.interventionTriggered = false → y.ctx.phase3Done = false → UpTo 6 evs
  late : y.r.outFilter = true → y.ctx.interventionTriggered = false → y.ctx.phase3Done = true →
    (∃ bb, .receive bb ∈ segment y.trace) → UpTo 8 evs

/-- A step that only leaves harmless events, and takes the filter off or starts a new segment. -/
theorem ChainOrdered.append (h : ChainOrdered base y evs) {new : List Event} (hnew : Harmless new)
    (htrace : z.trace = y.trace ++ new) (hctx : z.ctx = y.ctx) (hhas : HasCtx z)
    (hconfig : z.r.outFilter = true → z.r.requestConfig = true)
    (hidle : z.r.outFilter = true → z.ctx.interventionTriggered = false →
      ∀ bb, .receive bb ∉ segment z.trace) : ChainOrdered base z (evs ++ new) := by
  refine ⟨?_, hhas, hconfig, along_placeless h.rule hnew.placeless, fun hl ↦ ?_, fun ht ↦ ?_,
    fun ht h3 ↦ ?_, fun hon ht _ ↦ ?_⟩
  · rw [htrace, h.trace, List.append_assoc]
  · rw [hctx] at hl
    exact (h.unlogged hl).placeless hnew.placeless
  · rw [hctx] at ht
    exact (h.clean ht).skip hnew.placeless hnew.clean
  · rw [hctx] at ht h3
    exact (h.early ht h3).placeless hnew.placeless
  · rintro ⟨bb, hbb⟩
    exact absurd hbb (hidle hon ht bb)

/-- What a run of the filter leaves. -/
theorem chainOrdered_of_ordered (h : Ordered base y evs) (hctx : HasCtx y)
    (h3 : y.ctx.interventionTriggered = false → y.ctx.phase3Done = true) :
    ChainOrdered base y evs := by
  refine ⟨h.trace, hctx, fun hon ↦ (h.filter hon).1, h.rule, h.unlogged, h.clean,
    fun ht hnot ↦ ?_, fun hon ht hdone _ ↦ ?_⟩
  · exact absurd (hnot.symm.trans (h3 ht)) Bool.false_ne_true
  · have hupTo := (h.filter hon).2 ht
    rwa [hdone] at hupTo

private theorem FilterEnds.phase3Done {env : OutEnv} {bb : Brigade} {st : FilterStatus}
    (h : FilterEnds env bb base y st z) (ht : z.ctx.interventionTriggered = false) :
    z.ctx.phase3Done = true := by
  cases h with
  | carried _ _ hdone => exact hdone
  | failed _ _ _ _ _ _ _ _ hexit =>
    exact absurd (ht.symm.trans hexit.triggered) Bool.false_ne_true
  | enforced _ _ _ _ _ hexit =>
    split at hexit
    · exact absurd (ht.symm.trans hexit.triggered) Bool.false_ne_true
    · exact absurd (ht.symm.trans hexit.triggered) Bool.false_ne_true

/-- A brigade of the one response that comes to the filter. -/
theorem ChainOrdered.output (h : ChainOrdered base y evs) (e : Engine) (env : OutEnv)
    (bb : Brigade) (hfirst : FirstResponse y (.output bb)) :
    ∃ evs', ChainOrdered base (y.passOutput e env bb) evs' := by
  cases hon : y.r.outFilter with
  | false =>
    have hoff : ((y.arrive bb).log (.direct bb)).r.outFilter = true → False :=
      fun h ↦ Bool.false_ne_true (hon.symm.trans h)
    have hnew : Harmless [.receive bb, .direct bb] := by
      simp [Harmless, placeless_receive, placeless_direct, Event.Bad]
    rw [passOutput_off e env bb hon]
    exact ⟨_, h.append hnew (by simp) rfl h.ctx (fun h ↦ (hoff h).elim) fun h ↦ (hoff h).elim⟩
  | true =>
    cases ht : y.ctx.interventionTriggered with
    | true =>
      have hnew : Harmless [.receive bb, .pass bb, .returned .passed] := by
        simp [Harmless, placeless_receive, placeless_pass, placeless_returned, Event.Bad]
      rw [passOutput_triggered e env bb ht hon]
      exact ⟨_, h.append hnew (by simp [Exchange.removeOutputFilter]) rfl h.ctx
        (fun h ↦ (by cases h)) fun h ↦ (by cases h)⟩
    | false =>
      have hfree : UpTo (if y.ctx.phase3Done then 8 else 6) evs := by
        cases h3 : y.ctx.phase3Done with
        | false => exact h.early ht h3
        | true => exact h.late hon ht h3 (hfirst hon h3)
      have hplace : ∀ ev ∈ [Event.receive bb], ev.Placeless :=
        List.forall_mem_singleton.mpr (placeless_receive bb)
      have hclean : Clean [Event.receive bb] := by simp [Clean, Event.Bad]
      have hwalk : Walk base (y.arrive bb) (if y.ctx.phase3Done then 8 else 6)
          (y.arrive bb) := by
        refine ⟨⟨evs ++ [.receive bb], ?_, ?_⟩, rfl, rfl, rfl, h.config hon, ht, rfl, rfl⟩
        · rw [Exchange.arrive_trace, h.trace, List.append_assoc]
        · exact Script.skip ⟨h.rule, (h.clean ht).clean, hfree⟩ hplace hclean
      have hends := corazaOutputFilter_ends e env bb hwalk
      have hconfig : (y.passOutput e env bb).r.requestConfig = y.r.requestConfig :=
        congrArg (·.2.2.requestConfig) (changes_passOutput e env y bb).fixed
      have hhas : HasCtx (y.passOutput e env bb) := Or.inl (hconfig.trans (h.config hon))
      obtain ⟨evs', hordered⟩ := ordered_of_filterEnds hends
      rw [passOutput_on e env bb hon] at hhas ⊢
      have hnew (st : FilterStatus) : ∀ ev ∈ [Event.returned st], ev.Placeless ∧ ¬ ev.Bad :=
        List.forall_mem_singleton.mpr ⟨placeless_returned st, fun hb ↦ hb⟩
      exact ⟨_, chainOrdered_of_ordered (hordered.append (hnew _) rfl rfl id rfl) hhas
        hends.phase3Done⟩

/-- A redirect starts a new segment. -/
theorem ChainOrdered.redirect (h : ChainOrdered base y evs) (e : Engine) (lib : WafLib)
    (save : SaveEnv) (src : BodySource) (r : Request) :
    ChainOrdered base (y.followRedirect e lib save src r) (evs ++ [.redirect]) := by
  obtain ⟨on, hnext⟩ := followRedirect_cases e lib save src h.ctx r
  rw [hnext]
  refine h.append ?_ rfl rfl (Or.inr (h.ctx.redirect r)) id fun _ _ bb hbb ↦ ?_
  · simp [Harmless, Event.Placeless, Event.Bad]
  · have hseg : segment ((y.internalRedirect r).updReq fun r ↦
        { r with requestConfig := on, outFilter := on }).trace = [] := segment_redirect y.trace
    rw [hseg] at hbb
    cases hbb

/-! ### Before there is a context -/

private theorem ChainOrdered.behind (h : ChainOrdered (base ++ pre) y evs) (hpre : Harmless pre) :
    ChainOrdered base y (pre ++ evs) where
  trace := by rw [h.trace, List.append_assoc]
  ctx := h.ctx
  config := h.config
  rule := hpre.along h.rule
  unlogged hl := hpre.upTo (h.unlogged hl)
  clean ht := ⟨hpre.along h.rule, clean_append.mpr ⟨hpre.clean, (h.clean ht).clean⟩,
    hpre.upTo (h.clean ht).upTo⟩
  early ht h3 := hpre.upTo (h.early ht h3)
  late hon ht h3 hseg := hpre.upTo (h.late hon ht h3 hseg)

/-- The chain so far is in order, with a context or without one. -/
def OnChain (base : List Event) (y : Exchange) : Prop :=
  (y.Alone ∧ ∃ pre, y.trace = base ++ pre ∧ Harmless pre) ∨ ∃ evs, ChainOrdered base y evs

/-- The hook on a chain without a context. -/
theorem onChain_hook {lib : WafLib} (h : y.Alone) (htrace : y.trace = base ++ pre)
    (hpre : Harmless pre) {v : Int} (hrun : HookRun lib y v z) : OnChain base z := by
  have htriggered {evs : List Event} (hz : z.trace = y.trace ++ evs)
      (hrule : Along ProtocolRule evs) (hlog : z.ctx.logged = false → UpTo 10 evs)
      (hconfig : z.r.requestConfig = true) (ht : z.ctx.interventionTriggered = true) :
      OnChain base z := by
    have hnot {P : Prop} (hf : z.ctx.interventionTriggered = false) : P :=
      absurd (hf.symm.trans ht) Bool.false_ne_true
    rw [htrace] at hz
    have hordered : ChainOrdered (base ++ pre) z evs :=
      ⟨hz, Or.inl hconfig, fun _ ↦ hconfig, hrule, hlog, hnot, hnot, fun _ hf ↦ hnot hf⟩
    exact Or.inr ⟨_, hordered.behind hpre⟩
  cases hrun with
  | skipped _ => exact Or.inl ⟨h, pre, htrace, hpre⟩
  | reused _ hprev => exact absurd (h.prev.symm.trans hprev) Bool.false_ne_true
  | refused _ _ _ => exact Or.inl ⟨⟨h.config, h.prev, h.filter⟩, pre, htrace, hpre⟩
  | ran _ _ _ hends hchanges =>
    cases hends with
    | plain hw =>
      obtain ⟨evs, hz, hs⟩ := hw.script
      have h3 : z.ctx.phase3Done = false := congrArg CorazaRequestCtx.phase3Done hchanges.2
      rw [htrace] at hz
      have hordered : ChainOrdered (base ++ pre) z evs :=
        ⟨hz, Or.inl hw.config, fun _ ↦ hw.config, hs.rule, fun _ ↦ hs.upTo.mono (by decide),
          fun _ ↦ hs.mono (by decide), fun _ _ ↦ hs.upTo, fun _ _ hdone ↦
            absurd (h3.symm.trans hdone) Bool.false_ne_true⟩
      exact Or.inr ⟨_, hordered.behind hpre⟩
    | failed hz hrule hupTo _ _ hconfig ht _ =>
      exact htriggered hz hrule (fun _ ↦ hupTo.mono (by decide)) hconfig ht
    | enforced hz hevents hconfig ht hlogged _ =>
      refine htriggered hz (hevents.rule (by decide)) (fun hl ↦ ?_) hconfig ht
      exact absurd (hl.symm.trans hlogged) Bool.false_ne_true

/-- A step of a chain on which one response comes to the filter. -/
theorem OnChain.step (h : OnChain base y) (e : Engine) (lib : WafLib) (save : SaveEnv)
    (src : BodySource) (env : OutEnv) (step : ChainStep) (hfirst : FirstResponse y step) :
    OnChain base (y.chainStep e lib save src env step) := by
  rcases h with ⟨halone, pre, htrace, hpre⟩ | ⟨evs, hordered⟩
  · cases step with
    | output bb =>
      have hpass : y.chainStep e lib save src env (.output bb) =
          (y.arrive bb).log (.direct bb) := passOutput_off e env bb halone.filter
      rw [hpass]
      refine Or.inl ⟨⟨halone.config, halone.prev, halone.filter⟩,
        pre ++ [.receive bb, .direct bb], ?_, harmless_append.mpr ⟨hpre, ?_⟩⟩
      · rw [Exchange.log_trace, Exchange.arrive_trace, htrace]
        simp
      · simp [Harmless, placeless_receive, placeless_direct, Event.Bad]
    | redirect r =>
      have hnext : (y.internalRedirect r).trace = base ++ (pre ++ [.redirect]) := by
        rw [← List.append_assoc, ← htrace]
        rfl
      refine onChain_hook ⟨rfl, ?_, rfl⟩ hnext (harmless_append.mpr ⟨hpre, ?_⟩)
        (corazaPostReadRequest_run e lib save src (y.internalRedirect r))
      · show (y.r.requestConfig || corazaCtxFromPrev y.prev) = false
        rw [halone.config, halone.prev]
        rfl
      · simp [Harmless, Event.Placeless, Event.Bad]
  · cases step with
    | output bb => exact Or.inr (hordered.output e env bb hfirst)
    | redirect r => exact Or.inr ⟨_, hordered.redirect e lib save src r⟩

end

/-- The engine protocol over a chain. In every request on whose chain of internal redirects no
second response comes to the filter, each call of all the hooks, filters and the log comes behind
the calls of earlier places, each phase is run at most once, and behind a failure or an
intervention nothing is fed or run any more but the log. -/
theorem chain_protocol_order (e : Engine) (lib : WafLib) (save : SaveEnv) (src : BodySource)
    (env : OutEnv) (s : Exchange) (steps : List ChainStep) (hc : s.r.requestConfig = false)
    (hp : corazaCtxFromPrev s.prev = false) (ho : s.r.outFilter = false)
    (hfirst : ∀ v ∈ visits (Exchange.chainStep e lib save src env)
      (exec (corazaPostReadRequest e lib save src) s).2 steps, FirstResponse v.1 v.2) :
    Along ProtocolRule (newEvents s ((s.served e lib save src env steps).finish e)) := by
  have hstart : OnChain s.trace (exec (corazaPostReadRequest e lib save src) s).2 :=
    onChain_hook ⟨hc, hp, ho⟩ (List.append_nil _).symm (fun ev hev ↦ (by cases hev))
      (corazaPostReadRequest_run e lib save src s)
  have hend : OnChain s.trace (s.served e lib save src env steps) :=
    (visits_invariant (fun y step hy hstep ↦ hy.step e lib save src env step hstep) hstart
      hfirst).1
  obtain ⟨evs, htrace, hrule, hlog⟩ : ∃ evs, (s.served e lib save src env steps).trace =
      s.trace ++ evs ∧ Along ProtocolRule evs ∧
      ((s.served e lib save src env steps).ctx.logged = false → UpTo 10 evs) := by
    rcases hend with ⟨-, pre, htrace, hpre⟩ | ⟨evs, hordered⟩
    · exact ⟨pre, htrace, (hpre.script 10).rule, fun _ ↦ (hpre.script 10).upTo⟩
    · exact ⟨evs, hordered.trace, hordered.rule, hordered.unlogged⟩
  unfold Exchange.finish
  rcases Exchange.corazaLogTransaction_cases e { s.served e lib save src env steps with
      r := (s.served e lib save src env steps).first, prev := [] } with hsame | ⟨hl, rc, hcall⟩
  · rw [hsame]
    rw [← newEvents_eq htrace] at hrule
    exact hrule
  · have hnew : newEvents s (({ s.served e lib save src env steps with
        r := (s.served e lib save src env steps).first, prev := [] }.updCtx fun c ↦
          { c with logged := true }).log (.call .processLogging rc)) =
        evs ++ [.call .processLogging rc] :=
      newEvents_eq (by rw [← List.append_assoc, ← htrace]; rfl)
    rw [hcall, hnew]
    refine along_append.mpr ⟨hrule, alongFrom_cons.mpr ⟨?_, alongFrom_nil _⟩⟩
    exact rule_of_upTo (hlog hl) rfl (Nat.le_refl 10) (fun hn ↦ absurd rfl hn) rc

/-- A request with a body whose response comes from the second `request_rec`. -/
theorem plainExchange_chain_protocol :
    Along ProtocolRule (newEvents plainExchange ((plainExchange.served quietEngine acceptingLib
      plainSave plainBody plainOut
      [.redirect plainRequest, .output [.data .heap [1], .eos]]).finish quietEngine)) := by
  refine chain_protocol_order quietEngine acceptingLib plainSave plainBody plainOut plainExchange
    [.redirect plainRequest, .output [.data .heap [1], .eos]] rfl rfl rfl ?_
  rw [visits_cons, visits_cons, visits_nil]
  refine List.forall_mem_cons.mpr ⟨trivial, List.forall_mem_singleton.mpr fun _ h3 ↦ ?_⟩
  exact absurd h3 (by decide +kernel)

end CorazaApache.Http
