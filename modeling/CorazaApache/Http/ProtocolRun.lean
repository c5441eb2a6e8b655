import CorazaApache.Http.FilterOrder
import CorazaApache.Http.Conservation

/-!
# The engine protocol over a whole request

Fixups, any number of filter invocations and the log hook on one `request_rec`. Three separate
functions keep one order, through the marks on the context and through the filter that takes
itself off the chain; the invariant says what the marks stand for in the events.
-/

namespace CorazaApache.Http
open CorazaApache.Base CorazaApache.Base.Prog CorazaApache.Config CorazaApache.Apr

namespace Exchange

/-- A `request_rec` behind the fixups hook, with the brigades its handler passed. -/
def afterOutput (e : Engine) (lib : WafLib) (save : SaveEnv) (src : BodySource) (env : OutEnv)
    (s : Exchange) (bbs : List Brigade) : Exchange :=
  (exec (corazaPostReadRequest e lib save src) s).2.passOutputs e env bbs

/-- A whole run on one `request_rec`: fixups, the response, and the log hook. -/
def runRequest (e : Engine) (lib : WafLib) (save : SaveEnv) (src : BodySource) (env : OutEnv)
    (s : Exchange) (bbs : List Brigade) : Exchange :=
  (s.afterOutput e lib save src env bbs).corazaLogTransaction e

end Exchange

/-- What the marks on the context say about the events since `base`. -/
structure Ordered (base : List Event) (y : Exchange) (evs : List Event) : Prop where
  trace : y.trace = base ++ evs
  rule : Along ProtocolRule evs
  unlogged : y.ctx.logged = false → UpTo 10 evs
  clean : y.ctx.interventionTriggered = false → Script 10 evs
  filter : y.r.outFilter = true → y.r.requestConfig = true ∧
    (y.ctx.interventionTriggered = false → UpTo (if y.ctx.phase3Done then 8 else 6) evs)

section

variable {base evs : List Event} {y : Exchange}

/-- The arrival of a brigade has no place. -/
theorem placeless_receive (bb : Brigade) : (Event.receive bb).Placeless := by
  intro c rc h
  cases h

/-- Neither has one that is passed on. -/
theorem placeless_pass (bb : Brigade) : (Event.pass bb).Placeless := by
  intro c rc h
  cases h

/-- Neither has one that meets no filter. -/
theorem placeless_direct (bb : Brigade) : (Event.direct bb).Placeless := by
  intro c rc h
  cases h

/-- Neither has the return of the filter. -/
theorem placeless_returned (st : FilterStatus) : (Event.returned st).Placeless := by
  intro c rc h
  cases h

private theorem placeless_die (status : Int) : (Event.die status).Placeless := by
  intro c rc h
  cases h

/-- Events that have no place and report nothing. -/
theorem Ordered.append (h : Ordered base y evs) {z : Exchange} {new : List Event}
    (hnew : ∀ ev ∈ new, ev.Placeless ∧ ¬ ev.Bad) (htrace : z.trace = y.trace ++ new)
    (hctx : z.ctx = y.ctx) (hfilter : z.r.outFilter = true → y.r.outFilter = true)
    (hconfig : z.r.requestConfig = y.r.requestConfig) : Ordered base z (evs ++ new) := by
  have hplace : ∀ ev ∈ new, ev.Placeless := fun ev hev ↦ (hnew ev hev).1
  have hclean : Clean new := fun ev hev ↦ (hnew ev hev).2
  refine ⟨?_, along_placeless h.rule hplace, fun hl ↦ ?_, fun ht ↦ ?_, fun ho ↦ ?_⟩
  · rw [htrace, h.trace, List.append_assoc]
  · rw [hctx] at hl
    exact (h.unlogged hl).placeless hplace
  · rw [hctx] at ht
    exact (h.clean ht).skip hplace hclean
  · rw [hconfig, hctx]
    exact ⟨(h.filter (hfilter ho)).1, fun ht ↦
      ((h.filter (hfilter ho)).2 ht).placeless hplace⟩

/-- An intervention that is not logged early leaves the log its place. -/
theorem Intervenes.upTo {s : Exchange} {free : Nat} {i : Intervention}
    (h : Intervenes false s free i evs) : UpTo free evs := by
  obtain ⟨pre, rc, logs, hs, hlog, rfl⟩ := h
  obtain rfl : logs = [] := by
    rcases hlog with ⟨hf, -⟩ | ⟨-, hnil⟩
    · cases hf
    · exact hnil
  exact hs.upTo.placeless (List.forall_mem_cons.mpr
    ⟨placeless_poll _, List.forall_mem_singleton.mpr (placeless_call rfl)⟩)

/-- A refused response: order is all that is left to say. -/
theorem ordered_of_triggered (htrace : y.trace = base ++ evs) (hrule : Along ProtocolRule evs)
    (hupTo : UpTo 10 evs) (ht : y.ctx.interventionTriggered = true)
    (hconfig : y.r.requestConfig = true) : Ordered base y evs :=
  ⟨htrace, hrule, fun _ ↦ hupTo, fun hf ↦ absurd (hf.symm.trans ht) Bool.false_ne_true, fun _ ↦
    ⟨hconfig, fun hf ↦ absurd (hf.symm.trans ht) Bool.false_ne_true⟩⟩

/-- What an invocation leaves is ordered. -/
theorem ordered_of_filterEnds {env : OutEnv} {bb : Brigade} {s : Exchange} {st : FilterStatus}
    (h : FilterEnds env bb base s st y) : ∃ evs, Ordered base y evs := by
  have hend {dies : List Event} {status : Int} (hd : dies = [] ∨ dies = [.die status]) :
      ∀ ev ∈ dies, ev.Placeless := by
    rcases hd with rfl | rfl
    · simp
    · exact List.forall_mem_singleton.mpr (placeless_die status)
  have hanswers {status : Int} {z : Exchange} {evs : List Event} (hrule : Along ProtocolRule evs)
      (hupTo : UpTo 10 evs) (htrace : z.trace = base ++ evs) (hconfig : z.r.requestConfig = true)
      (ha : Answers status z st y) : ∃ evs, Ordered base y evs := by
    obtain ⟨dies, hdies, hd⟩ : ∃ dies, y.trace = z.trace ++ dies ∧
        (dies = [] ∨ dies = [.die status]) := by
      rcases ha.answer with ⟨-, ht⟩ | ⟨-, ht, -⟩
      · exact ⟨_, ht, Or.inr rfl⟩
      · exact ⟨[], by rw [ht, List.append_nil], Or.inl rfl⟩
    refine ⟨evs ++ dies, ordered_of_triggered ?_ (along_placeless hrule (hend hd))
      (hupTo.placeless (hend hd)) ha.triggered (ha.config.trans hconfig)⟩
    rw [hdies, htrace, List.append_assoc]
  cases h with
  | carried hw _ h3 hleft _ =>
    obtain ⟨evs, htrace, hs⟩ := hw.script
    refine ⟨evs, htrace, hs.rule, fun _ ↦ hs.upTo, fun _ ↦ hs, fun hon ↦ ⟨hw.config, fun _ ↦ ?_⟩⟩
    obtain ⟨evs', htrace', hs'⟩ := (hleft hon).script
    obtain rfl : evs' = evs := List.append_cancel_left (htrace'.symm.trans htrace)
    rw [h3]
    exact hs'.upTo
  | failed htrace hrule hupTo _ _ hconfig _ _ hexit _ =>
    exact hanswers hrule hupTo htrace hconfig hexit
  | enforced htrace hevents _ hconfig _ hexit _ =>
    have hrule := hevents.rule (Nat.le_refl 10)
    have hupTo := hevents.upTo
    split at hexit
    · refine ⟨_, ordered_of_triggered ?_ hrule hupTo hexit.triggered
        (hexit.config.trans hconfig)⟩
      rw [hexit.answer.2, htrace]
    · exact hanswers hrule hupTo htrace hconfig hexit

/-- Every brigade keeps the order. -/
theorem Ordered.output (e : Engine) (env : OutEnv) (bb : Brigade) (h : Ordered base y evs) :
    ∃ evs', Ordered base (y.passOutput e env bb) evs' := by
  cases hon : y.r.outFilter with
  | false =>
    have hnew : ∀ ev ∈ [Event.receive bb, .direct bb], ev.Placeless ∧ ¬ ev.Bad :=
      List.forall_mem_cons.mpr ⟨⟨placeless_receive bb, fun hb ↦ hb⟩,
        List.forall_mem_singleton.mpr ⟨placeless_direct bb, fun hb ↦ hb⟩⟩
    refine ⟨_, h.append hnew ?_ ?_ ?_ ?_⟩
    · rw [passOutput_off e env bb hon, Exchange.log_trace, Exchange.arrive_trace,
        List.append_assoc]
      rfl
    · rw [passOutput_off e env bb hon]
      rfl
    · rw [passOutput_off e env bb hon]
      exact id
    · rw [passOutput_off e env bb hon]
      rfl
  | true =>
    cases ht : y.ctx.interventionTriggered with
    | true =>
      have hnew : ∀ ev ∈ [Event.receive bb, .pass bb, .returned .passed],
          ev.Placeless ∧ ¬ ev.Bad :=
        List.forall_mem_cons.mpr ⟨⟨placeless_receive bb, fun hb ↦ hb⟩, List.forall_mem_cons.mpr
          ⟨⟨placeless_pass bb, fun hb ↦ hb⟩, List.forall_mem_singleton.mpr
            ⟨placeless_returned _, fun hb ↦ hb⟩⟩⟩
      refine ⟨_, h.append hnew ?_ ?_ ?_ ?_⟩
      · rw [passOutput_triggered e env bb ht hon]
        show y.trace ++ [.receive bb] ++ [.pass bb] ++ [.returned .passed] = _
        simp
      · rw [passOutput_triggered e env bb ht hon]
        rfl
      · exact fun _ ↦ hon
      · rw [passOutput_triggered e env bb ht hon]
        rfl
    | false =>
      have hscript := h.clean ht
      have hplace : ∀ ev ∈ [Event.receive bb], ev.Placeless :=
        List.forall_mem_singleton.mpr (placeless_receive bb)
      have hclean : Clean [Event.receive bb] := by simp [Clean, Event.Bad]
      have hwalk : Walk base (y.arrive bb) (if y.ctx.phase3Done then 8 else 6) (y.arrive bb) := by
        refine ⟨⟨evs ++ [.receive bb], ?_, ?_⟩, rfl, rfl, rfl, (h.filter hon).1, ht, rfl, rfl⟩
        · rw [Exchange.arrive_trace, h.trace, List.append_assoc]
        · exact Script.skip ⟨hscript.rule, hscript.clean, (h.filter hon).2 ht⟩ hplace hclean
      obtain ⟨evs', hordered⟩ := ordered_of_filterEnds (corazaOutputFilter_ends e env bb hwalk)
      rw [passOutput_on e env bb hon]
      have hnew (st : FilterStatus) : ∀ ev ∈ [Event.returned st], ev.Placeless ∧ ¬ ev.Bad :=
        List.forall_mem_singleton.mpr ⟨placeless_returned st, fun hb ↦ hb⟩
      exact ⟨_, hordered.append (hnew _) rfl rfl id rfl⟩

/-- Every run of brigades keeps the order. -/
theorem Ordered.outputs (e : Engine) (env : OutEnv) (bbs : List Brigade)
    (h : ∃ evs, Ordered base y evs) : ∃ evs, Ordered base (y.passOutputs e env bbs) evs := by
  induction bbs generalizing y with
  | nil => exact h
  | cons bb bbs ih =>
    obtain ⟨evs, h⟩ := h
    exact ih (h.output e env bb)

end

/-- What the hook leaves is ordered. -/
theorem ordered_of_hookRun {lib : WafLib} {s : Exchange} {v : Int} {y : Exchange}
    (ho : s.r.outFilter = false) (h : HookRun lib s v y) : ∃ evs, Ordered s.trace y evs := by
  have hnil {y : Exchange} (htrace : y.trace = s.trace)
      (hconfig : y.r.outFilter = true → y.r.requestConfig = true) : Ordered s.trace y [] :=
    ⟨by rw [htrace, List.append_nil], alongFrom_nil [], fun _ ↦ upTo_nil _, fun _ ↦ script_nil _,
      fun hon ↦ ⟨hconfig hon, fun _ ↦ upTo_nil _⟩⟩
  have hoff : s.r.outFilter = true → s.r.requestConfig = true := fun hon ↦
    absurd (ho.symm.trans hon) Bool.false_ne_true
  cases h with
  | skipped _ => exact ⟨[], hnil rfl hoff⟩
  | reused _ _ => exact ⟨[], hnil rfl fun _ ↦ rfl⟩
  | refused _ _ _ => exact ⟨[], hnil rfl hoff⟩
  | ran _ _ _ hends hchanges =>
    cases hends with
    | plain hw =>
      obtain ⟨evs, htrace, hs⟩ := hw.script
      have hphase3 : y.ctx.phase3Done = false :=
        congrArg CorazaRequestCtx.phase3Done hchanges.2
      refine ⟨evs, htrace, hs.rule, fun _ ↦ hs.upTo.mono (by decide), fun _ ↦
        hs.mono (by decide), fun _ ↦ ⟨hw.config, fun _ ↦ ?_⟩⟩
      rw [hphase3]
      exact hs.upTo
    | failed htrace hrule hupTo _ _ hconfig ht _ =>
      exact ⟨_, ordered_of_triggered htrace hrule (hupTo.mono (by decide)) ht hconfig⟩
    | @enforced _ _ evs i htrace hevents hconfig ht hlogged _ =>
      refine ⟨evs, htrace, hevents.rule (by decide), fun hl ↦ ?_, fun hf ↦ ?_, fun _ ↦
        ⟨hconfig, fun hf ↦ ?_⟩⟩
      · exact absurd (hl.symm.trans hlogged) Bool.false_ne_true
      · exact absurd (hf.symm.trans ht) Bool.false_ne_true
      · exact absurd (hf.symm.trans ht) Bool.false_ne_true

/-- What the hook leaves: no filter, a filter that will step aside, or a fresh response. -/
theorem hookRun_mode {lib : WafLib} {s : Exchange} {v : Int} {y : Exchange}
    (ho : s.r.outFilter = false) (hp : corazaCtxFromPrev s.prev = false)
    (h : HookRun lib s v y) :
    y.r.outFilter = false ∨ y.ctx.interventionTriggered = true ∨ InMode .fresh y := by
  cases h with
  | skipped _ => exact Or.inl ho
  | reused _ hprev => exact absurd (hp.symm.trans hprev) Bool.false_ne_true
  | refused _ _ _ => exact Or.inl ho
  | @ran _ _ handle p _ _ _ hends hchanges =>
    cases hends with
    | plain hw =>
      cases hon : y.r.outFilter with
      | false => exact Or.inl rfl
      | true =>
        have hside {α : Type} (f : CorazaRequestCtx → α)
            (hf : ∀ c : CorazaRequestCtx, f c.responseSide = f c) :
            f y.ctx = f (s.created handle p).ctx := by
          rw [← hf y.ctx, hchanges.2, hf]
        refine Or.inr (Or.inr ⟨hon, fun _ ↦ hw.config, hw.triggered, fun _ ↦ ?_, ?_, ?_,
          fun _ ↦ ?_, Nat.zero_le _, rfl, fun _ h ↦ absurd rfl h⟩)
        · exact hside (·.phase3Done) fun _ ↦ rfl
        · exact hside (·.headersDelayed) fun _ ↦ rfl
        · rw [hside (·.pendingBrigade) fun _ ↦ rfl]
          rfl
        · exact hside (·.pendingLen) fun _ ↦ rfl
    | failed _ _ _ _ _ _ ht _ => exact Or.inr (Or.inl ht)
    | enforced _ _ _ ht _ _ => exact Or.inr (Or.inl ht)

/-- The filter is off, or it will only step aside. -/
def Exchange.Spent (y : Exchange) : Prop :=
  y.r.outFilter = false ∨ y.ctx.interventionTriggered = true

/-- What is observed of a brigade that nothing is done with. -/
def Event.Bypass : Event → Prop
  | .receive _ | .pass _ | .direct _ | .returned .passed => True
  | _ => False

/-- A filter that is done with lets everything by and stays so. -/
theorem passOutput_spent (e : Engine) (env : OutEnv) (bb : Brigade) {y : Exchange}
    (hy : y.Spent) : (y.passOutput e env bb).Spent ∧ (y.passOutput e env bb).ctx = y.ctx ∧
      ∃ new, (y.passOutput e env bb).trace = y.trace ++ new ∧ ∀ ev ∈ new, ev.Bypass := by
  cases hon : y.r.outFilter with
  | false =>
    rw [passOutput_off e env bb hon]
    exact ⟨Or.inl hon, rfl, [.receive bb, .direct bb], by simp, by simp [Event.Bypass]⟩
  | true =>
    have ht : y.ctx.interventionTriggered = true :=
      hy.resolve_left fun hoff ↦ Bool.false_ne_true (hoff.symm.trans hon)
    rw [passOutput_triggered e env bb ht hon]
    refine ⟨Or.inl rfl, rfl, [.receive bb, .pass bb, .returned .passed], ?_,
      by simp [Event.Bypass]⟩
    show y.trace ++ [.receive bb] ++ [.pass bb] ++ [.returned .passed] = _
    simp

/-- Nothing is done with the brigades any more. -/
theorem passOutputs_spent (e : Engine) (env : OutEnv) (bbs : List Brigade) {y : Exchange}
    (hy : y.Spent) : (y.passOutputs e env bbs).Spent ∧ (y.passOutputs e env bbs).ctx = y.ctx ∧
      ∃ new, (y.passOutputs e env bbs).trace = y.trace ++ new ∧ ∀ ev ∈ new, ev.Bypass := by
  induction bbs generalizing y with
  | nil => exact ⟨hy, rfl, [], (List.append_nil _).symm, fun _ h ↦ (by cases h)⟩
  | cons bb bbs ih =>
    obtain ⟨hspent, hctx, first, htrace, hfirst⟩ := passOutput_spent e env bb hy
    obtain ⟨hlast, hctx', rest, hrest, hbypass⟩ := ih hspent
    refine ⟨hlast, hctx'.trans hctx, first ++ rest, ?_,
      List.forall_mem_append.mpr ⟨hfirst, hbypass⟩⟩
    rw [← List.append_assoc, ← htrace]
    exact hrest

/-- The engine protocol. In every run on one `request_rec`, each call comes behind the calls of
earlier places, each phase is run at most once, and behind a failed call, an intervention or the
log nothing is fed or run any more but the log itself. Once a failure or an intervention has been
enforced, the log is the only call at all. -/
theorem engine_protocol_order (e : Engine) (lib : WafLib) (save : SaveEnv) (src : BodySource)
    (env : OutEnv) (s : Exchange) (bbs : List Brigade) (ho : s.r.outFilter = false) :
    Along ProtocolRule (newEvents s (s.runRequest e lib save src env bbs)) ∧
    ∀ done rest, bbs = done ++ rest →
      (s.afterOutput e lib save src env done).ctx.interventionTriggered = true →
      ∀ c rc, .call c rc ∈ newEvents (s.afterOutput e lib save src env done)
        (s.runRequest e lib save src env bbs) → c = .processLogging := by
  constructor
  · obtain ⟨evs, h⟩ := Ordered.outputs e env bbs
      (ordered_of_hookRun ho (corazaPostReadRequest_run e lib save src s))
    have hcase : newEvents s (s.runRequest e lib save src env bbs) = evs ∨
        (s.afterOutput e lib save src env bbs).ctx.logged = false ∧
          ∃ rc, newEvents s (s.runRequest e lib save src env bbs) =
            evs ++ [.call .processLogging rc] := by
      rw [Exchange.runRequest]
      rcases Exchange.corazaLogTransaction_cases e (s.afterOutput e lib save src env bbs) with
        hlog | ⟨hl, rc, hlog⟩
      · rw [hlog]
        exact Or.inl (newEvents_eq h.trace)
      · rw [hlog]
        refine Or.inr ⟨hl, rc, newEvents_eq ?_⟩
        rw [Exchange.log_trace, ← List.append_assoc]
        exact congrArg (· ++ _) h.trace
    rcases hcase with hevs | ⟨hl, rc, hevs⟩
    · rw [hevs]
      exact h.rule
    · rw [hevs]
      refine along_append.mpr ⟨h.rule, alongFrom_cons.mpr ⟨?_, alongFrom_nil _⟩⟩
      exact rule_of_upTo (h.unlogged hl) rfl (Nat.le_refl 10) (fun hn ↦ absurd rfl hn) rc
  · rintro done rest rfl ht c rc hmem
    obtain ⟨-, -, new, htrace, hcalls⟩ := passOutputs_spent e env rest (Or.inr ht)
    have hsplit : s.afterOutput e lib save src env (done ++ rest) =
        (s.afterOutput e lib save src env done).passOutputs e env rest := List.foldl_append
    obtain ⟨calls, hevs, hlogs⟩ : ∃ calls, (s.runRequest e lib save src env (done ++ rest)).trace =
        (s.afterOutput e lib save src env (done ++ rest)).trace ++ calls ∧
        ∀ ev ∈ calls, ∃ rc, ev = .call .processLogging rc := by
      rw [Exchange.runRequest]
      rcases Exchange.corazaLogTransaction_cases e
        (s.afterOutput e lib save src env (done ++ rest)) with hlog | ⟨-, rc, hlog⟩
      · rw [hlog]
        exact ⟨[], (List.append_nil _).symm, by simp⟩
      · rw [hlog]
        exact ⟨[_], rfl, by simp⟩
    rw [hsplit, htrace, List.append_assoc] at hevs
    rw [newEvents_eq hevs] at hmem
    rcases List.mem_append.mp hmem with hmem | hmem
    · exact absurd (hcalls _ hmem) id
    · obtain ⟨rc', hcall⟩ := hlogs _ hmem
      exact (Event.call.inj hcall).1

/-- A request with a body and a response in two brigades goes through the whole protocol. -/
theorem plainExchange_protocol :
    plainExchange.r.outFilter = false ∧
    .call .processLogging 0 ∈ newEvents plainExchange (plainExchange.runRequest quietEngine
      acceptingLib plainSave plainBody plainOut [[.data .heap [1, 2]], [.data .heap [3], .eos]]) ∧
    Along ProtocolRule (newEvents plainExchange (plainExchange.runRequest quietEngine
      acceptingLib plainSave plainBody plainOut [[.data .heap [1, 2]], [.data .heap [3], .eos]])) :=
  ⟨rfl, by decide, (engine_protocol_order quietEngine acceptingLib plainSave plainBody plainOut
    plainExchange [[.data .heap [1, 2]], [.data .heap [3], .eos]] rfl).1⟩

end CorazaApache.Http
