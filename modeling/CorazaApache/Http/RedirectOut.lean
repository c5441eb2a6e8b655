import CorazaApache.Base.Run
import CorazaApache.Http.Redirect
import CorazaApache.Http.Release

/-!
# Internal redirects and the response

The context of a chain of `request_rec`s holds what phase 3 has done and what is held back of
the response; each `request_rec` gets a filter of its own. The filter asks the context whether
phase 3 is behind, not the `request_rec`, so the response of a `request_rec` is served under its
own phase 3 if no earlier one of the chain has come to the filter.
-/

namespace CorazaApache.Http
open CorazaApache.Base CorazaApache.Base.Prog CorazaApache.Config CorazaApache.Apr

/-- What happens on a chain: the handler of the current `request_rec` passes a brigade, or
httpd redirects to the next one. -/
inductive ChainStep where
  | output (bb : Brigade)
  | redirect (r : Request)

/-- One step of a chain. -/
def Exchange.chainStep (e : Engine) (lib : WafLib) (save : SaveEnv) (src : BodySource)
    (env : OutEnv) (s : Exchange) : ChainStep → Exchange
  | .output bb => s.passOutput e env bb
  | .redirect r => s.followRedirect e lib save src r

/-- What happened on the current `request_rec`: the events since the last redirect. -/
def segment (evs : List Event) : List Event := (evs.reverse.takeWhile (· ≠ .redirect)).reverse

/-- Phase 3 of the response of `r` is among the events. -/
def Phase3In (r : Request) (evs : List Event) : Prop :=
  ∃ before processable first after, evs = before ++ first ++ after ∧
    Phase3Done r processable first

/-- A brigade passed on by the filter follows phase 3 of the response of `r` itself, and
consists of what was received on `r` in its order. -/
def OwnRule (r : Request) (pre : List Event) (ev : Event) : Prop :=
  ∀ out, ev = .pass out → Phase3In r pre ∧ sent pre ++ out <+: received pre

/-- The response served on the current `request_rec` is its own, unless it was denied. -/
def ServesOwn (s : Exchange) : Prop :=
  s.ctx.interventionTriggered = false → Along (OwnRule s.r) (segment s.trace)

/-- The step does not bring a second `request_rec` of the chain to the filter: where phase 3 is
behind, it was done for a brigade of the current one. -/
def FirstResponse (s : Exchange) : ChainStep → Prop
  | .output _ => s.r.outFilter = true → s.ctx.phase3Done = true →
    ∃ bb, .receive bb ∈ segment s.trace
  | .redirect _ => True

/-! ### Segments -/

/-- A redirect opens a new part of the run. -/
@[simp] theorem segment_redirect (evs : List Event) : segment (evs ++ [.redirect]) = [] := by
  simp [segment]

private theorem segment_append {evs new : List Event} (h : .redirect ∉ new) :
    segment (evs ++ new) = segment evs ++ new := by
  have hpos : ∀ ev ∈ new.reverse, decide (ev ≠ .redirect) = true := by
    intro ev hev
    refine decide_eq_true fun he ↦ h ?_
    rw [← he]
    exact List.mem_reverse.mp hev
  rw [segment, List.reverse_append, List.takeWhile_append_of_pos hpos, List.reverse_append,
    List.reverse_reverse]
  rfl

/-! ### One invocation -/

section

variable {env : OutEnv} {r : Request} {bb : Brigade} {m m' : Mode} {evs : List Event}
  {st : FilterStatus}

/-- An invocation that does not refuse passes at most one brigade on, as the last thing, and
the first invocation does so after phase 3. -/
theorem Invoked.shape (h : Invoked env r bb m evs st m') (hm : m' ≠ .refused) :
    ∃ quiet tail, evs = quiet ++ tail ∧ (∀ ev ∈ quiet, ev.Inner m) ∧
      (tail = [] ∨ ∃ out, tail = [.pass out]) ∧
      (m = .fresh → ∃ processable first rest, quiet = first ++ rest ∧
        Phase3Done r processable first) := by
  have hend (rc : Int) : ∀ ev ∈ [Event.call .processResponseBody rc, .poll none], ev.Inner m := by
    simp [Event.Inner]
  cases h with
  | refuse => exact absurd rfl hm
  | @uninspected first rc hdone hrc =>
    refine ⟨first ++ [.call .processResponseBody rc, .poll none], [.pass bb], by simp,
      inner_append.mpr ⟨inner_phase3 hdone, hend rc⟩, Or.inr ⟨_, rfl⟩, fun _ ↦
      ⟨_, first, _, rfl, hdone⟩⟩
  | @sse first hdone hsse =>
    exact ⟨first, [.pass bb], rfl, inner_phase3 hdone, Or.inr ⟨_, rfl⟩, fun _ ↦
      ⟨_, first, [], (List.append_nil _).symm, hdone⟩⟩
  | @carry _ m₁ _ first second _ ho hc =>
    have hfirst (rest : List Event) : m = .fresh → ∃ processable f rest',
        first ++ rest = f ++ rest' ∧ Phase3Done r processable f := by
      rintro rfl
      cases ho with
      | again _ hne => exact absurd rfl hne
      | @delay f hdone => exact ⟨_, f, [.delay] ++ rest, by simp, hdone⟩
      | stream hdone => exact ⟨_, first, rest, rfl, hdone⟩
    cases hc with
    | @flush held before after b =>
      exact ⟨first ++ before.flatMap inspectedBucket, [.pass (held ++ bb)], by simp,
        inner_append.mpr ⟨ho.inner, inner_inspected _⟩, Or.inr ⟨_, rfl⟩, hfirst _⟩
    | @release held rc =>
      exact ⟨first ++ (bb.flatMap inspectedBucket ++ [.call .processResponseBody rc, .poll none]),
        [.pass (held ++ bb)], by simp, inner_append.mpr ⟨ho.inner, inner_append.mpr
          ⟨inner_inspected _, hend rc⟩⟩, Or.inr ⟨_, rfl⟩, hfirst _⟩
    | hold =>
      exact ⟨first ++ bb.flatMap inspectedBucket, [], (List.append_nil _).symm,
        inner_append.mpr ⟨ho.inner, inner_inspected _⟩, Or.inl rfl, hfirst _⟩
    | @finish rc =>
      exact ⟨first ++ (bb.flatMap inspectedBucket ++ [.call .processResponseBody rc, .poll none]),
        [.pass bb], by simp, inner_append.mpr ⟨ho.inner, inner_append.mpr
          ⟨inner_inspected _, hend rc⟩⟩, Or.inr ⟨_, rfl⟩, hfirst _⟩
    | stream =>
      exact ⟨first ++ bb.flatMap inspectedBucket, [.pass bb], by simp,
        inner_append.mpr ⟨ho.inner, inner_inspected _⟩, Or.inr ⟨_, rfl⟩, hfirst _⟩

/-- Phase 3 happens in the first invocation only. -/
theorem Invoked.ne_fresh (h : Invoked env r bb m evs st m') : m' ≠ .fresh := by
  rintro rfl
  cases h with
  | carry ho hc => cases hc

/-! ### The response of one `request_rec` -/

private theorem Phase3In.append (h : Phase3In r evs) (new : List Event) :
    Phase3In r (evs ++ new) := by
  obtain ⟨before, processable, first, after, rfl, hdone⟩ := h
  exact ⟨before, processable, first, after ++ new, by simp, hdone⟩

/-- The response of the current `request_rec` is under way or let go. -/
structure Served (r : Request) (m : Mode) (seg : List Event) : Prop where
  opened : Phase3In r seg
  whole : sent seg ++ m.held = received seg
  rule : Along (OwnRule r) seg

/-- Whether the filter is on the chain makes no difference to what was served. -/
theorem Served.withFilter {seg : List Event} (h : Served r m seg) (on : Bool) :
    Served { r with outFilter := on } m seg := ⟨h.opened, h.whole, h.rule⟩

/-- Events that are not passed brigades satisfy the rule. -/
theorem ownRule_of_no_pass {past : List Event} (h : ∀ out, .pass out ∉ evs) :
    AlongFrom (OwnRule r) past evs := by
  refine alongFrom_of_forall fun ev hev pre out he ↦ absurd ?_ (h out)
  rw [← he]
  exact hev

private theorem no_pass_of_inner (h : ∀ ev ∈ evs, ev.Inner m) (out : Brigade) : .pass out ∉ evs :=
  fun hmem ↦ h _ hmem

/-- An invocation on the response of `r` keeps it its own. -/
theorem served_of_invoked {seg : List Event} (hwhole : sent seg ++ m.held = received seg)
    (hopen : m = .fresh ∨ Phase3In r seg) (hrule : Along (OwnRule r) seg)
    (hi : Invoked env r bb m evs st m') (hm : m' ≠ .refused) :
    Served r m' (seg ++ (.receive bb :: evs ++ [.returned st])) := by
  have hconserved := hi.conserves hm
  have hrec := hi.received_eq_nil
  obtain ⟨quiet, tail, hevs, hinner, htail, hfresh⟩ := hi.shape hm
  have hopened : Phase3In r (seg ++ .receive bb :: quiet) := by
    rcases hopen with hf | hopen
    · obtain ⟨processable, first, rest, hquiet, hdone⟩ := hfresh hf
      exact ⟨seg ++ [.receive bb], processable, first, rest, by simp [hquiet], hdone⟩
    · exact hopen.append _
  have hquietRule : Along (OwnRule r) (seg ++ .receive bb :: quiet) := by
    refine along_append.mpr ⟨hrule, ownRule_of_no_pass fun out hmem ↦ ?_⟩
    rcases List.mem_cons.mp hmem with h | h
    · cases h
    · exact no_pass_of_inner hinner out h
  have hsplit : seg ++ (.receive bb :: evs ++ [.returned st]) =
      seg ++ .receive bb :: quiet ++ (tail ++ [.returned st]) := by
    simp [hevs]
  refine ⟨?_, ?_, ?_⟩
  · rw [hsplit]
    exact hopened.append _
  · rw [sent_append, sent_filter, received_append, received_filter, hrec, List.append_nil,
      List.append_assoc, hconserved, ← List.append_assoc, hwhole]
  · rw [hsplit]
    refine along_append.mpr ⟨hquietRule, alongFrom_append.mpr ⟨?_, ?_⟩⟩
    · rcases htail with rfl | ⟨out, rfl⟩
      · exact alongFrom_nil _
      · refine alongFrom_cons.mpr ⟨fun out' he ↦ ⟨hopened, m'.held, ?_⟩, alongFrom_nil _⟩
        cases he
        have hsent : sent evs = out := by
          rw [hevs, sent_pass, sent_inner hinner, List.nil_append]
        have hquiet : sent (seg ++ .receive bb :: quiet) = sent seg := by
          rw [sent_append]
          show sent seg ++ sent quiet = sent seg
          rw [sent_inner hinner, List.append_nil]
        have hreceived : received (seg ++ .receive bb :: quiet) = received seg ++ bb := by
          rw [received_append]
          show received seg ++ (bb ++ received quiet) = received seg ++ bb
          rw [received_inner hinner, List.append_nil]
        rw [hquiet, hreceived, ← hwhole, ← hsent, List.append_assoc, hconserved,
          List.append_assoc]
    · exact ownRule_of_no_pass (by simp)

/-- A brigade that goes past the filter leaves the response as it is. -/
theorem Served.direct {seg : List Event} (h : Served r m seg) (hoff : m.active = false) :
    Served r m (seg ++ [.receive bb, .direct bb]) := by
  refine ⟨h.opened.append _, ?_, along_append.mpr ⟨h.rule, ownRule_of_no_pass (by simp)⟩⟩
  have hwhole := h.whole
  rw [Mode.held_of_off hoff, List.append_nil] at hwhole ⊢
  rw [sent_append, received_append, hwhole]
  simp [sent, received]

end

/-! ### Chains -/

/-- Some `request_rec` of the chain has the context. -/
def HasCtx (s : Exchange) : Prop :=
  s.r.requestConfig = true ∨ corazaCtxFromPrev s.prev = true

/-- The current `request_rec` has passed nothing through the filter, and nothing at all if the
filter is on its chain. -/
structure Untouched (s : Exchange) : Prop where
  noPass : ∀ out, .pass out ∉ segment s.trace
  quiet : s.r.outFilter = true → ∀ ev ∈ segment s.trace, ev.Inner .streaming

/-- Where a chain stands: denied; before any response came to the filter; with the response of
the current `request_rec` at the filter; or with an earlier response there. -/
inductive ChainState (s : Exchange) : Prop
  | denied (triggered : s.ctx.interventionTriggered = true)
  | waiting (untouched : Untouched s) (mode : s.r.outFilter = true → InMode .fresh s)
      (phase3 : s.ctx.phase3Done = false) (triggered : s.ctx.interventionTriggered = false)
      (delayed : s.ctx.headersDelayed = false) (pending : s.ctx.pendingBrigade.getD [] = [])
      (len : s.ctx.pendingLen = 0)
  | serving (m : Mode) (mode : InMode m s) (fresh : m ≠ .fresh) (refused : m ≠ .refused)
      (served : Served s.r m (segment s.trace))
  | behind (untouched : Untouched s) (phase3 : s.ctx.phase3Done = true)
      (triggered : s.ctx.interventionTriggered = false)

section

variable (e : Engine) (lib : WafLib) (save : SaveEnv) (src : BodySource) (env : OutEnv)
  {s : Exchange}

/-- A redirect does not lose the context. -/
theorem HasCtx.redirect (hc : HasCtx s) (r : Request) :
    corazaCtxFromPrev (s.internalRedirect r).prev = true := by
  show (s.r.requestConfig || corazaCtxFromPrev s.prev) = true
  rcases hc with h | h
  · rw [h, Bool.true_or]
  · rw [h, Bool.or_true]

/-- The hook on a redirected request of a chain with a context attaches the output filter or
does nothing. -/
theorem followRedirect_cases (hc : HasCtx s) (r : Request) :
    ∃ on : Bool, s.followRedirect e lib save src r = (s.internalRedirect r).updReq fun r ↦
      { r with requestConfig := on, outFilter := on } := by
  have hprev := hc.redirect r
  have hcfg : (s.internalRedirect r).r.requestConfig = false := rfl
  refine exec_of_ends (m := corazaPostReadRequest e lib save src)
    (R := fun _ s' ↦ ∃ on : Bool, s' = (s.internalRedirect r).updReq fun r ↦
      { r with requestConfig := on, outFilter := on }) ?_
  simp only [corazaPostReadRequest, ends_bind, ends_get, ends_when, ends_ret, ends_modify, hcfg,
    hprev]
  exact ⟨fun _ ↦ ⟨false, rfl⟩, fun _ ↦ ⟨fun _ ↦ ⟨false, rfl⟩, fun _ ↦ ⟨fun h ↦ (by cases h),
    fun _ ↦ ⟨fun _ ↦ ⟨true, rfl⟩, fun h ↦ (by cases h)⟩⟩⟩⟩

/-- A redirect starts a new segment with nothing in it. -/
theorem chain_redirect (hc : HasCtx s) (hs : ChainState s) (r : Request) :
    HasCtx (s.followRedirect e lib save src r) ∧
      ChainState (s.followRedirect e lib save src r) := by
  obtain ⟨on, hnext⟩ := followRedirect_cases e lib save src hc r
  rw [hnext]
  have hseg : segment ((s.internalRedirect r).updReq fun r ↦
      { r with requestConfig := on, outFilter := on }).trace = [] := segment_redirect s.trace
  have huntouched : Untouched ((s.internalRedirect r).updReq fun r ↦
      { r with requestConfig := on, outFilter := on }) := by
    refine ⟨fun out ↦ ?_, fun _ ↦ ?_⟩
    · rw [hseg]
      exact List.not_mem_nil
    · rw [hseg]
      exact fun ev hev ↦ (by cases hev)
  constructor
  · refine Or.inr ?_
    show (s.r :: s.prev).any (·.requestConfig) = true
    rw [List.any_cons]
    exact Bool.or_eq_true_iff.mpr hc
  · cases hs with
    | denied ht => exact .denied ht
    | waiting _ _ h3 ht hd hp hl =>
      refine .waiting huntouched (fun hon ↦ ?_) h3 ht hd hp hl
      exact ⟨hon, fun _ ↦ hon, ht, fun _ ↦ h3, hd, hp, fun _ ↦ hl, Nat.zero_le _, rfl,
        fun _ h ↦ absurd rfl h⟩
    | serving m hm hf hr _ =>
      refine .behind huntouched ?_ ?_
      · exact (hm.phase3 hr).trans (decide_eq_true hf)
      · exact hm.triggered.trans (decide_eq_false hr)
    | behind _ h3 ht => exact .behind huntouched h3 ht

/-- On a denied chain the filter lets everything by. -/
theorem passOutput_denied (ht : s.ctx.interventionTriggered = true) (bb : Brigade) :
    (s.passOutput e env bb).ctx = s.ctx ∧ (s.passOutput e env bb).prev = s.prev ∧
      (s.passOutput e env bb).r.requestConfig = s.r.requestConfig := by
  cases hon : s.r.outFilter with
  | false =>
    rw [passOutput_off e env bb hon]
    exact ⟨rfl, rfl, rfl⟩
  | true =>
    rw [passOutput_triggered e env bb ht hon]
    exact ⟨rfl, rfl, rfl⟩

/-- A brigade that meets no filter only leaves its record. -/
theorem untouched_direct (hu : Untouched s) (hoff : s.r.outFilter = false) (bb : Brigade) :
    s.passOutput e env bb = (s.arrive bb).log (.direct bb) ∧
      Untouched (s.passOutput e env bb) := by
  have hpass := passOutput_off e env bb hoff
  refine ⟨hpass, ?_⟩
  rw [hpass]
  refine ⟨fun out ↦ ?_, fun hon ↦ absurd (hoff.symm.trans hon) Bool.false_ne_true⟩
  have htrace : ((s.arrive bb).log (.direct bb)).trace =
      s.trace ++ [.receive bb, .direct bb] := by simp
  rw [htrace, segment_append (by simp), List.mem_append]
  exact fun h ↦ h.elim (hu.noPass out) (by simp)

/-- A response at the filter stays the own response of its `request_rec`. -/
theorem chain_serve {m : Mode} (hm : InMode m s)
    (hwhole : sent (segment s.trace) ++ m.held = received (segment s.trace))
    (hopen : m = .fresh ∨ Phase3In s.r (segment s.trace))
    (hrule : Along (OwnRule s.r) (segment s.trace)) (hr : m ≠ .refused) (bb : Brigade) :
    ChainState (s.passOutput e env bb) := by
  obtain ⟨new, m', hpass⟩ := passOutput_step e env hm bb
  obtain ⟨hout, hmode, htrace, -, -, -, hreq⟩ := hpass
  cases hout with
  | @filter _ evs st hi =>
    by_cases hne : m' = .refused
    · exact .denied (hmode.triggered.trans (decide_eq_true hne))
    · have hserved := served_of_invoked hwhole hopen hrule hi hne
      obtain ⟨quiet, tail, hevs, hinner, htail, -⟩ := hi.shape hne
      have hno : .redirect ∉ .receive bb :: evs ++ [.returned st] := by
        have hquiet : .redirect ∉ quiet := fun hmem ↦ hinner _ hmem
        rcases htail with rfl | ⟨out, rfl⟩ <;> simp [hevs, hquiet]
      refine .serving m' hmode hi.ne_fresh hne ?_
      rw [htrace, segment_append hno, hreq hne]
      exact hserved.withFilter _
  | direct hoff =>
    have hf : m ≠ .fresh := by
      rintro rfl
      cases hoff
    have hserved : Served s.r m (segment s.trace) :=
      ⟨hopen.resolve_left hf, hwhole, hrule⟩
    refine .serving m hmode hf hr ?_
    rw [htrace, segment_append (by simp), hreq hr]
    exact (hserved.direct hoff).withFilter _

/-- Every brigade keeps the state of the chain, if it is not of a second response. -/
theorem chain_output (hc : HasCtx s) (hs : ChainState s) (bb : Brigade)
    (hfirst : FirstResponse s (.output bb)) :
    HasCtx (s.passOutput e env bb) ∧ ChainState (s.passOutput e env bb) := by
  cases hs with
  | denied ht =>
    obtain ⟨hctx, hprev, hcfg⟩ := passOutput_denied e env ht bb
    refine ⟨?_, .denied (by rw [hctx]; exact ht)⟩
    rw [HasCtx, hcfg, hprev]
    exact hc
  | waiting hu hmode h3 ht hd hp hl =>
    by_cases hon : s.r.outFilter = true
    · have hquiet := hu.quiet hon
      obtain ⟨_, _, hpass⟩ := passOutput_step e env (hmode hon) bb
      refine ⟨?_, chain_serve e env (hmode hon) ?_ (Or.inl rfl) ?_ (fun h ↦ (by cases h)) bb⟩
      · rw [HasCtx, hpass.config, hpass.prev]
        exact hc
      · rw [sent_inner hquiet, received_inner hquiet]
        rfl
      · exact ownRule_of_no_pass hu.noPass
    · obtain ⟨hpass, hnext⟩ := untouched_direct e env hu (Bool.eq_false_iff.mpr hon) bb
      rw [hpass] at hnext ⊢
      exact ⟨hc, .waiting hnext (fun h ↦ absurd h hon) h3 ht hd hp hl⟩
  | serving m hm hf hr hserved =>
    obtain ⟨_, _, hpass⟩ := passOutput_step e env hm bb
    refine ⟨?_, chain_serve e env hm hserved.whole (Or.inr hserved.opened) hserved.rule hr bb⟩
    rw [HasCtx, hpass.config, hpass.prev]
    exact hc
  | behind hu h3 ht =>
    by_cases hon : s.r.outFilter = true
    · -- The only step excluded: a second response comes to the filter.
      obtain ⟨bb', hmem⟩ := hfirst hon h3
      exact absurd (hu.quiet hon _ hmem) id
    · obtain ⟨hpass, hnext⟩ := untouched_direct e env hu (Bool.eq_false_iff.mpr hon) bb
      rw [hpass] at hnext ⊢
      exact ⟨hc, .behind hnext h3 ht⟩

/-- In every state of a chain the response served is the own one of its `request_rec`. -/
theorem servesOwn_of_chainState (hs : ChainState s) : ServesOwn s := by
  intro ht
  cases hs with
  | denied htrue =>
    rw [ht] at htrue
    cases htrue
  | waiting hu => exact ownRule_of_no_pass hu.noPass
  | serving m _ _ _ hserved => exact hserved.rule
  | behind hu => exact ownRule_of_no_pass hu.noPass

end

/-- Phases 3 and 4 follow internal redirects as long as only one `request_rec` of the chain
comes to the filter. In every run of brigades and redirects from a request with a fresh
response, all of whose steps are of a first response, every state reached serves the own
response of its `request_rec`: what the filter passes on follows the phase 3 of that response
and was received on that `request_rec`, in order. -/
theorem servesOwn_of_firstResponse (e : Engine) (lib : WafLib) (save : SaveEnv)
    (src : BodySource) (env : OutEnv) (s : Exchange) (steps : List ChainStep)
    (hs : InMode .fresh s) (hstart : ∀ ev ∈ segment s.trace, ev.Inner .streaming)
    (hfirst : ∀ v ∈ visits (Exchange.chainStep e lib save src env) s steps,
      FirstResponse v.1 v.2) :
    ServesOwn (steps.foldl (Exchange.chainStep e lib save src env) s) ∧
    ∀ v ∈ visits (Exchange.chainStep e lib save src env) s steps, ServesOwn v.1 := by
  have h0 : HasCtx s ∧ ChainState s := by
    refine ⟨Or.inl (hs.config rfl), .waiting ⟨no_pass_of_inner hstart, fun _ ↦ hstart⟩
      (fun _ ↦ hs) (hs.phase3 fun h ↦ (by cases h)) hs.triggered hs.delayed hs.pending (hs.len rfl)⟩
  have hstep (s : Exchange) (i : ChainStep) (hi : HasCtx s ∧ ChainState s)
      (hc : FirstResponse s i) : HasCtx (s.chainStep e lib save src env i) ∧
        ChainState (s.chainStep e lib save src env i) := by
    cases i with
    | output bb => exact chain_output e env hi.1 hi.2 bb hc
    | redirect r => exact chain_redirect e lib save src hi.1 hi.2 r
  obtain ⟨hlast, hall⟩ := visits_invariant (I := fun s ↦ HasCtx s ∧ ChainState s) hstep h0 hfirst
  exact ⟨servesOwn_of_chainState hlast.2, fun v hv ↦ servesOwn_of_chainState (hall v hv).2⟩

/-- A request redirected before its handler wrote anything: the response of the second
`request_rec` is inspected and served as its own. -/
theorem redirected_request_serves_own :
    let s' := [ChainStep.redirect plainRequest, .output [.data .heap [1], .eos]].foldl
      (Exchange.chainStep quietEngine acceptingLib plainSave plainBody plainOut) freshExchange
    s'.ctx.interventionTriggered = false ∧
    .pass [.data .heap [1], .eos] ∈ segment s'.trace ∧
    Along (OwnRule s'.r) (segment s'.trace) := by
  intro s'
  have h := servesOwn_of_firstResponse quietEngine acceptingLib plainSave plainBody plainOut
    freshExchange [.redirect plainRequest, .output [.data .heap [1], .eos]]
    (inMode_fresh_of rfl rfl rfl) (fun ev hev ↦ (by cases hev)) (by
      intro v hv
      rcases List.mem_pair.mp hv with rfl | rfl
      · trivial
      · exact fun _ h3 ↦ absurd h3 (by decide))
  have ht : s'.ctx.interventionTriggered = false := by decide
  exact ⟨ht, by decide, h.1 ht⟩

/-- A handler that passes one byte and then fails: what was held back of its response is served
in front of the response of the `request_rec` it is redirected to. -/
theorem abandoned_response_spliced :
    let s' := [ChainStep.output [.data .heap [1]], .redirect plainRequest,
      .output [.data .heap [2], .eos]].foldl
      (Exchange.chainStep quietEngine acceptingLib plainSave plainBody plainOut) freshExchange
    InMode .fresh freshExchange ∧ s'.ctx.interventionTriggered = false ∧
    segment s'.trace = [.receive [.data .heap [2], .eos],
      .call (.appendResponseBody [2]) 0, .poll none, .call .processResponseBody 0, .poll none,
      .pass [.data .heap [1], .data .heap [2], .eos], .returned .passed] ∧ ¬ ServesOwn s' := by
  intro s'
  have ht : s'.ctx.interventionTriggered = false := by decide
  have hseg : segment s'.trace = [.receive [.data .heap [2], .eos],
      .call (.appendResponseBody [2]) 0, .poll none, .call .processResponseBody 0, .poll none] ++
      .pass [.data .heap [1], .data .heap [2], .eos] :: [.returned .passed] := by decide
  refine ⟨inMode_fresh_of rfl rfl rfl, ht, hseg, fun h ↦ ?_⟩
  have hown := (h ht _ _ _ hseg _ rfl).2
  exact absurd hown (by decide)

end CorazaApache.Http
