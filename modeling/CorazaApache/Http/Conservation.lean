import CorazaApache.Http.ResponseRun

/-!
# Nothing of a response is lost

What went downstream followed by what is held back is what was received, as long as the
response is not refused.
-/

namespace CorazaApache.Http
open CorazaApache.Base CorazaApache.Base.Prog CorazaApache.Config CorazaApache.Apr

section

variable {env : OutEnv} {r : Request} {bb : Brigade} {m m' : Mode} {evs : List Event}
  {st : FilterStatus}

/-- Unless it refuses, an invocation sends on or keeps what it had and what it got. -/
theorem Invoked.conserves (h : Invoked env r bb m evs st m') (hm : m' ≠ .refused) :
    sent evs ++ m'.held = m.held ++ bb := by
  cases h with
  | refuse hr => exact absurd rfl hm
  | uninspected hdone =>
    rw [sent_append, sent_phase3 hdone]
    simp [sent, Mode.held]
  | sse hdone =>
    rw [sent_pass, sent_phase3 hdone]
    simp [Mode.held]
  | carry ho hc =>
    rw [sent_append, sent_inner ho.inner, ← ho.held, List.nil_append]
    cases hc with
    | flush =>
      rw [sent_pass, sent_inspected]
      simp [Mode.held]
    | release =>
      rw [sent_append, sent_inspected]
      simp [sent, Mode.held]
    | hold =>
      rw [sent_inspected]
      rfl
    | finish =>
      rw [sent_append, sent_inspected]
      simp [sent, Mode.held]
    | stream =>
      rw [sent_pass, sent_inspected]
      simp [Mode.held]

/-- A response that is still held back was held back from the start. -/
theorem Invoked.holds (h : Invoked env r bb m evs st m') (hm : m'.delays = true) :
    sent evs = [] ∧ (m = .fresh ∨ m.delays = true) := by
  cases h with
  | refuse => cases hm
  | uninspected => cases hm
  | sse => cases hm
  | carry ho hc =>
    cases hc with
    | flush => cases hm
    | release => cases hm
    | finish => cases hm
    | stream => cases hm
    | hold =>
      refine ⟨?_, ?_⟩
      · rw [sent_append, sent_inner ho.inner, sent_inspected]
        rfl
      · cases ho with
        | again => exact Or.inr rfl
        | delay => exact Or.inl rfl

/-! ### The invariant -/

/-- Nothing is lost, and what is held back is all there is. -/
structure Conserved (m : Mode) (evs : List Event) : Prop where
  notRefused : m ≠ .refused
  fresh : m = .fresh → evs = []
  whole : sent evs ++ m.held = received evs
  unsent : m.delays = true → sent evs = []

/-- Every transition with an inspectable brigade keeps the invariant as long as the engine
neither fails nor intervenes. -/
theorem Conserved.output {new : List Event} (h : Clean evs → Conserved m evs)
    (ho : Output env r bb m new m') (hins : ¬ Uninspectable env r bb)
    (hclean : Clean (evs ++ new)) : Conserved m' (evs ++ new) := by
  rw [clean_append] at hclean
  have hc := h hclean.1
  cases ho with
  | direct hoff =>
    have hheld := Mode.held_of_off hoff
    refine ⟨hc.notRefused, fun hf ↦ ?_, ?_, fun hd ↦ ?_⟩
    · rw [hf] at hoff
      cases hoff
    · have hwhole := hc.whole
      rw [hheld, List.append_nil] at hwhole ⊢
      rw [sent_append, received_append, hwhole]
      simp [sent, received]
    · rw [Mode.active_of_delays hd] at hoff
      cases hoff
  | filter hi =>
    have hne : m' ≠ .refused := by
      rintro rfl
      refine (hi.cause.resolve_right hins) fun ev hev ↦ hclean.2 ev ?_
      exact List.mem_append_left _ (List.mem_cons_of_mem _ hev)
    have hstep := hi.conserves hne
    refine ⟨hne, fun hf ↦ ?_, ?_, fun hd ↦ ?_⟩
    · rw [hf] at hi
      cases hi with
      | carry ho hcar =>
        cases hcar
    · rw [sent_append, sent_filter, received_append, received_filter, hi.received_eq_nil,
        List.append_nil, List.append_assoc, hstep, ← List.append_assoc, hc.whole]
    · obtain ⟨hsent, hmode⟩ := hi.holds hd
      rw [sent_append, sent_filter, hsent, List.append_nil]
      rcases hmode with hf | hdel
      · rw [hc.fresh hf]
        rfl
      · exact hc.unsent hdel

end

/-- The events of a run receive the brigades that were passed. -/
theorem received_passOutputs {e : Engine} {env : OutEnv} {bbs : List Brigade} {m : Mode}
    {s : Exchange} (hm : InMode m s) :
    received (newEvents s (s.passOutputs e env bbs)) = bbs.flatten := by
  suffices ∃ new, (s.passOutputs e env bbs).trace = s.trace ++ new ∧
      received new = bbs.flatten by
    obtain ⟨new, htrace, hrec⟩ := this
    rw [newEvents_eq htrace, hrec]
  induction bbs generalizing s m with
  | nil => exact ⟨[], (List.append_nil _).symm, rfl⟩
  | cons bb bbs ih =>
    obtain ⟨first, m₁, hpass⟩ := passOutput_step e env hm bb
    obtain ⟨rest, htrace, hrec⟩ := ih hpass.mode
    have hfirst : received first = bb := by
      cases hpass.output with
      | filter hi => rw [received_filter, hi.received_eq_nil, List.append_nil]
      | direct => simp [received]
    refine ⟨first ++ rest, ?_, ?_⟩
    · rw [← List.append_assoc, ← hpass.trace]
      exact htrace
    · rw [received_append, hfirst, hrec, List.flatten_cons]

/-- Output is conserved and buffering is bounded. After any brigades of a response that is not
refused, what went downstream followed by what is pending is what was received; nothing is
pending once the end of stream was received or the filter is gone; and what is pending while
the headers are delayed is counted and within the cap. -/
theorem output_conserved (e : Engine) (env : OutEnv) (s : Exchange) (bbs : List Brigade)
    (hs : InMode .fresh s)
    (hread : ∀ bb ∈ bbs, ∀ b ∈ bb, b.readable = true ∧ b.bytes.length ≤ intMax)
    (hsave : ∀ past bb, env.saveBrigadeOk past bb = true)
    (hheaders : ∀ p ∈ responsePairs s.r, p.name.length ≤ intMax ∧ p.value.length ≤ intMax)
    (hclean : Clean (newEvents s (s.passOutputs e env bbs))) :
    let s' := s.passOutputs e env bbs
    let pending := s'.ctx.pendingBrigade.getD []
    received (newEvents s s') = bbs.flatten ∧
    sent (newEvents s s') ++ pending = bbs.flatten ∧
    (hasEos bbs.flatten = true ∨ s'.r.outFilter = false → pending = []) ∧
    (s'.ctx.headersDelayed = true →
      s'.ctx.pendingLen = (dataBytes pending).length ∧ s'.ctx.pendingLen ≤ maxDelayedBody) := by
  intro s' pending
  have hins : ∀ bb ∈ bbs, ¬ Uninspectable env s.r bb := by
    rintro bb hbb (⟨p, hp, hlong⟩ | ⟨b, hb, hbad⟩ | ⟨past, hpast⟩)
    · have hshort := hheaders p hp
      omega
    · obtain ⟨hr, hl⟩ := hread bb hbb b hb
      rcases hbad with hbad | hbad
      · rw [hr] at hbad
        cases hbad
      · omega
    · rw [hsave] at hpast
      cases hpast
  have hstart : Conserved .fresh [] :=
    ⟨fun h ↦ (by cases h), fun _ ↦ rfl, rfl, fun h ↦ (by cases h)⟩
  obtain ⟨new, m', htrace, hm', hinv⟩ := passOutputs_run
    (fun m evs ↦ Clean evs → Conserved m evs)
    (fun bb hbb m evs new m' hinv ho ↦ Conserved.output hinv ho (hins bb hbb))
    (fun _ ↦ hstart) hs (fun _ ↦ rfl)
  have hnew : newEvents s s' = new := newEvents_eq htrace
  have hrec : received (newEvents s s') = bbs.flatten := received_passOutputs hs
  rw [List.nil_append] at hinv
  have hc := hinv (hnew ▸ hclean)
  have hpending : pending = m'.held := hm'.pending
  have hwhole : sent (newEvents s s') ++ pending = bbs.flatten := by
    rw [hpending, ← hrec, hnew]
    exact hc.whole
  refine ⟨hrec, hwhole, fun hgone ↦ ?_, fun hdel ↦ ?_⟩
  · rw [hpending]
    by_cases hd : m'.delays = true
    · -- Still delayed: the filter is on, and no end of stream was received.
      rcases hgone with heos | hoff
      · have hno : hasEos m'.held = false := hm'.noEos
        have hsent : sent (newEvents s s') = [] := hnew ▸ hc.unsent hd
        rw [hsent, List.nil_append, hpending] at hwhole
        rw [← hwhole, hno] at heos
        cases heos
      · have hon : s'.r.outFilter = m'.active := hm'.filter
        rw [Mode.active_of_delays hd, hoff] at hon
        cases hon
    · exact Mode.held_of_not_delays (Bool.eq_false_iff.mpr hd)
  · have hd : m'.delays = true := hm'.delayed ▸ hdel
    have hlen : s'.ctx.pendingLen = (dataBytes m'.held).length :=
      hm'.len (Mode.active_of_delays hd)
    refine ⟨by rw [hlen, hpending], ?_⟩
    rw [hlen]
    exact hm'.cap

/-- httpd and APR answering without failures. -/
def plainOut : OutEnv where
  brigadeCreateOk := true
  saveBrigadeOk _ _ := true

/-- A request whose response is about to start. -/
def freshExchange : Exchange :=
  { plainExchange with r := { plainRequest with requestConfig := true, outFilter := true } }

/-- A fresh response to whatever request, with a new context. -/
theorem inMode_fresh_of {s : Exchange} (hctx : s.ctx = default) (hcfg : s.r.requestConfig = true)
    (hout : s.r.outFilter = true) : InMode .fresh s where
  filter := hout
  config _ := hcfg
  triggered := by rw [hctx]; rfl
  phase3 _ := by rw [hctx]; rfl
  delayed := by rw [hctx]; rfl
  pending := by rw [hctx]; rfl
  len _ := by rw [hctx]; rfl
  cap := Nat.zero_le _
  noEos := rfl
  processable _ h := absurd rfl h

/-- Two brigades of a response that is held back until its end went down in order. -/
theorem freshExchange_conserved :
    sent (newEvents freshExchange (freshExchange.passOutputs quietEngine plainOut
      [[.data .heap [1, 2]], [.data .heap [3], .eos]])) =
    [.data .heap [1, 2], .data .heap [3], .eos] := by
  have h := output_conserved quietEngine plainOut freshExchange
    [[.data .heap [1, 2]], [.data .heap [3], .eos]] (inMode_fresh_of rfl rfl rfl) (by decide)
    (fun _ _ ↦ rfl) (by decide) (by decide)
  obtain ⟨-, hsent, hgone, -⟩ := h
  rw [hgone (Or.inl rfl), List.append_nil] at hsent
  exact hsent

/-- A response with one header of the given value. -/
def headerExchange (value : CString) : Exchange :=
  { freshExchange with
    r := { freshExchange.r with headersOut := [(some (CString.ofString "A"), some value)] } }

/-- With a header longer than an `int` can say, the filter answers 500 and drops the brigade. -/
theorem passOutput_longHeader {value : CString} (hlong : intMax < value.bytes.length)
    (bb : Brigade) :
    newEvents (headerExchange value)
      ((headerExchange value).passOutputs quietEngine plainOut [bb]) =
      [.receive bb, .die httpInternalServerError, .returned .filterError] ∧
    ((headerExchange value).passOutputs quietEngine plainOut [bb]).ctx.pendingBrigade = none := by
  have hpack : corazaPackHeaders [⟨(CString.ofString "A").bytes, value.bytes⟩] = none := by
    rw [corazaPackHeaders, List.map_cons, packTotal, if_pos (Or.inr hlong)]
  have hpairs : responsePairs (headerExchange value).r =
      [⟨(CString.ofString "A").bytes, value.bytes⟩] := rfl
  have hends : Ends (corazaOutputFilter quietEngine plainOut bb)
      ((headerExchange value).arrive bb) (fun _ _ ↦ False)
      (fun st s' ↦ st = .filterError ∧ s'.trace = [.receive bb, .die httpInternalServerError] ∧
        s'.ctx.pendingBrigade = none) := by
    have ht : (headerExchange value).ctx.interventionTriggered = false := rfl
    have hp : (headerExchange value).ctx.phase3Done = false := rfl
    have hbulk : submitBulk quietEngine EngineCall.addResponseHeaders
        [⟨(CString.ofString "A").bytes, value.bytes⟩] = (pure false : Hook FilterStatus Bool) := by
      rw [submitBulk, hpack]
      rfl
    rw [corazaOutputFilter, ends_bind, ends_get, ends_bind, ends_when]
    refine ⟨fun h ↦ absurd h (by rw [Exchange.arrive_ctx, ht]; exact Bool.false_ne_true),
      fun _ ↦ ?_⟩
    rw [ends_bind, ends_when]
    refine ⟨fun _ ↦ ?_, fun h ↦ absurd h (by rw [Exchange.arrive_ctx, hp]; decide)⟩
    simp only [phase3, ends_bind, ends_modify, ends_get, Exchange.updCtx_r, Exchange.arrive_r,
      hpairs, submitHeaders, hbulk, ends_pure, ends_when, forEach, hlong]
    refine ⟨fun _ ↦ ⟨fun _ ↦ ⟨rfl, rfl, rfl⟩, fun h ↦ absurd h ?_⟩, fun h ↦ (by cases h)⟩
    simp
  have hpass : (headerExchange value).passOutputs quietEngine plainOut [bb] =
      (exec (corazaOutputFilter quietEngine plainOut bb)
        ((headerExchange value).arrive bb)).2.log (.returned
          (exec (corazaOutputFilter quietEngine plainOut bb)
            ((headerExchange value).arrive bb)).1) := by
    rw [Exchange.passOutputs, List.foldl_cons, List.foldl_nil]
    exact passOutput_on (y := headerExchange value) quietEngine plainOut bb rfl
  obtain ⟨hst, htrace, hpending⟩ := exec_of_ends (R := fun st s' ↦ st = .filterError ∧
    s'.trace = [.receive bb, .die httpInternalServerError] ∧ s'.ctx.pendingBrigade = none)
    (hends.mono (fun _ _ h ↦ h.elim) fun _ _ h ↦ h)
  rw [hpass, hst]
  refine ⟨newEvents_eq ?_, hpending⟩
  rw [Exchange.log_trace, htrace]
  rfl

/-- A value one byte longer than an `int` can say. -/
def longValue : CString where
  bytes := List.replicate (intMax + 1) 65
  noNul := fun h ↦ absurd (List.eq_of_mem_replicate h) (by decide)

/-- A response of one byte is lost to a header of that length, though the engine neither fails
nor intervenes, the bucket is readable and can be set aside. -/
theorem longHeader_loses_response :
    InMode .fresh (headerExchange longValue) ∧
    (∀ past bb, plainOut.saveBrigadeOk past bb = true) ∧
    Clean (newEvents (headerExchange longValue) ((headerExchange longValue).passOutputs quietEngine
      plainOut [[.data .heap [1], .eos]])) ∧
    sent (newEvents (headerExchange longValue) ((headerExchange longValue).passOutputs quietEngine
        plainOut [[.data .heap [1], .eos]])) ++
      ((headerExchange longValue).passOutputs quietEngine plainOut
        [[.data .heap [1], .eos]]).ctx.pendingBrigade.getD [] ≠
    received (newEvents (headerExchange longValue) ((headerExchange longValue).passOutputs
      quietEngine plainOut [[.data .heap [1], .eos]])) := by
  have hlong : intMax < longValue.bytes.length :=
    Nat.lt_of_lt_of_eq (Nat.lt_succ_self _) List.length_replicate.symm
  obtain ⟨hevs, hpending⟩ := passOutput_longHeader hlong [.data .heap [1], .eos]
  rw [hevs, hpending]
  exact ⟨inMode_fresh_of rfl rfl rfl, fun _ _ ↦ rfl, by decide, by decide⟩

end CorazaApache.Http
