import CorazaApache.Http.Release

/-!
# Phase 4 and the end of the response

Wherever the end of stream goes downstream, phase 4 has run exactly once and was polled, with
three exceptions: the filter refused the response before, the response is an inspected
event stream, or a delayed response exceeded the cap. The last two step out of the chain on
purpose, `src/mod_coraza_filter_out.c:342–356,401–428`.
-/

namespace CorazaApache.Http
open CorazaApache.Base CorazaApache.Base.Prog CorazaApache.Config CorazaApache.Apr

/-- A call that runs phase 4. -/
def Event.isPhase4 : Event → Bool
  | .call .processResponseBody _ => true
  | _ => false

/-- How often phase 4 ran. -/
def phase4Calls (evs : List Event) : Nat := evs.countP Event.isPhase4

/-- Phase 4 ran exactly once, without failure, and the poll after it found nothing. -/
structure Finished (evs : List Event) : Prop where
  once : phase4Calls evs = 1
  polled : ∃ pre rc post, evs = pre ++ .call .processResponseBody rc :: .poll none :: post ∧ 0 ≤ rc

/-- A `text/event-stream` response whose body the engine wants. -/
def InspectedSse (r : Request) (evs : List Event) : Prop :=
  corazaIsSseResponse r = true ∧
    ∃ answer, answer ≠ 0 ∧ .call .isResponseBodyProcessable answer ∈ evs

/-- A delayed response of which more than the cap was received. -/
def OverCap (evs : List Event) : Prop :=
  .delay ∈ evs ∧ maxDelayedBody < (dataBytes (received evs)).length

/-- The filter refused the response. -/
def RefusedBefore (evs : List Event) : Prop := ∃ st, st.IsError ∧ .returned st ∈ evs

/-- Why the end of stream may go downstream. -/
def Accounted (r : Request) (evs : List Event) : Prop :=
  RefusedBefore evs ∨ InspectedSse r evs ∨ OverCap evs ∨ Finished evs

/-- An end of stream goes downstream only accounted for. -/
def EosRule (r : Request) (pre : List Event) (ev : Event) : Prop :=
  ∀ out, ev = .pass out ∨ ev = .direct out → hasEos out = true → Accounted r pre

/-- The invariant of a response with respect to phase 4. -/
structure PhaseFour (r : Request) (m : Mode) (evs : List Event) : Prop where
  held : HeldBack m evs
  notYet : m.active = true → phase4Calls evs = 0
  gone : m.active = false → Accounted r evs
  rule : Along (EosRule r) evs

section

variable {env : OutEnv} {r : Request} {bb : Brigade} {m m' : Mode} {evs : List Event}
  {st : FilterStatus}

/-- The phase-4 calls of two runs add up. -/
@[simp] theorem phase4Calls_append (a b : List Event) :
    phase4Calls (a ++ b) = phase4Calls a + phase4Calls b := List.countP_append

/-- The arrival of a brigade is none. -/
@[simp] theorem phase4Calls_receive (bb : Brigade) (evs : List Event) :
    phase4Calls (.receive bb :: evs) = phase4Calls evs := by
  simp [phase4Calls, Event.isPhase4]

/-- What accounts for an end of stream still does after events that do not run phase 4. -/
theorem Accounted.append (h : Accounted r evs) {new : List Event} (hnew : phase4Calls new = 0) :
    Accounted r (evs ++ new) := by
  rcases h with ⟨st, hst, hmem⟩ | ⟨hsse, answer, hne, hmem⟩ | ⟨hmem, hlen⟩ | hfin
  · exact Or.inl ⟨st, hst, List.mem_append_left _ hmem⟩
  · exact Or.inr (Or.inl ⟨hsse, answer, hne, List.mem_append_left _ hmem⟩)
  · refine Or.inr (Or.inr (Or.inl ⟨List.mem_append_left _ hmem, ?_⟩))
    rw [received_append, dataBytes_append, List.length_append]
    omega
  · obtain ⟨pre, rc, post, hsplit, hrc⟩ := hfin.polled
    refine Or.inr (Or.inr (Or.inr ⟨?_, pre, rc, post ++ new, ?_, hrc⟩))
    · rw [phase4Calls_append, hfin.once, hnew]
    · rw [hsplit, List.append_assoc]
      rfl

/-- Events that send nothing satisfy the rule. -/
theorem eosRule_of_unsent {past : List Event} (h : Unsent evs) :
    AlongFrom (EosRule r) past evs := by
  refine alongFrom_of_forall fun ev hev pre out he ↦ absurd ?_ (h ev hev)
  rcases he with rfl | rfl <;> trivial

private theorem phase4Calls_phase3 {processable : Bool} (h : Phase3Done r processable evs) :
    phase4Calls evs = 0 := by
  refine List.countP_eq_zero.mpr fun ev hev hp ↦ ?_
  rcases phase3_events h ev hev with ⟨c, rc, rfl, hc⟩ | rfl
  · cases c <;> first | exact hc.elim | cases hp
  · cases hp

private theorem phase4Calls_inspected (bb : Brigade) :
    phase4Calls (bb.flatMap inspectedBucket) = 0 := by
  refine List.countP_eq_zero.mpr fun ev hev hp ↦ ?_
  obtain ⟨b, -, hev⟩ := List.mem_flatMap.mp hev
  unfold inspectedBucket at hev
  split at hev
  · cases hev
  · rcases List.mem_pair.mp hev with rfl | rfl <;> cases hp

private theorem Opens.phase4Calls_eq_zero (h : Opens env r m evs m') : phase4Calls evs = 0 := by
  cases h with
  | again => rfl
  | delay hdone =>
    rw [phase4Calls_append, phase4Calls_phase3 hdone]
    rfl
  | stream hdone => exact phase4Calls_phase3 hdone

/-- Phase 4 and its poll at the end of events without one. -/
theorem finished_of_end (h : phase4Calls evs = 0) {rc : Int} (hrc : 0 ≤ rc) :
    Finished (evs ++ [.call .processResponseBody rc, .poll none]) := by
  refine ⟨?_, evs, rc, [], rfl, hrc⟩
  rw [phase4Calls_append, h]
  rfl

/-- The last brigade the filter passes on, accounted for, ends the story of the response. -/
theorem phaseFour_of_last (evs : List Event) (out : Brigade)
    (hheld : HeldBack .out (evs ++ [.pass out, .returned st]))
    (hrule : Along (EosRule r) evs) (hacc : Accounted r evs) :
    PhaseFour r .out (evs ++ [.pass out, .returned st]) := by
  refine ⟨hheld, fun h ↦ (by cases h), fun _ ↦ hacc.append rfl, along_append.mpr ⟨hrule,
    alongFrom_cons.mpr ⟨fun _ _ _ ↦ hacc, eosRule_of_unsent ?_⟩⟩⟩
  simp [Unsent, Event.Sends]

/-- The body loop keeps the invariant. -/
theorem phaseFour_of_carries {m₁ : Mode} {new : List Event} (hopened : OpenedBack m₁ bb evs)
    (hzero : phase4Calls evs = 0) (hrule : Along (EosRule r) evs)
    (hc : Carries bb m₁ new st m') : PhaseFour r m' (evs ++ new ++ [.returned st]) := by
  have hheld := hopened.carries hc
  have hrule' (before : Brigade) :
      Along (EosRule r) (evs ++ before.flatMap inspectedBucket) :=
    along_append.mpr ⟨hrule,
      eosRule_of_unsent (unsent_inner (m := .fresh) (inner_inspected before))⟩
  have hzero' (before : Brigade) : phase4Calls (evs ++ before.flatMap inspectedBucket) = 0 := by
    rw [phase4Calls_append, hzero, phase4Calls_inspected]
  have hend (rc : Int) : Along (EosRule r) (evs ++ bb.flatMap inspectedBucket ++
      [.call .processResponseBody rc, .poll none]) :=
    along_append.mpr ⟨hrule' bb, eosRule_of_unsent (by simp [Unsent, Event.Sends])⟩
  have hreturned (past : List Event) : AlongFrom (EosRule r) past [.returned st] :=
    eosRule_of_unsent (by simp [Unsent, Event.Sends])
  cases hc with
  | @flush held before after b hsplit hread hbelow habove =>
    have hover : OverCap (evs ++ before.flatMap inspectedBucket) := by
      refine ⟨List.mem_append_left _ (hopened.delayed rfl), ?_⟩
      obtain ⟨past, inner, hevs, hinner, hpast⟩ := hopened.split
      rw [received_append, received_inspected, List.append_nil, hevs, received_append, hpast rfl]
      show maxDelayedBody < (dataBytes (held ++ (bb ++ received inner))).length
      rw [hinner, List.append_nil, hsplit]
      simp only [dataBytes_append, dataBytes_cons, List.length_append] at habove ⊢
      omega
    have hlast := phaseFour_of_last (evs ++ before.flatMap inspectedBucket) (held ++ bb)
      (by simpa using hheld) (hrule' before) (Or.inr (Or.inr (Or.inl hover)))
    simpa using hlast
  | @release held rc hread heos hbelow hrc =>
    have hlast := phaseFour_of_last (evs ++ bb.flatMap inspectedBucket ++
      [.call .processResponseBody rc, .poll none]) (held ++ bb) (by simpa using hheld) (hend rc)
      (Or.inr (Or.inr (Or.inr (finished_of_end (hzero' bb) hrc))))
    simpa using hlast
  | hold hread heos hbelow =>
    refine ⟨hheld, fun _ ↦ ?_, fun h ↦ (by cases h), along_append.mpr ⟨hrule' bb, hreturned _⟩⟩
    rw [phase4Calls_append, hzero' bb]
    rfl
  | @finish rc hread heos hrc =>
    have hlast := phaseFour_of_last (evs ++ bb.flatMap inspectedBucket ++
      [.call .processResponseBody rc, .poll none]) bb (by simpa using hheld) (hend rc)
      (Or.inr (Or.inr (Or.inr (finished_of_end (hzero' bb) hrc))))
    simpa using hlast
  | stream hread heos =>
    refine ⟨hheld, fun _ ↦ ?_, fun h ↦ (by cases h), along_append.mpr ⟨?_, hreturned _⟩⟩
    · rw [phase4Calls_append, ← List.append_assoc, phase4Calls_append, hzero' bb]
      rfl
    · rw [← List.append_assoc]
      refine along_append.mpr ⟨hrule' bb, alongFrom_cons.mpr ⟨fun out he hout ↦ ?_,
        alongFrom_nil _⟩⟩
      rcases he with he | he
      · cases he
        rw [heos] at hout
        cases hout
      · cases he

private theorem unsent_first {processable : Bool} (h : Phase3Done r processable evs) :
    Unsent (.receive bb :: evs) :=
  List.forall_mem_cons.mpr ⟨id, unsent_inner (m := .fresh) (inner_phase3 h)⟩

/-- An inspected body was asked for. -/
theorem answer_of_phase3 (h : Phase3Done r true evs) :
    ∃ answer, answer ≠ 0 ∧ .call .isResponseBodyProcessable answer ∈ evs := by
  obtain ⟨headers, rc, asked, -, -, hasked, rfl⟩ := h
  rcases hasked with ⟨hfalse, -⟩ | ⟨access, answer, -, hanswer, rfl⟩
  · cases hfalse
  · exact ⟨answer, of_decide_eq_true hanswer.symm, by simp⟩

/-- Every transition keeps the invariant. -/
theorem PhaseFour.output (h : PhaseFour r m evs) {new : List Event}
    (ho : Output env r bb m new m') : PhaseFour r m' (evs ++ new) := by
  have hheld := h.held.output ho
  cases ho with
  | direct hoff =>
    have hacc := h.gone hoff
    refine ⟨hheld, fun hon ↦ absurd (hon.symm.trans hoff) (by decide), fun _ ↦ hacc.append rfl,
      along_append.mpr ⟨h.rule, alongFrom_cons.mpr ⟨?_, alongFrom_cons.mpr
        ⟨fun _ _ _ ↦ hacc.append rfl, alongFrom_nil _⟩⟩⟩⟩
    rintro out (he | he) <;> cases he
  | @filter _ evs' st hi =>
    cases hi with
    | refuse hr =>
      exact ⟨hheld, fun h ↦ (by cases h), fun _ ↦ Or.inl ⟨st, hr.error, by simp⟩,
        along_append.mpr ⟨h.rule, eosRule_of_unsent hr.unsent⟩⟩
    | @uninspected first rc hdone hrc =>
      have hnil := h.held.fresh rfl
      subst hnil
      have hzero : phase4Calls (.receive bb :: first) = 0 := by
        rw [phase4Calls_receive, phase4Calls_phase3 hdone]
      have hunsent : Unsent (.receive bb :: first ++ [.call .processResponseBody rc, .poll none]) :=
        unsent_append.mpr ⟨unsent_first hdone, by simp [Unsent, Event.Sends]⟩
      have hlast := phaseFour_of_last (r := r) _ bb (by simpa using hheld)
        (eosRule_of_unsent hunsent) (Or.inr (Or.inr (Or.inr (finished_of_end hzero hrc))))
      simpa using hlast
    | @sse first hdone hsse =>
      have hnil := h.held.fresh rfl
      subst hnil
      have hins : InspectedSse r (.receive bb :: first) := by
        obtain ⟨answer, hne, hmem⟩ := answer_of_phase3 hdone
        exact ⟨hsse, answer, hne, List.mem_cons_of_mem _ hmem⟩
      have hlast := phaseFour_of_last (.receive bb :: first) bb (by simpa using hheld)
        (eosRule_of_unsent (unsent_first hdone)) (Or.inr (Or.inl hins))
      simpa using hlast
    | @carry _ m₁ _ first second _ ho hc =>
      have hzero : phase4Calls (evs ++ .receive bb :: first) = 0 := by
        rw [phase4Calls_append, h.notYet ho.active, phase4Calls_receive, ho.phase4Calls_eq_zero]
      have hrule : Along (EosRule r) (evs ++ .receive bb :: first) :=
        along_append.mpr ⟨h.rule, eosRule_of_unsent
          (List.forall_mem_cons.mpr ⟨id, unsent_inner ho.inner⟩)⟩
      have hcarried := phaseFour_of_carries (h.held.opens ho) hzero hrule hc
      simpa using hcarried

end

/-- Phase 4 and the end of the response. Wherever an end of stream goes downstream in a run of
a response that was not refused before, is not an inspected event stream, and has not exceeded
the cap while delayed, phase 4 has run exactly once and its poll found nothing. -/
theorem phase4_before_eos (e : Engine) (env : OutEnv) (s : Exchange) (bbs : List Brigade)
    (hs : InMode .fresh s) (pre post : List Event) (ev : Event) (out : Brigade)
    (hsplit : newEvents s (s.passOutputs e env bbs) = pre ++ ev :: post)
    (hev : ev = .pass out ∨ ev = .direct out) (heos : hasEos out = true)
    (hrefused : ¬ RefusedBefore pre) (hsse : ¬ InspectedSse s.r pre) (hcap : ¬ OverCap pre) :
    Finished pre := by
  have hstart : PhaseFour s.r .fresh [] :=
    ⟨heldBack_fresh, fun _ ↦ rfl, fun h ↦ (by cases h), alongFrom_nil _⟩
  obtain ⟨new, m', htrace, -, hinv⟩ := passOutputs_run (PhaseFour s.r)
    (fun bb _ m evs new m' h ho ↦ h.output ho) hstart hs (fun _ ↦ rfl)
  rw [newEvents_eq htrace] at hsplit
  rw [List.nil_append] at hinv
  have hacc : Accounted s.r pre := hinv.rule pre ev post hsplit out hev heos
  exact ((hacc.resolve_left hrefused).resolve_left hsse).resolve_left hcap

/-- Phase 4 of a response in two brigades has run when its end goes downstream. -/
theorem freshExchange_phase4 :
    ∃ pre post, newEvents freshExchange (freshExchange.passOutputs quietEngine plainOut
        [[.data .heap [1, 2]], [.data .heap [3], .eos]]) =
      pre ++ .pass [.data .heap [1, 2], .data .heap [3], .eos] :: post ∧ Finished pre := by
  have hsplit : newEvents freshExchange (freshExchange.passOutputs quietEngine plainOut
        [[.data .heap [1, 2]], [.data .heap [3], .eos]]) =
      (newEvents freshExchange (freshExchange.passOutputs quietEngine plainOut
        [[.data .heap [1, 2]], [.data .heap [3], .eos]])).dropLast.dropLast ++
      .pass [.data .heap [1, 2], .data .heap [3], .eos] :: [.returned .passed] := by decide
  refine ⟨_, _, hsplit, phase4_before_eos quietEngine plainOut freshExchange
    [[.data .heap [1, 2]], [.data .heap [3], .eos]] (inMode_fresh_of rfl rfl rfl) _ _ _ _ hsplit
    (Or.inl rfl) (by decide) ?_ ?_ ?_⟩
  · rintro ⟨st, hst, hmem⟩
    rcases hst with rfl | rfl | rfl <;> exact absurd hmem (by decide)
  · exact fun h ↦ absurd h.1 (by decide)
  · exact fun h ↦ absurd h.2 (by decide)

/-- A chunk above the cap in the first brigade makes the filter step out right behind phase 3. -/
theorem passOutput_flush {e : Engine} {env : OutEnv} {s y : Exchange} {bytes : List UInt8}
    (hon : s.r.outFilter = true) (ht : s.ctx.interventionTriggered = false)
    (h3 : s.ctx.phase3Done = false)
    (hopen : phase3 e env [.data .heap bytes, .eos] (s.arrive [.data .heap bytes, .eos]) =
      (.next (), y))
    (hd : y.ctx.headersDelayed = true) (hpend : y.ctx.pendingBrigade = some [])
    (hlen : y.ctx.pendingLen = 0) (hover : maxDelayedBody < bytes.length)
    (hsize : bytes.length < sizeModulus) :
    (s.passOutput e env [.data .heap bytes, .eos]).trace =
      y.trace ++ [.pass [.data .heap bytes, .eos], .returned .passed] ∧
    (s.passOutput e env [.data .heap bytes, .eos]).ctx.interventionTriggered =
      y.ctx.interventionTriggered := by
  have hends : Ends (corazaOutputFilter e env [.data .heap bytes, .eos])
      (s.arrive [.data .heap bytes, .eos]) (fun _ _ ↦ False)
      (fun st s' ↦ st = .passed ∧ s'.trace = y.trace ++ [.pass [.data .heap bytes, .eos]] ∧
        s'.ctx.interventionTriggered = y.ctx.interventionTriggered) := by
    have hpos : 0 < bytes.length := Nat.lt_of_le_of_lt (Nat.zero_le _) hover
    rw [corazaOutputFilter, ends_bind, ends_get, ends_bind, ends_when, Exchange.arrive_ctx, ht]
    refine ⟨fun h ↦ (by cases h), fun _ ↦ ?_⟩
    rw [ends_bind, ends_when, h3]
    refine ⟨fun _ ↦ ?_, fun h ↦ (by cases h)⟩
    rw [Ends, hopen]
    simp only [phase4, foldEach, bodyBucket, countDelayed, ends_bind, ends_get, ends_when,
      ends_modify, hd, decide_eq_true hpos, Bool.and_true, Exchange.updCtx_ctx, hlen, hpend]
    refine ⟨fun _ ↦ ⟨fun _ ↦ ⟨rfl, rfl, rfl⟩, fun h ↦ ?_⟩, fun h ↦ (by cases h)⟩
    have hnot : ¬ maxDelayedBody < (0 + bytes.length) % sizeModulus := of_decide_eq_false h
    rw [Nat.zero_add, Nat.mod_eq_of_lt hsize] at hnot
    exact absurd hover hnot
  have hpass := passOutput_on e env [.data .heap bytes, .eos] hon
  obtain ⟨hst, htrace, htriggered⟩ :=
    exec_of_ends (hends.mono (fun _ _ h ↦ h.elim) fun _ _ h ↦ h)
  rw [hpass, hst]
  refine ⟨?_, htriggered⟩
  rw [Exchange.log_trace, htrace, List.append_assoc]
  rfl

/-- That of a response without headers to a quiet engine. -/
theorem passOutput_overCap {bytes : List UInt8} (hover : maxDelayedBody < bytes.length)
    (hsize : bytes.length < sizeModulus) :
    newEvents freshExchange (freshExchange.passOutputs quietEngine plainOut
      [[.data .heap bytes, .eos]]) =
    [.receive [.data .heap bytes, .eos],
      .call (.processResponseHeaders 200 (CString.ofString "HTTP/1.1")) 0,
      .call .isResponseBodyAccessible 1, .call .isResponseBodyProcessable 1, .poll none, .delay,
      .pass [.data .heap bytes, .eos], .returned .passed] := by
  have hphase3 (bb : Brigade) : phase3 quietEngine plainOut bb (freshExchange.arrive bb) =
      (.next (), ((freshExchange.arrive bb).updCtx fun c ↦ { c with
        phase3Done := true, responseBodyProcessable := true, pendingBrigade := some [],
        headersDelayed := true }).after [
          .call (.processResponseHeaders 200 (CString.ofString "HTTP/1.1")) 0,
          .call .isResponseBodyAccessible 1, .call .isResponseBodyProcessable 1, .poll none,
          .delay]) := rfl
  exact newEvents_eq (passOutput_flush rfl rfl rfl (hphase3 _) rfl rfl rfl hover hsize).1

/-- One megabyte and a byte. -/
def overCapBytes : List UInt8 := List.replicate (maxDelayedBody + 1) 0

/-- The end of a response above the cap goes downstream without phase 4, though nothing failed,
nothing intervened, and the response is no event stream. -/
theorem overCap_skips_phase4 :
    InMode .fresh freshExchange ∧ corazaIsSseResponse freshExchange.r = false ∧
    ∃ pre post, newEvents freshExchange (freshExchange.passOutputs quietEngine plainOut
        [[.data .heap overCapBytes, .eos]]) =
      pre ++ .pass [.data .heap overCapBytes, .eos] :: post ∧
      Clean pre ∧ ¬ RefusedBefore pre ∧ phase4Calls pre = 0 := by
  have hover : maxDelayedBody < overCapBytes.length :=
    Nat.lt_of_lt_of_eq (Nat.lt_succ_self _) List.length_replicate.symm
  have hsize : overCapBytes.length < sizeModulus := by
    rw [overCapBytes, List.length_replicate]
    decide
  refine ⟨inMode_fresh_of rfl rfl rfl, by decide, [.receive [.data .heap overCapBytes, .eos],
      .call (.processResponseHeaders 200 (CString.ofString "HTTP/1.1")) 0,
      .call .isResponseBodyAccessible 1, .call .isResponseBodyProcessable 1, .poll none, .delay],
    [.returned .passed], passOutput_overCap hover hsize, ?_, ?_, ?_⟩
  · simp [Clean, Event.Bad, EngineCall.failed]
  · simp [RefusedBefore]
  · simp [phase4Calls, Event.isPhase4]

end CorazaApache.Http
