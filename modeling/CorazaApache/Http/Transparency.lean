import CorazaApache.Http.Atomic
import CorazaApache.Http.HandlerIo

/-!
# With nothing to object to, the module is not there

An engine that neither fails nor intervenes, under an httpd that can keep what it is asked to
keep, changes nothing for client and handler: the hook lets the request through, the handler
reads the body that was sent, and what it writes goes down in order.
-/

namespace CorazaApache.Http
open CorazaApache.Base CorazaApache.Base.Prog CorazaApache.Config CorazaApache.Apr

/-- The engine neither fails nor intervenes. A bulk submission may still be rejected. -/
structure Engine.Passive (e : Engine) : Prop where
  calls : ∀ (past : List Event) (c : EngineCall), ¬ c.failed (e.ret past c)
  polls : ∀ past, e.intervention past = none

/-- The copy of a body can be kept. -/
structure SaveEnv.Succeeds (env : SaveEnv) : Prop where
  write : ∀ saved bytes, env.brigadeWriteOk saved bytes = true
  openSpool : env.openSpoolOk = true
  writeSpool : ∀ spool bytes, env.spoolWriteOk spool bytes = true

/-- Headers whose lengths an `int` can say. -/
def ShortHeaders (pairs : List HeaderPair) : Prop :=
  ∀ p ∈ pairs, p.name.length ≤ intMax ∧ p.value.length ≤ intMax

instance (pairs : List HeaderPair) : Decidable (ShortHeaders pairs) :=
  inferInstanceAs (Decidable (∀ p ∈ pairs, p.name.length ≤ intMax ∧ p.value.length ≤ intMax))

/-- The hook has a context, and the request headers can be submitted one by one. -/
def Submittable (s : Exchange) : Prop :=
  s.r.requestConfig = true ∧ ShortHeaders (collectPairs s.r.headersIn)

/-! ### The hook falls through -/

section

variable {e : Engine} {env : SaveEnv}

private theorem falls_engineCall {ρ : Type} (c : EngineCall) :
    Falls Submittable (engineCall e c : Hook ρ Int) := fun _ h ↦ h

/-- A call behind which the hook fails closed, if its result cannot be the one checked for. -/
theorem falls_checkedCall (he : e.Passive) {c : EngineCall} {bad : Int → Bool}
    (hbad : ∀ rc, bad rc = true → c.failed rc) {exit : Hook Int Unit} :
    Falls Submittable (do
      let rc ← engineCall e c
      when (bad rc) exit) := by
  intro s hs
  simp only [ends_bind, ends_engineCall, ends_when]
  exact ⟨fun h ↦ absurd (hbad _ h) (he.calls _ _), fun _ ↦ hs⟩

private theorem falls_checkProcess (he : e.Passive) {c : EngineCall}
    (hc : ∀ rc, rc < 0 → c.failed rc) :
    Falls Submittable (checkProcess e c) :=
  falls_checkedCall he fun rc h ↦ hc rc (of_decide_eq_true h)

private theorem falls_checkCall (he : e.Passive) {c : EngineCall}
    (hc : ∀ rc, rc ≠ 0 → c.failed rc) :
    Falls Submittable (checkCall e c) :=
  falls_checkedCall he fun rc h ↦ hc rc (of_decide_eq_true h)

private theorem falls_pollHook (he : e.Passive) : Falls Submittable (pollHook e) := by
  intro s hs
  rcases Exchange.corazaProcessIntervention_cases e true s hs.1 with
    ⟨-, hp⟩ | ⟨i, s', hi, -, -⟩
  · rw [Ends, pollHook, hp]
    exact hs
  · rw [he.polls] at hi
    cases hi

private theorem falls_submitBulk {bulk : List UInt8 → Nat → Nat → EngineCall}
    (pairs : List HeaderPair) :
    Falls Submittable (submitBulk e bulk pairs : Hook Int Bool) := by
  unfold submitBulk
  split
  · exact falls_pure true
  · split
    · exact falls_pure false
    · exact falls_bind (falls_engineCall _) fun _ ↦ falls_pure _

private theorem falls_submitHeaders (he : e.Passive) {pairs : List HeaderPair}
    (hshort : ShortHeaders pairs) : Falls Submittable
      (submitHeaders e .addRequestHeaders .addRequestHeader failClosed pairs) := by
  refine falls_bind (falls_submitBulk pairs) fun _ ↦ falls_when fun _ ↦
    falls_forEach fun p hp ↦ falls_bind (falls_when fun hlong ↦ ?_) fun _ ↦
      falls_checkedCall he fun rc h ↦ of_decide_eq_true h
  have hle := hshort p hp
  have hlt := of_decide_eq_true hlong
  omega

private theorem falls_phase1 (he : e.Passive) : Falls Submittable (phase1 e) := by
  refine falls_get_bind fun s hs ↦ falls_bind (falls_checkProcess he fun _ h ↦ h) fun _ ↦
    falls_bind (falls_pollHook he) fun _ ↦ ?_
  refine falls_bind (falls_checkProcess he fun _ h ↦ h) fun _ ↦
    falls_bind (falls_pollHook he) fun _ ↦ ?_
  refine falls_bind (falls_submitHeaders he hs.2) fun _ ↦ ?_
  exact falls_bind (falls_checkProcess he fun _ h ↦ h) fun _ ↦ falls_pollHook he

private theorem keepOk_of_succeeds (hsave : env.Succeeds) (memLimit : Int) (l : BodyLocals)
    (saved : Brigade) (chunk : BodyChunk) : keepOk env memLimit l saved chunk = true := by
  unfold keepOk
  split
  · exact hsave.write _ _
  · rw [hsave.openSpool, hsave.writeSpool, Bool.or_true]
    rfl

private theorem falls_bodyChunk (he : e.Passive) (hsave : env.Succeeds) {memLimit : Int}
    {inspect : Bool}
    {l : BodyLocals} {chunk : BodyChunk} :
    Falls Submittable (bodyChunk e env memLimit inspect l chunk) := by
  refine falls_bind ?_ fun _ ↦ falls_bind (falls_when fun _ ↦ ?_) fun _ ↦ falls_pure _
  · refine falls_get_bind fun s _ ↦ falls_bind (falls_when fun hfull ↦ ?_) fun _ ↦
      falls_bind (falls_modify fun _ h ↦ h) fun _ ↦ falls_pure _
    rw [keepOk_of_succeeds hsave] at hfull
    cases hfull
  · exact falls_bind (falls_checkCall he fun _ h ↦ h) fun _ ↦ falls_pollHook he

private theorem falls_phase2 (he : e.Passive) (hsave : env.Succeeds) {src : BodySource}
    (hsetup : src.setupClientBlock = retOk) (hfinal : src.final = 0) :
    Falls Submittable (phase2 e env src) := by
  refine falls_bind (falls_when fun hne ↦ ?_) fun _ ↦
    falls_bind (falls_when fun _ ↦ ?_) fun _ ↦ ?_
  · exact absurd hsetup (of_decide_eq_true hne)
  · refine falls_get_bind fun s _ ↦ falls_bind (falls_engineCall _) fun _ ↦
      falls_bind (falls_modify fun _ h ↦ h) fun _ ↦
      falls_bind (falls_foldEach fun _ _ ↦ falls_bodyChunk he hsave) fun _ ↦ ?_
    refine falls_bind (falls_when fun hneg ↦ ?_) fun _ ↦
      falls_bind (falls_modify fun _ h ↦ h) fun _ ↦ falls_modify fun _ h ↦ h
    rw [hfinal] at hneg
    cases hneg
  · exact falls_bind (falls_checkProcess he fun _ h ↦ h) fun _ ↦
      falls_bind (falls_modify fun _ h ↦ h) fun _ ↦ falls_pollHook he

end

/-- The hook declines to handle the request, which lets it through. -/
theorem declined_of_passive {e : Engine} {lib : WafLib} {save : SaveEnv} {src : BodySource}
    {s : Exchange} (he : e.Passive) (hsave : save.Succeeds) (hcreates : s.Creates lib)
    (hsetup : src.setupClientBlock = retOk) (hfinal : src.final = 0)
    (hshort : ShortHeaders (collectPairs s.r.headersIn)) :
    (exec (corazaPostReadRequest e lib save src) s).1 = retDeclined := by
  obtain ⟨⟨hmain, hon, hconfig⟩, hprev, hcreate⟩ := hcreates
  obtain ⟨handle, hhandle⟩ := Option.isSome_iff_exists.mp hcreate
  cases hctx : s.process.corazaCreateCtx lib (s.r.perDirConfig.getD 0) s.r.serverConf with
  | mk result p =>
    rw [hctx] at hhandle
    obtain rfl : result = some handle := hhandle
    have hcreated : createCtx lib s = (.next (), s.created handle p) := by
      simp only [createCtx, hctx]
      rfl
    have hphases : Falls Submittable (do
        phase1 e
        modify fun s ↦ s.updReq fun r ↦ { r with outFilter := true }
        phase2 e save src) :=
      falls_bind (falls_phase1 he) fun _ ↦ falls_bind (falls_modify fun _ h ↦ h) fun _ ↦
        falls_phase2 he hsave hsetup hfinal
    have hends := hphases (s.created handle p) ⟨rfl, hshort⟩
    apply exec_of_ends (R := fun v _ ↦ v = retDeclined)
    simp only [corazaPostReadRequest, ends_bind, ends_get, ends_when, ends_ret, ends_modify,
      ends_pure, hmain, hon, hconfig, hprev]
    refine ⟨fun _ ↦ trivial, fun _ ↦ ⟨fun _ ↦ trivial, fun _ ↦ ⟨fun _ ↦ trivial, fun _ ↦
      ⟨fun _ ↦ trivial, fun _ ↦ ?_⟩⟩⟩⟩
    rw [Ends, hcreated]
    simp only [ends_bind, ends_modify] at hends
    exact hends.mono (fun _ _ h ↦ h.mono (fun _ _ _ ↦ trivial) fun _ _ h ↦ h.elim)
      fun _ _ h ↦ h.elim

/-! ### The trace of the filter is what the engine answered -/

/-- The engine's answers satisfy `P` with the events before them, and so does everything that is
no answer. -/
structure Answering (e : Engine) (P : List Event → Event → Prop) : Prop where
  call : ∀ past c, P past (.call c (e.ret past c))
  poll : ∀ past, P past (.poll (e.intervention past))
  other : ∀ past ev, (∀ c rc, ev ≠ .call c rc) → (∀ i, ev ≠ .poll i) → P past ev

/-- The trace grows by events that satisfy `P`. -/
def Grows (P : List Event → Event → Prop) (s s' : Exchange) : Prop :=
  ∃ evs, s'.trace = s.trace ++ evs ∧ AlongFrom P s.trace evs

section

variable {P : List Event → Event → Prop} {s s' s'' : Exchange}

private theorem grows_of_eq (h : s'.trace = s.trace) : Grows P s s' :=
  ⟨[], by rw [h, List.append_nil], alongFrom_nil _⟩

private theorem grows_log (s : Exchange) {ev : Event} (h : P s.trace ev) : Grows P s (s.log ev) :=
  ⟨[ev], rfl, alongFrom_cons.mpr ⟨h, alongFrom_nil _⟩⟩

private theorem Grows.trans (h : Grows P s s') (h' : Grows P s' s'') : Grows P s s'' := by
  obtain ⟨evs, htrace, halong⟩ := h
  obtain ⟨evs', htrace', halong'⟩ := h'
  refine ⟨evs ++ evs', ?_, alongFrom_append.mpr ⟨halong, ?_⟩⟩
  · rw [htrace', htrace, List.append_assoc]
  · rw [← htrace]
    exact halong'

/-- The effect of a block on the trace. -/
def growsEffect (P : List Event → Event → Prop) : Effect Exchange FilterStatus where
  next := Grows P
  ret _ := Grows P
  refl _ := grows_of_eq rfl
  trans h h' := h.trans h'
  comp h h' := h.trans h'

variable {α : Type} {e : Engine} {env : OutEnv} {bb : Brigade} (hP : Answering e P)

include hP

private theorem grows_engineCall (c : EngineCall) : Within (growsEffect P) (engineCall e c) :=
  fun s ↦ grows_log s (hP.call s.trace c)

omit hP in
private theorem grows_modify {f : Exchange → Exchange} (h : ∀ s, (f s).trace = s.trace) :
    Within (growsEffect P) (modify f) := within_modify fun s ↦ grows_of_eq (h s)

omit hP in
private theorem grows_leave {exit : Exchange → FilterStatus × Exchange}
    (h : ∀ s, Grows P s (exit s).2) :
    Within (growsEffect P) (leave exit : Hook FilterStatus α) := h

private theorem grows_die (status : Int) (s : Exchange) : Grows P s (s.corazaDie status) :=
  grows_log _ (hP.other _ _ (fun _ _ h ↦ (by cases h)) fun _ h ↦ (by cases h))

private theorem grows_denyHeaders (status : Int) (s : Exchange) :
    Grows P s (s.denyHeaders status).2 := grows_die hP status s.refuse

private theorem grows_denyResponse (status : Int) (s : Exchange) :
    Grows P s (s.denyResponse status).2 := by
  unfold Exchange.denyResponse
  dsimp only
  split
  · exact grows_die hP status s.refuse.discardPending
  · exact grows_of_eq rfl

private theorem grows_corazaFailClosedResponse (s : Exchange) :
    Grows P s s.corazaFailClosedResponse.2 := by
  unfold Exchange.corazaFailClosedResponse
  dsimp only
  split
  · exact grows_die hP _ _
  · exact grows_of_eq rfl

omit hP in
private theorem grows_corazaDropResponse (s : Exchange) : Grows P s s.corazaDropResponse.2 := by
  unfold Exchange.corazaDropResponse
  dsimp only
  split
  · exact grows_of_eq rfl
  · exact grows_of_eq rfl

private theorem grows_passBrigade :
    Within (growsEffect P) (passBrigade bb : Hook FilterStatus α) :=
  grows_leave fun s ↦ grows_log s (hP.other _ _ (fun _ _ h ↦ (by cases h)) fun _ h ↦ (by cases h))

private theorem grows_stepOut : Within (growsEffect P) (stepOut bb : Hook FilterStatus α) :=
  within_bind (grows_modify fun _ ↦ rfl) fun _ ↦ grows_passBrigade hP

/-- A poll records its answer, and the status it reports. -/
theorem grows_poll (s : Exchange) : Grows P s (s.corazaProcessIntervention e false).2 := by
  unfold Exchange.corazaProcessIntervention
  cases s.r.requestConfig with
  | false => exact grows_of_eq rfl
  | true =>
    have hpoll := grows_log s (hP.poll s.trace)
    cases hi : e.intervention s.trace with
    | none =>
      rw [hi] at hpoll
      exact hpoll
    | some i =>
      rw [hi] at hpoll
      refine hpoll.trans ?_
      have hcall := hP.call (s.log (.poll (some i))).trace
        (.updateStatusCode (Exchange.enforcedStatus i))
      refine ⟨[.call (.updateStatusCode (Exchange.enforcedStatus i)) _], ?_,
        alongFrom_cons.mpr ⟨hcall, alongFrom_nil _⟩⟩
      dsimp only
      cases Exchange.isDrop i with
      | true =>
        cases i.data with
        | none => rfl
        | some data => rfl
      | false =>
        cases i.data with
        | none => rfl
        | some data => rfl

private theorem grows_pollFilter {mark : CorazaRequestCtx → CorazaRequestCtx}
    {deny : Int → Exchange → FilterStatus × Exchange}
    (hdeny : ∀ status s, Grows P s (deny status s).2) :
    Within (growsEffect P) (pollFilter e mark deny) := by
  intro s
  have hpoll := grows_poll hP s
  unfold Ends pollFilter
  cases h : s.corazaProcessIntervention e false with
  | mk ret s' =>
    rw [h] at hpoll
    dsimp only
    by_cases hr : 0 < ret
    · rw [if_pos hr]
      have hmarked : Grows P s (s'.updCtx mark) := hpoll.trans (grows_of_eq rfl)
      apply (growsEffect P).comp hmarked
      split
      · exact grows_leave (α := Unit) grows_corazaDropResponse (s'.updCtx mark)
      · exact grows_leave (α := Unit) (hdeny ret) (s'.updCtx mark)
    · rw [if_neg hr]
      exact hpoll

private theorem grows_processOr {c : EngineCall} {exit : Exchange → FilterStatus × Exchange}
    (hexit : ∀ s, Grows P s (exit s).2) : Within (growsEffect P) (processOr e c exit) :=
  within_bind (grows_engineCall hP c) fun _ ↦ within_when (grows_leave hexit)

private theorem grows_phase3 : Within (growsEffect P) (phase3 e env bb) := by
  have hdeny := grows_denyHeaders hP
  refine within_bind (grows_modify fun _ ↦ rfl) fun _ ↦ within_bind within_get fun s ↦ ?_
  refine within_bind (within_submitHeaders (fun _ _ _ ↦ grows_engineCall hP _)
    (fun _ ↦ grows_engineCall hP _) (grows_leave (hdeny _))) fun _ ↦ ?_
  refine within_bind (grows_processOr hP (hdeny _)) fun _ ↦ within_bind ?_ fun processable ↦ ?_
  · refine within_bind (grows_engineCall hP _) fun access ↦ ?_
    split
    · exact within_bind (grows_engineCall hP _) fun _ ↦ within_pure _
    · exact within_pure _
  refine within_bind (grows_modify fun _ ↦ rfl) fun _ ↦
    within_bind (grows_pollFilter hP hdeny) fun _ ↦ within_bind (within_when ?_) fun _ ↦ ?_
  · refine within_bind (grows_processOr hP (hdeny _)) fun _ ↦
      within_bind (grows_modify fun _ ↦ rfl) fun _ ↦ ?_
    exact within_bind (grows_pollFilter hP hdeny) fun _ ↦ grows_stepOut hP
  refine within_bind (within_when (grows_stepOut hP)) fun _ ↦
    within_bind within_get fun _ ↦ within_when (within_modify fun s ↦ ?_)
  exact grows_log _ (hP.other _ _ (fun _ _ h ↦ (by cases h)) fun _ h ↦ (by cases h))

private theorem grows_bodyBucket {sawEos : Bool} {b : Bucket} :
    Within (growsEffect P) (bodyBucket e bb sawEos b) := by
  have hfail := grows_corazaFailClosedResponse hP
  cases b with
  | eos => exact within_pure _
  | metadata id => exact within_pure _
  | unreadable id => exact grows_leave hfail
  | data storage bytes =>
    refine within_bind within_get fun s ↦ within_bind (within_when ?_) fun _ ↦
      within_bind (within_when ?_) fun _ ↦ within_pure _
    · refine within_bind (grows_modify fun _ ↦ rfl) fun _ ↦ within_bind within_get fun _ ↦
        within_when (within_bind (grows_modify fun _ ↦ rfl) fun _ ↦ grows_passBrigade hP)
    · refine within_bind (within_when (grows_leave hfail)) fun _ ↦
        within_bind (grows_engineCall hP _) fun _ ↦ ?_
      exact within_bind (within_when (grows_leave hfail)) fun _ ↦
        grows_pollFilter hP (grows_denyResponse hP)

private theorem grows_phase4 : Within (growsEffect P) (phase4 e env bb) := by
  have hfail := grows_corazaFailClosedResponse hP
  refine within_bind (within_foldEach fun _ _ ↦ grows_bodyBucket hP) fun _ ↦
    within_bind (within_when ?_) fun _ ↦ within_bind within_get fun _ ↦
    within_bind (within_when ?_) fun _ ↦ grows_passBrigade hP
  · refine within_bind (grows_processOr hP hfail) fun _ ↦
      within_bind (grows_pollFilter hP (grows_denyResponse hP)) fun _ ↦ ?_
    refine within_bind (grows_modify fun _ ↦ rfl) fun _ ↦ within_bind within_get fun _ ↦
      within_bind (within_when ?_) fun _ ↦ grows_stepOut hP
    exact within_bind (grows_modify fun _ ↦ rfl) fun _ ↦ grows_stepOut hP
  · refine within_bind within_get fun _ ↦ within_bind (within_when (grows_leave hfail)) fun _ ↦ ?_
    exact within_bind (grows_modify fun _ ↦ rfl) fun _ ↦ within_ret fun _ ↦ grows_of_eq rfl

/-- Whatever an invocation of the filter records is an answer of the engine or no answer. -/
theorem grows_corazaOutputFilter (s : Exchange) :
    Grows P s (exec (corazaOutputFilter e env bb) s).2 := by
  have hwithin : Within (growsEffect P) (corazaOutputFilter e env bb) :=
    within_bind within_get fun _ ↦ within_bind (within_when (grows_stepOut hP)) fun _ ↦
      within_bind (within_when (grows_phase3 hP)) fun _ ↦ grows_phase4 hP
  exact exec_of_ends (hwithin s)

end

/-! ### The response goes through -/

section

variable {e : Engine} {env : OutEnv} {s : Exchange}

private theorem answering_of_passive (he : e.Passive) : Answering e fun _ ev ↦ ¬ ev.Bad where
  call := he.calls
  poll past := by
    rw [he.polls]
    exact fun h ↦ h rfl
  other past ev hcall hpoll := by
    cases ev with
    | call c rc => exact absurd rfl (hcall c rc)
    | poll i => exact absurd rfl (hpoll i)
    | _ => exact id

/-- A clean piece of the trace. -/
theorem Grows.clean {s' : Exchange} (h : Grows (fun _ ev ↦ ¬ ev.Bad) s s') :
    ∃ evs, s'.trace = s.trace ++ evs ∧ Clean evs := by
  obtain ⟨evs, htrace, halong⟩ := h
  refine ⟨evs, htrace, fun ev hev ↦ ?_⟩
  obtain ⟨pre, post, rfl⟩ := List.append_of_mem hev
  exact halong pre ev post rfl

private theorem grows_passOutput (he : e.Passive) (bb : Brigade) :
    Grows (fun _ ev ↦ ¬ ev.Bad) s (s.passOutput e env bb) := by
  have harrive : Grows (fun _ ev ↦ ¬ ev.Bad) s (s.arrive bb) :=
    ⟨[.receive bb], rfl, alongFrom_cons.mpr ⟨id, alongFrom_nil _⟩⟩
  unfold Exchange.passOutput
  dsimp only
  split
  · exact (harrive.trans (grows_corazaOutputFilter (answering_of_passive he) _)).trans
      (grows_log _ id)
  · exact harrive.trans (grows_log _ id)

/-- No response meets a failure or an intervention. -/
theorem clean_passOutputs (he : e.Passive) (env : OutEnv) (s : Exchange) (bbs : List Brigade) :
    Clean (newEvents s (s.passOutputs e env bbs)) := by
  have hgrows : Grows (fun _ ev ↦ ¬ ev.Bad) s (s.passOutputs e env bbs) := by
    induction bbs generalizing s with
    | nil => exact grows_of_eq rfl
    | cons bb bbs ih => exact (grows_passOutput he bb).trans (ih _)
  obtain ⟨evs, htrace, hclean⟩ := hgrows.clean
  rw [newEvents_eq htrace]
  exact hclean

end

/-- A response that is going well: nothing is lost, and no error page is made. -/
structure GoingWell (m : Mode) (evs : List Event) : Prop where
  conserved : Conserved m evs
  plain : Plain evs

private theorem GoingWell.output {env : OutEnv} {r : Request} {bb : Brigade} {m m' : Mode}
    {evs new : List Event} (h : Clean evs → GoingWell m evs) (ho : Output env r bb m new m')
    (hins : ¬ Uninspectable env r bb) (hclean : Clean (evs ++ new)) :
    GoingWell m' (evs ++ new) := by
  have hwell := h (clean_append.mp hclean).1
  have hconserved := Conserved.output (fun _ ↦ hwell.conserved) ho hins hclean
  refine ⟨hconserved, List.forall_mem_append.mpr ⟨hwell.plain, ?_⟩⟩
  cases ho with
  | filter hi => exact plain_of_invoked hi hconserved.notRefused
  | direct hoff => simp [Event.isPage]

/-- A response whose parts can all be inspected and kept, under an engine that lets it through. -/
theorem goingWell_passOutputs {e : Engine} {env : OutEnv} {s : Exchange} (he : e.Passive)
    (hs : InMode .fresh s) (hset : ∀ past bb, env.saveBrigadeOk past bb = true)
    (hheaders : ShortHeaders (responsePairs s.r)) {bbs : List Brigade}
    (hread : ∀ bb ∈ bbs, ∀ b ∈ bb, b.readable = true ∧ b.bytes.length ≤ intMax) :
    ∃ m, InMode m (s.passOutputs e env bbs) ∧
      GoingWell m (newEvents s (s.passOutputs e env bbs)) := by
  have hins : ∀ bb ∈ bbs, ¬ Uninspectable env s.r bb := by
    rintro bb hbb (⟨p, hp, hlong⟩ | ⟨b, hb, hbad⟩ | ⟨past, hpast⟩)
    · have hshort := hheaders p hp
      omega
    · obtain ⟨hr, hl⟩ := hread bb hbb b hb
      rcases hbad with hbad | hbad
      · exact Bool.false_ne_true (hbad.symm.trans hr)
      · omega
    · exact Bool.false_ne_true (hpast.symm.trans (hset past bb))
  have hstart : GoingWell .fresh [] :=
    ⟨⟨fun h ↦ (by cases h), fun _ ↦ rfl, rfl, fun h ↦ (by cases h)⟩, fun ev h ↦ (by cases h)⟩
  obtain ⟨new, m, htrace, hm, hinv⟩ := passOutputs_run (e := e)
    (fun m evs ↦ Clean evs → GoingWell m evs)
    (fun bb hbb m evs new m' hinv ho ↦ GoingWell.output hinv ho (hins bb hbb))
    (fun _ ↦ hstart) hs (fun _ ↦ rfl)
  have hclean := clean_passOutputs he env s bbs
  rw [newEvents_eq htrace] at hclean ⊢
  rw [List.nil_append] at hinv
  exact ⟨m, hm, hinv hclean⟩

/-- An admitted request stands before a fresh response. -/
theorem inMode_fresh_admitted (env : SaveEnv) (src : BodySource) (s : Exchange) (handle : Nat)
    (p : Process) (evs : List Event) :
    InMode .fresh ((s.admitted env src handle p).after evs) ∧
      responsePairs ((s.admitted env src handle p).after evs).r = responsePairs s.r := by
  cases hb : src.shouldClientBlock with
  | true =>
    simp only [Exchange.admitted, hb, if_true]
    exact ⟨⟨rfl, fun _ ↦ rfl, rfl, fun _ ↦ rfl, rfl, rfl, fun _ ↦ rfl, Nat.zero_le _, rfl,
      fun _ h ↦ absurd rfl h⟩, rfl⟩
  | false =>
    simp only [Exchange.admitted, hb, Bool.false_eq_true, if_false]
    exact ⟨⟨rfl, fun _ ↦ rfl, rfl, fun _ ↦ rfl, rfl, rfl, fun _ ↦ rfl, Nat.zero_le _, rfl,
      fun _ h ↦ absurd rfl h⟩, rfl⟩

/-- An engine that neither fails nor intervenes leaves no mark on a request that can be kept and
inspected. The hook lets it through; in whatever order the handler reads and writes, it reads the
body that was sent, what it writes goes down unchanged and in order, and nothing of it is held
back once the response has ended; and no error page is made. -/
theorem passive_engine_transparent (e : Engine) (lib : WafLib) (save : SaveEnv) (src : BodySource)
    (env : OutEnv) (s : Exchange) (steps : List HandlerStep) (he : e.Passive)
    (hops : save.ops.Documented) (hsave : save.Succeeds)
    (hset : ∀ past bb, env.saveBrigadeOk past bb = true) (hcreates : s.Creates lib)
    (hsetup : src.setupClientBlock = retOk) (hfinal : src.final = 0)
    (hrequest : ShortHeaders (collectPairs s.r.headersIn))
    (hresponse : ShortHeaders (responsePairs s.r))
    (hread : ∀ bb ∈ HandlerStep.writes steps, ∀ b ∈ bb,
      b.readable = true ∧ b.bytes.length ≤ intMax) :
    let s' := (exec (corazaPostReadRequest e lib save src) s).2
    let t := s'.handled e env save.ops steps
    let pending := t.ctx.pendingBrigade.getD []
    (exec (corazaPostReadRequest e lib save src) s).1 = retDeclined ∧
    (src.shouldClientBlock = true → (s'.answers e env save.ops steps).flatMap consumed ++ t.left =
      (bodyBytes src.chunks).map .byte ++ [.eos]) ∧
    sent (newEvents s' t) ++ pending = (HandlerStep.writes steps).flatten ∧
    (hasEos (HandlerStep.writes steps).flatten = true → pending = []) ∧
    ∀ status, .die status ∉ newEvents s' t := by
  intro s' t pending
  have hdeclined := declined_of_passive he hsave hcreates hsetup hfinal hrequest
  obtain ⟨⟨hmain, hon, hconfig⟩, hprev, -⟩ := hcreates
  -- The state the hook leaves is that of an admitted request.
  obtain ⟨handle, p, evs, hadmitted⟩ : ∃ handle p evs,
      s' = (s.admitted save src handle p).after evs := by
    have hends :=
      ends_corazaPostReadRequest e lib save src s (Or.inl hsetup) hmain hon hconfig hprev
    refine exec_of_ends (R := fun v s' ↦ v = retDeclined → ∃ handle p evs,
      s' = (s.admitted save src handle p).after evs) (hends.mono ?_ ?_) hdeclined
    · rintro v s' ⟨-, handle, p, evs, -, -, rfl⟩ -
      exact ⟨handle, p, evs, rfl⟩
    · rintro v s' ⟨hv, -⟩ rfl
      exact absurd hv (by decide)
  obtain ⟨hfresh, hpairs⟩ := inMode_fresh_admitted save src s handle p evs
  rw [← hadmitted] at hfresh hpairs
  obtain ⟨m, hm, hwell⟩ := goingWell_passOutputs he hfresh hset (hpairs ▸ hresponse) hread
  -- But for the saved body, the run is one of its brigades.
  obtain ⟨part, ht⟩ : ∃ part, t =
      replayPart.put part (s'.passOutputs e env (HandlerStep.writes steps)) :=
    Exchange.handled_eq_put e env save.ops s' steps
  have hevents : newEvents s' t =
      newEvents s' (s'.passOutputs e env (HandlerStep.writes steps)) := by
    rw [ht]
    rfl
  have hpending : pending = m.held := by
    have hctx : t.ctx.pendingBrigade =
        (s'.passOutputs e env (HandlerStep.writes steps)).ctx.pendingBrigade := by
      rw [ht]
      rfl
    rw [← hm.pending, ← hctx]
  have hreceived : received (newEvents s' (s'.passOutputs e env (HandlerStep.writes steps))) =
      (HandlerStep.writes steps).flatten := received_passOutputs hfresh
  have hclear : t.ctx.interventionTriggered = false := by
    have htriggered := hm.triggered
    rw [decide_eq_false hwell.conserved.notRefused] at htriggered
    rw [ht]
    exact htriggered
  refine ⟨hdeclined, fun hb ↦ ?_, ?_, fun heos ↦ ?_, fun status hdie ↦ ?_⟩
  · have hstate := admitted_state hops hb s handle p evs
    rw [← hadmitted] at hstate
    rw [← hstate.left]
    exact (Exchange.consumed_answers hops hstate.replaying steps).2 hclear
  · rw [hevents, hpending, ← hreceived]
    exact hwell.conserved.whole
  · rw [hpending]
    cases hd : m.delays with
    | false => exact Mode.held_of_not_delays hd
    | true =>
      -- What is still delayed was held back from the start, and holds no end of stream.
      have hwhole := hwell.conserved.whole
      rw [hwell.conserved.unsent hd, List.nil_append, hreceived] at hwhole
      rw [← hwhole, hm.noEos] at heos
      cases heos
  · rw [hevents] at hdie
    exact Bool.false_ne_true (hwell.plain _ hdie).1.symm

private theorem passive_quietEngine : quietEngine.Passive :=
  ⟨fun _ c h ↦ by cases c <;> first | exact Int.lt_irrefl 0 h | exact h rfl | exact h,
    fun _ ↦ rfl⟩

/-- The body of `plainExchange` is read and its response goes down, though the handler writes
before it has read everything. -/
theorem plainExchange_transparent :
    (exec (corazaPostReadRequest quietEngine acceptingLib plainSave plainBody)
      plainExchange).1 = retDeclined ∧
    sent (newEvents (exec (corazaPostReadRequest quietEngine acceptingLib plainSave plainBody)
      plainExchange).2 ((exec (corazaPostReadRequest quietEngine acceptingLib plainSave plainBody)
        plainExchange).2.handled quietEngine plainOut plainSave.ops
          [.read ⟨.readBytes, 2, []⟩, .write [.data .heap [7], .eos],
            .read ⟨.exhaustive, 0, []⟩])) = [.data .heap [7], .eos] := by
  obtain ⟨hdeclined, -, hsent, hnone, -⟩ := passive_engine_transparent quietEngine acceptingLib
    plainSave plainBody plainOut plainExchange [.read ⟨.readBytes, 2, []⟩,
      .write [.data .heap [7], .eos], .read ⟨.exhaustive, 0, []⟩] passive_quietEngine
    documented_listOps ⟨fun _ _ ↦ rfl, rfl, fun _ _ ↦ rfl⟩ (fun _ _ ↦ rfl) (by decide +kernel) rfl
    rfl (by decide) (by decide) (by decide)
  rw [hnone (by decide), List.append_nil] at hsent
  exact ⟨hdeclined, hsent⟩

end CorazaApache.Http
