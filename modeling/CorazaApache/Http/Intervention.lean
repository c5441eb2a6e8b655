import CorazaApache.Http.Exchange

/-!
# Polling for an intervention and enforcing it

`src/mod_coraza.c:224–351`, `src/mod_coraza_log.c:23–50`. A poll either finds nothing and
changes nothing, or finds an intervention and returns a positive status; a drop is remembered
on the context. The decision is made once, in the poll: whether the connection is dropped, the
status, and the redirect target. The hook and the filter enforce it on the spot.
-/

namespace CorazaApache.Http
open CorazaApache.Base CorazaApache.Config CorazaApache.Apr

namespace Exchange

/-- `coraza_drop_connection`; `src/mod_coraza.c:242–248`. -/
def corazaDropConnection (s : Exchange) : Exchange :=
  { s with
    r := { s.r with status := httpForbidden }
    conn := { s.conn with keepaliveClose := true, aborted := true } }

/-- `coraza_log_transaction`, which always returns `OK`; `src/mod_coraza_log.c:23–50`. -/
def corazaLogTransaction (e : Engine) (s : Exchange) : Exchange :=
  if !s.enabled then s
  else if !s.r.requestConfig then s
  else if s.ctx.logged then s
  else ((s.updCtx fun c ↦ { c with logged := true }).callEngine e .processLogging).2

/-- Whether an intervention closes the connection; `src/mod_coraza.c:287–290`. -/
def isDrop (i : Intervention) : Bool :=
  i.action = some (CString.ofString "drop") ∨ i.status = 444

/-- The status an intervention is enforced with; `src/mod_coraza.c:292–299`. -/
def enforcedStatus (i : Intervention) : Int :=
  if isDrop i then httpForbidden
  else if i.status < 300 ∧ i.status ≠ httpCreated ∧ i.status ≠ httpNoContent then httpForbidden
  else i.status

/-- The part of a redirect target before the first control character;
`src/mod_coraza.c:329–344`. -/
def safeLocation (data : CString) : CString :=
  CString.ofBytes (data.bytes.takeWhile fun b ↦ 0x20 ≤ b ∧ b ≠ 0x7f)

/-- `coraza_process_intervention`; `src/mod_coraza.c:269–351`. -/
def corazaProcessIntervention (e : Engine) (earlyLog : Bool) (s : Exchange) : Int × Exchange :=
  if !s.r.requestConfig then (httpInternalServerError, s)
  else
    let found := e.intervention s.trace
    let s := s.log (.poll found)
    match found with
    | none => (retOk, s)
    | some i =>
      let status := enforcedStatus i
      let s := if isDrop i then s.updCtx fun c ↦ { c with dropConnection := true } else s
      let s := (s.callEngine e (.updateStatusCode status)).2
      let s := if earlyLog
        then (s.corazaLogTransaction e).updCtx fun c ↦ { c with logged := true }
        else s
      let s := match i.data with
        | some data =>
          if isDrop i then s
          else s.updReq fun r ↦
            { r with headersOut :=
                s.tables.set r.headersOut (CString.ofString "Location") (safeLocation data) }
        | none => s
      (status, s)

/-- `coraza_enforce_intervention`; `src/mod_coraza_phase1.c:69–78`. -/
def corazaEnforceIntervention (status : Int) (s : Exchange) : Int × Exchange :=
  let s := s.updCtx fun c ↦ { c with interventionTriggered := true }
  if s.ctx.dropConnection then (retDone, s.corazaDropConnection) else (status, s)

/-! ### What a poll does -/

/-- The enforced status is a positive HTTP status whatever the engine reports. -/
theorem enforcedStatus_pos (i : Intervention) : 0 < enforcedStatus i := by
  unfold enforcedStatus
  split
  · decide
  · split
    · decide
    · next h =>
      simp only [httpCreated, httpNoContent] at h
      by_contra hn
      exact h ⟨by omega, by omega, by omega⟩

/-- The response headers once an intervention has been reported: a redirect target is set unless
the connection is dropped. -/
def locationAfter (ops : TableOps) (i : Intervention) (t : Table) : Table :=
  match i.data with
  | some data =>
    if isDrop i then t else ops.set t (CString.ofString "Location") (safeLocation data)
  | none => t

/-- The audit entry that is written early, if there is none yet. -/
def EarlyLog (earlyLog : Bool) (s : Exchange) (logs : List Event) : Prop :=
  (earlyLog = true ∧ s.enabled = true ∧ s.ctx.logged = false ∧
    ∃ rc, logs = [.call .processLogging rc]) ∨
  (¬ (earlyLog = true ∧ s.enabled = true ∧ s.ctx.logged = false) ∧ logs = [])

/-- The state behind a poll that reported `i`. -/
structure Reported (earlyLog : Bool) (i : Intervention) (s s' : Exchange) : Prop where
  prev : s'.prev = s.prev
  conn : s'.conn = s.conn
  process : s'.process = s.process
  tables : s'.tables = s.tables
  brigade : s'.brigade = s.brigade
  ctx : s'.ctx = { s.ctx with
    dropConnection := s.ctx.dropConnection || isDrop i
    logged := s.ctx.logged || earlyLog }
  req : s'.r = { s.r with headersOut := locationAfter s.tables i s.r.headersOut }
  trace : ∃ rc logs, EarlyLog earlyLog s logs ∧ s'.trace = s.trace ++
    (.poll (some i) :: .call (.updateStatusCode (enforcedStatus i)) rc :: logs)

/-- The log hook on a request with a context. -/
theorem corazaLogTransaction_eq (e : Engine) (s : Exchange) (h : s.r.requestConfig = true) :
    s.corazaLogTransaction e =
      if s.enabled = true ∧ s.ctx.logged = false then
        (s.updCtx fun c ↦ { c with logged := true }).log
          (.call .processLogging (e.ret s.trace .processLogging))
      else s := by
  unfold corazaLogTransaction
  cases he : s.enabled with
  | false => rfl
  | true =>
    cases hl : s.ctx.logged with
    | true => simp [h]
    | false => simp [h, callEngine]

/-- A poll that reports an intervention. -/
theorem corazaProcessIntervention_reported {e : Engine} (earlyLog : Bool) {s : Exchange}
    {i : Intervention} (h : s.r.requestConfig = true) (hi : e.intervention s.trace = some i) :
    ∃ s', s.corazaProcessIntervention e earlyLog = (enforcedStatus i, s') ∧
      Reported earlyLog i s s' := by
  unfold corazaProcessIntervention
  rw [h, hi]
  simp only [Bool.not_true, Bool.false_eq_true, if_false]
  refine ⟨_, rfl, ?_⟩
  -- Behind the drop mark and the status, before the early log.
  obtain ⟨t, ht⟩ : ∃ t, ((if isDrop i then
      (s.log (.poll (some i))).updCtx fun c ↦ { c with dropConnection := true }
      else s.log (.poll (some i))).callEngine e (.updateStatusCode (enforcedStatus i))).2 = t :=
    ⟨_, rfl⟩
  obtain ⟨rc, hmarked⟩ : ∃ rc, t = { s with
      ctx := { s.ctx with dropConnection := s.ctx.dropConnection || isDrop i }
      trace := s.trace ++ [.poll (some i), .call (.updateStatusCode (enforcedStatus i)) rc] } := by
    rw [← ht]
    cases isDrop i with
    | true =>
      refine ⟨e.ret (s.trace ++ [.poll (some i)]) (.updateStatusCode (enforcedStatus i)), ?_⟩
      simp [callEngine, log, updCtx]
    | false =>
      refine ⟨e.ret (s.trace ++ [.poll (some i)]) (.updateStatusCode (enforcedStatus i)), ?_⟩
      simp [callEngine, log]
  rw [ht]
  -- Behind the early log.
  obtain ⟨logs, hearly, hlogged⟩ : ∃ logs, EarlyLog earlyLog s logs ∧
      (if earlyLog then (t.corazaLogTransaction e).updCtx fun c ↦ { c with logged := true }
        else t) = { t with
          ctx := { t.ctx with logged := s.ctx.logged || earlyLog }
          trace := t.trace ++ logs } := by
    have hctx : t.ctx.logged = s.ctx.logged := by rw [hmarked]
    have hconfig : t.r.requestConfig = true := by rw [hmarked]; exact h
    have henabled : t.enabled = s.enabled := by rw [hmarked]; rfl
    cases earlyLog with
    | false =>
      refine ⟨[], Or.inr ⟨fun hn ↦ Bool.false_ne_true hn.1, rfl⟩, ?_⟩
      rw [Bool.or_false, ← hctx, List.append_nil]
      rfl
    | true =>
      rw [if_pos rfl, corazaLogTransaction_eq e t hconfig, henabled, hctx, Bool.or_true]
      by_cases hlog : s.enabled = true ∧ s.ctx.logged = false
      · rw [if_pos hlog]
        exact ⟨_, Or.inl ⟨rfl, hlog.1, hlog.2, _, rfl⟩, rfl⟩
      · rw [if_neg hlog]
        refine ⟨[], Or.inr ⟨fun hn ↦ hlog hn.2, rfl⟩, ?_⟩
        rw [List.append_nil]
        rfl
  rw [hlogged, hmarked]
  have htrace : s.trace ++ [.poll (some i), .call (.updateStatusCode (enforcedStatus i)) rc] ++
      logs = s.trace ++ (.poll (some i) :: .call (.updateStatusCode (enforcedStatus i)) rc ::
        logs) := List.append_assoc _ _ _
  cases hdata : i.data with
  | none =>
    refine ⟨rfl, rfl, rfl, rfl, rfl, rfl, ?_, rc, logs, hearly, htrace⟩
    simp only [locationAfter, hdata]
  | some data =>
    dsimp only
    split
    · next hd =>
      refine ⟨rfl, rfl, rfl, rfl, rfl, rfl, ?_, rc, logs, hearly, htrace⟩
      simp only [locationAfter, hdata, hd, if_true]
    · next hd =>
      refine ⟨rfl, rfl, rfl, rfl, rfl, rfl, ?_, rc, logs, hearly, htrace⟩
      simp only [locationAfter, hdata, if_neg hd, updReq_r]

/-- The log hook does nothing, or it logs a transaction that was not logged. -/
theorem corazaLogTransaction_cases (e : Engine) (s : Exchange) :
    s.corazaLogTransaction e = s ∨ s.ctx.logged = false ∧ ∃ rc, s.corazaLogTransaction e =
      (s.updCtx fun c ↦ { c with logged := true }).log (.call .processLogging rc) := by
  unfold corazaLogTransaction
  split
  · exact Or.inl rfl
  · split
    · exact Or.inl rfl
    · split
      · exact Or.inl rfl
      · next hl => exact Or.inr ⟨Bool.eq_false_iff.mpr hl, _, rfl⟩

/-- The state after a poll that found an intervention: nothing but the drop mark, the log mark
and the `Location` header differs, and the calls it made neither feed nor run the engine. -/
structure Polled (i : Intervention) (s s' : Exchange) : Prop where
  prev : s'.prev = s.prev
  conn : s'.conn = s.conn
  process : s'.process = s.process
  ctx : ∃ drop logged, s'.ctx = { s.ctx with dropConnection := drop, logged := logged }
  req : ∃ headersOut, s'.r = { s.r with headersOut := headersOut }
  trace : ∃ calls, s'.trace = s.trace ++ .poll (some i) :: calls ∧
    ∀ ev ∈ calls, ∃ c rc, ev = .call c rc ∧
      (c = .updateStatusCode (enforcedStatus i) ∨ c = .processLogging)

/-- What is reported is among what a poll may do. -/
theorem Reported.polled {earlyLog : Bool} {i : Intervention} {s s' : Exchange}
    (h : Reported earlyLog i s s') : Polled i s s' := by
  obtain ⟨rc, logs, hlog, htrace⟩ := h.trace
  refine ⟨h.prev, h.conn, h.process, ⟨_, _, h.ctx⟩, ⟨_, h.req⟩, _, htrace, ?_⟩
  refine List.forall_mem_cons.mpr ⟨⟨_, rc, rfl, Or.inl rfl⟩, fun ev hev ↦ ?_⟩
  rcases hlog with ⟨-, -, -, rc', rfl⟩ | ⟨-, rfl⟩
  · exact ⟨_, rc', List.mem_singleton.mp hev, Or.inr rfl⟩
  · cases hev

/-- A poll finds nothing and leaves only its record, or finds an intervention and returns a
positive status. -/
theorem corazaProcessIntervention_cases (e : Engine) (earlyLog : Bool) (s : Exchange)
    (h : s.r.requestConfig = true) :
    (e.intervention s.trace = none ∧
      s.corazaProcessIntervention e earlyLog = (retOk, s.log (.poll none))) ∨
    ∃ i s', e.intervention s.trace = some i ∧
      s.corazaProcessIntervention e earlyLog = (enforcedStatus i, s') ∧ Polled i s s' := by
  cases hi : e.intervention s.trace with
  | none =>
    refine Or.inl ⟨rfl, ?_⟩
    unfold corazaProcessIntervention
    rw [h, hi]
    rfl
  | some i =>
    obtain ⟨s', hp, hr⟩ := corazaProcessIntervention_reported earlyLog h hi
    exact Or.inr ⟨i, s', rfl, hp, hr.polled⟩

end Exchange
end CorazaApache.Http
