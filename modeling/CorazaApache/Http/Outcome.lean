import CorazaApache.Http.ProtocolRun

/-!
# Every intervention is enforced

Whatever the engine reports, and at whichever poll, `coraza_process_intervention` decides on a
positive status, and the hook or the filter that polled ends the exchange with it. The outcome
is stated here as the comment on that function has it, `src/mod_coraza.c:250–268`.
-/

namespace CorazaApache.Http
open CorazaApache.Base CorazaApache.Base.Prog CorazaApache.Config CorazaApache.Apr

/-! ### The documented outcome -/

/-- The rule closes the connection. -/
def Intervention.Drops (i : Intervention) : Prop :=
  i.action = some (CString.ofString "drop") ∨ i.status = 444

/-- The rule's own status is served. -/
def Intervention.OwnStatus (i : Intervention) : Prop :=
  i.status = 201 ∨ i.status = 204 ∨ 300 ≤ i.status

/-- The status an intervention is documented to be enforced with. -/
structure Intervention.HasStatus (i : Intervention) (status : Int) : Prop where
  positive : 0 < status
  drop : i.Drops → status = 403
  own : ¬ i.Drops → i.OwnStatus → status = i.status
  other : ¬ i.Drops → ¬ i.OwnStatus → status = 403

/-- A byte that may stand in a redirect target. -/
def PlainByte (b : UInt8) : Prop := ¬ b < 0x20 ∧ b ≠ 0x7f

/-- The longest prefix that is free of control characters. -/
structure LongestPlain (data loc : List UInt8) : Prop where
  isPrefix : loc <+: data
  plain : ∀ b ∈ loc, PlainByte b
  longest : ∀ p, p <+: data → (∀ b ∈ p, PlainByte b) → p <+: loc

/-- The documented effect of a poll that reports `i`, with the value it returns. -/
structure Decided (earlyLog : Bool) (i : Intervention) (s : Exchange) (v : Int) (s' : Exchange) :
    Prop where
  status : i.HasStatus v
  drop : s'.ctx.dropConnection = true ↔ s.ctx.dropConnection = true ∨ i.Drops
  recorded : ∃ rc logs, s'.trace = s.trace ++
    (.poll (some i) :: .call (.updateStatusCode v) rc :: logs) ∧
    (logs = [] ∨ earlyLog = true ∧ ∃ rc', logs = [.call .processLogging rc'])
  unset : i.Drops ∨ i.data = none → s'.r.headersOut = s.r.headersOut
  location : ∀ data, i.data = some data → ¬ i.Drops → ∃ loc : CString,
    LongestPlain data.bytes loc.bytes ∧
    s.tables.get s'.r.headersOut (CString.ofString "Location") = some loc

/-- The hook ends the exchange: with the status, or with the connection. -/
def HookEnforces (i : Intervention) (v : Int) (y : Exchange) : Prop :=
  (i.Drops ∧ v = retDone ∧ y.conn.aborted = true ∧ y.conn.keepaliveClose = true) ∨
  (¬ i.Drops ∧ i.HasStatus v)

/-- The filter ends the exchange: nothing is passed on, and the connection is aborted, or the
error page is made, or the status stands in the `request_rec` and an error is returned. -/
def FilterEnforces (i : Intervention) (s : Exchange) (st : FilterStatus) (y : Exchange) : Prop :=
  Unsent (newEvents s y) ∧
  (((s.ctx.dropConnection = true ∨ i.Drops) ∧ st = .eConnAborted ∧ y.conn.aborted = true ∧
    y.conn.keepaliveClose = true) ∨
  ((s.ctx.dropConnection = false ∧ ¬ i.Drops) ∧ ∃ status, i.HasStatus status ∧
    (st = .filterError ∧ .die status ∈ newEvents s y ∨ st = .eGeneral ∧ y.r.status = status)))

/-! ### The decision -/

/-- The code drops the connection where the rule says so. -/
theorem isDrop_iff (i : Intervention) : Exchange.isDrop i = true ↔ i.Drops :=
  decide_eq_true_iff

private theorem hasStatus_enforcedStatus (i : Intervention) :
    i.HasStatus (Exchange.enforcedStatus i) := by
  have hdrop (h : i.Drops) : Exchange.enforcedStatus i = 403 := if_pos ((isDrop_iff i).mpr h)
  have hnot (h : ¬ i.Drops) : Exchange.enforcedStatus i =
      if i.status < 300 ∧ i.status ≠ httpCreated ∧ i.status ≠ httpNoContent then httpForbidden
      else i.status := if_neg fun hd ↦ h ((isDrop_iff i).mp hd)
  refine ⟨Exchange.enforcedStatus_pos i, hdrop, fun hd ho ↦ ?_, fun hd ho ↦ ?_⟩
  · rw [hnot hd, if_neg]
    rintro ⟨hlow, hcreated, hno⟩
    rcases ho with ho | ho | ho
    · exact hcreated ho
    · exact hno ho
    · exact absurd hlow (Int.not_lt.mpr ho)
  · rw [hnot hd, if_pos]
    · rfl
    · rw [Intervention.OwnStatus] at ho
      simp only [httpCreated, httpNoContent]
      omega

/-- What is taken while a predicate holds is the longest prefix on which it does. -/
theorem prefix_takeWhile {α : Type} {p : α → Bool} {l q : List α} (hq : q <+: l)
    (hp : ∀ b ∈ q, p b = true) : q <+: l.takeWhile p := by
  obtain ⟨rest, rfl⟩ := hq
  rw [List.takeWhile_append_of_pos hp]
  exact List.prefix_append _ _

private theorem longestPlain_safeLocation (data : CString) :
    LongestPlain data.bytes (Exchange.safeLocation data).bytes := by
  have hplain (b : UInt8) : decide (0x20 ≤ b ∧ b ≠ 0x7f) = true ↔ PlainByte b := by
    rw [decide_eq_true_iff, PlainByte, UInt8.not_lt]
  have htaken (b : UInt8) (hb : b ∈ data.bytes.takeWhile fun b ↦ 0x20 ≤ b ∧ b ≠ 0x7f) :
      PlainByte b := by
    have hp := List.mem_takeWhile_imp hb
    exact (hplain b).mp hp
  -- A control character stops the scan, so the terminator never comes into it.
  have hbytes : (Exchange.safeLocation data).bytes =
      data.bytes.takeWhile fun b ↦ 0x20 ≤ b ∧ b ≠ 0x7f := by
    refine List.takeWhile_eq_self_iff.mpr fun b hb ↦ ?_
    refine decide_eq_true fun h0 ↦ (htaken b hb).1 ?_
    rw [h0]
    decide
  rw [hbytes]
  exact ⟨List.takeWhile_prefix _, htaken, fun p hp hall ↦
    prefix_takeWhile hp fun b hb ↦ (hplain b).mpr (hall b hb)⟩

/-- A reporting poll has the documented effect. -/
theorem decided_of_reported {earlyLog : Bool} {i : Intervention} {s s' : Exchange}
    (htables : s.tables.Documented) (h : Exchange.Reported earlyLog i s s') :
    Decided earlyLog i s (Exchange.enforcedStatus i) s' := by
  have hreq : s'.r.headersOut = Exchange.locationAfter s.tables i s.r.headersOut := by rw [h.req]
  refine ⟨hasStatus_enforcedStatus i, ?_, ?_, fun hnone ↦ ?_, fun data hdata hd ↦ ?_⟩
  · rw [h.ctx, Bool.or_eq_true, isDrop_iff]
  · obtain ⟨rc, logs, hearly, htrace⟩ := h.trace
    refine ⟨rc, logs, htrace, ?_⟩
    rcases hearly with ⟨he, -, -, hlogs⟩ | ⟨-, hnil⟩
    · exact Or.inr ⟨he, hlogs⟩
    · exact Or.inl hnil
  · rw [hreq, Exchange.locationAfter]
    rcases hnone with hd | hnone
    · split
      · exact if_pos ((isDrop_iff i).mpr hd)
      · rfl
    · rw [hnone]
  · refine ⟨Exchange.safeLocation data, longestPlain_safeLocation data, ?_⟩
    have hset : Exchange.locationAfter s.tables i s.r.headersOut =
        s.tables.set s.r.headersOut (CString.ofString "Location") (Exchange.safeLocation data) := by
      rw [Exchange.locationAfter, hdata]
      exact if_neg fun h ↦ hd ((isDrop_iff i).mp h)
    rw [hreq, hset]
    exact htables.get_set _ _ _

/-! ### The callers -/

/-- The intervention at the end of the script is the only one in it. -/
theorem Intervenes.eq {earlyLog : Bool} {s : Exchange} {free : Nat} {i j : Intervention}
    {evs : List Event} (h : Intervenes earlyLog s free i evs) (hj : .poll (some j) ∈ evs) :
    j = i := by
  obtain ⟨pre, rc, logs, hs, hlog, rfl⟩ := h
  rcases List.mem_append.mp hj with hj | hj
  · exact absurd hj (hs.silent j)
  · rcases List.mem_cons.mp hj with hj | hj
    · exact Option.some.inj (Event.poll.inj hj)
    · rcases hlog with ⟨-, -, -, rc', rfl⟩ | ⟨-, rfl⟩
      · simp at hj
      · simp at hj

private theorem hookEnforces_of_run {lib : WafLib} {s : Exchange} {v : Int} {y : Exchange}
    (h : HookRun lib s v y) {i : Intervention} (hi : .poll (some i) ∈ newEvents s y) :
    HookEnforces i v y := by
  have hsame {y : Exchange} (htrace : y.trace = s.trace) : .poll (some i) ∉ newEvents s y := by
    have hnone : newEvents s y = [] := newEvents_eq (by rw [htrace, List.append_nil])
    rw [hnone]
    exact List.not_mem_nil
  cases h with
  | skipped _ => exact absurd hi (hsame rfl)
  | reused _ _ => exact absurd hi (hsame rfl)
  | refused _ _ _ => exact absurd hi (hsame rfl)
  | ran _ _ _ hends _ =>
    cases hends with
    | plain hw =>
      obtain ⟨evs, htrace, hs⟩ := hw.script
      rw [newEvents_eq htrace] at hi
      exact absurd hi (hs.silent i)
    | failed htrace _ _ hsilent _ _ _ _ =>
      rw [newEvents_eq htrace] at hi
      exact absurd hi (hsilent i)
    | enforced htrace hevents _ _ _ hout =>
      rw [newEvents_eq htrace] at hi
      obtain rfl := hevents.eq hi
      split at hout
      · next hd =>
        have hdrop : Exchange.isDrop i = true := hd
        refine Or.inl ⟨(isDrop_iff i).mp hdrop, hout.1, ?_, ?_⟩
        · rw [hout.2]
        · rw [hout.2]
      · next hd =>
        have hdrop : ¬ Exchange.isDrop i = true := hd
        rw [hout.1]
        exact Or.inr ⟨fun h ↦ hdrop ((isDrop_iff i).mpr h), hasStatus_enforcedStatus i⟩

private theorem filterEnforces_of_ends {env : OutEnv} {bb : Brigade} {s : Exchange}
    {st : FilterStatus}
    {y : Exchange} (h : FilterEnds env bb s.trace s st y) (hc : Changes (Event.Until st) s y)
    {i : Intervention} (hi : .poll (some i) ∈ newEvents s y) : FilterEnforces i s st y := by
  have hunsent (hst : st ≠ .passed) : Unsent (newEvents s y) := by
    obtain ⟨evs, htrace, hevs⟩ := hc.events
    rw [newEvents_eq htrace]
    exact fun ev hev ↦ (hevs ev hev).2 hst
  have hdies {status : Int} {z : Exchange} {evs : List Event} (htrace : z.trace = s.trace ++ evs)
      (ha : Answers status z st y) : .poll (some i) ∈ evs ∧
        (st = .filterError ∧ .die status ∈ newEvents s y ∨
          st = .eGeneral ∧ y.r.status = status) := by
    rcases ha.answer with ⟨hst, ht⟩ | ⟨hst, ht, hstatus⟩
    · have hevs : newEvents s y = evs ++ [.die status] :=
        newEvents_eq (by rw [ht, htrace, List.append_assoc])
      rw [hevs] at hi ⊢
      exact ⟨by simpa using hi, Or.inl ⟨hst, by simp⟩⟩
    · rw [newEvents_eq (ht.trans htrace)] at hi
      exact ⟨hi, Or.inr ⟨hst, hstatus⟩⟩
  cases h with
  | carried hw _ _ _ _ =>
    obtain ⟨evs, htrace, hs⟩ := hw.script
    rw [newEvents_eq htrace] at hi
    exact absurd hi (hs.silent i)
  | failed htrace _ _ hsilent _ _ _ _ hexit _ =>
    exact absurd (hdies htrace hexit).1 (hsilent i)
  | enforced htrace hevents hconn _ _ hexit _ =>
    split at hexit
    · next hd =>
      have hevs := newEvents_eq (hexit.answer.2.trans htrace)
      rw [hevs] at hi
      obtain rfl := hevents.eq hi
      refine ⟨hunsent (by rw [hexit.answer.1]; decide), Or.inl ⟨?_, hexit.answer.1, ?_, ?_⟩⟩
      · rw [Bool.or_eq_true, isDrop_iff] at hd
        exact hd
      · rw [hexit.conn]
      · rw [hexit.conn]
    · next hd =>
      obtain ⟨hmem, hanswer⟩ := hdies htrace hexit
      obtain rfl := hevents.eq hmem
      have hst : st ≠ .passed := by
        rcases hanswer with ⟨h, -⟩ | ⟨h, -⟩
        · rw [h]
          decide
        · rw [h]
          decide
      rw [Bool.or_eq_true, isDrop_iff, not_or] at hd
      exact ⟨hunsent hst, Or.inr ⟨⟨Bool.eq_false_iff.mpr hd.1, hd.2⟩, _,
        hasStatus_enforcedStatus i, hanswer⟩⟩

/-- Every intervention is enforced with the documented outcome. A poll that reports one returns
the documented status, which it has recorded before any early log, and leaves the redirect target
where `apr_table_get` finds it under `Location`; a run of the hook in which
one is reported returns that status, or `DONE` with the connection aborted; and an invocation of
the filter in which one is reported passes nothing on and ends in the error page, an error or an
aborted connection. -/
theorem interventions_enforced (e : Engine) :
    (∀ earlyLog s i, s.tables.Documented → s.r.requestConfig = true →
      e.intervention s.trace = some i →
      Decided earlyLog i s (s.corazaProcessIntervention e earlyLog).1
        (s.corazaProcessIntervention e earlyLog).2) ∧
    (∀ lib save src s i,
      .poll (some i) ∈ newEvents s (exec (corazaPostReadRequest e lib save src) s).2 →
      HookEnforces i (exec (corazaPostReadRequest e lib save src) s).1
        (exec (corazaPostReadRequest e lib save src) s).2) ∧
    ∀ env bb s i, s.r.requestConfig = true →
      .poll (some i) ∈ newEvents s (exec (corazaOutputFilter e env bb) s).2 →
      FilterEnforces i s (exec (corazaOutputFilter e env bb) s).1
        (exec (corazaOutputFilter e env bb) s).2 := by
  refine ⟨fun earlyLog s i htables hc hi ↦ ?_, fun lib save src s i hi ↦ ?_,
    fun env bb s i hc hi ↦ ?_⟩
  · obtain ⟨s', hp, hr⟩ := Exchange.corazaProcessIntervention_reported earlyLog hc hi
    rw [hp]
    exact decided_of_reported htables hr
  · exact hookEnforces_of_run (corazaPostReadRequest_run e lib save src s) hi
  · cases ht : s.ctx.interventionTriggered with
    | true =>
      have hpass : newEvents s (s.removeOutputFilter.log (.pass bb)) = [.pass bb] :=
        newEvents_eq rfl
      rw [corazaOutputFilter_triggered e env bb ht, hpass] at hi
      exact absurd (List.mem_singleton.mp hi) (by simp)
    | false =>
      exact filterEnforces_of_ends (corazaOutputFilter_ends e env bb (walk_start hc ht))
        (changes_corazaOutputFilter e env bb s) hi

/-- A redirect whose target has a line feed in it: `/a`, the line feed, `b`. -/
def splitRedirect : Intervention :=
  ⟨some (CString.ofString "redirect"), 302, some ⟨[0x2f, 0x61, 0x0a, 0x62], by decide⟩, 7⟩

/-- An engine that reports it at every poll. -/
def redirectingEngine : Engine := { quietEngine with intervention := fun _ ↦ some splitRedirect }

/-- It is reported and enforced at the first poll of the hook and of the filter. -/
theorem splitRedirect_enforced :
    (redirectingEngine.intervention freshExchange.trace = some splitRedirect ∧
      Decided true splitRedirect freshExchange
        (freshExchange.corazaProcessIntervention redirectingEngine true).1
        (freshExchange.corazaProcessIntervention redirectingEngine true).2) ∧
    (.poll (some splitRedirect) ∈ newEvents plainExchange (exec (corazaPostReadRequest
        redirectingEngine acceptingLib plainSave plainBody) plainExchange).2 ∧
      HookEnforces splitRedirect (exec (corazaPostReadRequest redirectingEngine acceptingLib
        plainSave plainBody) plainExchange).1 (exec (corazaPostReadRequest redirectingEngine
        acceptingLib plainSave plainBody) plainExchange).2) ∧
    .poll (some splitRedirect) ∈ newEvents freshExchange (exec (corazaOutputFilter
        redirectingEngine plainOut [.eos]) freshExchange).2 ∧
      FilterEnforces splitRedirect freshExchange (exec (corazaOutputFilter redirectingEngine
        plainOut [.eos]) freshExchange).1 (exec (corazaOutputFilter redirectingEngine plainOut
        [.eos]) freshExchange).2 := by
  obtain ⟨hpoll, hhook, hfilter⟩ := interventions_enforced redirectingEngine
  have hreported : .poll (some splitRedirect) ∈ newEvents plainExchange (exec
      (corazaPostReadRequest redirectingEngine acceptingLib plainSave plainBody)
      plainExchange).2 := by decide
  have hseen : .poll (some splitRedirect) ∈ newEvents freshExchange (exec (corazaOutputFilter
      redirectingEngine plainOut [.eos]) freshExchange).2 := by decide
  exact ⟨⟨rfl, hpoll true freshExchange splitRedirect documented_listTables rfl rfl⟩,
    ⟨hreported, hhook acceptingLib plainSave plainBody plainExchange splitRedirect hreported⟩,
    hseen, hfilter plainOut [.eos] freshExchange splitRedirect rfl hseen⟩

end CorazaApache.Http
