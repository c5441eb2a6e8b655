import CorazaApache.Http.Outcome

/-!
# What follows a refusal

A refusal takes the filter off the chain. What the handler passes afterwards meets no filter, and
only a drop has marked the connection, `src/mod_coraza_filter_out.c:79–144`.
-/

namespace CorazaApache.Http
open CorazaApache.Base CorazaApache.Base.Prog CorazaApache.Config CorazaApache.Apr

/-- The filter, invoked with `bb` on a response it has not refused, refuses it. -/
structure RefusesAt (e : Engine) (env : OutEnv) (s : Exchange) (bb : Brigade) : Prop where
  filter : s.r.outFilter = true
  unrefused : s.ctx.interventionTriggered = false
  refused : (s.passOutput e env bb).ctx.interventionTriggered = true

/-- Nothing of `later` reaches the client: it is discarded, or the connection is aborted. -/
def NothingFollows (e : Engine) (env : OutEnv) (s : Exchange) (later : List Brigade) : Prop :=
  s.conn.aborted = true ∨ sent (newEvents s (s.passOutputs e env later)) = []

section

variable {e : Engine} {env : OutEnv} {s : Exchange} {bb : Brigade}

/-- Brigades that meet no filter. -/
theorem passOutputs_off (e : Engine) (env : OutEnv) (bbs : List Brigade) {y : Exchange}
    (hoff : y.r.outFilter = false) : (y.passOutputs e env bbs).trace =
      y.trace ++ bbs.flatMap fun bb ↦ [.receive bb, .direct bb] := by
  induction bbs generalizing y with
  | nil => exact (List.append_nil _).symm
  | cons bb bbs ih =>
    show ((y.passOutput e env bb).passOutputs e env bbs).trace = _
    rw [passOutput_off e env bb hoff, ih (y := (y.arrive bb).log (.direct bb)) hoff]
    simp

private theorem sent_direct (bbs : List Brigade) :
    sent (bbs.flatMap fun bb ↦ [.receive bb, .direct bb]) = bbs.flatten := by
  induction bbs with
  | nil => rfl
  | cons bb bbs ih =>
    rw [List.flatMap_cons, sent_append, ih, List.flatten_cons]
    simp [sent]

/-- The events of an invocation stand between its record of arrival and of its answer. -/
theorem newEvents_passOutput (hon : s.r.outFilter = true) :
    newEvents s (s.passOutput e env bb) = .receive bb ::
      newEvents (s.arrive bb) (exec (corazaOutputFilter e env bb) (s.arrive bb)).2 ++
        [.returned (exec (corazaOutputFilter e env bb) (s.arrive bb)).1] := by
  obtain ⟨evs, htrace, -⟩ := (changes_corazaOutputFilter e env bb (s.arrive bb)).events
  rw [newEvents_eq htrace]
  apply newEvents_eq
  rw [passOutput_on e env bb hon, Exchange.log_trace, htrace, Exchange.arrive_trace]
  simp

/-- A refusal takes the filter off, and it aborts the connection for a drop only. -/
theorem FilterEnds.refusal {st : FilterStatus} {y : Exchange}
    (h : FilterEnds env bb s.trace s st y) (ht : y.ctx.interventionTriggered = true) :
    y.r.outFilter = false ∧
    ((∃ i, .poll (some i) ∈ newEvents s y ∧ (s.ctx.dropConnection = true ∨ i.Drops) ∧
      st = .eConnAborted ∧ y.conn = { s.conn with keepaliveClose := true, aborted := true }) ∨
    ((∀ i, .poll (some i) ∈ newEvents s y → ¬ (s.ctx.dropConnection = true ∨ i.Drops)) ∧
      y.conn = s.conn)) := by
  have hpolls {status : Int} {z : Exchange} {evs : List Event} (htrace : z.trace = s.trace ++ evs)
      (ha : Answers status z st y) (i : Intervention) (hi : .poll (some i) ∈ newEvents s y) :
      .poll (some i) ∈ evs := by
    rcases ha.answer with ⟨-, hdie⟩ | ⟨-, hsame, -⟩
    · have hevs : newEvents s y = evs ++ [.die status] :=
        newEvents_eq (by rw [hdie, htrace, List.append_assoc])
      rw [hevs] at hi
      simpa using hi
    · rwa [newEvents_eq (hsame.trans htrace)] at hi
  cases h with
  | carried hw =>
    rw [hw.triggered] at ht
    cases ht
  | failed htrace _ _ hsilent hconn _ _ _ hexit _ =>
    exact ⟨hexit.filter, Or.inr ⟨fun i hi ↦ absurd (hpolls htrace hexit i hi) (hsilent i),
      hexit.conn.trans hconn⟩⟩
  | @enforced _ _ evs i htrace hevents hconn _ _ hexit _ =>
    have hreported : .poll (some i) ∈ evs := by
      obtain ⟨pre, rc, logs, -, -, rfl⟩ := hevents
      simp
    split at hexit
    · next hd =>
      rw [Bool.or_eq_true, isDrop_iff] at hd
      refine ⟨hexit.filter, Or.inl ⟨i, ?_, hd, hexit.answer.1, ?_⟩⟩
      · rw [newEvents_eq (hexit.answer.2.trans htrace)]
        exact hreported
      · rw [hexit.conn, hconn]
    · next hd =>
      rw [Bool.or_eq_true, isDrop_iff] at hd
      refine ⟨hexit.filter, Or.inr ⟨fun j hj ↦ ?_, hexit.conn.trans hconn⟩⟩
      obtain rfl := hevents.eq (hpolls htrace hexit j hj)
      exact hd

/-- The same for a brigade passed down the chain. -/
theorem refusal_outcome (hc : s.r.requestConfig = true) (hr : RefusesAt e env s bb) :
    (s.passOutput e env bb).r.outFilter = false ∧
    ((s.passOutput e env bb).conn.aborted = true ↔ s.conn.aborted = true ∨
      ∃ i, .poll (some i) ∈ newEvents s (s.passOutput e env bb) ∧
        (s.ctx.dropConnection = true ∨ i.Drops)) := by
  have hrefused := hr.refused
  rw [newEvents_passOutput hr.filter]
  rw [passOutput_on e env bb hr.filter] at hrefused ⊢
  obtain ⟨hoff, hconn⟩ := (corazaOutputFilter_ends e env bb
    (walk_start (s := s.arrive bb) hc hr.unrefused)).refusal hrefused
  -- The polls of the step are those of the filter.
  have hmem (i : Intervention) (evs : List Event) (st : FilterStatus) :
      Event.poll (some i) ∈ .receive bb :: evs ++ [.returned st] ↔ .poll (some i) ∈ evs := by
    simp
  refine ⟨hoff, ?_⟩
  simp only [hmem, Exchange.log_conn]
  rcases hconn with ⟨i, hi, hd, -, hconn⟩ | ⟨hnone, hconn⟩
  · rw [hconn]
    exact ⟨fun _ ↦ Or.inr ⟨i, hi, hd⟩, fun _ ↦ rfl⟩
  · rw [hconn]
    refine ⟨Or.inl, fun h ↦ h.elim id ?_⟩
    rintro ⟨i, hi, hd⟩
    exact absurd hd (hnone i hi)

end

/-- When nothing follows a refusal. In every run on one `request_rec` in which the filter refuses
the response, and whatever brigades the handler passes afterwards, none of them reaches the
client exactly if the connection was already aborted, the refusal is that of an intervention
that drops the connection, or there is nothing in them. -/
theorem nothing_follows_refusal_iff (e : Engine) (lib : WafLib) (save : SaveEnv)
    (src : BodySource) (env : OutEnv) (s : Exchange) (before : List Brigade) (bb : Brigade)
    (later : List Brigade) (ho : s.r.outFilter = false)
    (hr : RefusesAt e env (s.afterOutput e lib save src env before) bb) :
    NothingFollows e env ((s.afterOutput e lib save src env before).passOutput e env bb) later ↔
      (s.afterOutput e lib save src env before).conn.aborted = true ∨
      (∃ i, .poll (some i) ∈ newEvents (s.afterOutput e lib save src env before)
          ((s.afterOutput e lib save src env before).passOutput e env bb) ∧
        ((s.afterOutput e lib save src env before).ctx.dropConnection = true ∨ i.Drops)) ∨
      later.flatten = [] := by
  obtain ⟨_, hordered⟩ := Ordered.outputs e env before
    (ordered_of_hookRun ho (corazaPostReadRequest_run e lib save src s))
  have hconfig : (s.afterOutput e lib save src env before).r.requestConfig = true :=
    (hordered.filter hr.filter).1
  obtain ⟨hoff, habort⟩ := refusal_outcome hconfig hr
  rw [NothingFollows, habort, newEvents_eq (passOutputs_off e env later hoff), sent_direct,
    or_assoc]

/-- An engine that reports `i` once the chunk `[2]` of a response body was handed to it. -/
def blockingEngine (i : Intervention) : Engine :=
  { quietEngine with
    intervention := fun past ↦
      if (Event.call (.appendResponseBody [2]) 0) ∈ past then some i else none }

/-- A rule with a bare `drop`. -/
def bareDrop : Intervention := ⟨some (CString.ofString "drop"), 0, none, 1⟩

/-- A rule with a bare `deny`. -/
def bareDeny : Intervention := ⟨some (CString.ofString "deny"), 403, none, 1⟩

/-- A request whose response, an error of the handler's, is streamed and not delayed. -/
def streamedExchange : Exchange := { plainExchange with r := { plainRequest with status := 404 } }

/-- Nothing follows a drop in the second brigade of a streamed response. -/
theorem nothing_follows_bareDrop :
    RefusesAt (blockingEngine bareDrop) plainOut (streamedExchange.afterOutput
      (blockingEngine bareDrop) acceptingLib plainSave plainBody plainOut [[.data .heap [1]]])
      [.data .heap [2]] ∧
    NothingFollows (blockingEngine bareDrop) plainOut ((streamedExchange.afterOutput
      (blockingEngine bareDrop) acceptingLib plainSave plainBody plainOut
      [[.data .heap [1]]]).passOutput (blockingEngine bareDrop) plainOut [.data .heap [2]])
      [[.data .heap [3], .eos]] := by
  have hr : RefusesAt (blockingEngine bareDrop) plainOut (streamedExchange.afterOutput
      (blockingEngine bareDrop) acceptingLib plainSave plainBody plainOut [[.data .heap [1]]])
      [.data .heap [2]] := ⟨by decide, by decide, by decide⟩
  exact ⟨hr, (nothing_follows_refusal_iff (blockingEngine bareDrop) acceptingLib plainSave
    plainBody plainOut streamedExchange [[.data .heap [1]]] [.data .heap [2]]
    [[.data .heap [3], .eos]] rfl hr).mpr (Or.inr (Or.inl ⟨bareDrop, by decide,
      Or.inr (Or.inl rfl)⟩))⟩

/-- The third brigade follows a deny in the second one on a connection that is not aborted. -/
theorem bareDeny_followed :
    RefusesAt (blockingEngine bareDeny) plainOut (streamedExchange.afterOutput
      (blockingEngine bareDeny) acceptingLib plainSave plainBody plainOut [[.data .heap [1]]])
      [.data .heap [2]] ∧
    ¬ NothingFollows (blockingEngine bareDeny) plainOut ((streamedExchange.afterOutput
      (blockingEngine bareDeny) acceptingLib plainSave plainBody plainOut
      [[.data .heap [1]]]).passOutput (blockingEngine bareDeny) plainOut [.data .heap [2]])
      [[.data .heap [3], .eos]] := by
  refine ⟨⟨by decide, by decide, by decide⟩, ?_⟩
  rw [NothingFollows, not_or]
  exact ⟨by decide, by decide⟩

end CorazaApache.Http
