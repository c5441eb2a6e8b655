import CorazaApache.Config.Isolation
import CorazaApache.Http.Packing
import CorazaApache.Http.Phase1

/-!
# Phases 1 and 2 fail closed

Every block of the fixups hook either adds a known, clean piece to the trace and falls through,
or returns `DONE` or a positive status. The blocks are executed from a state written
`s.after evs`, so that what falls through is the same state with more events.
-/

namespace CorazaApache.Http
open CorazaApache.Base CorazaApache.Base.Prog CorazaApache.Config CorazaApache.Apr

/-- The results that report a failure: negative for `process`, non-zero for `add` and `append`.
A rejected bulk submission is none, the headers are submitted one by one after it. -/
def EngineCall.failed : EngineCall → Int → Prop
  | .processConnection _ _ _ _, rc => rc < 0
  | .processUri _ _ _, rc => rc < 0
  | .addRequestHeader _, rc => rc ≠ 0
  | .processRequestHeaders, rc => rc < 0
  | .appendRequestBody _, rc => rc ≠ 0
  | .processRequestBody, rc => rc < 0
  | .addResponseHeader _, rc => rc ≠ 0
  | .processResponseHeaders _ _, rc => rc < 0
  | .appendResponseBody _, rc => rc ≠ 0
  | .processResponseBody, rc => rc < 0
  | _, _ => False

instance (c : EngineCall) (rc : Int) : Decidable (c.failed rc) :=
  match c with
  | .processConnection _ _ _ _ | .processUri _ _ _ | .processRequestHeaders | .processRequestBody
  | .processResponseHeaders _ _ | .processResponseBody => inferInstanceAs (Decidable (rc < 0))
  | .addRequestHeader _ | .appendRequestBody _ | .addResponseHeader _ | .appendResponseBody _ =>
    inferInstanceAs (Decidable (rc ≠ 0))
  | .addRequestHeaders _ _ _ | .isRequestBodyAccessible | .addResponseHeaders _ _ _
  | .isResponseBodyAccessible | .isResponseBodyProcessable | .updateStatusCode _
  | .processLogging => inferInstanceAs (Decidable False)

/-- An engine error or an intervention. -/
def Event.Bad : Event → Prop
  | .call c rc => c.failed rc
  | .poll i => i ≠ none
  | _ => False

instance (ev : Event) : Decidable ev.Bad :=
  match ev with
  | .call c rc => inferInstanceAs (Decidable (c.failed rc))
  | .poll i => inferInstanceAs (Decidable (i ≠ none))
  | .receive _ | .pass _ | .direct _ | .die _ | .delay | .returned _ | .redirect =>
    inferInstanceAs (Decidable False)

/-- No engine error and no intervention. -/
def Clean (evs : List Event) : Prop := ∀ ev ∈ evs, ¬ ev.Bad

instance (evs : List Event) : Decidable (Clean evs) :=
  inferInstanceAs (Decidable (∀ ev ∈ evs, ¬ ev.Bad))

/-- Nothing went wrong yet. -/
theorem clean_nil : Clean [] := by simp [Clean]

/-- A run is clean if both its parts are. -/
theorem clean_append {a b : List Event} : Clean (a ++ b) ↔ Clean a ∧ Clean b :=
  List.forall_mem_append

/-- An engine error or an intervention since `start` is marked on the context. -/
def Marked (start : List Event) (s : Exchange) : Prop :=
  ∃ evs, s.trace = start ++ evs ∧ (¬ Clean evs → s.ctx.interventionTriggered = true)

/-- An exit that keeps the request from the handler. -/
def Blocked (start : List Event) (v : Int) (s : Exchange) : Prop :=
  (v = retDone ∨ 0 < v) ∧ Marked start s

/-! ### The blocks -/

section

variable {e : Engine} {s : Exchange} {evs : List Event}

private theorem ends_failClosed {α : Type} {Q : α → Exchange → Prop} :
    Ends failClosed (s.after evs) Q (Blocked s.trace) := by
  simp only [failClosed, ends_bind, ends_modify, ends_ret]
  exact ⟨Or.inr (by decide), evs, rfl, fun _ ↦ rfl⟩

private theorem ends_checkProcess {c : EngineCall} {Q : Unit → Exchange → Prop}
    (h : ∀ rc, 0 ≤ rc → Q () (s.after (evs ++ [.call c rc]))) :
    Ends (checkProcess e c) (s.after evs) Q (Blocked s.trace) := by
  simp only [checkProcess, ends_bind, ends_engineCall, ends_when, Exchange.log_after]
  constructor
  · intro _
    exact ends_failClosed
  · intro hf
    exact h _ (corazaProcessFailed_eq_false.mp hf)

private theorem ends_checkCall {c : EngineCall} {Q : Unit → Exchange → Prop}
    (h : Q () (s.after (evs ++ [.call c 0]))) :
    Ends (checkCall e c) (s.after evs) Q (Blocked s.trace) := by
  simp only [checkCall, ends_bind, ends_engineCall, ends_when, Exchange.log_after]
  constructor
  · intro _
    exact ends_failClosed
  · intro hf
    rw [corazaCallFailed_eq_false.mp hf]
    exact h

/-- A poll falls through only if it finds nothing. -/
theorem ends_pollHook {Q : Unit → Exchange → Prop} (hc : s.r.requestConfig = true)
    (h : Q () (s.after (evs ++ [.poll none]))) :
    Ends (pollHook e) (s.after evs) Q (Blocked s.trace) := by
  rcases Exchange.corazaProcessIntervention_cases e true (s.after evs) hc with
    ⟨-, hp⟩ | ⟨i, s', -, hp, hpolled⟩
  · simp only [Ends, pollHook, hp, Exchange.log_after]
    exact h
  · have hpos := Exchange.enforcedStatus_pos i
    obtain ⟨calls, htrace, -⟩ := hpolled.trace
    have hmarked (t : Exchange) (ht : t.trace = s'.trace)
        (hm : t.ctx.interventionTriggered = true) : Marked s.trace t := by
      refine ⟨evs ++ .poll (some i) :: calls, ?_, fun _ ↦ hm⟩
      rw [ht, htrace, Exchange.after_trace, List.append_assoc]
    simp only [Ends, pollHook, hp, if_pos hpos, Exchange.corazaEnforceIntervention]
    split
    · exact ⟨Or.inl rfl, hmarked _ rfl rfl⟩
    · exact ⟨Or.inr hpos, hmarked _ rfl rfl⟩

/-! ### Header submission -/

/-- The headers of `handled` have been accepted one by one, behind at most one packed call, which
was rejected. -/
def OneByOne (bulk : List UInt8 → Nat → Nat → EngineCall) (single : HeaderPair → EngineCall)
    (pairs handled : List HeaderPair) (evs : List Event) : Prop :=
  ∃ before, (before = [] ∨
      ∃ packed len rc, rc ≠ 0 ∧ before = [.call (bulk packed len pairs.length) rc]) ∧
    evs = before ++ handled.map fun p ↦ .call (single p) 0

/-- The events of a complete header submission: none for an empty set, one accepted packed call
that reads back as the set, or one accepted call per header, after a packed call that was rejected
if there was one. -/
def Submitted (bulk : List UInt8 → Nat → Nat → EngineCall) (single : HeaderPair → EngineCall)
    (pairs : List HeaderPair) (evs : List Event) : Prop :=
  (pairs = [] ∧ evs = []) ∨
  (∃ packed len, (corazaPackHeaders pairs = some (packed, len) ∧
      unpackHeaders packed len pairs.length = some pairs) ∧
    evs = [.call (bulk packed len pairs.length) 0]) ∨
  OneByOne bulk single pairs pairs evs

/-- Every way a header submission can go: there is nothing to submit, the packed call is
accepted, or the headers go one by one, up to one that is too long or rejected or to the end. -/
theorem ends_submitHeaders_cases {ρ : Type} {bulk : List UInt8 → Nat → Nat → EngineCall}
    {single : HeaderPair → EngineCall} {fail : Hook ρ Unit} {pairs : List HeaderPair}
    {Q : Unit → Exchange → Prop} {E : ρ → Exchange → Prop}
    (hnone : pairs = [] → Q () s)
    (hbulk : ∀ packed len, corazaPackHeaders pairs = some (packed, len) →
      Q () (s.log (.call (bulk packed len pairs.length) 0)))
    (hlong : ∀ handled p new, p ∈ pairs → OneByOne bulk single pairs handled new →
      intMax < p.name.length ∨ intMax < p.value.length →
      Ends fail (s.after new) (fun _ _ ↦ False) E)
    (hreject : ∀ handled p new rc, p ∈ pairs → OneByOne bulk single pairs handled new → rc ≠ 0 →
      Ends fail ((s.after new).log (.call (single p) rc)) (fun _ _ ↦ False) E)
    (hall : ∀ new, OneByOne bulk single pairs pairs new → Q () (s.after new)) :
    Ends (submitHeaders e bulk single fail pairs) s Q E := by
  -- The loop, behind a packed call that was not made or rejected.
  have hsingles (before : List Event) (hbefore : before = [] ∨
      ∃ packed len rc, rc ≠ 0 ∧ before = [.call (bulk packed len pairs.length) rc]) :
      Ends (forEach pairs fun p ↦ do
        when (decide (intMax < p.name.length ∨ intMax < p.value.length)) fail
        let rc ← engineCall e (single p)
        when (corazaCallFailed rc) fail) (s.after before) Q E := by
    -- Invariant: the headers handled so far were accepted one by one.
    refine (ends_forEach (fun handled t ↦ ∃ new, OneByOne bulk single pairs handled new ∧
      t = s.after new) ⟨before, ⟨before, hbefore, by simp⟩, rfl⟩ ?_).mono ?_ fun _ _ he ↦ he
    · rintro handled p rest t hpairs ⟨new, hnew, rfl⟩
      have hp : p ∈ pairs := by rw [hpairs]; exact List.mem_append_right _ List.mem_cons_self
      simp only [ends_bind, ends_when, ends_engineCall]
      refine ⟨fun hl ↦ ?_, fun _ ↦ ⟨fun hf ↦ ?_, fun hf ↦ ?_⟩⟩
      · exact (hlong handled p new hp hnew (of_decide_eq_true hl)).mono (fun _ _ h ↦ h.elim)
          fun _ _ he ↦ he
      · exact (hreject handled p new _ hp hnew (of_decide_eq_true hf)).mono (fun _ _ h ↦ h.elim)
          fun _ _ he ↦ he
      · obtain ⟨first, hfirst, rfl⟩ := hnew
        refine ⟨first ++ (handled ++ [p]).map fun p ↦ .call (single p) 0, ⟨first, hfirst, rfl⟩, ?_⟩
        rw [corazaCallFailed_eq_false.mp hf, Exchange.log_after, List.map_append, List.append_assoc]
        rfl
    · rintro _ t ⟨new, hnew, rfl⟩
      exact hall new hnew
  rw [submitHeaders, ends_bind]
  unfold submitBulk
  split
  · next hl =>
    rw [ends_pure, ends_when]
    exact ⟨fun hf ↦ (by cases hf), fun _ ↦ hnone (List.length_eq_zero_iff.mp hl)⟩
  · split
    · rw [ends_pure, ends_when]
      refine ⟨fun _ ↦ ?_, fun hf ↦ (by cases hf)⟩
      have hloop := hsingles [] (Or.inl rfl)
      rwa [Exchange.after_nil] at hloop
    · next packed len hpack =>
      simp only [ends_bind, ends_engineCall, ends_pure, ends_when, Bool.not_not]
      refine ⟨fun hf ↦ ?_, fun hf ↦ ?_⟩
      · exact hsingles [_] (Or.inr ⟨packed, len, _, of_decide_eq_true hf, rfl⟩)
      · rw [corazaCallFailed_eq_false.mp hf]
        exact hbulk packed len hpack

/-- Why a header submission fails: a header is too long, or the engine rejected one. -/
def SubmitFailed (single : HeaderPair → EngineCall) (pairs : List HeaderPair)
    (evs : List Event) : Prop :=
  (∃ p ∈ pairs, intMax < p.name.length ∨ intMax < p.value.length) ∨
  ∃ p ∈ pairs, ∃ rc, rc ≠ 0 ∧ .call (single p) rc ∈ evs

/-- Submission falls through only when the whole set was accepted; what the fail-closed exit of
the caller guarantees holds of every other way out. -/
theorem ends_submitHeaders {ρ : Type} {bulk : List UInt8 → Nat → Nat → EngineCall}
    {single : HeaderPair → EngineCall} {fail : Hook ρ Unit} {pairs : List HeaderPair}
    {Q : Unit → Exchange → Prop} {E : ρ → Exchange → Prop}
    (hfail : ∀ new (Q' : Unit → Exchange → Prop), (∀ ev ∈ new, ∃ c rc, ev = .call c rc) →
      SubmitFailed single pairs new → Ends fail (s.after (evs ++ new)) Q' E)
    (h : ∀ new, Submitted bulk single pairs new → Q () (s.after (evs ++ new))) :
    Ends (submitHeaders e bulk single fail pairs) (s.after evs) Q E := by
  have hcalls {handled : List HeaderPair} {new : List Event}
      (hnew : OneByOne bulk single pairs handled new) : ∀ ev ∈ new, ∃ c rc, ev = .call c rc := by
    obtain ⟨before, hbefore, rfl⟩ := hnew
    refine List.forall_mem_append.mpr ⟨fun ev hev ↦ ?_, fun ev hev ↦ ?_⟩
    · rcases hbefore with rfl | ⟨packed, len, rc, -, rfl⟩
      · cases hev
      · exact ⟨_, _, List.mem_singleton.mp hev⟩
    · obtain ⟨p, -, rfl⟩ := List.mem_map.mp hev
      exact ⟨_, _, rfl⟩
  refine ends_submitHeaders_cases (fun hnil ↦ ?_) (fun packed len hpack ↦ ?_)
    (fun handled p new hp hnew hl ↦ ?_) (fun handled p new rc hp hnew hrc ↦ ?_) fun new hnew ↦ ?_
  · have hdone := h [] (Or.inl ⟨hnil, rfl⟩)
    rwa [List.append_nil] at hdone
  · rw [Exchange.log_after]
    have hread := (unpackHeaders_corazaPackHeaders hpack).2.2
    exact h _ (Or.inr (Or.inl ⟨packed, len, ⟨hpack, hread⟩, rfl⟩))
  · rw [Exchange.after_after]
    exact hfail new _ (hcalls hnew) (Or.inl ⟨p, hp, hl⟩)
  · rw [Exchange.after_after, Exchange.log_after, List.append_assoc]
    refine hfail _ _ (List.forall_mem_append.mpr ⟨hcalls hnew, fun ev hev ↦ ?_⟩)
      (Or.inr ⟨p, hp, rc, hrc, List.mem_append_right _ (List.mem_singleton_self _)⟩)
    exact ⟨_, _, List.mem_singleton.mp hev⟩
  · rw [Exchange.after_after]
    exact h _ (Or.inr (Or.inr hnew))

/-! ### The body -/

/-- The state with a given copy of the body. -/
def Exchange.withSaved (s : Exchange) (saved : Brigade) : Exchange :=
  s.updCtx fun c ↦ { c with savedBody := some saved }

/-- The events of one inspected chunk. -/
def inspectedChunk (inspect : Bool) (chunk : BodyChunk) : List Event :=
  if inspect then [.call (.appendRequestBody chunk.bytes) 0, .poll none] else []

/-- One round of the read loop keeps the chunk and, with body access on, has it inspected. -/
theorem ends_bodyChunk {env : SaveEnv} {memLimit : Int} {inspect : Bool} {l : BodyLocals}
    {saved : Brigade} {chunk : BodyChunk} {Q : BodyLocals → Exchange → Prop}
    (hc : s.r.requestConfig = true)
    (h : Q (keepChunk env.ops memLimit (l, saved) chunk).1
      ((s.withSaved (keepChunk env.ops memLimit (l, saved) chunk).2).after
        (evs ++ inspectedChunk inspect chunk))) :
    Ends (bodyChunk e env memLimit inspect l chunk) ((s.withSaved saved).after evs) Q
      (Blocked s.trace) := by
  rw [bodyChunk, ends_bind, saveChunk]
  simp only [ends_bind, ends_get, ends_when, ends_modify, ends_pure]
  have hs : ((s.withSaved saved).after evs).ctx.savedBody.getD [] = saved := rfl
  refine ⟨fun _ ↦ ends_failClosed (s := s.withSaved saved), fun _ ↦ ?_⟩
  rw [hs]
  have hstate : ((s.withSaved saved).after evs).updCtx (fun c ↦
      { c with savedBody := some (keepChunk env.ops memLimit (l, saved) chunk).2 }) =
      (s.withSaved (keepChunk env.ops memLimit (l, saved) chunk).2).after evs := rfl
  rw [hstate]
  refine ⟨fun hi ↦ ?_, fun hi ↦ ?_⟩
  · refine ends_checkCall (s := s.withSaved _) (ends_pollHook (s := s.withSaved _) hc ?_)
    rw [inspectedChunk, if_pos hi] at h
    rw [List.append_assoc]
    exact h
  · rw [inspectedChunk, if_neg (by rw [hi]; exact Bool.false_ne_true), List.append_nil] at h
    exact h

/-- The copy after all chunks. -/
def keptBody (ops : BrigadeOps) (memLimit : Int) (chunks : List BodyChunk) :
    BodyLocals × Brigade := chunks.foldl (keepChunk ops memLimit) (⟨0, none, 0⟩, [])

/-- The whole read loop. -/
theorem ends_bodyLoop {env : SaveEnv} {memLimit : Int} {inspect : Bool}
    {chunks : List BodyChunk} {Q : BodyLocals → Exchange → Prop}
    (hc : s.r.requestConfig = true)
    (h : Q (keptBody env.ops memLimit chunks).1
      ((s.withSaved (keptBody env.ops memLimit chunks).2).after
        (evs ++ chunks.flatMap (inspectedChunk inspect)))) :
    Ends (foldEach (bodyChunk e env memLimit inspect) ⟨0, none, 0⟩ chunks)
      ((s.withSaved []).after evs) Q (Blocked s.trace) := by
  -- Invariant: locals and copy are those of the chunks handled so far.
  refine (ends_foldEach (fun handled l t ↦ l = (keptBody env.ops memLimit handled).1 ∧
    t = (s.withSaved (keptBody env.ops memLimit handled).2).after
      (evs ++ handled.flatMap (inspectedChunk inspect))) ⟨rfl, by simp [keptBody]⟩ ?_).mono ?_
    fun _ _ he ↦ he
  · rintro handled chunk rest l t - ⟨rfl, rfl⟩
    refine ends_bodyChunk hc ?_
    have hkept : keptBody env.ops memLimit (handled ++ [chunk]) =
        keepChunk env.ops memLimit (keptBody env.ops memLimit handled) chunk := by
      simp [keptBody]
    rw [hkept, List.flatMap_append, List.flatMap_singleton, ← List.append_assoc]
    exact ⟨rfl, rfl⟩
  · rintro l t ⟨rfl, rfl⟩
    exact h

/-- The events of reading a body to its end. -/
def BodyRead (src : BodySource) (evs : List Event) : Prop :=
  (src.shouldClientBlock = false ∧ evs = []) ∨
  (src.shouldClientBlock = true ∧ src.final = 0 ∧ ∃ access,
    evs = .call .isRequestBodyAccessible access ::
      src.chunks.flatMap (inspectedChunk (access ≠ 0)))

/-- The state after a body was read: the copy is closed, and the replay filter is on. -/
def Exchange.withBody (s : Exchange) (env : SaveEnv) (src : BodySource) : Exchange :=
  (s.withSaved (closeBody (keptBody env.ops (memLimitOf s) src.chunks).1
    (keptBody env.ops (memLimitOf s) src.chunks).2)).updReq fun r ↦
      { r with readLength := 0, inFilter := true }

private theorem clean_inspected (inspect : Bool) (chunks : List BodyChunk) :
    Clean (chunks.flatMap (inspectedChunk inspect)) := by
  intro ev hev
  obtain ⟨chunk, -, hev⟩ := List.mem_flatMap.mp hev
  unfold inspectedChunk at hev
  split at hev
  · rcases List.mem_pair.mp hev with rfl | rfl
    · exact fun hbad ↦ hbad rfl
    · exact fun hbad ↦ hbad rfl
  · cases hev

private theorem ends_readBody {env : SaveEnv} {src : BodySource} {Q : Unit → Exchange → Prop}
    (hc : s.r.requestConfig = true) (hclean : Clean evs) (hb : src.shouldClientBlock = true)
    (h : ∀ new, BodyRead src new → Q () ((s.withBody env src).after (evs ++ new))) :
    Ends (readBody e env src) (s.after evs) Q (Blocked s.trace) := by
  simp only [readBody, ends_bind, ends_get, ends_engineCall, ends_modify, ends_when, ends_ret,
    Exchange.log_after]
  have hstate (new : List Event) : (s.after new).updCtx
      (fun c ↦ { c with savedBody := some [] }) = (s.withSaved []).after new := rfl
  rw [hstate]
  refine ends_bodyLoop hc ⟨fun _ ↦ ⟨Or.inr (by decide), _, rfl, fun hn ↦ ?_⟩, fun hf ↦ ?_⟩
  · refine absurd ?_ hn
    rw [clean_append, clean_append]
    refine ⟨⟨hclean, fun ev hev ↦ ?_⟩, clean_inspected _ _⟩
    rw [List.mem_singleton.mp hev]
    exact id
  · have hz : src.final = 0 := by
      have hle := src.final_le
      have hge := of_decide_eq_false hf
      omega
    have hq := h (.call .isRequestBodyAccessible (e.ret (s.after evs).trace
      .isRequestBodyAccessible) :: _)
      (Or.inr ⟨hb, hz, _, rfl⟩)
    rw [List.append_assoc]
    exact hq

private theorem ends_finishPhase2 {Q : Unit → Exchange → Prop} (hc : s.r.requestConfig = true)
    (h : ∀ rc, 0 ≤ rc → Q () ((s.updCtx fun c ↦ { c with phase2Done := true }).after
      (evs ++ [.call .processRequestBody rc, .poll none]))) :
    Ends (finishPhase2 e) (s.after evs) Q (Blocked s.trace) := by
  rw [finishPhase2, ends_bind]
  refine ends_checkProcess fun rc hrc ↦ ?_
  rw [ends_bind, ends_modify]
  refine ends_pollHook (s := s.updCtx fun c ↦ { c with phase2Done := true }) hc ?_
  rw [List.append_assoc]
  exact h rc hrc

/-- The events of phase 1 on the request of `s`, with the whole header set of its table
submitted. -/
def Phase1Done (s : Exchange) (evs : List Event) : Prop :=
  ∃ rc1 rc2 rc3 headers, 0 ≤ rc1 ∧ 0 ≤ rc2 ∧ 0 ≤ rc3 ∧
    (∃ pairs, HeaderSet s.r.headersIn pairs ∧
      Submitted .addRequestHeaders .addRequestHeader pairs headers) ∧
    evs = [.call (connectionCall s) rc1, .poll none, .call (uriCall s) rc2, .poll none] ++
      headers ++ [.call .processRequestHeaders rc3, .poll none]

private theorem ends_phase1 {Q : Unit → Exchange → Prop} (hc : s.r.requestConfig = true)
    (h : ∀ new, Phase1Done s new → Q () (s.after (evs ++ new))) :
    Ends (phase1 e) (s.after evs) Q (Blocked s.trace) := by
  rw [phase1, ends_bind, ends_get, ends_bind]
  refine ends_checkProcess fun rc1 h1 ↦ ?_
  rw [ends_bind]
  refine ends_pollHook hc ?_
  rw [ends_bind]
  refine ends_checkProcess fun rc2 h2 ↦ ?_
  rw [ends_bind]
  refine ends_pollHook hc ?_
  rw [ends_bind]
  refine ends_submitHeaders (fun _ _ _ _ ↦ ends_failClosed) fun headers hheaders ↦ ?_
  rw [ends_bind]
  refine ends_checkProcess fun rc3 h3 ↦ ?_
  refine ends_pollHook hc ?_
  have hset : HeaderSet s.r.headersIn (collectPairs s.r.headersIn) := headerSet_iff.mpr rfl
  have hq := h _ ⟨rc1, rc2, rc3, headers, h1, h2, h3, ⟨_, hset, hheaders⟩, rfl⟩
  simp only [List.append_assoc, List.cons_append, List.nil_append] at hq ⊢
  exact hq

/-- The events of a completed request inspection. -/
def Inspected (s : Exchange) (src : BodySource) (evs : List Event) : Prop :=
  ∃ first body rc, Phase1Done s first ∧ BodyRead src body ∧ 0 ≤ rc ∧
    evs = first ++ body ++ [.call .processRequestBody rc, .poll none]

/-- The state a request is admitted with: it has the context of a new transaction and the output
filter, and, if there was a body, the copy of it and the replay filter. -/
def Exchange.admitted (s : Exchange) (env : SaveEnv) (src : BodySource) (handle : Nat)
    (p : Process) : Exchange :=
  let s := { s with
    process := p
    ctx := { (default : CorazaRequestCtx) with transaction := handle }
    r := { s.r with requestConfig := true, outFilter := true } }
  let s := if src.shouldClientBlock then s.withBody env src else s
  s.updCtx fun c ↦ { c with phase2Done := true }

/-- A complete header submission is clean: the calls it rests on were accepted. -/
theorem clean_submitted {bulk : List UInt8 → Nat → Nat → EngineCall}
    {single : HeaderPair → EngineCall} {pairs : List HeaderPair} {evs : List Event}
    (h : Submitted bulk single pairs evs)
    (hb : ∀ packed len count rc, ¬ (bulk packed len count).failed rc)
    (hs : ∀ p, ¬ (single p).failed 0) : Clean evs := by
  rcases h with ⟨-, rfl⟩ | ⟨packed, len, -, rfl⟩ | ⟨before, hbefore, rfl⟩
  · exact clean_nil
  · intro ev hev
    rw [List.mem_singleton.mp hev]
    exact hb _ _ _ _
  · rw [clean_append]
    constructor
    · rcases hbefore with rfl | ⟨packed, len, rc, -, rfl⟩
      · exact clean_nil
      · intro ev hev
        rw [List.mem_singleton.mp hev]
        exact hb _ _ _ _
    · intro ev hev
      obtain ⟨p, -, rfl⟩ := List.mem_map.mp hev
      exact hs p

/-- A process call that did not fail and the poll that found nothing are clean. -/
theorem clean_step {c : EngineCall} {rc : Int} (h : ¬ c.failed rc) :
    Clean [.call c rc, .poll none] := by
  intro ev hev
  rcases List.mem_pair.mp hev with rfl | rfl
  · exact h
  · exact fun hbad ↦ hbad rfl

private theorem clean_phase1 (h : Phase1Done s evs) : Clean evs := by
  obtain ⟨rc1, rc2, rc3, headers, h1, h2, h3, ⟨pairs, -, hheaders⟩, rfl⟩ := h
  rw [clean_append, clean_append]
  refine ⟨⟨?_, clean_submitted hheaders (fun _ _ _ _ ↦ id) (fun _ hne ↦ hne rfl)⟩,
    clean_step (Int.not_lt.mpr h3)⟩
  exact (clean_append (a := [_, _])).mpr
    ⟨clean_step (Int.not_lt.mpr h1), clean_step (Int.not_lt.mpr h2)⟩

private theorem clean_bodyRead {src : BodySource} (h : BodyRead src evs) : Clean evs := by
  rcases h with ⟨-, rfl⟩ | ⟨-, -, access, rfl⟩
  · exact clean_nil
  · refine (clean_append (a := [_])).mpr ⟨fun ev hev ↦ ?_, clean_inspected _ _⟩
    rw [List.mem_singleton.mp hev]
    exact id

private theorem clean_inspection {src : BodySource} (h : Inspected s src evs) : Clean evs := by
  obtain ⟨first, body, rc, hfirst, hbody, hrc, rfl⟩ := h
  rw [clean_append, clean_append]
  exact ⟨⟨clean_phase1 hfirst, clean_bodyRead hbody⟩, clean_step (Int.not_lt.mpr hrc)⟩

/-- Phase 2 falls through only with the body read, inspected and kept. -/
theorem ends_phase2 {env : SaveEnv} {src : BodySource} {Q : Unit → Exchange → Prop}
    (hc : s.r.requestConfig = true) (hclean : Clean evs)
    (hsetup : src.setupClientBlock = retOk ∨ 0 < src.setupClientBlock)
    (h : ∀ body rc, BodyRead src body → 0 ≤ rc →
      Q () (((if src.shouldClientBlock then s.withBody env src else s).updCtx fun c ↦
        { c with phase2Done := true }).after
          (evs ++ body ++ [.call .processRequestBody rc, .poll none]))) :
    Ends (phase2 e env src) (s.after evs) Q (Blocked s.trace) := by
  simp only [phase2, ends_bind, ends_when, ends_ret]
  refine ⟨fun hne ↦ ?_, fun _ ↦ ⟨fun hb ↦ ?_, fun hb ↦ ?_⟩⟩
  · have hpos := hsetup.resolve_left (of_decide_eq_true hne)
    exact ⟨Or.inr hpos, evs, rfl, fun hn ↦ absurd hclean hn⟩
  · rw [if_pos hb] at h
    refine ends_readBody hc hclean hb fun body hbody ↦ ?_
    exact ends_finishPhase2 (s := s.withBody env src) hc fun rc hrc ↦ h body rc hbody hrc
  · rw [if_neg (by rw [hb]; exact Bool.false_ne_true)] at h
    refine ends_finishPhase2 hc fun rc hrc ↦ ?_
    have hq := h [] rc (Or.inl ⟨hb, rfl⟩) hrc
    rw [List.append_nil] at hq
    exact hq

/-- The hook on a request that has no context yet: it admits the request after a complete and
clean inspection, or blocks it. -/
theorem ends_corazaPostReadRequest (e : Engine) (lib : WafLib) (env : SaveEnv) (src : BodySource)
    (s : Exchange) (hsetup : src.setupClientBlock = retOk ∨ 0 < src.setupClientBlock)
    (hmain : s.r.main = false) (hon : s.enabled = true) (hctx : s.r.requestConfig = false)
    (hprev : corazaCtxFromPrev s.prev = false) :
    Ends (corazaPostReadRequest e lib env src) s
      (fun v s' ↦ v = retDeclined ∧ ∃ handle p evs,
        s.process.corazaCreateCtx lib (s.r.perDirConfig.getD 0) s.r.serverConf =
          (some handle, p) ∧
        Inspected s src evs ∧ s' = (s.admitted env src handle p).after evs)
      (Blocked s.trace) := by
  simp only [corazaPostReadRequest, ends_bind, ends_get, ends_when, ends_ret]
  refine ⟨fun h ↦ absurd h (by rw [hmain]; exact Bool.false_ne_true), fun _ ↦
    ⟨fun h ↦ absurd h (by rw [hon]; exact Bool.false_ne_true), fun _ ↦
    ⟨fun h ↦ absurd h (by rw [hctx]; exact Bool.false_ne_true), fun _ ↦
    ⟨fun h ↦ absurd h (by rw [hprev]; exact Bool.false_ne_true), fun _ ↦ ?_⟩⟩⟩⟩
  cases hcreate : s.process.corazaCreateCtx lib (s.r.perDirConfig.getD 0) s.r.serverConf with
  | mk handle p =>
    cases handle with
    | none =>
      simp only [Ends, createCtx, hcreate]
      exact ⟨Or.inr (by decide), [], by simp, fun hn ↦ absurd clean_nil hn⟩
    | some handle =>
      have hstep : createCtx lib s = (.next (), { s with
          process := p
          ctx := { (default : CorazaRequestCtx) with transaction := handle }
          r := { s.r with requestConfig := true } }) := by
        simp only [createCtx, hcreate]
      rw [Ends, hstep]
      dsimp only
      rw [← Exchange.after_nil { s with
          process := p
          ctx := { (default : CorazaRequestCtx) with transaction := handle }
          r := { s.r with requestConfig := true } }]
      refine ends_phase1 rfl fun first hfirst ↦ ?_
      rw [ends_modify]
      refine ends_phase2 (s := { s with
          process := p
          ctx := { (default : CorazaRequestCtx) with transaction := handle }
          r := { s.r with requestConfig := true, outFilter := true } }) rfl
        (clean_phase1 hfirst) hsetup fun body rc hbody hrc ↦ ?_
      rw [ends_pure]
      exact ⟨rfl, handle, p, _, rfl, ⟨first, body, rc, hfirst, hbody, hrc, rfl⟩, rfl⟩

end

/-- Phases 1 and 2 fail closed. The hook declines only after a transaction was created and the
whole request was inspected without an error or an intervention; otherwise it returns `DONE` or
a positive status; and an error or intervention is always marked on the context. -/
theorem corazaPostReadRequest_fails_closed (e : Engine) (lib : WafLib) (env : SaveEnv)
    (src : BodySource) (s : Exchange)
    (hsetup : src.setupClientBlock = retOk ∨ 0 < src.setupClientBlock)
    (hmain : s.r.main = false) (hon : s.enabled = true) (hctx : s.r.requestConfig = false)
    (hprev : corazaCtxFromPrev s.prev = false) :
    ((exec (corazaPostReadRequest e lib env src) s).1 = retDeclined →
      ∃ handle evs, handle ≠ 0 ∧
        (s.process.corazaCreateCtx lib (s.r.perDirConfig.getD 0) s.r.serverConf).1 =
          some handle ∧
        (exec (corazaPostReadRequest e lib env src) s).2.ctx.transaction = handle ∧
        (exec (corazaPostReadRequest e lib env src) s).2.trace = s.trace ++ evs ∧
        Inspected s src evs) ∧
    ((exec (corazaPostReadRequest e lib env src) s).1 ≠ retDeclined →
      (exec (corazaPostReadRequest e lib env src) s).1 = retDone ∨
        0 < (exec (corazaPostReadRequest e lib env src) s).1) ∧
    Marked s.trace (exec (corazaPostReadRequest e lib env src) s).2 := by
  have h := ends_corazaPostReadRequest e lib env src s hsetup hmain hon hctx hprev
  refine exec_of_ends (R := fun v s' ↦ (v = retDeclined → ∃ handle evs, handle ≠ 0 ∧
      (s.process.corazaCreateCtx lib (s.r.perDirConfig.getD 0) s.r.serverConf).1 = some handle ∧
        s'.ctx.transaction = handle ∧ s'.trace = s.trace ++ evs ∧ Inspected s src evs) ∧
      (v ≠ retDeclined → v = retDone ∨ 0 < v) ∧ Marked s.trace s') (h.mono ?_ ?_)
  · rintro v s' ⟨rfl, handle, p, evs, hcreate, hins, rfl⟩
    have htrace : ((s.admitted env src handle p).after evs).trace = s.trace ++ evs := by
      simp only [Exchange.after_trace, Exchange.admitted]
      split <;> rfl
    have hne : handle ≠ 0 := Process.corazaCreateCtx_ne_zero (by rw [hcreate])
    refine ⟨fun _ ↦ ⟨handle, evs, hne, by rw [hcreate], ?_, htrace, hins⟩,
      fun hd ↦ absurd rfl hd, evs, htrace, fun hn ↦ absurd (clean_inspection hins) hn⟩
    simp only [Exchange.after_ctx, Exchange.admitted]
    split <;> rfl
  · rintro v s' ⟨hv, hmarked⟩
    refine ⟨fun hd ↦ ?_, fun _ ↦ hv, hmarked⟩
    rw [hd] at hv
    exact absurd hv (by decide)

/-- An engine that accepts everything, inspects bodies and never intervenes. -/
def quietEngine : Engine where
  ret _
    | .isRequestBodyAccessible => 1
    | .isResponseBodyAccessible => 1
    | .isResponseBodyProcessable => 1
    | _ => 0
  intervention _ := none

/-- A request with one header, for a `dir_conf` at address 0 of server conf 0. -/
def plainRequest : Request :=
  { main := false, perDirConfig := some 0, serverConf := 0, requestConfig := false,
    useragentPort := some 4000, useragentIp := none, protoNum := 1001,
    protocol := some (CString.ofString "HTTP/1.1"), unparsedUri := CString.ofString "/",
    method := CString.ofString "POST",
    headersIn := [(some (CString.ofString "Host"), some (CString.ofString "h"))],
    headersOut := [], errHeadersOut := [], contentType := none, status := 200,
    headerOnly := false, readLength := 0, outFilter := false, inFilter := false }

/-- That request arriving in a child whose section at address 0 has one rule. -/
def plainExchange : Exchange :=
  { r := plainRequest, prev := [],
    conn := { localPort := some 80, localIp := none, keepaliveClose := false, aborted := false },
    ctx := default, process := Process.ofSections [[inlineRule "a"]], tables := listTables,
    trace := [] }

/-- Brigades as lists, and storage that never fails. -/
def plainSave : SaveEnv where
  ops := listOps
  brigadeWriteOk _ _ := true
  openSpoolOk := true
  spoolWriteOk _ _ := true

/-- A body of one three-byte chunk. -/
def plainBody : BodySource where
  setupClientBlock := 0
  shouldClientBlock := true
  chunks := [⟨[1, 2, 3], by decide, by decide⟩]
  final := 0
  final_le := by decide

/-- The quiet engine lets the request through, and the whole of it was inspected. -/
theorem plainExchange_inspected :
    ∃ evs, (exec (corazaPostReadRequest quietEngine acceptingLib plainSave plainBody)
        plainExchange).2.trace = evs ∧ Inspected plainExchange plainBody evs := by
  have h := corazaPostReadRequest_fails_closed quietEngine acceptingLib plainSave plainBody
    plainExchange (Or.inl rfl) rfl rfl rfl rfl
  obtain ⟨handle, evs, -, -, -, htrace, hins⟩ := h.1 (by decide)
  exact ⟨evs, htrace, hins⟩

end CorazaApache.Http
