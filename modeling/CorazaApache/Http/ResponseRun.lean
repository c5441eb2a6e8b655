import CorazaApache.Base.Trace
import CorazaApache.Http.FilterStep

/-!
# Whole responses

What is received, sent on and inspected of a response is read off its events. A property of
mode and events that every transition keeps holds after any number of brigades.
-/

namespace CorazaApache.Http
open CorazaApache.Base CorazaApache.Base.Prog CorazaApache.Config CorazaApache.Apr

/-- The buckets received so far. -/
def received (evs : List Event) : Brigade :=
  evs.flatMap fun
    | .receive bb => bb
    | _ => []

/-- The buckets that went downstream so far, through the filter or past it. -/
def sent (evs : List Event) : Brigade :=
  evs.flatMap fun
    | .pass bb => bb
    | .direct bb => bb
    | _ => []

/-- The response body bytes handed to the engine. -/
def responseBytes (evs : List Event) : List UInt8 :=
  evs.flatMap fun
    | .call (.appendResponseBody bs) _ => bs
    | _ => []

/-- What two runs received, one after the other. -/
@[simp] theorem received_append (a b : List Event) :
    received (a ++ b) = received a ++ received b := List.flatMap_append

/-- What two runs sent, one after the other. -/
@[simp] theorem sent_append (a b : List Event) : sent (a ++ b) = sent a ++ sent b :=
  List.flatMap_append

/-- The bytes handed over in two runs, one after the other. -/
@[simp] theorem responseBytes_append (a b : List Event) :
    responseBytes (a ++ b) = responseBytes a ++ responseBytes b := List.flatMap_append

/-- Inside an invocation nothing is received. -/
theorem received_inner {m : Mode} {evs : List Event} (h : ∀ ev ∈ evs, ev.Inner m) :
    received evs = [] := by
  refine List.flatMap_eq_nil_iff.mpr fun ev hev ↦ ?_
  have hi := h ev hev
  cases ev <;> first | rfl | exact hi.elim

/-- Inside an invocation nothing is sent on. -/
theorem sent_inner {m : Mode} {evs : List Event} (h : ∀ ev ∈ evs, ev.Inner m) : sent evs = [] := by
  refine List.flatMap_eq_nil_iff.mpr fun ev hev ↦ ?_
  have hi := h ev hev
  cases ev <;> first | rfl | exact hi.elim

/-- The inspection of a body receives nothing. -/
@[simp] theorem received_inspected (bb : Brigade) :
    received (bb.flatMap inspectedBucket) = [] :=
  received_inner (m := .fresh) (inner_inspected bb)

/-- It sends nothing. -/
@[simp] theorem sent_inspected (bb : Brigade) : sent (bb.flatMap inspectedBucket) = [] :=
  sent_inner (m := .fresh) (inner_inspected bb)

/-- Inspecting buckets hands their bytes to the engine. -/
theorem responseBytes_inspected (bb : Brigade) :
    responseBytes (bb.flatMap inspectedBucket) = dataBytes bb := by
  induction bb with
  | nil => rfl
  | cons b bb ih =>
    rw [List.flatMap_cons, responseBytes_append, ih, dataBytes_cons, inspectedBucket]
    congr 1
    split
    · next h => rw [h]; rfl
    · simp [responseBytes]

/-! ### Phase 3 in the events -/

section

variable {env : OutEnv} {r : Request} {bb : Brigade} {m m' : Mode} {evs : List Event}
  {st : FilterStatus}

/-- The calls phase 3 makes. -/
def EngineCall.OfPhase3 : EngineCall → Prop
  | .addResponseHeaders _ _ _ | .addResponseHeader _ | .processResponseHeaders _ _
  | .isResponseBodyAccessible | .isResponseBodyProcessable => True
  | _ => False

/-- Phase 3 only makes its calls and polls once. -/
theorem phase3_events {processable : Bool} (h : Phase3Done r processable evs) :
    ∀ ev ∈ evs, (∃ c rc, ev = .call c rc ∧ c.OfPhase3) ∨ ev = .poll none := by
  obtain ⟨headers, rc, asked, ⟨pairs, -, hheaders⟩, -, hasked, rfl⟩ := h
  refine List.forall_mem_append.mpr ⟨?_, List.forall_mem_cons.mpr
    ⟨Or.inl ⟨_, _, rfl, trivial⟩, List.forall_mem_append.mpr ⟨?_, by simp⟩⟩⟩
  · rcases hheaders with ⟨-, rfl⟩ | ⟨packed, len, -, rfl⟩ | ⟨before, hbefore, rfl⟩
    · simp
    · simp [EngineCall.OfPhase3]
    · refine List.forall_mem_append.mpr ⟨?_, by simp [EngineCall.OfPhase3]⟩
      rcases hbefore with rfl | ⟨packed, len, rc, -, rfl⟩
      · simp
      · simp [EngineCall.OfPhase3]
  · rcases hasked with ⟨-, rfl⟩ | ⟨access, answer, -, -, rfl⟩
    · simp [EngineCall.OfPhase3]
    · simp [EngineCall.OfPhase3]

private theorem received_phase3 {processable : Bool} (h : Phase3Done r processable evs) :
    received evs = [] := received_inner (m := .fresh) (inner_phase3 h)

/-- Phase 3 sends nothing. -/
theorem sent_phase3 {processable : Bool} (h : Phase3Done r processable evs) : sent evs = [] :=
  sent_inner (m := .fresh) (inner_phase3 h)

/-- It hands no body over. -/
theorem responseBytes_phase3 {processable : Bool} (h : Phase3Done r processable evs) :
    responseBytes evs = [] := by
  refine List.flatMap_eq_nil_iff.mpr fun ev hev ↦ ?_
  rcases phase3_events h ev hev with ⟨c, rc, rfl, hc⟩ | rfl
  · cases c <;> first | rfl | exact hc.elim
  · rfl

/-- A phase 3 that was completed is clean. -/
theorem clean_phase3 {processable : Bool} (h : Phase3Done r processable evs) : Clean evs := by
  obtain ⟨headers, rc, asked, ⟨pairs, -, hheaders⟩, hrc, hasked, rfl⟩ := h
  rw [clean_append]
  refine ⟨clean_submitted hheaders (fun _ _ _ _ ↦ id) (fun _ hne ↦ hne rfl), ?_⟩
  refine List.forall_mem_cons.mpr ⟨Int.not_lt.mpr hrc, List.forall_mem_append.mpr ⟨?_, ?_⟩⟩
  · rcases hasked with ⟨-, rfl⟩ | ⟨access, answer, -, -, rfl⟩
    · simp [Event.Bad, EngineCall.failed]
    · simp [Event.Bad, EngineCall.failed]
  · simp [Event.Bad]

private theorem clean_inspectedBuckets (bb : Brigade) : Clean (bb.flatMap inspectedBucket) := by
  intro ev hev
  obtain ⟨b, -, hev⟩ := List.mem_flatMap.mp hev
  unfold inspectedBucket at hev
  split at hev
  · cases hev
  · rcases List.mem_pair.mp hev with rfl | rfl
    · exact fun hbad ↦ hbad rfl
    · exact fun hbad ↦ hbad rfl

/-! ### What one invocation does -/

/-- Opening a response is made of inner events. -/
theorem Opens.inner (h : Opens env r m evs m') : ∀ ev ∈ evs, ev.Inner m := by
  cases h with
  | again => simp
  | delay hdone => exact inner_append.mpr ⟨inner_phase3 hdone, by simp [Event.Inner]⟩
  | stream hdone => exact inner_phase3 hdone

/-- Only a response that is not over is opened. -/
theorem Opens.active (h : Opens env r m evs m') : m.active = true := by
  cases h with
  | again hactive => exact hactive
  | delay => rfl
  | stream => rfl

/-- What opens a response is clean. -/
theorem Opens.clean (h : Opens env r m evs m') : Clean evs := by
  cases h with
  | again => exact clean_nil
  | delay hdone => exact clean_append.mpr ⟨clean_phase3 hdone, by simp [Clean, Event.Bad]⟩
  | stream hdone => exact clean_phase3 hdone

/-- Opening holds nothing back that was not held before. -/
theorem Opens.held (h : Opens env r m evs m') : m'.held = m.held := by
  cases h with
  | again => rfl
  | delay => rfl
  | stream => rfl

private theorem received_pass (evs : List Event) (out : Brigade) :
    received (evs ++ [.pass out]) = received evs := by
  simp [received]

/-- A brigade that is passed on is sent. -/
theorem sent_pass (evs : List Event) (out : Brigade) :
    sent (evs ++ [.pass out]) = sent evs ++ out := by
  simp [sent]

/-- The record of an invocation adds its brigade to what was received. -/
theorem received_filter (bb : Brigade) (evs : List Event) (st : FilterStatus) :
    received (.receive bb :: evs ++ [.returned st]) = bb ++ received evs := by
  simp [received]

/-- The arrival and the return send nothing. -/
theorem sent_filter (bb : Brigade) (evs : List Event) (st : FilterStatus) :
    sent (.receive bb :: evs ++ [.returned st]) = sent evs := by
  simp [sent]

/-- The filter receives its brigade when it is invoked and nothing more. -/
theorem Invoked.received_eq_nil (h : Invoked env r bb m evs st m') : received evs = [] := by
  cases h with
  | refuse hr =>
    obtain ⟨inner, dies, rfl, hinner, hdies⟩ := hr.events
    rw [received_append, received_inner hinner]
    rcases hdies with rfl | ⟨status, rfl, -, -⟩
    · rfl
    · rfl
  | uninspected hdone =>
    rw [received_append, received_phase3 hdone]
    rfl
  | sse hdone =>
    rw [received_pass, received_phase3 hdone]
  | carry ho hc =>
    rw [received_append, received_inner ho.inner]
    cases hc with
    | flush => rw [received_pass, received_inspected]; rfl
    | release => rw [received_append, received_inspected]; rfl
    | hold => rw [received_inspected]; rfl
    | finish => rw [received_append, received_inspected]; rfl
    | stream => rw [received_pass, received_inspected]; rfl

/-- A refusal has a cause. -/
theorem Invoked.cause (h : Invoked env r bb m evs st .refused) :
    ¬ Clean evs ∨ Uninspectable env r bb := by
  cases h with
  | refuse hr => exact hr.cause
  | carry ho hc => cases hc

/-- The end of phase 4 and the brigade passed on after it. -/
theorem clean_finish {rc : Int} (hrc : 0 ≤ rc) (out : Brigade) :
    Clean [.call .processResponseBody rc, .poll none, .pass out] := by
  refine (clean_append (a := [_, _])).mpr ⟨clean_step (Int.not_lt.mpr hrc), ?_⟩
  simp [Clean, Event.Bad]

/-- Passing a brigade on is clean. -/
theorem clean_pass (out : Brigade) : Clean [.pass out] := by simp [Clean, Event.Bad]

/-- What a body is carried with is clean. -/
theorem Carries.clean (h : Carries bb m evs st m') : Clean evs := by
  cases h with
  | flush => exact clean_append.mpr ⟨clean_inspectedBuckets _, clean_pass _⟩
  | release _ _ _ hrc => exact clean_append.mpr ⟨clean_inspectedBuckets _, clean_finish hrc _⟩
  | hold => exact clean_inspectedBuckets _
  | finish _ _ hrc => exact clean_append.mpr ⟨clean_inspectedBuckets _, clean_finish hrc _⟩
  | stream => exact clean_append.mpr ⟨clean_inspectedBuckets _, clean_pass _⟩

/-- An invocation that does not refuse is free of errors and interventions. -/
theorem Invoked.clean (h : Invoked env r bb m evs st m') (hm : m' ≠ .refused) : Clean evs := by
  cases h with
  | refuse => exact absurd rfl hm
  | uninspected hdone hrc => exact clean_append.mpr ⟨clean_phase3 hdone, clean_finish hrc _⟩
  | sse hdone => exact clean_append.mpr ⟨clean_phase3 hdone, clean_pass _⟩
  | carry ho hc => exact clean_append.mpr ⟨ho.clean, hc.clean⟩

/-! ### Runs -/

/-- The filter is invoked only while it is on the chain. -/
theorem Invoked.active (h : Invoked env r bb m evs st m') : m.active = true := by
  cases h with
  | refuse hr => exact hr.active
  | uninspected => rfl
  | sse => rfl
  | carry ho => exact ho.active

/-- Past the filter the `request_rec` does not matter. -/
theorem Output.congr {r' : Request} (h : Output env r bb m evs m') (hr : m.active = true → r = r') :
    Output env r' bb m evs m' := by
  cases h with
  | filter hi =>
    rw [hr hi.active] at hi
    exact .filter hi
  | direct hoff => exact .direct hoff

/-- A filter that is off stays off. -/
theorem Output.active (h : Output env r bb m evs m') (hm : m'.active = true) :
    m.active = true := by
  cases h with
  | filter hi => exact hi.active
  | direct => exact hm

end

/-- What holds before a response and is kept by every transition on its brigades holds after
any of them. -/
theorem passOutputs_run {e : Engine} {env : OutEnv} {r : Request} {bbs : List Brigade}
    (Inv : Mode → List Event → Prop)
    (hstep : ∀ bb ∈ bbs, ∀ m evs new m', Inv m evs → Output env r bb m new m' →
      Inv m' (evs ++ new)) {s : Exchange} {m : Mode} {evs : List Event} (h0 : Inv m evs)
    (hm : InMode m s) (hr : m.active = true → s.r = r) :
    ∃ new m', (s.passOutputs e env bbs).trace = s.trace ++ new ∧
      InMode m' (s.passOutputs e env bbs) ∧ Inv m' (evs ++ new) := by
  induction bbs generalizing s m evs with
  | nil =>
    refine ⟨[], m, ?_, hm, ?_⟩
    · rw [List.append_nil]
      rfl
    · rwa [List.append_nil]
  | cons bb bbs ih =>
    rw [List.forall_mem_cons] at hstep
    obtain ⟨first, m₁, hpass⟩ := passOutput_step e env hm bb
    have h1 := hstep.1 m evs first m₁ h0 (hpass.output.congr hr)
    have hr₁ : m₁.active = true → (s.passOutput e env bb).r = r := by
      intro hactive
      have hon := hpass.output.active hactive
      rw [hpass.req (Mode.ne_refused_of_active hactive), hactive, ← hr hon, ← hon,
        ← hm.filter]
    obtain ⟨rest, m', htrace, hm', hinv⟩ := ih hstep.2 h1 hpass.mode hr₁
    refine ⟨first ++ rest, m', ?_, hm', ?_⟩
    · rw [← List.append_assoc, ← hpass.trace]
      exact htrace
    · rw [← List.append_assoc]
      exact hinv

/-- The events between two states of an exchange. -/
def newEvents (s s' : Exchange) : List Event := s'.trace.drop s.trace.length

/-- The new events are those behind the old ones. -/
theorem newEvents_eq {s s' : Exchange} {evs : List Event} (h : s'.trace = s.trace ++ evs) :
    newEvents s s' = evs := by
  rw [newEvents, h, List.drop_left]

end CorazaApache.Http
