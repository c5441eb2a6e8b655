import CorazaApache.Base.Trace
import CorazaApache.Http.FailClosed

/-!
# The order of engine calls

A transaction goes through its phases once and in order, and nothing is fed to it or run on it
any more once a call failed, an intervention was reported or the transaction was logged. The
rule is one for each call with the events before it, so that hook and filter are checked block
by block.
-/

namespace CorazaApache.Http
open CorazaApache.Base CorazaApache.Base.Prog CorazaApache.Config CorazaApache.Apr

/-- The place of a call in the protocol. Questions about bodies and the status of an
intervention have none. -/
def EngineCall.place : EngineCall → Option Nat
  | .processConnection _ _ _ _ => some 0
  | .processUri _ _ _ => some 1
  | .addRequestHeaders _ _ _ | .addRequestHeader _ => some 2
  | .processRequestHeaders => some 3
  | .appendRequestBody _ => some 4
  | .processRequestBody => some 5
  | .addResponseHeaders _ _ _ | .addResponseHeader _ => some 6
  | .processResponseHeaders _ _ => some 7
  | .appendResponseBody _ => some 8
  | .processResponseBody => some 9
  | .processLogging => some 10
  | .isRequestBodyAccessible | .isResponseBodyAccessible | .isResponseBodyProcessable
  | .updateStatusCode _ => none

/-- The calls that run a phase, as opposed to those that feed it. -/
def EngineCall.runsPhase : EngineCall → Bool
  | .processConnection _ _ _ _ | .processUri _ _ _ | .processRequestHeaders | .processRequestBody
  | .processResponseHeaders _ _ | .processResponseBody | .processLogging => true
  | _ => false

/-- The place says of which kind a call is. -/
theorem EngineCall.runsPhase_eq {c : EngineCall} {n : Nat} (h : c.place = some n) :
    c.runsPhase = decide (n ∉ [2, 4, 6, 8]) := by
  cases c <;> cases h <;> rfl

/-- A call with a place comes behind all calls with an earlier one; a phase is run only once, and
only logging is left behind a failure or an intervention. -/
def ProtocolRule (past : List Event) (ev : Event) : Prop :=
  ∀ c rc n, ev = .call c rc → c.place = some n →
    (∀ c' rc' n', .call c' rc' ∈ past → c'.place = some n' →
      n' < n ∨ n' = n ∧ c.runsPhase = false) ∧
    (c ≠ .processLogging → Clean past)

/-- The first place that is still free behind a call. -/
def EngineCall.behind (c : EngineCall) (n : Nat) : Nat := if c.runsPhase then n + 1 else n

/-- The calls so far leave the places from `free` on. -/
def UpTo (free : Nat) (evs : List Event) : Prop :=
  ∀ c rc n, .call c rc ∈ evs → c.place = some n → c.behind n ≤ free

section

variable {free : Nat} {evs : List Event}

/-- No call was made yet. -/
theorem upTo_nil (free : Nat) : UpTo free [] := by
  intro c rc n h
  cases h

/-- The places that are left may begin later. -/
theorem UpTo.mono (h : UpTo free evs) {free' : Nat} (hle : free ≤ free') : UpTo free' evs :=
  fun c rc n hc hn ↦ (h c rc n hc hn).trans hle

private theorem UpTo.append (h : UpTo free evs) {new : List Event}
    (hnew : ∀ c rc n, .call c rc ∈ new → c.place = some n → c.behind n ≤ free) :
    UpTo free (evs ++ new) := by
  intro c rc n hc hn
  rcases List.mem_append.mp hc with hc | hc
  · exact h c rc n hc hn
  · exact hnew c rc n hc hn

/-- An event that is no call with a place. -/
def Event.Placeless (ev : Event) : Prop := ∀ c rc, ev = .call c rc → c.place = none

private theorem rule_of_placeless {past : List Event} {ev : Event} (h : ev.Placeless) :
    ProtocolRule past ev := by
  intro c rc n hev hn
  rw [h c rc hev] at hn
  cases hn

/-- Events without a place take none. -/
theorem UpTo.placeless (h : UpTo free evs) {new : List Event} (hnew : ∀ ev ∈ new, ev.Placeless) :
    UpTo free (evs ++ new) := by
  apply h.append
  intro c rc n hc hn
  rw [hnew _ hc c rc rfl] at hn
  cases hn

/-- The next call is at a free place. -/
theorem rule_of_upTo (h : UpTo free evs) {c : EngineCall} {n : Nat} (hn : c.place = some n)
    (hfree : free ≤ n) (hclean : c ≠ .processLogging → Clean evs) (rc : Int) :
    ProtocolRule evs (.call c rc) := by
  intro c₀ rc₀ n₀ hev hn₀
  obtain ⟨rfl, rfl⟩ := Event.call.inj hev
  obtain rfl := Option.some.inj (hn.symm.trans hn₀)
  refine ⟨fun c' rc' n' hc' hn' ↦ ?_, hclean⟩
  have hle := (h c' rc' n' hc' hn').trans hfree
  unfold EngineCall.behind at hle
  split at hle
  · exact Or.inl hle
  · next hfeeds =>
    rcases Nat.lt_or_eq_of_le hle with hlt | heq
    · exact Or.inl hlt
    · -- Two calls at one place are of the same kind.
      refine Or.inr ⟨heq, ?_⟩
      rw [EngineCall.runsPhase_eq hn, ← heq, ← EngineCall.runsPhase_eq hn']
      exact Bool.eq_false_iff.mpr hfeeds

/-- Events in order and without failure or intervention, that leave the places from `free` on. -/
structure Script (free : Nat) (evs : List Event) : Prop where
  rule : Along ProtocolRule evs
  clean : Clean evs
  upTo : UpTo free evs

/-- Nothing has happened yet. -/
theorem script_nil (free : Nat) : Script free [] :=
  ⟨alongFrom_nil [], clean_nil, upTo_nil free⟩

/-- The places that are left may begin later. -/
theorem Script.mono (h : Script free evs) {free' : Nat} (hle : free ≤ free') : Script free' evs :=
  ⟨h.rule, h.clean, h.upTo.mono hle⟩

/-- More events without a place. -/
theorem along_placeless (h : Along ProtocolRule evs) {new : List Event}
    (hnew : ∀ ev ∈ new, ev.Placeless) : Along ProtocolRule (evs ++ new) :=
  along_append.mpr ⟨h, alongFrom_of_forall fun ev hev _ ↦ rule_of_placeless (hnew ev hev)⟩

/-- Clean events without a place take none. -/
theorem Script.skip (h : Script free evs) {new : List Event} (hnew : ∀ ev ∈ new, ev.Placeless)
    (hclean : Clean new) : Script free (evs ++ new) :=
  ⟨along_placeless h.rule hnew, clean_append.mpr ⟨h.clean, hclean⟩, h.upTo.placeless hnew⟩

/-- One more call at a free place, whatever it returns. -/
theorem Script.rule_call (h : Script free evs) {c : EngineCall} {n : Nat} (hn : c.place = some n)
    (hfree : free ≤ n) (rc : Int) : Along ProtocolRule (evs ++ [.call c rc]) := by
  refine along_append.mpr ⟨h.rule, alongFrom_cons.mpr ⟨?_, alongFrom_nil _⟩⟩
  exact rule_of_upTo h.upTo hn hfree (fun _ ↦ h.clean) rc

/-- A call takes its place. -/
theorem UpTo.call (h : UpTo free evs) {c : EngineCall} {n : Nat} (hn : c.place = some n)
    (hfree : free ≤ n) (rc : Int) : UpTo (c.behind n) (evs ++ [.call c rc]) := by
  have hle : n ≤ c.behind n := by
    unfold EngineCall.behind
    split
    · exact Nat.le_succ n
    · exact Nat.le_refl n
  apply (h.mono (hfree.trans hle)).append
  intro c' rc' n' hc' hn'
  obtain ⟨rfl, rfl⟩ := Event.call.inj (List.mem_singleton.mp hc')
  obtain rfl := Option.some.inj (hn.symm.trans hn')
  exact Nat.le_refl _

/-- One more call at a free place that does not fail. -/
theorem Script.call (h : Script free evs) {c : EngineCall} {n : Nat} (hn : c.place = some n)
    (hfree : free ≤ n) {rc : Int} (hok : ¬ c.failed rc) :
    Script (c.behind n) (evs ++ [.call c rc]) := by
  refine ⟨h.rule_call hn hfree rc, clean_append.mpr ⟨h.clean, ?_⟩, h.upTo.call hn hfree rc⟩
  intro ev hev
  rw [List.mem_singleton.mp hev]
  exact hok

end

end CorazaApache.Http
