/-!
# Machines that are fed in pieces

A machine takes items one at a time and may stop with an answer, after which it takes no more.
How the items are cut into pieces does not matter to it, since between two pieces it is in the
state it would be in anyway.
-/

namespace CorazaApache.Base

variable {σ ι ω : Type}

/-- Feed items until the machine stops. -/
def feed (step : σ → ι → Option ω × σ) : σ → List ι → Option ω × σ
  | s, [] => (none, s)
  | s, i :: is =>
    match step s i with
    | (some answer, s') => (some answer, s')
    | (none, s') => feed step s' is

/-- Feed pieces until the machine stops. -/
def feedPieces (step : σ → ι → Option ω × σ) : σ → List (List ι) → Option ω × σ
  | s, [] => (none, s)
  | s, piece :: pieces =>
    match feed step s piece with
    | (some answer, s') => (some answer, s')
    | (none, s') => feedPieces step s' pieces

/-- What comes later is fed to the machine where it then stands. -/
theorem feed_append (step : σ → ι → Option ω × σ) (s : σ) (is rest : List ι) :
    feed step s (is ++ rest) =
      match feed step s is with
      | (some answer, s') => (some answer, s')
      | (none, s') => feed step s' rest := by
  induction is generalizing s with
  | nil => rfl
  | cons i is ih =>
    rw [List.cons_append, feed, feed]
    cases step s i with
    | mk answer s' =>
      cases answer with
      | some answer => rfl
      | none => exact ih s'

/-- The pieces do not matter. -/
theorem feedPieces_eq (step : σ → ι → Option ω × σ) (s : σ) (pieces : List (List ι)) :
    feedPieces step s pieces = feed step s pieces.flatten := by
  induction pieces generalizing s with
  | nil => rfl
  | cons piece pieces ih =>
    rw [List.flatten_cons, feed_append, feedPieces]
    cases feed step s piece with
    | mk answer s' =>
      cases answer with
      | some answer => rfl
      | none => exact ih s'

/-- What every step keeps holds wherever the machine stands, stopped or not. -/
theorem feed_invariant {step : σ → ι → Option ω × σ} {I : σ → Prop}
    (hstep : ∀ s i, I s → I (step s i).2) {s : σ} (h : I s) (is : List ι) :
    I (feed step s is).2 := by
  induction is generalizing s with
  | nil => exact h
  | cons i is ih =>
    have hnext := hstep s i h
    rw [feed]
    cases hs : step s i with
    | mk answer s' =>
      rw [hs] at hnext
      cases answer with
      | some answer => exact hnext
      | none => exact ih hnext

end CorazaApache.Base
