import CorazaApache.Base.Run

/-!
# Loading the engine

`src/mod_coraza_dl.c:50–204`. Every function of the engine the module calls is a wrapper over a
pointer that `coraza_dl_open` resolves in the library it has opened. Each exit of that function
behind `dynlib_open` gives the handle back, except for the one of the version check: it leaves
the refused library in `dl_handle`, which is all the next call looks at.
-/

namespace CorazaApache.Dl
open CorazaApache.Base

/-- The exports the wrappers forward to; `src/mod_coraza_dl.c:54–88`. -/
inductive CorazaSymbol where
  | newWafConfig
  | rulesAdd
  | rulesAddFile
  | freeWafConfig
  | newWaf
  | freeWaf
  | freeString
  | rulesCount
  | rulesMerge
  | newTransaction
  | newTransactionWithId
  | freeTransaction
  | intervention
  | freeIntervention
  | processConnection
  | processUri
  | addRequestHeader
  | addRequestHeaders
  | processRequestHeaders
  | appendRequestBody
  | processRequestBody
  | addResponseHeader
  | addResponseHeaders
  | appendResponseBody
  | processResponseBody
  | processResponseHeaders
  | processLogging
  | updateStatusCode
  | addGetArgs
  | isResponseBodyProcessable
  | isResponseBodyAccessible
  | isRequestBodyAccessible
  deriving DecidableEq, Repr

/-- The symbols resolved before the version check, in the order of the source;
`src/mod_coraza_dl.c:136–168`. -/
def gatedSymbols : List CorazaSymbol :=
  [.newWafConfig, .rulesAdd, .rulesAddFile, .freeWafConfig, .newWaf, .freeWaf, .freeString,
    .rulesCount, .rulesMerge, .newTransaction, .newTransactionWithId, .freeTransaction,
    .intervention, .freeIntervention, .processConnection, .processUri, .addRequestHeader,
    .addRequestHeaders, .processRequestHeaders, .appendRequestBody, .processRequestBody,
    .addResponseHeader, .addResponseHeaders, .appendResponseBody, .processResponseBody,
    .processResponseHeaders, .processLogging, .updateStatusCode, .addGetArgs,
    .isResponseBodyProcessable, .isRequestBodyAccessible]

/-- A library that can be opened: the address of each export, and what `coraza_version_num`
reports if that is exported. -/
structure Library where
  sym : CorazaSymbol → Option Nat
  versionNum : Option Int

/-- The static variables: `dl_handle` and the pointers of the wrappers, with `none` for `NULL`. -/
structure Loader where
  handle : Option Library
  pointer : CorazaSymbol → Option Nat

/-- `OK` or `HTTP_INTERNAL_SERVER_ERROR`. -/
inductive OpenStatus where
  | ok
  | internalServerError
  deriving DecidableEq, Repr

namespace Loader

/-- The statics as the loader of the module leaves them. -/
def init : Loader := ⟨none, fun _ ↦ none⟩

/-- `DL_SYM`: resolve one symbol; a missing one closes the library and ends the call.
`src/mod_coraza_dl.c:98–109`. -/
def dlSym (st : Loader) (s : CorazaSymbol) : Bool × Loader :=
  let p := st.handle.bind (·.sym s)
  let st := { st with pointer := fun t ↦ if t = s then p else st.pointer t }
  if p = none then (false, { st with handle := none }) else (true, st)

/-- A sequence of `DL_SYM`s. -/
def dlSyms : Loader → List CorazaSymbol → Bool × Loader
  | st, [] => (true, st)
  | st, s :: rest =>
    match st.dlSym s with
    | (false, st) => (false, st)
    | (true, st) => dlSyms st rest

/-- `coraza_dl_open`, where `opened` is what `dynlib_open` answers;
`src/mod_coraza_dl.c:115–204`. -/
def corazaDlOpen (st : Loader) (opened : Option Library) : OpenStatus × Loader :=
  if st.handle.isSome then (.ok, st)
  else
    let st := { st with handle := opened }
    match opened with
    | none => (.internalServerError, st)
    | some lib =>
      match st.dlSyms gatedSymbols with
      | (false, st) => (.internalServerError, st)
      | (true, st) =>
        -- An export that is missing counts as version 0.
        if lib.versionNum.getD 0 < 10800 then (.internalServerError, st)
        else
          match st.dlSym .isResponseBodyAccessible with
          | (false, st) => (.internalServerError, st)
          | (true, st) => (.ok, st)

/-- A call as a step of the process. -/
def step (st : Loader) (opened : Option Library) : Loader := (st.corazaDlOpen opened).2

end Loader

namespace Library

/-- The version check: `coraza_version_num` is there and reports 1.8.0 or later. -/
def PassesGate (lib : Library) : Prop := ∃ v, lib.versionNum = some v ∧ 10800 ≤ v

instance (lib : Library) : Decidable lib.PassesGate :=
  match h : lib.versionNum with
  | none => .isFalse (by simp [PassesGate, h])
  | some v => decidable_of_iff (10800 ≤ v) (by simp [PassesGate, h])

/-- The library has all that is resolved before its version is looked at. -/
def ReachesGate (lib : Library) : Prop := ∀ s ∈ gatedSymbols, lib.sym s ≠ none

/-- Every wrapper has something to forward to. -/
def Complete (lib : Library) : Prop := ∀ s, lib.sym s ≠ none

private theorem not_passesGate_iff (lib : Library) :
    ¬ lib.PassesGate ↔ lib.versionNum.getD 0 < 10800 := by
  cases h : lib.versionNum with
  | none => simp [PassesGate, h]
  | some v => simp [PassesGate, h]

/-- One symbol is resolved behind the check. -/
theorem complete_iff (lib : Library) :
    lib.Complete ↔ lib.ReachesGate ∧ lib.sym .isResponseBodyAccessible ≠ none := by
  constructor
  · intro h
    exact ⟨fun s _ ↦ h s, h _⟩
  · rintro ⟨hgated, hlast⟩ s
    by_cases hs : s = .isResponseBodyAccessible
    · rw [hs]
      exact hlast
    · apply hgated
      cases s <;> first | exact absurd rfl hs | decide

end Library

/-! ### What a call does -/

namespace Loader

/-- A library that exports all of the symbols has them resolved. -/
theorem dlSyms_of_exports {lib : Library} {l : List CorazaSymbol} (hl : ∀ s ∈ l, lib.sym s ≠ none)
    (p : CorazaSymbol → Option Nat) :
    dlSyms ⟨some lib, p⟩ l = (true, ⟨some lib, fun t ↦ if t ∈ l then lib.sym t else p t⟩) := by
  induction l generalizing p with
  | nil => simp [dlSyms]
  | cons s l ih =>
    rw [List.forall_mem_cons] at hl
    have hsym : dlSym ⟨some lib, p⟩ s =
        (true, ⟨some lib, fun t ↦ if t = s then lib.sym s else p t⟩) := if_neg hl.1
    rw [dlSyms, hsym]
    dsimp only
    rw [ih hl.2]
    congr 2
    funext t
    by_cases ht : t = s
    · subst ht
      simp
    · simp [ht]

/-- A library that lacks one of the symbols is given back. -/
theorem dlSyms_of_missing {lib : Library} {l : List CorazaSymbol}
    (hl : ¬ ∀ s ∈ l, lib.sym s ≠ none) (p : CorazaSymbol → Option Nat) :
    ∃ p', dlSyms ⟨some lib, p⟩ l = (false, ⟨none, p'⟩) := by
  induction l generalizing p with
  | nil => exact absurd (by simp) hl
  | cons s l ih =>
    by_cases hs : lib.sym s = none
    · have hsym : dlSym ⟨some lib, p⟩ s =
          (false, ⟨none, fun t ↦ if t = s then lib.sym s else p t⟩) := if_pos hs
      rw [dlSyms, hsym]
      exact ⟨_, rfl⟩
    · have hsym : dlSym ⟨some lib, p⟩ s =
          (true, ⟨some lib, fun t ↦ if t = s then lib.sym s else p t⟩) := if_neg hs
      rw [dlSyms, hsym]
      apply ih
      intro hrest
      exact hl (List.forall_mem_cons.mpr ⟨hs, hrest⟩)

/-- All a call can do. -/
inductive Opens (st : Loader) (opened : Option Library) : OpenStatus → Loader → Prop
  | trusted (lib : Library) (handle : st.handle = some lib) : Opens st opened .ok st
  | givenBack (p : CorazaSymbol → Option Nat) (handle : st.handle = none)
      (fails : ∀ lib, opened = some lib → ¬ lib.Complete) :
      Opens st opened .internalServerError ⟨none, p⟩
  | refused (lib : Library) (p : CorazaSymbol → Option Nat) (handle : st.handle = none)
      (answer : opened = some lib) (reaches : lib.ReachesGate) (fails : ¬ lib.PassesGate) :
      Opens st opened .internalServerError ⟨some lib, p⟩
  | resolved (lib : Library) (handle : st.handle = none) (answer : opened = some lib)
      (complete : lib.Complete) (passes : lib.PassesGate) : Opens st opened .ok ⟨some lib, lib.sym⟩

private theorem opens_corazaDlOpen (st : Loader) (opened : Option Library) :
    Opens st opened (st.corazaDlOpen opened).1 (st.corazaDlOpen opened).2 := by
  unfold corazaDlOpen
  cases hh : st.handle with
  | some lib => exact .trusted lib hh
  | none =>
    simp only [Option.isSome_none, Bool.false_eq_true, if_false]
    cases opened with
    | none => exact .givenBack st.pointer hh (by simp)
    | some lib =>
      by_cases hreach : lib.ReachesGate
      · dsimp only
        rw [dlSyms_of_exports hreach]
        dsimp only
        split
        · next hv => exact .refused lib _ hh rfl hreach (lib.not_passesGate_iff.mpr hv)
        · next hv =>
          have hpass : lib.PassesGate := by
            by_contra hn
            exact hv (lib.not_passesGate_iff.mp hn)
          by_cases hlast : lib.sym .isResponseBodyAccessible = none
          · simp only [dlSym, Option.bind_some, hlast, if_true]
            apply Opens.givenBack _ hh
            rintro _ ⟨⟩ hc
            exact hc _ hlast
          · have hc := lib.complete_iff.mpr ⟨hreach, hlast⟩
            have hall (t : CorazaSymbol) (ht : ¬ t = .isResponseBodyAccessible) :
                t ∈ gatedSymbols := by
              cases t <;> first | exact absurd rfl ht | decide
            have hp : (fun t ↦ if t = .isResponseBodyAccessible then
                lib.sym .isResponseBodyAccessible
                else if t ∈ gatedSymbols then lib.sym t else st.pointer t) = lib.sym := by
              funext t
              by_cases ht : t = .isResponseBodyAccessible
              · rw [if_pos ht, ht]
              · rw [if_neg ht, if_pos (hall t ht)]
            simp only [dlSym, Option.bind_some, if_neg hlast, hp]
            exact .resolved lib hh rfl hc hpass
      · obtain ⟨p, hp⟩ := dlSyms_of_missing hreach st.pointer
        dsimp only
        rw [hp]
        apply Opens.givenBack p hh
        rintro _ ⟨⟩ hc
        exact hreach fun s _ ↦ hc s

/-! ### The gate over any sequence of calls -/

/-- The loaded library passed the version check, and no wrapper meets a null pointer. -/
def Ready (st : Loader) : Prop :=
  ∃ lib, st.handle = some lib ∧ lib.PassesGate ∧ ∀ s, st.pointer s ≠ none

/-- What is expected of a call: `OK` means that the engine can be used, and behind a failure
nothing is `OK` before another library has been checked. -/
structure CallSound (st : Loader) (opened : Option Library) : Prop where
  ready : (st.corazaDlOpen opened).1 = .ok → (st.step opened).Ready
  rechecked : (st.corazaDlOpen opened).1 = .internalServerError → ∀ next,
    ((st.step opened).corazaDlOpen next).1 = .ok →
      ∃ lib, next = some lib ∧ lib.Complete ∧ lib.PassesGate

/-- The call opens a library that has all the symbols asked for first and then fails the version
check. -/
def RefusedByGate (st : Loader) (opened : Option Library) : Prop :=
  st.handle = none ∧ ∃ lib, opened = some lib ∧ lib.ReachesGate ∧ ¬ lib.PassesGate

/-- A handle is only held for a library that passed. -/
def Checked (st : Loader) : Prop := st.handle = none ∨ st.Ready

private theorem Opens.checked {st st' : Loader} {opened : Option Library} {status : OpenStatus}
    (h : Opens st opened status st') (hst : st.Checked) (hgate : ¬ RefusedByGate st opened) :
    st'.Checked := by
  cases h with
  | trusted lib handle => exact hst
  | givenBack p handle fails => exact Or.inl rfl
  | refused lib p handle answer reaches fails =>
    exact absurd ⟨handle, lib, answer, reaches, fails⟩ hgate
  | resolved lib handle answer complete passes => exact Or.inr ⟨lib, rfl, passes, complete⟩

private theorem checked_step {st : Loader} {opened : Option Library} (hst : st.Checked)
    (hgate : ¬ RefusedByGate st opened) : (st.step opened).Checked :=
  (opens_corazaDlOpen st opened).checked hst hgate

/-- Without a handle the next `OK` is for a library that has been checked. -/
theorem rechecked_of_none {st : Loader} (hst : st.handle = none) {next : Option Library}
    (h : (st.corazaDlOpen next).1 = .ok) :
    ∃ lib, next = some lib ∧ lib.Complete ∧ lib.PassesGate := by
  have hopens := opens_corazaDlOpen st next
  rw [h] at hopens
  generalize (st.corazaDlOpen next).2 = st' at hopens
  cases hopens with
  | trusted lib handle =>
    rw [hst] at handle
    cases handle
  | resolved lib handle answer complete passes => exact ⟨lib, answer, complete, passes⟩

private theorem callSound_of_checked {st : Loader} {opened : Option Library} (hst : st.Checked)
    (hgate : ¬ RefusedByGate st opened) : CallSound st opened := by
  have hopens := opens_corazaDlOpen st opened
  constructor
  · intro hok
    rw [hok] at hopens
    change Opens st opened .ok (st.step opened) at hopens
    generalize st.step opened = st' at hopens
    cases hopens with
    | trusted lib handle =>
      apply hst.resolve_left
      rw [handle]
      simp
    | resolved lib handle answer complete passes => exact ⟨lib, rfl, passes, complete⟩
  · intro herr next hnext
    apply rechecked_of_none _ hnext
    rw [herr] at hopens
    change Opens st opened .internalServerError (st.step opened) at hopens
    generalize st.step opened = st' at hopens
    cases hopens with
    | givenBack p handle fails => rfl
    | refused lib p handle answer reaches fails =>
      exact absurd ⟨handle, lib, answer, reaches, fails⟩ hgate

/-- A refusal by the version check is forgotten by the next call. -/
theorem not_callSound_of_refusedByGate {st : Loader} {opened : Option Library}
    (h : RefusedByGate st opened) : ¬ CallSound st opened := by
  obtain ⟨hnone, lib, rfl, hreach, hfail⟩ := h
  intro hsound
  have hcall : st.corazaDlOpen (some lib) = (.internalServerError,
      ⟨some lib, fun t ↦ if t ∈ gatedSymbols then lib.sym t else st.pointer t⟩) := by
    simp only [corazaDlOpen, hnone, Option.isSome_none, Bool.false_eq_true, if_false,
      dlSyms_of_exports hreach, if_pos (lib.not_passesGate_iff.mp hfail)]
  obtain ⟨_, hnext, -⟩ := hsound.rechecked (by rw [hcall]) none (by rw [step, hcall]; rfl)
  cases hnext

/-- Over any sequence of calls in one process, against any libraries: every call is sound exactly
if none of them is refused by the version check. -/
theorem libraryGate_iff (answers : List (Option Library)) :
    (∀ v ∈ visits step init answers, CallSound v.1 v.2) ↔
      ∀ v ∈ visits step init answers, ¬ RefusedByGate v.1 v.2 := by
  constructor
  · intro hsound v hv hrefused
    exact not_callSound_of_refusedByGate hrefused (hsound v hv)
  · intro hgate v hv
    have hchecked := (visits_invariant (I := Checked) (fun st opened ↦ checked_step)
      (Or.inl rfl) hgate).2 v hv
    exact callSound_of_checked hchecked (hgate v hv)

end Loader

/-- libcoraza 1.7.0, which does not have the last of the symbols. -/
def libcoraza170 : Library where
  sym s := if s = .isResponseBodyAccessible then none else some 1
  versionNum := some 10700

/-- The refused library is reported as loaded by the second call, and one wrapper has no pointer. -/
theorem refused_library_reported_loaded :
    (Loader.init.corazaDlOpen (some libcoraza170)).1 = .internalServerError ∧
      ((Loader.init.step (some libcoraza170)).corazaDlOpen none).1 = .ok ∧
      ((Loader.init.step (some libcoraza170)).step none).pointer .isResponseBodyAccessible = none ∧
      ¬ ∀ v ∈ visits Loader.step Loader.init [some libcoraza170, none],
        Loader.CallSound v.1 v.2 := by
  have hnull : ((Loader.init.step (some libcoraza170)).step none).pointer
      .isResponseBodyAccessible = none := rfl
  apply And.intro rfl
  apply And.intro rfl
  apply And.intro hnull
  intro hsound
  have hready := (hsound (Loader.init.step (some libcoraza170), none) (by simp)).ready rfl
  obtain ⟨-, -, -, hpointer⟩ := hready
  exact hpointer _ hnull

end CorazaApache.Dl
