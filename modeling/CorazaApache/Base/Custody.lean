import Mathlib.Order.BooleanAlgebra.Set
import CorazaApache.Base.Run

/-!
# Custody of resources

A program takes resources, uses them and gives them back. It does so in order if it takes none
that it has already, and uses and gives back only what it has: then nothing is used behind its
release and nothing is released twice. What it still has in the end it has leaked or passed on.
-/

namespace CorazaApache.Base

/-- What is done with a resource. -/
inductive Act (κ : Type) where
  | acquire (k : κ)
  | use (k : κ)
  | release (k : κ)
  deriving DecidableEq

namespace Custody

variable {κ σ ι : Type}

/-- The resources that are held behind one act. -/
def next (held : Set κ) : Act κ → Set κ
  | .acquire k => insert k held
  | .use _ => held
  | .release k => held \ {k}

/-- An act that is in order. -/
def Allowed (held : Set κ) : Act κ → Prop
  | .acquire k => k ∉ held
  | .use k => k ∈ held
  | .release k => k ∈ held

/-- The acts are in order, and lead from what was held before them to what is held behind them. -/
structure Runs (held : Set κ) (acts : List (Act κ)) (held' : Set κ) : Prop where
  allowed : ∀ v ∈ visits next held acts, Allowed v.1 v.2
  final : acts.foldl next held = held'

namespace Runs

variable {held held' held'' : Set κ} {acts : List (Act κ)} {k : κ}

/-- No act leaves what is held. -/
theorem nil (held : Set κ) : Runs held [] held := ⟨by simp, rfl⟩

private theorem cons {a : Act κ} (ha : Allowed held a) (h : Runs (next held a) acts held') :
    Runs held (a :: acts) held' where
  allowed := by
    rw [visits_cons]
    exact List.forall_mem_cons.mpr ⟨ha, h.allowed⟩
  final := h.final

/-- Runs compose. -/
theorem append {acts' : List (Act κ)} (h : Runs held acts held') (h' : Runs held' acts' held'') :
    Runs held (acts ++ acts') held'' where
  allowed := by
    rw [visits_append, h.final]
    exact List.forall_mem_append.mpr ⟨h.allowed, h'.allowed⟩
  final := by rw [List.foldl_append, h.final, h'.final]

/-- What is held may be used. -/
theorem use (hk : k ∈ held) : Runs held [.use k] held := (nil held).cons hk

/-- What is not held may be acquired. -/
theorem acquire (hk : k ∉ held) : Runs held [.acquire k] (insert k held) := (nil _).cons hk

/-- What was taken last is given back. -/
theorem release (hk : k ∉ held) : Runs (insert k held) [.release k] held := by
  have hback : (insert k held) \ {k} = held := Set.insert_sdiff_self_of_notMem hk
  have hrel := (nil (next (insert k held) (.release k))).cons (a := .release k)
    (Set.mem_insert k held)
  rw [next, hback] at hrel
  exact hrel

/-- A resource that is taken, used and given back. -/
theorem bracket (hk : k ∉ held) (h : Runs (insert k held) acts (insert k held)) :
    Runs held (.acquire k :: (acts ++ [.release k])) held :=
  (acquire hk).append (h.append (release hk))

/-- Resources that are held may be used in any order. -/
theorem uses {ks : List κ} (hks : ∀ k ∈ ks, k ∈ held) : Runs held (ks.map .use) held := by
  induction ks with
  | nil => exact nil held
  | cons k ks ih =>
    obtain ⟨hk, hrest⟩ := List.forall_mem_cons.mp hks
    exact (ih hrest).cons hk

/-- Everything in a list is given back, each resource once, and before it goes it is cleaned up
with the help of others that stay. -/
theorem cleanups {ks : List κ} (helpers : κ → List κ) (hnodup : ks.Nodup)
    (hks : ∀ k ∈ ks, k ∈ held) (hhelp : ∀ k ∈ ks, ∀ j ∈ helpers k, j ∈ held ∧ j ∉ ks) :
    Runs held (ks.flatMap fun k ↦ (helpers k).map .use ++ [.release k])
      {k | k ∈ held ∧ k ∉ ks} := by
  induction ks generalizing held with
  | nil =>
    have hall : {k | k ∈ held ∧ k ∉ ([] : List κ)} = held := by
      ext k
      simp
    rw [hall]
    exact nil held
  | cons k ks ih =>
    obtain ⟨hk, hrest⟩ := List.forall_mem_cons.mp hks
    obtain ⟨hnew, hnodup⟩ := List.nodup_cons.mp hnodup
    obtain ⟨hfirst, hothers⟩ := List.forall_mem_cons.mp hhelp
    have hleft : ∀ j ∈ ks, j ∈ held \ {k} := by
      intro j hj
      refine ⟨hrest j hj, ?_⟩
      rintro rfl
      exact hnew hj
    have hkept : ∀ j ∈ ks, ∀ i ∈ helpers j, i ∈ held \ {k} ∧ i ∉ ks := by
      intro j hj i hi
      obtain ⟨hheld, hout⟩ := hothers j hj i hi
      rw [List.mem_cons, not_or] at hout
      exact ⟨⟨hheld, hout.1⟩, hout.2⟩
    have hset : {j | j ∈ held \ {k} ∧ j ∉ ks} = {j | j ∈ held ∧ j ∉ k :: ks} := by
      ext j
      simp [and_assoc]
    have htail := ih hnodup hleft hkept
    rw [hset] at htail
    rw [List.flatMap_cons]
    apply append
    · exact (uses fun j hj ↦ (hfirst j hj).1).append ((nil _).cons hk)
    · exact htail

/-- Everything in a list is given back, each resource once. -/
theorem releases {ks : List κ} (hnodup : ks.Nodup) (hks : ∀ k ∈ ks, k ∈ held) :
    Runs held (ks.map .release) {k | k ∈ held ∧ k ∉ ks} := by
  have h := cleanups (fun _ ↦ []) hnodup hks fun _ _ _ hj ↦ absurd hj List.not_mem_nil
  rw [List.map_eq_flatMap]
  exact h

/-- A run of a machine whose steps are in order, each from what its state says is held. -/
theorem machine (I : σ → Prop) (step : σ → ι → σ) (acts : σ → ι → List (Act κ))
    (holds : σ → Set κ)
    (hstep : ∀ s i, I s → I (step s i) ∧ Runs (holds s) (acts s i) (holds (step s i)))
    {s : σ} (hs : I s) (is : List ι) :
    I (is.foldl step s) ∧
      Runs (holds s) ((visits step s is).flatMap fun v ↦ acts v.1 v.2)
        (holds (is.foldl step s)) := by
  induction is generalizing s with
  | nil => exact ⟨hs, nil _⟩
  | cons i is ih =>
    obtain ⟨hi, hrun⟩ := hstep s i hs
    obtain ⟨hlast, hrest⟩ := ih hi
    refine ⟨hlast, ?_⟩
    rw [visits_cons, List.flatMap_cons]
    exact hrun.append hrest

end Runs
end Custody
end CorazaApache.Base
