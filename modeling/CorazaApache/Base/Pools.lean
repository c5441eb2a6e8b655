import Mathlib.Data.List.Infix
import Mathlib.Data.List.Nodup
import CorazaApache.Base.Custody

/-!
# Pools

Objects are allocated from pools and go with them. A pool is made inside another one, and is
destroyed after the pools inside it. As long as an object points only at objects of its own pool
and of those its pool is inside, no pointer dangles.
-/

namespace CorazaApache.Base

/-- A pool is named by the way to it, innermost step first; the outermost one is `[]`. -/
abbrev Pool := List Nat

/-- The objects in all pools, latest first. -/
structure Pools (κ : Type) where
  objects : List (Pool × κ)

namespace Pools

variable {κ : Type}

/-- A new object in a pool. -/
def alloc (s : Pools κ) (P : Pool) (k : κ) : Pools κ := ⟨(P, k) :: s.objects⟩

/-- The objects of one pool, latest first. -/
def contents (s : Pools κ) (P : Pool) : List κ := (s.objects.filter fun x ↦ x.1 = P).map Prod.snd

/-- What is left when a pool is destroyed. -/
def destroy (s : Pools κ) (P : Pool) : Pools κ := ⟨s.objects.filter fun x ↦ x.1 ≠ P⟩

/-- The objects there are. -/
def live (s : Pools κ) : Set κ := {k | ∃ x ∈ s.objects, x.2 = k}

/-- The object is in the pool or in one the pool is inside. -/
def InReach (s : Pools κ) (P : Pool) (k : κ) : Prop := ∃ x ∈ s.objects, x.1 <:+ P ∧ x.2 = k

instance [DecidableEq κ] (s : Pools κ) (P : Pool) (k : κ) : Decidable (s.InReach P k) :=
  inferInstanceAs (Decidable (∃ x ∈ s.objects, x.1 <:+ P ∧ x.2 = k))

/-- There is nothing in the pools inside this one. -/
def Innermost (s : Pools κ) (P : Pool) : Prop := ∀ x ∈ s.objects, P <:+ x.1 → x.1 = P

instance (s : Pools κ) (P : Pool) : Decidable (s.Innermost P) :=
  inferInstanceAs (Decidable (∀ x ∈ s.objects, P <:+ x.1 → x.1 = P))

/-- What an object points at is in reach of its pool. -/
def Closed (pointers : κ → List κ) (s : Pools κ) : Prop :=
  ∀ x ∈ s.objects, ∀ k ∈ pointers x.2, s.InReach x.1 k

variable {s : Pools κ} {P Q : Pool} {k j : κ} {pointers : κ → List κ}

/-- A live object stands in some pool. -/
theorem mem_live : k ∈ s.live ↔ ∃ P, (P, k) ∈ s.objects := by
  simp [live]

/-- An object of a pool stands there. -/
theorem mem_contents : k ∈ s.contents P ↔ (P, k) ∈ s.objects := by
  simp [contents]

/-- What is in reach is alive. -/
theorem InReach.live (h : s.InReach P k) : k ∈ s.live := by
  obtain ⟨x, hx, -, rfl⟩ := h
  exact ⟨x, hx, rfl⟩

/-- A pool reaches its own objects. -/
theorem inReach_of_mem (h : (P, k) ∈ s.objects) : s.InReach P k :=
  ⟨(P, k), h, List.suffix_refl P, rfl⟩

/-- What is in reach of a pool is in reach of the pools inside it. -/
theorem InReach.inside (h : s.InReach P k) (hPQ : P <:+ Q) : s.InReach Q k := by
  obtain ⟨x, hx, hreach, rfl⟩ := h
  exact ⟨x, hx, hreach.trans hPQ, rfl⟩

/-- A pointer is followed. -/
theorem Closed.inReach (h : Closed pointers s) (hk : s.InReach P k) (hj : j ∈ pointers k) :
    s.InReach P j := by
  obtain ⟨x, hx, hreach, rfl⟩ := hk
  exact (h x hx j hj).inside hreach

/-- Objects that are there may point elsewhere, as long as it is the same place. -/
theorem Closed.congr {pointers' : κ → List κ} (h : Closed pointers s)
    (hsame : ∀ k ∈ s.live, pointers' k = pointers k) : Closed pointers' s := by
  intro x hx k hk
  rw [hsame x.2 ⟨x, hx, rfl⟩] at hk
  exact h x hx k hk

/-! ### A new object -/

/-- What was in reach stays in reach of an allocation. -/
theorem InReach.alloc (h : s.InReach Q k) (P : Pool) (j : κ) : (s.alloc P j).InReach Q k := by
  obtain ⟨x, hx, hreach, rfl⟩ := h
  exact ⟨x, List.mem_cons_of_mem _ hx, hreach, rfl⟩

/-- A pool reaches what it has just allocated. -/
theorem inReach_alloc_self (s : Pools κ) (P : Pool) (k : κ) : (s.alloc P k).InReach P k :=
  inReach_of_mem List.mem_cons_self

/-- An allocation makes one more object live. -/
theorem live_alloc (s : Pools κ) (P : Pool) (k : κ) : (s.alloc P k).live = insert k s.live := by
  ext j
  simp [live, alloc, eq_comm]

/-- An allocation makes no other object live. -/
theorem notMem_alloc (hk : k ∉ s.live) (hne : k ≠ j) (P : Pool) : k ∉ (s.alloc P j).live := by
  rw [live_alloc, Set.mem_insert_iff, not_or]
  exact ⟨hne, hk⟩

/-- What a new object points at has to be in reach. -/
theorem Closed.alloc (h : Closed pointers s) (hk : ∀ j ∈ pointers k, (s.alloc P k).InReach P j) :
    Closed pointers (s.alloc P k) := by
  intro x hx j hj
  rcases List.mem_cons.mp hx with rfl | hx
  · exact hk j hj
  · exact (h x hx j hj).alloc P k

/-- An allocation acquires its object. -/
theorem runs_alloc (hk : k ∉ s.live) (P : Pool) :
    Custody.Runs s.live [.acquire k] (s.alloc P k).live := by
  rw [live_alloc]
  exact Custody.Runs.acquire hk

/-! ### The end of a pool -/

/-- The objects of the other pools are left. -/
theorem mem_destroy {x : Pool × κ} : x ∈ (s.destroy P).objects ↔ x ∈ s.objects ∧ x.1 ≠ P := by
  simp [destroy]

/-- What is in reach of a pool outside the one that goes stays there. -/
theorem InReach.destroy (h : s.InReach Q k) (hPQ : ¬ P <:+ Q) : (s.destroy P).InReach Q k := by
  obtain ⟨x, hx, hreach, rfl⟩ := h
  refine ⟨x, mem_destroy.mpr ⟨hx, ?_⟩, hreach, rfl⟩
  rintro rfl
  exact hPQ hreach

/-- No pointer dangles behind the end of a pool. -/
theorem Closed.destroy (h : Closed pointers s) (hP : s.Innermost P) :
    Closed pointers (s.destroy P) := by
  intro x hx k hk
  obtain ⟨hx, hne⟩ := mem_destroy.mp hx
  apply (h x hx k hk).destroy
  intro hin
  exact hne (hP x hx hin)

section

variable (hnodup : (s.objects.map Prod.snd).Nodup)
include hnodup

private theorem nodup_contents (P : Pool) : (s.contents P).Nodup :=
  (List.filter_sublist.map Prod.snd).nodup hnodup

/-- What is left stands in one pool each. -/
theorem nodup_destroy (P : Pool) : ((s.destroy P).objects.map Prod.snd).Nodup :=
  (List.filter_sublist.map Prod.snd).nodup hnodup

/-- An object is in one pool. -/
theorem eq_pool (hP : (P, k) ∈ s.objects) (hQ : (Q, k) ∈ s.objects) : P = Q :=
  congrArg Prod.fst (List.inj_on_of_nodup_map hnodup hP hQ rfl)

/-- The objects of the pool are no longer live. -/
theorem live_destroy (P : Pool) : (s.destroy P).live = {k | k ∈ s.live ∧ k ∉ s.contents P} := by
  ext k
  rw [mem_live, Set.mem_ofPred_eq, mem_live, mem_contents]
  constructor
  · rintro ⟨Q, hQ⟩
    obtain ⟨hQ, hne⟩ := mem_destroy.mp hQ
    refine ⟨⟨Q, hQ⟩, fun hP ↦ hne (eq_pool hnodup hQ hP)⟩
  · rintro ⟨⟨Q, hQ⟩, hP⟩
    refine ⟨Q, mem_destroy.mpr ⟨hQ, ?_⟩⟩
    rintro rfl
    exact hP hQ

/-- A pool goes: what needs a cleanup is cleaned up with the help of the other objects, then all
the rest goes. -/
theorem runs_destroy (P : Pool) (cleans : κ → Bool) (helpers : κ → List κ)
    (hhelp : ∀ k ∈ s.contents P, cleans k = true →
      ∀ j ∈ helpers k, j ∈ s.live ∧ cleans j = false) :
    Custody.Runs s.live
      ((((s.contents P).filter cleans).flatMap fun k ↦ (helpers k).map .use ++ [.release k]) ++
        ((s.contents P).filter fun k ↦ !cleans k).map .release)
      (s.destroy P).live := by
  have hlive : ∀ k ∈ s.contents P, k ∈ s.live := fun k hk ↦ mem_live.mpr ⟨P, mem_contents.mp hk⟩
  have hclean : Custody.Runs s.live _ _ := Custody.Runs.cleanups helpers
    ((nodup_contents hnodup P).filter cleans)
    (fun k hk ↦ hlive k (List.mem_of_mem_filter hk)) (fun k hk j hj ↦ by
      obtain ⟨hk, hclean⟩ := List.mem_filter.mp hk
      obtain ⟨hj, hkeep⟩ := hhelp k hk hclean j hj
      refine ⟨hj, fun hmem ↦ ?_⟩
      rw [(List.mem_filter.mp hmem).2] at hkeep
      cases hkeep)
  apply hclean.append
  have hstays : ∀ k ∈ (s.contents P).filter fun k ↦ !cleans k,
      k ∈ {k | k ∈ s.live ∧ k ∉ (s.contents P).filter cleans} := by
    intro k hk
    obtain ⟨hk, hkeep⟩ := List.mem_filter.mp hk
    refine ⟨hlive k hk, fun hmem ↦ ?_⟩
    rw [(List.mem_filter.mp hmem).2] at hkeep
    cases hkeep
  have hrest := Custody.Runs.releases
    ((nodup_contents hnodup P).filter fun k ↦ !cleans k) hstays
  have hset : {k | k ∈ {k | k ∈ s.live ∧ k ∉ (s.contents P).filter cleans} ∧
      k ∉ (s.contents P).filter fun k ↦ !cleans k} = (s.destroy P).live := by
    rw [live_destroy hnodup]
    ext k
    cases hc : cleans k <;> simp [hc]
  rw [hset] at hrest
  exact hrest

end

end Pools
end CorazaApache.Base
