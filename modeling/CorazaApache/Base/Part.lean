import CorazaApache.Base.Prog
import CorazaApache.Base.Run

/-!
# Parts of a state that others do not see

A part of a state can be read and overwritten on its own. A block is blind to a part if it ends
alike whatever the part holds and leaves it there: such a block neither reads nor writes it. In
a run of outer actions, which are blind to the part, and inner ones, which change nothing else,
each side is as it would be without the other.
-/

namespace CorazaApache.Base

/-- A part of the state that can be read and overwritten. -/
structure Part (σ τ : Type) where
  get : σ → τ
  put : τ → σ → σ
  get_put : ∀ t s, get (put t s) = t
  put_get : ∀ s, put (get s) s = s
  put_put : ∀ t t' s, put t (put t' s) = put t s

namespace Part

variable {σ τ ι ω : Type} (P : Part σ τ)

/-- An action that neither reads nor writes the part. -/
def Outside (f : σ → σ) : Prop := ∀ t s, f (P.put t s) = P.put t (f s)

/-- An action that writes nothing but the part. -/
def Inside (f : σ → σ) : Prop := ∀ s, f s = P.put (P.get (f s)) s

variable {P}

/-- What does not see the part does not write it. -/
theorem Outside.get_eq {f : σ → σ} (h : P.Outside f) (s : σ) : P.get (f s) = P.get s := by
  have hput := h (P.get s) s
  rw [P.put_get] at hput
  rw [hput, P.get_put]

/-- What only overwrites the part. -/
theorem inside_of_put {f : σ → σ} (h : ∀ s, ∃ t, f s = P.put t s) : P.Inside f := by
  intro s
  obtain ⟨t, ht⟩ := h s
  rw [ht, P.get_put]

/-- A run of actions that do not see the part does not see it. -/
theorem outside_foldl {step : σ → ι → σ} {is : List ι}
    (h : ∀ i ∈ is, P.Outside fun s ↦ step s i) : P.Outside fun s ↦ is.foldl step s := by
  induction is with
  | nil => exact fun _ _ ↦ rfl
  | cons i is ih =>
    rw [List.forall_mem_cons] at h
    intro t s
    have hi : step (P.put t s) i = P.put t (step s i) := h.1 t s
    show is.foldl step (step (P.put t s) i) = P.put t (is.foldl step (step s i))
    rw [hi]
    exact ih h.2 t (step s i)

section

variable {step : σ → ι → σ} {outer : ι → Bool}
  (hout : ∀ i, outer i = true → P.Outside fun s ↦ step s i)
  (hin : ∀ i, outer i = false → P.Inside fun s ↦ step s i)

include hout

private theorem foldl_filter_put (is : List ι) (t : τ) (s : σ) :
    (is.filter outer).foldl step (P.put t s) = P.put t ((is.filter outer).foldl step s) :=
  outside_foldl (fun i hi ↦ hout i (List.of_mem_filter hi)) t s

private theorem get_foldl_filter (is : List ι) (s : σ) :
    P.get ((is.filter outer).foldl step s) = P.get s :=
  (outside_foldl fun i hi ↦ hout i (List.of_mem_filter hi)).get_eq s

include hin

/-- Inner actions can be left out: but for the part, the run is one of its outer actions. -/
theorem foldl_outer (is : List ι) (s : σ) :
    P.put (P.get s) (is.foldl step s) = (is.filter outer).foldl step s := by
  induction is generalizing s with
  | nil => exact P.put_get s
  | cons i is ih =>
    cases hi : outer i with
    | true =>
      have hget : P.get (step s i) = P.get s := (hout i hi).get_eq s
      rw [List.filter_cons_of_pos hi, List.foldl_cons, List.foldl_cons, ← hget]
      exact ih (step s i)
    | false =>
      have hstep : step s i = P.put (P.get (step s i)) s := hin i hi s
      have hrest := ih (step s i)
      rw [hstep, P.get_put, foldl_filter_put hout] at hrest
      rw [List.filter_cons_of_neg (by rw [hi]; exact Bool.false_ne_true), List.foldl_cons, hstep]
      calc P.put (P.get s) (is.foldl step (P.put (P.get (step s i)) s))
          = P.put (P.get s) (P.put (P.get (step s i))
              (is.foldl step (P.put (P.get (step s i)) s))) := (P.put_put _ _ _).symm
        _ = P.put (P.get s) ((is.filter outer).foldl step s) := by rw [hrest, P.put_put]
        _ = (is.filter outer).foldl step s := by
          rw [← get_foldl_filter hout is s, P.put_get]

omit hin

/-- Outer actions can be left out as long as `C` holds, which is all an inner action looks at
beside the part: the part, and what the inner actions answer, is as in a run of them alone. -/
theorem visits_inner {C : σ → Prop} {out : σ → ι → List ω}
    (hkeep : ∀ s i, C (step s i) → C s) (hinner : ∀ s i, outer i = false → C s → C (step s i))
    (hsilent : ∀ s i, outer i = true → out s i = [])
    (hpart : ∀ s s' i, outer i = false → C s → C s' → P.get s = P.get s' →
      P.get (step s i) = P.get (step s' i) ∧ out s i = out s' i)
    (is : List ι) (s s' : σ) (hsame : P.get s = P.get s') (hs' : C s')
    (hend : C (is.foldl step s)) :
    P.get (is.foldl step s) = P.get ((is.filter fun i ↦ !outer i).foldl step s') ∧
    (visits step s is).flatMap (fun v ↦ out v.1 v.2) =
      (visits step s' (is.filter fun i ↦ !outer i)).flatMap (fun v ↦ out v.1 v.2) := by
  have hback (is : List ι) (s : σ) (h : C (is.foldl step s)) : C s := by
    induction is generalizing s with
    | nil => exact h
    | cons i is ih => exact hkeep s i (ih (step s i) h)
  induction is generalizing s s' with
  | nil => exact ⟨hsame, rfl⟩
  | cons i is ih =>
    cases hi : outer i with
    | true =>
      have hget : P.get (step s i) = P.get s := (hout i hi).get_eq s
      have hrest := ih (step s i) s' (hget.trans hsame) hs' hend
      rw [List.filter_cons_of_neg (by rw [hi]; decide), visits_cons, List.flatMap_cons,
        hsilent s i hi, List.nil_append]
      exact hrest
    | false =>
      have hs : C s := hback (i :: is) s hend
      obtain ⟨hget, hans⟩ := hpart s s' i hi hs hs' hsame
      have hrest := ih (step s i) (step s' i) hget (hinner s' i hi hs') hend
      rw [List.filter_cons_of_pos (by rw [hi]; decide), visits_cons, visits_cons,
        List.flatMap_cons, List.flatMap_cons, hans, hrest.2]
      exact ⟨hrest.1, rfl⟩

end

end Part

/-! ### Blocks that are blind to a part -/

namespace Prog

variable {σ τ ρ α β : Type} {P : Part σ τ}

/-- The block ends alike whatever the part holds, and leaves it there. -/
def Blind (P : Part σ τ) (m : Prog σ ρ α) : Prop :=
  ∀ t s, m (P.put t s) = ((m s).1, P.put t (m s).2)

/-- A value that is there does not depend on the part. -/
theorem blind_pure (a : α) : Blind P (pure a : Prog σ ρ α) := fun _ _ ↦ rfl

/-- Neither does a result that is there. -/
theorem blind_ret (v : ρ) : Blind P (ret v : Prog σ ρ α) := fun _ _ ↦ rfl

/-- A change outside the part does not see it. -/
theorem blind_modify {f : σ → σ} (h : P.Outside f) : Blind P (modify f : Prog σ ρ Unit) := by
  intro t s
  unfold modify
  rw [h t s]

/-- A block that returns ends the sequence. -/
theorem bind_of_ret {m : Prog σ ρ α} {f : α → Prog σ ρ β} {s s' : σ} {v : ρ}
    (h : m s = (.ret v, s')) : (m >>= f) s = (.ret v, s') := by
  simp only [bind, h]

/-- A block that falls through hands over to the rest. -/
theorem bind_of_next {m : Prog σ ρ α} {f : α → Prog σ ρ β} {s s' : σ} {a : α}
    (h : m s = (.next a, s')) : (m >>= f) s = f a s' := by
  simp only [bind, h]

/-- Two blocks that do not see the part do not see it together. -/
theorem blind_bind {m : Prog σ ρ α} {f : α → Prog σ ρ β} (hm : Blind P m)
    (hf : ∀ a, Blind P (f a)) : Blind P (m >>= f) := by
  intro t s
  have hput := hm t s
  cases hs : m s with
  | mk o s' =>
    rw [hs] at hput
    cases o with
    | ret v => rw [bind_of_ret hs, bind_of_ret hput]
    | next a =>
      rw [bind_of_next hs, bind_of_next hput]
      exact hf a t s'

/-- A block that uses of the state it reads only what is not in the part. -/
theorem blind_get_bind {f : σ → Prog σ ρ β} (hsame : ∀ t s, f (P.put t s) = f s)
    (hf : ∀ s, Blind P (f s)) : Blind P (get >>= f) := by
  intro t s
  show f (P.put t s) (P.put t s) = ((f s s).1, P.put t (f s s).2)
  rw [hsame t s]
  exact hf s t s

/-- Whether the block is run does not depend on the part. -/
theorem blind_when {c : Bool} {m : Prog σ ρ Unit} (h : Blind P m) : Blind P (when c m) := by
  cases c with
  | false => exact blind_pure ()
  | true => exact h

/-- A loop is blind if its body is. -/
theorem blind_forEach {f : β → Prog σ ρ Unit} {xs : List β} (h : ∀ x, Blind P (f x)) :
    Blind P (forEach xs f) := by
  induction xs with
  | nil => exact blind_pure ()
  | cons x xs ih => exact blind_bind (h x) fun _ ↦ ih

/-- So is one with an accumulator. -/
theorem blind_foldEach {γ : Type} {f : γ → β → Prog σ ρ γ} {l : γ} {xs : List β}
    (h : ∀ l x, Blind P (f l x)) : Blind P (foldEach f l xs) := by
  induction xs generalizing l with
  | nil => exact blind_pure l
  | cons x xs ih => exact blind_bind (h l x) fun _ ↦ ih

/-- A whole function of such blocks. -/
theorem Blind.exec {m : Prog σ ρ ρ} (h : Blind P m) (t : τ) (s : σ) :
    exec m (P.put t s) = ((exec m s).1, P.put t (exec m s).2) := by
  unfold Prog.exec
  rw [h t s]
  cases m s with
  | mk o s' => cases o <;> rfl

end Prog
end CorazaApache.Base
