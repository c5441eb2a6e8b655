import Mathlib.Data.List.Basic

/-!
# Blocks of a function body with early return

A C function body is a sequence of blocks over a mutable state. Each block either
falls through with a value or makes the whole function return. `Prog.Ends` is the
weakest precondition of such a block, with one postcondition for each way it ends;
its rules are equivalences, so a body is executed symbolically by rewriting. `Prog.Within` says
that a block, however it ends, has no other effect than a relation between states allows.
-/

namespace CorazaApache.Base

/-- How a block ends: the function returns `ρ`, or control goes on with `α`. -/
inductive Outcome (ρ α : Type) where
  | ret (value : ρ)
  | next (value : α)
  deriving DecidableEq, Repr

/-- A block over the state `σ` inside a function that returns `ρ`. -/
def Prog (σ ρ α : Type) : Type := σ → Outcome ρ α × σ

namespace Prog

variable {σ ρ α β : Type}

instance : Monad (Prog σ ρ) where
  pure a := fun s ↦ (.next a, s)
  bind m f := fun s ↦
    match m s with
    | (.ret v, s') => (.ret v, s')
    | (.next a, s') => f a s'

/-- The C `return` statement. -/
def ret (v : ρ) : Prog σ ρ α := fun s ↦ (.ret v, s)

/-- Read the state. -/
def get : Prog σ ρ σ := fun s ↦ (.next s, s)

/-- Update the state. -/
def modify (f : σ → σ) : Prog σ ρ Unit := fun s ↦ (.next (), f s)

/-- A one-armed `if`. -/
def when (c : Bool) (m : Prog σ ρ Unit) : Prog σ ρ Unit := if c then m else pure ()

/-- A loop over a list; a `return` inside the body leaves the loop and the function. -/
def forEach : List β → (β → Prog σ ρ Unit) → Prog σ ρ Unit
  | [], _ => pure ()
  | x :: xs, f => do
    f x
    forEach xs f

/-- A loop over a list that keeps local variables in `γ`. -/
def foldEach {γ : Type} (f : γ → β → Prog σ ρ γ) : γ → List β → Prog σ ρ γ
  | l, [] => pure l
  | l, x :: xs => do
    let l ← f l x
    foldEach f l xs

/-- Call a function whose body is a block: its `return` value is the call's value. -/
def call {ρ' : Type} (m : Prog σ ρ ρ) : Prog σ ρ' ρ := fun s ↦
  match m s with
  | (.ret v, s') => (.next v, s')
  | (.next v, s') => (.next v, s')

/-- A whole function: the value it returns and the state it leaves. -/
def exec (m : Prog σ ρ ρ) (s : σ) : ρ × σ :=
  match m s with
  | (.ret v, s') => (v, s')
  | (.next v, s') => (v, s')

/-- From `s`, the block falls through into `Q` or returns into `E`. -/
def Ends (m : Prog σ ρ α) (s : σ) (Q : α → σ → Prop) (E : ρ → σ → Prop) : Prop :=
  match m s with
  | (.ret v, s') => E v s'
  | (.next a, s') => Q a s'

variable {s : σ} {Q : α → σ → Prop} {E : ρ → σ → Prop}

/-- A value falls through. -/
@[simp] theorem ends_pure (a : α) : Ends (pure a : Prog σ ρ α) s Q E ↔ Q a s := Iff.rfl

/-- A result leaves the block. -/
@[simp] theorem ends_ret (v : ρ) : Ends (ret v : Prog σ ρ α) s Q E ↔ E v s := Iff.rfl

/-- The state is read as it is. -/
@[simp] theorem ends_get {Q : σ → σ → Prop} :
    Ends (get : Prog σ ρ σ) s Q E ↔ Q s s := Iff.rfl

/-- An assignment falls through with the state it makes. -/
@[simp] theorem ends_modify (f : σ → σ) {Q : Unit → σ → Prop} :
    Ends (modify f : Prog σ ρ Unit) s Q E ↔ Q () (f s) := Iff.rfl

/-- The second block starts where the first one falls through; either may leave. -/
@[simp] theorem ends_bind (m : Prog σ ρ α) (f : α → Prog σ ρ β) {Q : β → σ → Prop} :
    Ends (m >>= f) s Q E ↔ Ends m s (fun a s' ↦ Ends (f a) s' Q E) E := by
  change Ends (fun s ↦ match m s with
    | (.ret v, s') => (.ret v, s')
    | (.next a, s') => f a s') s Q E ↔ _
  unfold Ends
  cases h : m s with
  | mk o s' => cases o <;> simp only [h]

/-- A conditional block is run or skipped. -/
@[simp] theorem ends_when (c : Bool) (m : Prog σ ρ Unit) {Q : Unit → σ → Prop} :
    Ends (when c m) s Q E ↔ (c = true → Ends m s Q E) ∧ (c = false → Q () s) := by
  cases c <;> simp [when]

/-- A function that was called falls through, whichever way it ends. -/
@[simp] theorem ends_call {ρ' : Type} (m : Prog σ ρ ρ) {Q : ρ → σ → Prop} {E : ρ' → σ → Prop} :
    Ends (call m : Prog σ ρ' ρ) s Q E ↔ Ends m s Q Q := by
  unfold Ends call
  cases h : m s with
  | mk o s' => cases o <;> simp only

/-- Weaken both postconditions. -/
theorem Ends.mono {m : Prog σ ρ α} {Q' : α → σ → Prop} {E' : ρ → σ → Prop}
    (h : Ends m s Q E) (hq : ∀ a s', Q a s' → Q' a s') (he : ∀ v s', E v s' → E' v s') :
    Ends m s Q' E' := by
  unfold Ends at h ⊢
  cases hm : m s with
  | mk o s' =>
    rw [hm] at h
    cases o with
    | ret v => exact he v s' h
    | next a => exact hq a s' h

/-- Two facts about one run hold together. -/
theorem Ends.and {m : Prog σ ρ α} {Q' : α → σ → Prop} {E' : ρ → σ → Prop}
    (h : Ends m s Q E) (h' : Ends m s Q' E') :
    Ends m s (fun a s' ↦ Q a s' ∧ Q' a s') (fun v s' ↦ E v s' ∧ E' v s') := by
  unfold Ends at *
  cases hm : m s with
  | mk o s' =>
    rw [hm] at h h'
    cases o <;> exact ⟨h, h'⟩

/-- Loop rule: `Inv done` holds after the elements of `done` were handled. -/
theorem ends_forEach {f : β → Prog σ ρ Unit} (Inv : List β → σ → Prop) {xs : List β}
    (h0 : Inv [] s)
    (hstep : ∀ done x rest s, xs = done ++ x :: rest → Inv done s →
      Ends (f x) s (fun _ s' ↦ Inv (done ++ [x]) s') E) :
    Ends (forEach xs f) s (fun _ s' ↦ Inv xs s') E := by
  -- Generalised over the part already handled, which is where the invariant stands.
  suffices ∀ done rest s, xs = done ++ rest → Inv done s →
      Ends (forEach rest f) s (fun _ s' ↦ Inv xs s') E by
    exact this [] xs s rfl h0
  intro done rest
  induction rest generalizing done with
  | nil =>
    intro s hx hi
    rw [List.append_nil] at hx
    rw [hx]
    exact hi
  | cons x rest ih =>
    intro s hx hi
    rw [forEach, ends_bind]
    refine (hstep done x rest s hx hi).mono ?_ (fun _ _ h ↦ h)
    intro _ s' hs'
    exact ih (done ++ [x]) s' (by rw [hx, List.append_assoc, List.singleton_append]) hs'

/-- Loop rule with local variables: `Inv done l` holds after the elements of `done`. -/
theorem ends_foldEach {γ : Type} {f : γ → β → Prog σ ρ γ} (Inv : List β → γ → σ → Prop)
    {xs : List β} {l : γ} (h0 : Inv [] l s)
    (hstep : ∀ done x rest l s, xs = done ++ x :: rest → Inv done l s →
      Ends (f l x) s (fun l' s' ↦ Inv (done ++ [x]) l' s') E) :
    Ends (foldEach f l xs) s (fun l' s' ↦ Inv xs l' s') E := by
  suffices ∀ done rest l s, xs = done ++ rest → Inv done l s →
      Ends (foldEach f l rest) s (fun l' s' ↦ Inv xs l' s') E by
    exact this [] xs l s rfl h0
  intro done rest
  induction rest generalizing done with
  | nil =>
    intro l s hx hi
    rw [List.append_nil] at hx
    rw [hx]
    exact hi
  | cons x rest ih =>
    intro l s hx hi
    rw [foldEach, ends_bind]
    refine (hstep done x rest l s hx hi).mono ?_ (fun _ _ h ↦ h)
    intro l' s' hs'
    exact ih (done ++ [x]) l' s' (by rw [hx, List.append_assoc, List.singleton_append]) hs'

/-- A whole function satisfies what both of its endings satisfy. -/
theorem exec_of_ends {m : Prog σ ρ ρ} {R : ρ → σ → Prop} (h : Ends m s R R) :
    R (exec m s).1 (exec m s).2 := by
  unfold Ends at h
  unfold exec
  cases hm : m s with
  | mk o s' =>
    rw [hm] at h
    cases o <;> exact h

/-! ### What a block may change -/

/-- The changes a block may make if it falls through, and those it may make if it returns. -/
structure Effect (σ ρ : Type) where
  next : σ → σ → Prop
  ret : ρ → σ → σ → Prop
  refl : ∀ s, next s s
  trans : ∀ {s s' s''}, next s s' → next s' s'' → next s s''
  comp : ∀ {v s s' s''}, next s s' → ret v s' s'' → ret v s s''

/-- The block makes no other changes, from any state. -/
def Within (R : Effect σ ρ) (m : Prog σ ρ α) : Prop :=
  ∀ s, Ends m s (fun _ s' ↦ R.next s s') (fun v s' ↦ R.ret v s s')

section

variable {R : Effect σ ρ}

/-- A block with such an effect, behind others. -/
theorem Within.ends {m : Prog σ ρ α} (hm : Within R m) {s₀ : σ} (hs : R.next s₀ s)
    (hq : ∀ a s', R.next s₀ s' → Q a s') (he : ∀ v s', R.ret v s₀ s' → E v s') : Ends m s Q E :=
  (hm s).mono (fun a s' h ↦ hq a s' (R.trans hs h)) fun v s' h ↦ he v s' (R.comp hs h)

/-- A value has no effect. -/
theorem within_pure (a : α) : Within R (pure a) := R.refl

/-- Reading the state has none. -/
theorem within_get : Within R get := R.refl

/-- A result has the effect of returning it. -/
theorem within_ret {v : ρ} (h : ∀ s, R.ret v s s) : Within R (ret v : Prog σ ρ α) := h

/-- An assignment has the effect of its function. -/
theorem within_modify {f : σ → σ} (h : ∀ s, R.next s (f s)) : Within R (modify f) := h

/-- Effects compose along a sequence. -/
theorem within_bind {m : Prog σ ρ α} {f : α → Prog σ ρ β} (hm : Within R m)
    (hf : ∀ a, Within R (f a)) : Within R (m >>= f) := by
  intro s
  rw [ends_bind]
  refine (hm s).mono (fun a s' hs ↦ ?_) fun _ _ hs ↦ hs
  exact (hf a s').mono (fun _ _ ↦ R.trans hs) fun _ _ ↦ R.comp hs

/-- A block that may be skipped has the effect of the block. -/
theorem within_when {c : Bool} {m : Prog σ ρ Unit} (h : Within R m) : Within R (when c m) := by
  cases c with
  | false => exact within_pure ()
  | true => exact h

/-- A loop has the effect of its body. -/
theorem within_forEach {f : β → Prog σ ρ Unit} {xs : List β} (h : ∀ x, Within R (f x)) :
    Within R (forEach xs f) := by
  induction xs with
  | nil => exact within_pure ()
  | cons x xs ih => exact within_bind (h x) fun _ ↦ ih

/-- So has one with an accumulator. -/
theorem within_foldEach {γ : Type} {f : γ → β → Prog σ ρ γ} {l : γ} {xs : List β}
    (h : ∀ l x, Within R (f l x)) : Within R (foldEach f l xs) := by
  induction xs generalizing l with
  | nil => exact within_pure l
  | cons x xs ih => exact within_bind (h l x) fun _ ↦ ih

end

/-! ### Blocks that do not return -/

/-- Where `I` holds, the block falls through and keeps it. -/
def Falls (I : σ → Prop) (m : Prog σ ρ α) : Prop :=
  ∀ s, I s → Ends m s (fun _ s' ↦ I s') (fun _ _ ↦ False)

section

variable {I : σ → Prop}

/-- A value falls through. -/
theorem falls_pure (a : α) : Falls I (pure a : Prog σ ρ α) := fun _ h ↦ h

/-- An assignment falls through and keeps the invariant if its function does. -/
theorem falls_modify {f : σ → σ} (h : ∀ s, I s → I (f s)) :
    Falls I (modify f : Prog σ ρ Unit) := h

/-- A sequence falls through if both blocks do. -/
theorem falls_bind {m : Prog σ ρ α} {f : α → Prog σ ρ β} (hm : Falls I m)
    (hf : ∀ a, Falls I (f a)) : Falls I (m >>= f) := by
  intro s hs
  rw [ends_bind]
  exact (hm s hs).mono (fun a s' h ↦ hf a s' h) fun _ _ h ↦ h

/-- What holds of the state is known of the copy that is read. -/
theorem falls_get_bind {f : σ → Prog σ ρ β} (hf : ∀ s, I s → Falls I (f s)) :
    Falls I (get >>= f) := fun s hs ↦ hf s hs s hs

/-- A block that is skipped falls through. -/
theorem falls_when {c : Bool} {m : Prog σ ρ Unit} (h : c = true → Falls I m) :
    Falls I (when c m) := by
  cases c with
  | false => exact falls_pure ()
  | true => exact h rfl

/-- A loop falls through if its body does. -/
theorem falls_forEach {f : β → Prog σ ρ Unit} {xs : List β} (h : ∀ x ∈ xs, Falls I (f x)) :
    Falls I (forEach xs f) := by
  induction xs with
  | nil => exact falls_pure ()
  | cons x xs ih =>
    rw [List.forall_mem_cons] at h
    exact falls_bind h.1 fun _ ↦ ih h.2

/-- So does one with an accumulator. -/
theorem falls_foldEach {γ : Type} {f : γ → β → Prog σ ρ γ} {l : γ} {xs : List β}
    (h : ∀ l x, Falls I (f l x)) : Falls I (foldEach f l xs) := by
  induction xs generalizing l with
  | nil => exact falls_pure l
  | cons x xs ih => exact falls_bind (h l x) fun _ ↦ ih

end

end Prog
end CorazaApache.Base
