import CorazaApache.Base.Run

/-!
# Sections under one lock

Threads share a state. A section changes it in several steps, with local variables, while its
thread holds the lock; other changes need no lock and happen at any time in between. If these
commute with the steps of a section, a run in which they interleave leaves the state that whole
sections and the other changes lead to one after the other, in the order in which they were
completed.
-/

namespace CorazaApache.Base

/-- Sections with inputs in `ι` and local variables in `γ`, and the changes in `ε` that need no
lock, over the shared state `σ`. -/
structure Sections (ι γ σ ε : Type) where
  locals : ι → γ
  body : ι → List (γ × σ → γ × σ)
  change : ε → σ → σ

/-- Who holds the lock: the input of its section, its local variables, and the steps left. -/
structure Owner (ι γ σ : Type) where
  input : ι
  locals : γ
  rest : List (γ × σ → γ × σ)

/-- The shared state and the lock. `done` lists what has been completed. -/
structure Locked (ι γ σ ε : Type) where
  state : σ
  owner : Option (Owner ι γ σ)
  done : List (ι ⊕ ε)

/-- What can happen: the lock is taken for a section, its owner takes a step, the lock is given
back, or there is a change without the lock. -/
inductive LockAct (ι ε : Type) where
  | acquire (i : ι)
  | advance
  | release
  | change (e : ε)

namespace Sections

variable {ι γ σ ε : Type} (S : Sections ι γ σ ε)

/-- Some steps of a section, one after the other. -/
def steps (fs : List (γ × σ → γ × σ)) (x : γ × σ) : γ × σ := fs.foldl (fun x f ↦ f x) x

/-- A section as one step. -/
def whole (i : ι) (s : σ) : σ := (steps (S.body i) (S.locals i, s)).2

/-- What is completed at once: a section or a change. -/
def atomic (s : σ) : ι ⊕ ε → σ
  | .inl i => S.whole i s
  | .inr e => S.change e s

/-- Only a free lock is taken, and it is given back when no step is left. -/
def step (s : Locked ι γ σ ε) : LockAct ι ε → Locked ι γ σ ε
  | .acquire i =>
    match s.owner with
    | some _ => s
    | none => { s with owner := some ⟨i, S.locals i, S.body i⟩ }
  | .advance =>
    match s.owner with
    | some ⟨i, l, f :: rest⟩ => { s with state := (f (l, s.state)).2,
                                         owner := some ⟨i, (f (l, s.state)).1, rest⟩ }
    | _ => s
  | .release =>
    match s.owner with
    | some ⟨i, _, []⟩ => { s with owner := none, done := s.done ++ [.inl i] }
    | _ => s
  | .change e => { s with state := S.change e s.state, done := s.done ++ [.inr e] }

/-- A free lock is taken. -/
theorem step_acquire {s : Locked ι γ σ ε} (h : s.owner = none) (i : ι) :
    S.step s (.acquire i) = { s with owner := some ⟨i, S.locals i, S.body i⟩ } := by
  rw [step, h]

/-- The lock is given back behind the last step. -/
theorem step_release {s : Locked ι γ σ ε} {i : ι} {l : γ} (h : s.owner = some ⟨i, l, []⟩) :
    S.step s .release = { s with owner := none, done := s.done ++ [.inl i] } := by
  rw [step, h]

/-- A step leaves the lock with its owner. -/
theorem owner_advance (s : Locked ι γ σ ε) :
    (S.step s .advance).owner.map Owner.input = s.owner.map Owner.input := by
  obtain ⟨state, owner, done⟩ := s
  cases owner with
  | none => rfl
  | some o =>
    obtain ⟨i, l, rest⟩ := o
    cases rest <;> rfl

/-- Nobody holds the lock yet. -/
def start (s : σ) : Locked ι γ σ ε := ⟨s, none, []⟩

/-- The changes commute with the steps of a section that was entered in order; `Ready` is what
the section was entered with, and nothing takes it away. -/
structure Commutes (Ready : ι → σ → Prop) : Prop where
  body : ∀ i, ∀ f ∈ S.body i, ∀ l s, Ready i s → Ready i (f (l, s)).2
  change : ∀ i e s, Ready i s → Ready i (S.change e s)
  comm : ∀ i, ∀ f ∈ S.body i, ∀ l s e, Ready i s →
    f (l, S.change e s) = ((f (l, s)).1, S.change e (f (l, s)).2)

/-- The steps of two bodies, one after the other. -/
theorem steps_append (fs gs : List (γ × σ → γ × σ)) (x : γ × σ) :
    steps (fs ++ gs) x = steps gs (steps fs x) := List.foldl_append

variable {S} {Ready : ι → σ → Prop}

/-- A change before the first steps of a section is the same as one behind them. -/
theorem Commutes.steps (h : S.Commutes Ready) {i : ι} {fs : List (γ × σ → γ × σ)}
    (hfs : ∀ f ∈ fs, f ∈ S.body i) (l : γ) {s : σ} (hs : Ready i s) (e : ε) :
    Ready i (Sections.steps fs (l, s)).2 ∧
      Sections.steps fs (l, S.change e s) =
        ((Sections.steps fs (l, s)).1, S.change e (Sections.steps fs (l, s)).2) := by
  induction fs generalizing l s with
  | nil => exact ⟨hs, rfl⟩
  | cons f fs ih =>
    obtain ⟨hf, hrest⟩ := List.forall_mem_cons.mp hfs
    have hready := h.body i f hf l s hs
    obtain ⟨hlast, hcomm⟩ := ih hrest (f (l, s)).1 hready
    refine ⟨hlast, ?_⟩
    rw [Sections.steps, List.foldl_cons, h.comm i f hf l s e hs]
    exact hcomm

/-- Each of the completed sections was entered in order. -/
def EnteredAll (S : Sections ι γ σ ε) (Ready : ι → σ → Prop) (s₀ : σ) (done : List (ι ⊕ ε)) :
    Prop :=
  ∀ v ∈ visits S.atomic s₀ done, ∀ i, v.2 = .inl i → Ready i v.1

/-- The state is the one of the completed sections and changes, with the first steps of the
section of whoever holds the lock on top. -/
def OnTop (S : Sections ι γ σ ε) (Ready : ι → σ → Prop) (s₀ : σ) (s : Locked ι γ σ ε) : Prop :=
  match s.owner with
  | none => s.state = s.done.foldl S.atomic s₀
  | some o => ∃ taken, S.body o.input = taken ++ o.rest ∧
      Ready o.input (s.done.foldl S.atomic s₀) ∧
      Sections.steps taken (S.locals o.input, s.done.foldl S.atomic s₀) = (o.locals, s.state)

/-- The run might as well have executed whole sections. -/
structure Serial (S : Sections ι γ σ ε) (Ready : ι → σ → Prop) (s₀ : σ) (s : Locked ι γ σ ε) :
    Prop where
  entered : EnteredAll S Ready s₀ s.done
  onTop : OnTop S Ready s₀ s

/-- At the start nobody has entered, and the state is the first one. -/
theorem serial_start (s₀ : σ) : Serial S Ready s₀ (start s₀) := ⟨by simp [EnteredAll, start], rfl⟩

/-- A section is entered only in order. -/
def Enters (Ready : ι → σ → Prop) (s : Locked ι γ σ ε) (a : LockAct ι ε) : Prop :=
  ∀ i, a = .acquire i → Ready i s.state

private theorem EnteredAll.concat {s₀ : σ} {done : List (ι ⊕ ε)} (h : EnteredAll S Ready s₀ done)
    {a : ι ⊕ ε} (ha : ∀ i, a = .inl i → Ready i (done.foldl S.atomic s₀)) :
    EnteredAll S Ready s₀ (done ++ [a]) := by
  intro v hv
  rw [visits_append, List.mem_append] at hv
  rcases hv with hv | hv
  · exact h v hv
  · rw [visits_cons, visits_nil, List.mem_singleton] at hv
    rw [hv]
    exact ha

private theorem foldl_concat_inr (s₀ : σ) (done : List (ι ⊕ ε)) (e : ε) :
    (done ++ [Sum.inr e]).foldl S.atomic s₀ = S.change e (done.foldl S.atomic s₀) := by
  rw [List.foldl_append]
  rfl

/-- One step, whoever takes it. -/
theorem Serial.step (h : S.Commutes Ready) {s₀ : σ} {s : Locked ι γ σ ε}
    (hs : Serial S Ready s₀ s) {a : LockAct ι ε} (ha : Enters Ready s a) :
    Serial S Ready s₀ (S.step s a) := by
  obtain ⟨state, owner, done⟩ := s
  obtain ⟨hall, htop⟩ := hs
  cases a with
  | acquire i =>
    cases owner with
    | some o => exact ⟨hall, htop⟩
    | none =>
      obtain rfl : state = done.foldl S.atomic s₀ := htop
      exact ⟨hall, [], rfl, ha i rfl, rfl⟩
  | advance =>
    cases owner with
    | none => exact ⟨hall, htop⟩
    | some o =>
      obtain ⟨i, l, rest⟩ := o
      cases rest with
      | nil => exact ⟨hall, htop⟩
      | cons f rest =>
        obtain ⟨taken, hbody, hready, htaken⟩ := htop
        refine ⟨hall, taken ++ [f], ?_, hready, ?_⟩
        · rw [hbody, List.append_assoc, List.singleton_append]
        · exact (steps_append taken [f] _).trans (congrArg f htaken)
  | release =>
    cases owner with
    | none => exact ⟨hall, htop⟩
    | some o =>
      obtain ⟨i, l, rest⟩ := o
      cases rest with
      | cons f rest => exact ⟨hall, htop⟩
      | nil =>
        obtain ⟨taken, hbody, hready, htaken⟩ := htop
        constructor
        · apply hall.concat
          intro j hj
          cases hj
          exact hready
        · rw [List.append_nil] at hbody
          show state = (done ++ [Sum.inl i]).foldl S.atomic s₀
          rw [List.foldl_append, List.foldl_cons, List.foldl_nil, atomic, whole, hbody]
          exact (congrArg Prod.snd htaken).symm
  | change e =>
    have hfold := foldl_concat_inr (S := S) s₀ done e
    constructor
    · exact hall.concat (fun i hi ↦ by cases hi)
    · cases owner with
      | none =>
        obtain rfl : state = done.foldl S.atomic s₀ := htop
        exact hfold.symm
      | some o =>
        obtain ⟨taken, hbody, hready, htaken⟩ := htop
        have hmem : ∀ f ∈ taken, f ∈ S.body o.input := by
          intro f hf
          rw [hbody]
          exact List.mem_append_left _ hf
        refine ⟨taken, hbody, ?_, ?_⟩
        · show Ready o.input ((done ++ [Sum.inr e]).foldl S.atomic s₀)
          rw [hfold]
          exact h.change o.input e _ hready
        · show steps taken (S.locals o.input, (done ++ [Sum.inr e]).foldl S.atomic s₀) =
            (o.locals, S.change e state)
          rw [hfold, (h.steps hmem (S.locals o.input) hready e).2]
          exact congrArg (fun x ↦ (x.1, S.change e x.2)) htaken

end Sections
end CorazaApache.Base
