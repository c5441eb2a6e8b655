import CorazaApache.Http.Conservation

/-!
# No release before the verdict

Once the header delay is engaged, the filter passes a brigade on only at the end of the
response, when all of it has been inspected and found clean, or when what it holds back first
exceeds the cap. Until then nothing has gone downstream, so that a refusal in between leaves
nothing of the response outside.
-/

namespace CorazaApache.Http
open CorazaApache.Base CorazaApache.Base.Prog CorazaApache.Config CorazaApache.Apr

/-- Something goes downstream, through the filter or past it. -/
def Event.Sends : Event → Prop
  | .pass _ | .direct _ => True
  | _ => False

/-- Nothing went downstream. -/
def Unsent (evs : List Event) : Prop := ∀ ev ∈ evs, ¬ ev.Sends

/-- The last thing that happened is the clean end of the response: the current brigade has the
end of stream, all data bytes so far were appended once and in order, the body was processed
without failure, and the poll found nothing. -/
structure AtEos (pre : List Event) : Prop where
  last : ∃ past bb inner rc, pre = past ++ .receive bb :: inner ++
    [.call .processResponseBody rc, .poll none] ∧ received inner = [] ∧ hasEos bb = true ∧ 0 ≤ rc
  appended : responseBytes pre = dataBytes (received pre)
  readable : ∀ b ∈ received pre, b.readable = true
  unsent : Unsent pre

/-- The bytes read of the response first exceed the cap at a bucket of the current brigade. -/
structure AtCap (pre : List Event) : Prop where
  crossing : ∃ past bb inner before b after, pre = past ++ .receive bb :: inner ∧
    received inner = [] ∧ bb = before ++ b :: after ∧
    (dataBytes (received past ++ before)).length ≤ maxDelayedBody ∧
    maxDelayedBody < (dataBytes (received past ++ before)).length + b.bytes.length
  unsent : Unsent pre

/-- The rule of a delayed response. -/
def ReleaseRule (pre : List Event) (ev : Event) : Prop :=
  (∀ out, ev = .pass out → AtEos pre ∨ AtCap pre) ∧ (ev.Bad → Unsent pre)

/-- The invariant of a response with respect to the header delay. -/
structure HeldBack (m : Mode) (evs : List Event) : Prop where
  fresh : m = .fresh → evs = []
  delayed : m.delays = true → .delay ∈ evs
  held : m.delays = true → m.held = received evs
  appended : m.delays = true → responseBytes evs = dataBytes (received evs)
  readable : m.delays = true → ∀ b ∈ received evs, b.readable = true
  unsent : m.delays = true → Unsent evs
  streaming : m = .streaming → .delay ∉ evs
  clean : m ≠ .refused → Clean evs
  refused : m = .refused → .delay ∈ evs → ∀ out, .pass out ∉ evs
  rule : .delay ∈ evs → Along ReleaseRule evs

section

variable {env : OutEnv} {r : Request} {bb : Brigade} {m m' : Mode} {evs : List Event}
  {st : FilterStatus}

/-- Nothing was sent if nothing was in either part. -/
theorem unsent_append {a b : List Event} : Unsent (a ++ b) ↔ Unsent a ∧ Unsent b :=
  List.forall_mem_append

/-- Inner events send nothing. -/
theorem unsent_inner (h : ∀ ev ∈ evs, ev.Inner m) : Unsent evs := by
  intro ev hev hs
  have hi := h ev hev
  cases ev <;> first | exact hs.elim | exact hi.elim

/-- Events that neither pass anything on nor are bad satisfy the rule with any past. -/
theorem rule_of_harmless {past : List Event} (h : ∀ ev ∈ evs, (∀ out, ev ≠ .pass out) ∧ ¬ ev.Bad) :
    AlongFrom ReleaseRule past evs :=
  alongFrom_of_forall fun ev hev _ ↦
    ⟨fun out he ↦ absurd he ((h ev hev).1 out), fun hb ↦ absurd hb (h ev hev).2⟩

/-- Events that pass nothing on, after a past that did not either, satisfy the rule. -/
theorem rule_of_unsent {past : List Event} (hpast : Unsent past) (h : Unsent evs) :
    AlongFrom ReleaseRule past evs := by
  intro pre ev post hsplit
  have hmem : ev ∈ evs := by rw [hsplit]; exact List.mem_append_right _ List.mem_cons_self
  have hpre : Unsent pre := fun x hx ↦ h x (by rw [hsplit]; exact List.mem_append_left _ hx)
  refine ⟨fun out he ↦ absurd ?_ (h ev hmem), fun _ ↦ unsent_append.mpr ⟨hpast, hpre⟩⟩
  rw [he]
  trivial

/-- Before the first brigade nothing is held back. -/
theorem heldBack_fresh : HeldBack .fresh [] :=
  ⟨fun _ ↦ rfl, fun h ↦ (by cases h), fun h ↦ (by cases h), fun h ↦ (by cases h),
    fun h ↦ (by cases h), fun h ↦ (by cases h), fun h ↦ (by cases h), fun _ ↦ clean_nil,
    fun h ↦ (by cases h), fun h ↦ (by cases h)⟩

/-- A mode that is delayed, or about to be, has nothing sent. -/
theorem HeldBack.nothing (h : HeldBack m evs) (hm : m = .fresh ∨ m.delays = true) :
    Unsent evs := by
  rcases hm with hf | hd
  · rw [h.fresh hf]
    exact fun ev hev ↦ (by cases hev)
  · exact h.unsent hd

/-- The start of the delay is observed in the first invocation only. -/
theorem delay_mem_inner (h : ∀ ev ∈ evs, ev.Inner m) (hd : .delay ∈ evs) : m = .fresh :=
  h .delay hd

/-- What is left of the invariant in a mode in which nothing is held back. -/
theorem heldBack_of_idle (hd : m.delays = false) (hf : m ≠ .fresh)
    (hs : m = .streaming → .delay ∉ evs) (hc : m ≠ .refused → Clean evs)
    (hr : m = .refused → .delay ∈ evs → ∀ out, .pass out ∉ evs)
    (hrule : .delay ∈ evs → Along ReleaseRule evs) : HeldBack m evs := by
  have hno : m.delays ≠ true := Bool.eq_false_iff.mp hd
  exact ⟨fun h ↦ absurd h hf, fun h ↦ absurd h hno, fun h ↦ absurd h hno, fun h ↦ absurd h hno,
    fun h ↦ absurd h hno, fun h ↦ absurd h hno, hs, hc, hr, hrule⟩

/-- A refusal sends nothing. -/
theorem Refusal.unsent (h : Refusal env r bb m st evs) :
    Unsent (.receive bb :: evs ++ [.returned st]) := by
  obtain ⟨inner, dies, rfl, hinner, hdies⟩ := h.events
  have hd : Unsent dies := by
    rcases hdies with rfl | ⟨status, rfl, -, -⟩
    · exact fun ev hev ↦ (by cases hev)
    · simp [Unsent, Event.Sends]
  refine unsent_append.mpr ⟨List.forall_mem_cons.mpr ⟨id, unsent_append.mpr
    ⟨unsent_inner hinner, hd⟩⟩, ?_⟩
  simp [Unsent, Event.Sends]

/-- A refusal keeps the invariant. -/
theorem HeldBack.refuse (h : HeldBack m evs) {new : List Event} (hr : Refusal env r bb m st new) :
    HeldBack .refused (evs ++ (.receive bb :: new ++ [.returned st])) := by
  have hnew := hr.unsent
  obtain ⟨inner, dies, rfl, hinner, hdies⟩ := hr.events
  -- A refused response that was delayed had nothing sent.
  have hall (hd : .delay ∈ evs ++ (.receive bb :: (inner ++ dies) ++ [.returned st])) :
      Unsent (evs ++ (.receive bb :: (inner ++ dies) ++ [.returned st])) := by
    refine unsent_append.mpr ⟨h.nothing ?_, hnew⟩
    by_cases hdel : .delay ∈ evs
    · have hactive := hr.active
      cases m with
      | fresh => exact Or.inl rfl
      | delaying held => exact Or.inr rfl
      | streaming => exact absurd hdel (h.streaming rfl)
      | out => cases hactive
      | refused => cases hactive
    · have hin : .delay ∈ inner := by
        rcases hdies with rfl | ⟨status, rfl, -, -⟩ <;> simpa [hdel] using hd
      exact Or.inl (delay_mem_inner hinner hin)
  refine heldBack_of_idle rfl (fun h ↦ (by cases h)) (fun h ↦ (by cases h)) (fun h ↦ absurd rfl h)
    (fun _ hd out hmem ↦ hall hd _ hmem trivial) fun hd ↦ ?_
  exact rule_of_unsent (fun ev hev ↦ (by cases hev)) (hall hd)

/-- The state of affairs between opening and the body loop. -/
structure OpenedBack (m₁ : Mode) (bb : Brigade) (evs : List Event) : Prop where
  split : ∃ past inner, evs = past ++ .receive bb :: inner ∧ received inner = [] ∧
    (m₁.delays = true → received past = m₁.held)
  clean : Clean evs
  streaming : m₁ = .streaming → .delay ∉ evs
  delayed : m₁.delays = true → .delay ∈ evs
  appended : m₁.delays = true → responseBytes evs = dataBytes m₁.held
  readable : m₁.delays = true → ∀ b ∈ m₁.held, b.readable = true
  unsent : m₁.delays = true → Unsent evs

/-- Opening the response settles whether its brigades are held back. -/
theorem HeldBack.opens (h : HeldBack m evs) {new : List Event} {m₁ : Mode}
    (ho : Opens env r m new m₁) : OpenedBack m₁ bb (evs ++ .receive bb :: new) := by
  have hclean : Clean (evs ++ .receive bb :: new) :=
    clean_append.mpr ⟨h.clean (Mode.ne_refused_of_active ho.active),
      List.forall_mem_cons.mpr ⟨id, ho.clean⟩⟩
  have hsplit (hpast : m₁.delays = true → received evs = m₁.held) :
      ∃ past inner, evs ++ .receive bb :: new = past ++ .receive bb :: inner ∧
        received inner = [] ∧ (m₁.delays = true → received past = m₁.held) :=
    ⟨evs, new, rfl, received_inner ho.inner, hpast⟩
  have hunsent (hevs : Unsent evs) : Unsent (evs ++ .receive bb :: new) :=
    unsent_append.mpr ⟨hevs, List.forall_mem_cons.mpr ⟨id, unsent_inner ho.inner⟩⟩
  cases ho with
  | again hactive hne =>
    refine ⟨hsplit fun hd ↦ (h.held hd).symm, hclean, fun hs ↦ ?_, fun hd ↦ ?_, fun hd ↦ ?_,
      fun hd ↦ ?_, fun hd ↦ hunsent (h.unsent hd)⟩
    · simpa using h.streaming hs
    · exact List.mem_append_left _ (h.delayed hd)
    · rw [h.held hd, ← h.appended hd, responseBytes_append]
      exact List.append_nil _
    · rw [h.held hd]
      exact h.readable hd
  | delay hdone =>
    have hnil := h.fresh rfl
    subst hnil
    refine ⟨hsplit fun _ ↦ rfl, hclean, fun hs ↦ (by cases hs), fun _ ↦ by simp, fun _ ↦ ?_,
      fun _ b hb ↦ (by cases hb), fun _ ↦ hunsent fun ev hev ↦ (by cases hev)⟩
    show responseBytes (_ ++ [.delay]) = []
    rw [responseBytes_append, responseBytes_phase3 hdone]
    rfl
  | stream hdone =>
    have hnil := h.fresh rfl
    subst hnil
    refine ⟨hsplit fun hd ↦ (by cases hd), hclean, fun _ hmem ↦ ?_, fun hd ↦ (by cases hd),
      fun hd ↦ (by cases hd), fun hd ↦ (by cases hd), fun hd ↦ (by cases hd)⟩
    rcases List.mem_cons.mp hmem with hm | hm
    · cases hm
    · rcases phase3_events hdone _ hm with ⟨c, rc, he, -⟩ | he <;> cases he

/-- A release that follows the rule ends the story of a delayed response. -/
theorem rule_of_release {pre : List Event} (hpre : Unsent pre) (h : AtEos pre ∨ AtCap pre)
    (out : Brigade) (st : FilterStatus) :
    Along ReleaseRule (pre ++ [.pass out, .returned st]) := by
  refine along_append.mpr ⟨rule_of_unsent (fun ev hev ↦ (by cases hev)) hpre, alongFrom_cons.mpr
    ⟨⟨fun _ _ ↦ h, fun hb ↦ hb.elim⟩, rule_of_harmless ?_⟩⟩
  simp [Event.Bad]

/-- The inspection of a body does not start the delay. -/
theorem delay_not_mem_inspected (bb : Brigade) : .delay ∉ bb.flatMap inspectedBucket := by
  intro hmem
  have hstreaming := inner_inspected (m := .streaming) bb _ hmem
  cases hstreaming

/-- The body loop keeps the invariant. -/
theorem OpenedBack.carries {m₁ : Mode} (h : OpenedBack m₁ bb evs) {new : List Event}
    (hc : Carries bb m₁ new st m') : HeldBack m' (evs ++ new ++ [.returned st]) := by
  obtain ⟨past, inner, hevs, hinner, hpast⟩ := h.split
  have hrec (hd : m₁.delays = true) : received evs = m₁.held ++ bb := by
    rw [hevs, received_append, hpast hd]
    show m₁.held ++ (bb ++ received inner) = m₁.held ++ bb
    rw [hinner, List.append_nil]
  have hclean : Clean (evs ++ new ++ [.returned st]) :=
    clean_append.mpr ⟨clean_append.mpr ⟨h.clean, hc.clean⟩, by simp [Clean, Event.Bad]⟩
  have hunsent (before : Brigade) (hd : m₁.delays = true) :
      Unsent (evs ++ before.flatMap inspectedBucket) :=
    unsent_append.mpr ⟨h.unsent hd, unsent_inner (m := .fresh) (inner_inspected before)⟩
  have hbytes (hd : m₁.delays = true) :
      responseBytes (evs ++ bb.flatMap inspectedBucket) = dataBytes (m₁.held ++ bb) := by
    rw [responseBytes_append, h.appended hd, responseBytes_inspected, dataBytes_append]
  cases hc with
  | @flush held before after b hsplit hread hbelow habove =>
    refine heldBack_of_idle rfl (fun h ↦ (by cases h)) (fun h ↦ (by cases h)) (fun _ ↦ hclean)
      (fun h ↦ (by cases h)) fun _ ↦ ?_
    have hcap : AtCap (evs ++ before.flatMap inspectedBucket) := by
      refine ⟨⟨past, bb, inner ++ before.flatMap inspectedBucket, before, b, after, ?_, ?_, hsplit,
        ?_, ?_⟩, hunsent before rfl⟩
      · rw [hevs, List.append_assoc, List.cons_append]
      · rw [received_append, hinner, received_inspected, List.append_nil]
      · rw [hpast rfl]
        exact hbelow
      · rw [hpast rfl]
        exact habove
    have hrule := rule_of_release (hunsent before rfl) (Or.inr hcap) (held ++ bb) .passed
    simpa using hrule
  | @release held rc hread heos hbelow hrc =>
    refine heldBack_of_idle rfl (fun h ↦ (by cases h)) (fun h ↦ (by cases h)) (fun _ ↦ hclean)
      (fun h ↦ (by cases h)) fun _ ↦ ?_
    have hquiet : Unsent [.call .processResponseBody rc, .poll none] := by
      simp [Unsent, Event.Sends]
    have hpre : Unsent (evs ++ bb.flatMap inspectedBucket ++
        [.call .processResponseBody rc, .poll none]) :=
      unsent_append.mpr ⟨hunsent bb rfl, hquiet⟩
    have hreceived : received (evs ++ bb.flatMap inspectedBucket ++
        [.call .processResponseBody rc, .poll none]) = held ++ bb := by
      rw [received_append, received_append, hrec rfl, received_inspected, List.append_nil]
      exact List.append_nil _
    have heosPre : AtEos (evs ++ bb.flatMap inspectedBucket ++
        [.call .processResponseBody rc, .poll none]) := by
      refine ⟨⟨past, bb, inner ++ bb.flatMap inspectedBucket, rc, ?_, ?_, heos, hrc⟩, ?_, ?_, hpre⟩
      · rw [hevs]
        simp
      · rw [received_append, hinner, received_inspected, List.append_nil]
      · rw [hreceived, responseBytes_append, hbytes rfl]
        exact List.append_nil _
      · rw [hreceived]
        exact List.forall_mem_append.mpr ⟨h.readable rfl, hread⟩
    have hrule := rule_of_release hpre (Or.inl heosPre) (held ++ bb) .passed
    simpa using hrule
  | @hold held hread heos hbelow =>
    have hpre : Unsent (evs ++ bb.flatMap inspectedBucket ++ [.returned .success]) :=
      unsent_append.mpr ⟨hunsent bb rfl, by simp [Unsent, Event.Sends]⟩
    have hreceived : received (evs ++ bb.flatMap inspectedBucket ++ [.returned .success]) =
        held ++ bb := by
      rw [received_append, received_append, hrec rfl, received_inspected, List.append_nil]
      exact List.append_nil _
    refine ⟨fun h ↦ (by cases h), fun _ ↦ ?_, fun _ ↦ hreceived.symm, fun _ ↦ ?_, fun _ ↦ ?_,
      fun _ ↦ hpre, fun h ↦ (by cases h), fun _ ↦ hclean, fun h ↦ (by cases h),
      fun _ ↦ rule_of_unsent (fun ev hev ↦ (by cases hev)) hpre⟩
    · exact List.mem_append_left _ (List.mem_append_left _ (h.delayed rfl))
    · rw [hreceived, responseBytes_append, hbytes rfl]
      exact List.append_nil _
    · rw [hreceived]
      exact List.forall_mem_append.mpr ⟨h.readable rfl, hread⟩
  | @finish rc hread heos hrc =>
    have hno : .delay ∉ evs ++ (bb.flatMap inspectedBucket ++
        [.call .processResponseBody rc, .poll none, .pass bb]) ++ [.returned .passed] := by
      simp [h.streaming rfl, delay_not_mem_inspected bb]
    exact heldBack_of_idle rfl (fun h ↦ (by cases h)) (fun h ↦ (by cases h)) (fun _ ↦ hclean)
      (fun h ↦ (by cases h)) fun hd ↦ absurd hd hno
  | stream hread heos =>
    have hno : .delay ∉ evs ++ (bb.flatMap inspectedBucket ++ [.pass bb]) ++
        [.returned .passed] := by
      simp [h.streaming rfl, delay_not_mem_inspected bb]
    exact heldBack_of_idle rfl (fun h ↦ (by cases h)) (fun _ ↦ hno) (fun _ ↦ hclean)
      (fun h ↦ (by cases h)) fun hd ↦ absurd hd hno

/-- A response that phase 3 lets go was never delayed. -/
theorem heldBack_of_letGo {processable : Bool} {first rest : List Event}
    (hdone : Phase3Done r processable first) (hclean : Clean rest) (hrest : .delay ∉ rest) :
    HeldBack .out (.receive bb :: (first ++ rest) ++ [.returned st]) := by
  have hno : .delay ∉ .receive bb :: (first ++ rest) ++ [.returned st] := by
    have hfirst : .delay ∉ first := by
      intro hmem
      rcases phase3_events hdone _ hmem with ⟨c, rc, he, -⟩ | he <;> cases he
    simp [hfirst, hrest]
  refine heldBack_of_idle rfl (fun h ↦ (by cases h)) (fun h ↦ (by cases h)) (fun _ ↦ ?_)
    (fun h ↦ (by cases h)) fun hd ↦ absurd hd hno
  exact clean_append.mpr ⟨List.forall_mem_cons.mpr ⟨id, clean_append.mpr
    ⟨clean_phase3 hdone, hclean⟩⟩, by simp [Clean, Event.Bad]⟩

/-- Every transition keeps the invariant. -/
theorem HeldBack.output (h : HeldBack m evs) {new : List Event} (ho : Output env r bb m new m') :
    HeldBack m' (evs ++ new) := by
  cases ho with
  | direct hoff =>
    have hclean : Clean [.receive bb, .direct bb] := by simp [Clean, Event.Bad]
    have hdelay : .delay ∈ evs ++ [.receive bb, .direct bb] → .delay ∈ evs := by simp
    refine heldBack_of_idle ?_ ?_ ?_ (fun hm ↦ clean_append.mpr ⟨h.clean hm, hclean⟩)
      (fun hm hd out ↦ ?_) fun hd ↦ ?_
    · refine Bool.eq_false_iff.mpr fun hd ↦ ?_
      rw [Mode.active_of_delays hd] at hoff
      cases hoff
    · rintro rfl
      cases hoff
    · rintro rfl
      cases hoff
    · simpa using h.refused hm (hdelay hd) out
    · refine along_append.mpr ⟨h.rule (hdelay hd), rule_of_harmless ?_⟩
      simp [Event.Bad]
  | filter hi =>
    cases hi with
    | refuse hr => exact h.refuse hr
    | uninspected hdone hrc =>
      rw [h.fresh rfl]
      exact heldBack_of_letGo hdone (clean_finish hrc bb) (by simp)
    | sse hdone =>
      rw [h.fresh rfl]
      exact heldBack_of_letGo hdone (clean_pass bb) (by simp)
    | carry ho hc =>
      have hcarried := (h.opens ho).carries hc
      simpa using hcarried

end

/-- No release before the verdict. In every run of a response for which the header delay was
engaged, the filter passes a brigade on only at the clean end of the response or where the cap
is first exceeded, and an engine error or an intervention finds nothing sent and is followed by
no brigade passed on by the filter. -/
theorem no_release_before_verdict (e : Engine) (env : OutEnv) (s : Exchange)
    (bbs : List Brigade) (hs : InMode .fresh s)
    (hdelay : .delay ∈ newEvents s (s.passOutputs e env bbs)) :
    (∀ pre out post, newEvents s (s.passOutputs e env bbs) = pre ++ .pass out :: post →
      AtEos pre ∨ AtCap pre) ∧
    ∀ pre ev post, newEvents s (s.passOutputs e env bbs) = pre ++ ev :: post → ev.Bad →
      Unsent pre ∧ ∀ out, .pass out ∉ pre ++ ev :: post := by
  obtain ⟨new, m', htrace, -, hinv⟩ := passOutputs_run HeldBack
    (fun bb _ m evs new m' h ho ↦ h.output ho) heldBack_fresh hs (fun _ ↦ rfl)
  rw [newEvents_eq htrace] at hdelay ⊢
  rw [List.nil_append] at hinv
  have hrule := hinv.rule hdelay
  refine ⟨fun pre out post hsplit ↦ ?_, fun pre ev post hsplit hbad ↦ ⟨?_, ?_⟩⟩
  · exact (hrule pre _ post hsplit).1 out rfl
  · exact (hrule pre ev post hsplit).2 hbad
  · have hrefused : m' = .refused := by
      by_contra hne
      exact hinv.clean hne ev (by rw [hsplit]; simp) hbad
    rw [← hsplit]
    exact hinv.refused hrefused hdelay

/-- A response in two brigades, held back and released at its end. -/
theorem freshExchange_released :
    ∃ pre post, newEvents freshExchange (freshExchange.passOutputs quietEngine plainOut
        [[.data .heap [1, 2]], [.data .heap [3], .eos]]) =
      pre ++ .pass [.data .heap [1, 2], .data .heap [3], .eos] :: post ∧
      (AtEos pre ∨ AtCap pre) := by
  have h := no_release_before_verdict quietEngine plainOut freshExchange
    [[.data .heap [1, 2]], [.data .heap [3], .eos]] (inMode_fresh_of rfl rfl rfl) (by decide)
  have hsplit : newEvents freshExchange (freshExchange.passOutputs quietEngine plainOut
        [[.data .heap [1, 2]], [.data .heap [3], .eos]]) =
      (newEvents freshExchange (freshExchange.passOutputs quietEngine plainOut
        [[.data .heap [1, 2]], [.data .heap [3], .eos]])).dropLast.dropLast ++
      .pass [.data .heap [1, 2], .data .heap [3], .eos] :: [.returned .passed] := by decide
  exact ⟨_, _, hsplit, h.1 _ _ _ hsplit⟩

end CorazaApache.Http
