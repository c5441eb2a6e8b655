import CorazaApache.Http.Refused
import CorazaApache.Http.PhaseFour
import CorazaApache.Http.RedirectOut

/-!
# The error paths of the output filter are atomic

Whatever the filter meets that it must not let by, and wherever in a run, it leaves the same
state behind: nothing passed on, nothing kept, the filter gone. The error page is made only
where nothing of the response has been sent, so no run has part of a response in front of it.
-/

namespace CorazaApache.Http
open CorazaApache.Base CorazaApache.Base.Prog CorazaApache.Config CorazaApache.Apr

/-! ### What an invocation meets -/

/-- The engine wants the body of the response, and it is no event stream. -/
def Inspects (r : Request) (evs : List Event) : Prop :=
  corazaIsSseResponse r = false ∧
    ∃ answer, answer ≠ 0 ∧ .call .isResponseBodyProcessable answer ∈ evs

/-- The delayed response is let go at `b` or before: with it, more than the cap would be held
back. -/
def LetGo (past evs : List Event) (before : Brigade) (b : Bucket) : Prop :=
  .delay ∈ past ++ evs ∧ maxDelayedBody < (dataBytes (received past ++ before ++ [b])).length

/-- What the filter, called with `bb` in the state `s`, must not let by; `past` is what happened
on the response before, `evs` what happens in the invocation. -/
inductive Meets (env : OutEnv) (s : Exchange) (bb : Brigade) (past evs : List Event) : Prop
  | engine {ev : Event} (mem : ev ∈ evs) (bad : ev.Bad)
  | bucket {before after : Brigade} {b : Bucket} (split : bb = before ++ b :: after)
      (bad : b.readable = false ∨ intMax < b.bytes.length) (inspected : Inspects s.r (past ++ evs))
      (kept : ¬ LetGo past evs before b)
  | setaside {inner dies : List Event} (split : evs = inner ++ dies)
      (pages : ∀ ev ∈ dies, ∃ status, ev = .die status) (delayed : .delay ∈ past ++ evs)
      (eos : hasEos bb = false)
      (below : (dataBytes (received past ++ bb)).length ≤ maxDelayedBody)
      (failed : env.saveBrigadeOk (s.trace ++ inner) bb = false)

/-- The invocation refuses as a whole. -/
structure Atomic (past evs : List Event) (y : Exchange) : Prop where
  unsent : Unsent evs
  closed : Closed y
  page : ∀ status, .die status ∈ evs → Unsent past
  drop : ∀ i, .poll (some i) ∈ evs → i.Drops → (∀ status, .die status ∉ evs) ∧
    y.conn.aborted = true ∧ y.conn.keepaliveClose = true

section

variable {e : Engine} {env : OutEnv} {s : Exchange} {bb : Brigade} {m m' : Mode}
  {past evs : List Event} {st : FilterStatus} {r : Request}

private theorem InMode.proper (hm : InMode m s) (hactive : m.active = true) : s.ctx.Proper := by
  rw [CorazaRequestCtx.Proper, hm.phase3 (Mode.ne_refused_of_active hactive)]
  by_cases hf : m = .fresh
  · subst hf
    exact ⟨hm.delayed, hm.pending⟩
  · rw [decide_eq_true hf]
    intro hd
    rw [hm.pending]
    exact Mode.held_of_not_delays (hm.delayed ▸ hd)

private theorem no_die_of_inner (h : ∀ ev ∈ evs, ev.Inner m) (status : Int) : .die status ∉ evs :=
  fun hmem ↦ h _ hmem

/-- A prefix that ends at or behind a bucket holds at least its bytes. -/
theorem length_dataBytes_of_prefix {a b : Brigade} (h : a <+: b) :
    (dataBytes a).length ≤ (dataBytes b).length := by
  obtain ⟨rest, rfl⟩ := h
  rw [dataBytes_append, List.length_append]
  exact Nat.le_add_right _ _

private theorem length_bytes_le {b : Bucket} {bb : Brigade} (h : b ∈ bb) :
    b.bytes.length ≤ (dataBytes bb).length := by
  obtain ⟨before, after, rfl⟩ := List.append_of_mem h
  rw [dataBytes_append, dataBytes_cons, List.length_append, List.length_append]
  omega

/-- A bucket in front of the one at which the cap is exceeded. -/
theorem mem_before_crossing {held before after before' after' : Brigade} {b b' : Bucket}
    (hsplit : bb = before ++ b :: after) (hsplit' : bb = before' ++ b' :: after')
    (habove : maxDelayedBody < (dataBytes (held ++ before)).length + b.bytes.length)
    (hkept : (dataBytes (held ++ before' ++ [b'])).length ≤ maxDelayedBody) : b' ∈ before := by
  have hpre : before ++ [b] <+: bb := ⟨after, by rw [hsplit]; simp⟩
  have hpre' : before' ++ [b'] <+: bb := ⟨after', by rw [hsplit']; simp⟩
  have hnot : ¬ before ++ [b] <+: before' ++ [b'] := by
    intro h
    have hle := length_dataBytes_of_prefix h
    simp only [dataBytes_append, dataBytes_cons, dataBytes_nil, List.length_append,
      List.append_nil] at hle habove hkept
    omega
  rcases List.prefix_or_prefix_of_prefix hpre hpre' with h | h
  · exact absurd h hnot
  · rcases List.prefix_concat_iff.mp h with heq | hlt
    · exact absurd (heq ▸ List.prefix_refl _) hnot
    · exact hlt.subset (by simp)

private theorem phase3_no_delay {processable : Bool} (h : Phase3Done r processable evs) :
    .delay ∉ evs := by
  intro hmem
  rcases phase3_events h _ hmem with ⟨c, rc, he, -⟩ | he <;> cases he

/-- A body that is not inspected was not asked for. -/
theorem phase3_not_inspects (h : Phase3Done r false evs) {rc : Int} {out : Brigade} :
    ¬ Inspects r (evs ++ [.call .processResponseBody rc, .poll none, .pass out]) := by
  rintro ⟨-, answer, hne, hmem⟩
  obtain ⟨headers, rc', asked, ⟨pairs, -, hheaders⟩, -, hasked, rfl⟩ := h
  have hcalls : .call .isResponseBodyProcessable answer ∉ headers := by
    intro hh
    rcases hheaders with ⟨-, rfl⟩ | ⟨packed, len, -, rfl⟩ | ⟨before, hbefore, rfl⟩
    · cases hh
    · simp at hh
    · rcases hbefore with rfl | ⟨packed, len, rc'', -, rfl⟩ <;> simp at hh
  rcases hasked with ⟨-, rfl⟩ | ⟨access, answer', -, hfalse, rfl⟩
  · simp [hcalls] at hmem
  · have hzero : answer' = 0 := by simpa using hfalse.symm
    simp [hcalls, hzero, hne] at hmem

/-- Once the delay is on, what is held back is what was received. -/
theorem HeldBack.delaying {held : Brigade} (h : HeldBack m past)
    (ho : Opens env r m evs (.delaying held)) : received past = held ∧ .delay ∈ past ++ evs := by
  cases ho with
  | again => exact ⟨(h.held rfl).symm, List.mem_append_left _ (h.delayed rfl)⟩
  | delay =>
    rw [h.fresh rfl]
    exact ⟨rfl, by simp⟩

/-- A streamed response was never delayed. -/
theorem HeldBack.undelayed (h : HeldBack m past) (ho : Opens env r m evs .streaming) :
    .delay ∉ past ++ evs := by
  cases ho with
  | again => simpa using h.streaming rfl
  | stream hdone =>
    rw [h.fresh rfl]
    exact phase3_no_delay hdone

/-- A bucket that was handed to the engine is of a length an `int` can say. -/
theorem length_le_of_inspected {b : Bucket} (hb : b ∈ bb)
    (hshort : ∀ ev ∈ bb.flatMap inspectedBucket, ev.Short) : b.bytes.length ≤ intMax := by
  by_cases hnil : b.bytes = []
  · rw [hnil]
    exact Nat.zero_le _
  · refine hshort (.call (.appendResponseBody b.bytes) 0) (List.mem_flatMap.mpr ⟨b, hb, ?_⟩)
    rw [inspectedBucket, if_neg hnil]
    exact List.mem_cons_self

/-- What the body loop lets by it could read and hand over, unless the response was let go. -/
theorem Carries.good {m₁ : Mode} {first : List Event} (h : HeldBack m past)
    (ho : Opens env r m first m₁) (hc : Carries bb m₁ evs st m') (hshort : ∀ ev ∈ evs, ev.Short)
    {before after : Brigade} {b : Bucket} (hsplit : bb = before ++ b :: after)
    (hkept : ¬ LetGo past (first ++ evs) before b) :
    b.readable = true ∧ b.bytes.length ≤ intMax := by
  have hb : b ∈ bb := by
    rw [hsplit]
    exact List.mem_append_right _ List.mem_cons_self
  have hcap : maxDelayedBody ≤ intMax := by decide
  cases hc with
  | @flush held before' after' b' hsplit' hread hbelow habove =>
    obtain ⟨hheld, hdelay⟩ := h.delaying ho
    have hle : (dataBytes (held ++ before ++ [b])).length ≤ maxDelayedBody := by
      rw [← hheld]
      refine Nat.not_lt.mp fun hlt ↦ hkept ⟨?_, hlt⟩
      rw [← List.append_assoc]
      exact List.mem_append_left _ hdelay
    have hmem := mem_before_crossing hsplit' hsplit habove hle
    have hlong : b.bytes.length ≤ (dataBytes (held ++ before')).length :=
      length_bytes_le (List.mem_append_right _ hmem)
    exact ⟨hread b hmem, Nat.le_trans (Nat.le_trans hlong hbelow) hcap⟩
  | release hread _ hbelow _ =>
    exact ⟨hread b hb, Nat.le_trans (Nat.le_trans (length_bytes_le
      (List.mem_append_right _ hb)) hbelow) hcap⟩
  | hold hread _ hbelow =>
    exact ⟨hread b hb, Nat.le_trans (Nat.le_trans (length_bytes_le
      (List.mem_append_right _ hb)) hbelow) hcap⟩
  | finish hread =>
    exact ⟨hread b hb, length_le_of_inspected hb fun ev hev ↦
      hshort ev (List.mem_append_left _ hev)⟩
  | stream hread =>
    exact ⟨hread b hb, length_le_of_inspected hb fun ev hev ↦
      hshort ev (List.mem_append_left _ hev)⟩

/-- An invocation that does not refuse has met nothing. -/
theorem not_meets_of_invoked (h : HeldBack m past) (hi : Invoked env s.r bb m evs st m')
    (hne : m' ≠ .refused) (hshort : ∀ ev ∈ evs, ev.Short)
    (hsaved : st = .success → env.saveBrigadeOk (s.trace ++ evs) bb = true) :
    ¬ Meets env s bb past evs := by
  rintro (⟨hmem, hbad⟩ | ⟨hsplit, hbad, hins, hkept⟩ |
    @⟨inner, dies, hsplit, hpages, hdelay, heos, hbelow, hfailed⟩)
  · exact hi.clean hne _ hmem hbad
  · cases hi with
    | refuse => exact hne rfl
    | uninspected hdone =>
      rw [h.fresh rfl, List.nil_append] at hins
      exact phase3_not_inspects hdone hins
    | sse hdone hsse => exact absurd (hins.1.symm.trans hsse) Bool.false_ne_true
    | carry ho hc =>
      obtain ⟨hread, hlen⟩ := hc.good h ho
        (fun ev hev ↦ hshort ev (List.mem_append_right _ hev)) hsplit hkept
      rcases hbad with hbad | hbad
      · exact Bool.false_ne_true (hbad.symm.trans hread)
      · exact absurd hlen (Nat.not_le.mpr hbad)
  · cases hi with
    | refuse => exact hne rfl
    | uninspected hdone =>
      rw [h.fresh rfl] at hdelay
      simp [phase3_no_delay hdone] at hdelay
    | sse hdone =>
      rw [h.fresh rfl] at hdelay
      simp [phase3_no_delay hdone] at hdelay
    | carry ho hc =>
      cases hc with
      | @flush held before after b hcross _ _ habove =>
        -- Below the cap as a whole, so it is not exceeded on the way.
        obtain ⟨hheld, -⟩ := h.delaying ho
        have hle := length_dataBytes_of_prefix (a := held ++ before ++ [b]) (b := held ++ bb)
          ⟨after, by rw [hcross]; simp⟩
        rw [hheld] at hbelow
        simp only [dataBytes_append, dataBytes_cons, dataBytes_nil, List.length_append,
          List.append_nil] at hle habove hbelow
        omega
      | release _ htrue => exact Bool.false_ne_true (heos.symm.trans htrue)
      | hold =>
        -- No error page was made, so the set-aside is the last thing that happened.
        have hinner := inner_append.mpr ⟨ho.inner, inner_inspected bb⟩
        have hnil : dies = [] := by
          refine List.eq_nil_iff_forall_not_mem.mpr fun ev hev ↦ ?_
          obtain ⟨status, rfl⟩ := hpages ev hev
          exact no_die_of_inner hinner status (by rw [hsplit]; exact List.mem_append_right _ hev)
        have hok := hsaved rfl
        rw [hsplit, hnil, List.append_nil, hfailed] at hok
        cases hok
      | finish _ htrue => exact Bool.false_ne_true (heos.symm.trans htrue)
      | stream =>
        have hno := h.undelayed ho
        rw [List.mem_append, not_or] at hno
        simp only [List.mem_append, hno.1, hno.2, delay_not_mem_inspected bb, false_or] at hdelay
        simp at hdelay

/-- Where an invocation on a response that is under way meets something, it refuses as a
whole. -/
theorem atomic_of_meets (hm : InMode m s) (hactive : m.active = true) (h : HeldBack m past)
    (hmeets : Meets env (s.arrive bb) bb past (newEvents (s.arrive bb)
      (exec (corazaOutputFilter e env bb) (s.arrive bb)).2)) :
    Atomic past (newEvents (s.arrive bb) (exec (corazaOutputFilter e env bb) (s.arrive bb)).2)
      (exec (corazaOutputFilter e env bb) (s.arrive bb)).2 := by
  have ht : s.ctx.interventionTriggered = false := by
    rw [hm.triggered]
    exact decide_eq_false (Mode.ne_refused_of_active hactive)
  obtain ⟨evs, m', hstep⟩ := exec_of_ends
    (ends_corazaOutputFilter e env bb (hm.arrive bb) hactive)
  have hends := corazaOutputFilter_ends e env bb
    (walk_start (s := s.arrive bb) (hm.config hactive) ht)
  have hchanges := changes_corazaOutputFilter e env bb (s.arrive bb)
  have hevs := newEvents_eq hstep.trace
  have hproper : (s.arrive bb).ctx.Proper := hm.proper hactive
  generalize exec (corazaOutputFilter e env bb) (s.arrive bb) = out at *
  obtain ⟨st, y⟩ := out
  by_cases hne : m' = .refused
  · subst hne
    have htriggered : y.ctx.interventionTriggered = true := hstep.mode.triggered
    obtain ⟨hoff, hconn⟩ := hends.refusal htriggered
    have hclosed : Closed y := by
      cases hends with
      | carried hw =>
        rw [hw.triggered] at htriggered
        cases htriggered
      | failed _ _ _ _ _ _ _ _ _ hclosed => exact hclosed hproper
      | enforced _ _ _ _ _ _ hclosed => exact hclosed hproper
    have hrefusal : Refusal env (s.arrive bb).r bb m st evs := by
      cases hstep.invoked with
      | refuse hr => exact hr
      | carry _ hc => cases hc
    obtain ⟨inner, dies, hsplit, hinner, hdies⟩ := hrefusal.events
    have hpage (status : Int) (hmem : .die status ∈ evs) :
        m ≠ .streaming ∧ st = .filterError := by
      rw [hsplit] at hmem
      rcases hdies with rfl | ⟨status', rfl, hst, hms⟩
      · exact absurd hmem (by simpa using no_die_of_inner hinner status)
      · exact ⟨hms, hst⟩
    rw [hevs] at hconn ⊢
    refine ⟨fun ev hev ↦ ?_, hclosed, fun status hmem ↦ ?_, fun i hi hd ↦ ?_⟩
    · exact hrefusal.unsent ev (by simp [hev])
    · apply h.nothing
      have hms := (hpage status hmem).1
      cases m with
      | fresh => exact Or.inl rfl
      | delaying held => exact Or.inr rfl
      | streaming => exact absurd rfl hms
      | out => cases hactive
      | refused => cases hactive
    · rcases hconn with ⟨_, _, _, hst, hconn⟩ | ⟨hnone, _⟩
      · refine ⟨fun status hmem ↦ ?_, ?_, ?_⟩
        · rw [(hpage status hmem).2] at hst
          cases hst
        · rw [hconn]
        · rw [hconn]
      · exact absurd (Or.inr hd) (hnone i hi)
  · rw [hevs] at hmeets
    refine absurd hmeets (not_meets_of_invoked (s := s.arrive bb) h hstep.invoked hne ?_ ?_)
    · obtain ⟨evs', htrace, hshort⟩ := hchanges.events
      obtain rfl : evs' = evs := (newEvents_eq htrace).symm.trans hevs
      exact fun ev hev ↦ (hshort ev hev).1
    · intro hst
      rw [← hstep.trace]
      cases hends with
      | carried _ _ _ _ hsaved => exact hsaved hst
      | failed _ _ _ _ _ _ _ _ hexit _ =>
        rcases hexit.answer with ⟨he, -⟩ | ⟨he, -⟩ <;> rw [hst] at he <;> cases he
      | enforced _ _ _ _ _ hexit _ =>
        split at hexit
        · have he := hexit.answer.1
          rw [hst] at he
          cases he
        · rcases hexit.answer with ⟨he, -⟩ | ⟨he, -⟩ <;> rw [hst] at he <;> cases he

end

/-! ### Whole runs -/

/-- An error page. -/
def Event.isPage : Event → Bool
  | .die _ => true
  | _ => false

/-- An error page has nothing of the response in front of it. -/
def PageFirst (pre : List Event) (ev : Event) : Prop := ev.isPage = true → Unsent pre

/-- In the events of a response, the error page comes at most once, with nothing of the response
in front of it, and not for a drop. -/
structure PageRule (evs : List Event) : Prop where
  once : evs.countP Event.isPage ≤ 1
  first : Along PageFirst evs
  drop : .returned .eConnAborted ∈ evs → ∀ status, .die status ∉ evs

/-- Events that are neither an error page nor the answer of a drop. -/
def Plain (evs : List Event) : Prop :=
  ∀ ev ∈ evs, ev.isPage = false ∧ ev ≠ .returned .eConnAborted

/-- The invariant of a response with respect to its error page. -/
structure Paged (m : Mode) (evs : List Event) : Prop where
  held : HeldBack m evs
  none : m ≠ .refused → Plain evs
  rule : PageRule evs

section

variable {env : OutEnv} {r : Request} {bb : Brigade} {m m' : Mode} {evs new : List Event}
  {st : FilterStatus}

private theorem countP_isPage_of_plain (h : Plain evs) : evs.countP Event.isPage = 0 :=
  List.countP_eq_zero.mpr fun ev hev hp ↦ Bool.false_ne_true ((h ev hev).1.symm.trans hp)

private theorem pageFirst_of_plain {past : List Event} (h : Plain evs) :
    AlongFrom PageFirst past evs :=
  alongFrom_of_forall fun ev hev _ hp ↦ absurd ((h ev hev).1.symm.trans hp) Bool.false_ne_true

private theorem PageRule.append (h : PageRule evs) (hnew : Plain new) : PageRule (evs ++ new) := by
  refine ⟨?_, along_append.mpr ⟨h.first, pageFirst_of_plain hnew⟩, fun hmem status hdie ↦ ?_⟩
  · rw [List.countP_append, countP_isPage_of_plain hnew]
    exact h.once
  · rcases List.mem_append.mp hmem with hmem | hmem
    · rcases List.mem_append.mp hdie with hdie | hdie
      · exact h.drop hmem status hdie
      · cases (hnew _ hdie).1
    · exact (hnew _ hmem).2 rfl

private theorem plain_inner (h : ∀ ev ∈ evs, ev.Inner m) : Plain evs := by
  intro ev hev
  have hi := h ev hev
  cases ev <;> first | exact hi.elim | exact ⟨rfl, fun he ↦ (by cases he)⟩

/-- An invocation that does not refuse answers without an error. -/
theorem Invoked.status (h : Invoked env r bb m evs st m') (hm : m' ≠ .refused) :
    st = .passed ∨ st = .success := by
  cases h with
  | refuse => exact absurd rfl hm
  | uninspected => exact Or.inl rfl
  | sse => exact Or.inl rfl
  | carry _ hc =>
    cases hc with
    | flush => exact Or.inl rfl
    | release => exact Or.inl rfl
    | hold => exact Or.inr rfl
    | finish => exact Or.inl rfl
    | stream => exact Or.inl rfl

/-- An invocation that does not refuse makes no error page. -/
theorem plain_of_invoked (h : Invoked env r bb m evs st m') (hm : m' ≠ .refused) :
    Plain (.receive bb :: evs ++ [.returned st]) := by
  obtain ⟨quiet, tail, rfl, hquiet, htail, -⟩ := h.shape hm
  have hst := h.status hm
  have hplainTail : Plain tail := by
    rcases htail with rfl | ⟨out, rfl⟩
    · exact fun ev hev ↦ (by cases hev)
    · simp [Plain, Event.isPage]
  have hlast : Plain [.returned st] := by
    rcases hst with rfl | rfl <;> simp [Plain, Event.isPage]
  have hfirst : Plain [.receive bb] := by simp [Plain, Event.isPage]
  exact List.forall_mem_append.mpr ⟨List.forall_mem_append.mpr
    ⟨hfirst, List.forall_mem_append.mpr ⟨plain_inner hquiet, hplainTail⟩⟩, hlast⟩

/-- The refusing invocation makes at most one error page, and only in front of everything. -/
theorem pageRule_of_refusal (h : HeldBack m evs) (hevs : Plain evs)
    (hr : Refusal env r bb m st new) :
    PageRule (evs ++ (.receive bb :: new ++ [.returned st])) := by
  obtain ⟨inner, dies, rfl, hinner, hdies⟩ := hr.events
  have hplain : Plain (evs ++ .receive bb :: inner) :=
    List.forall_mem_append.mpr ⟨hevs, List.forall_mem_cons.mpr
      ⟨⟨rfl, fun he ↦ (by cases he)⟩, plain_inner hinner⟩⟩
  have hsplit : evs ++ (.receive bb :: (inner ++ dies) ++ [.returned st]) =
      evs ++ .receive bb :: inner ++ (dies ++ [.returned st]) := by simp
  rw [hsplit]
  rcases hdies with rfl | ⟨status, rfl, rfl, hms⟩
  · refine ⟨?_, along_append.mpr ⟨pageFirst_of_plain hplain, ?_⟩, fun _ status hdie ↦ ?_⟩
    · rw [List.countP_append, countP_isPage_of_plain hplain]
      exact Nat.zero_le 1
    · exact alongFrom_of_forall fun ev hev _ hp ↦ by
        rw [List.mem_singleton.mp hev] at hp
        cases hp
    · rcases List.mem_append.mp hdie with hdie | hdie
      · cases (hplain _ hdie).1
      · simp at hdie
  · have hunsent : Unsent (evs ++ .receive bb :: inner) := by
      refine unsent_append.mpr ⟨h.nothing ?_, List.forall_mem_cons.mpr ⟨id, unsent_inner hinner⟩⟩
      have hactive := hr.active
      cases m with
      | fresh => exact Or.inl rfl
      | delaying held => exact Or.inr rfl
      | streaming => exact absurd rfl hms
      | out => cases hactive
      | refused => cases hactive
    refine ⟨?_, along_append.mpr ⟨pageFirst_of_plain hplain, alongFrom_cons.mpr
      ⟨fun _ ↦ hunsent, ?_⟩⟩, fun hmem ↦ ?_⟩
    · rw [List.countP_append, countP_isPage_of_plain hplain]
      exact Nat.le_refl 1
    · exact pageFirst_of_plain (by simp [Plain, Event.isPage])
    · rcases List.mem_append.mp hmem with hmem | hmem
      · exact absurd rfl (hplain _ hmem).2
      · simp at hmem

/-- Every transition keeps the invariant. -/
theorem Paged.output (h : Paged m evs) (ho : Output env r bb m new m') : Paged m' (evs ++ new) := by
  have hheld := h.held.output ho
  cases ho with
  | direct hoff =>
    have hplain : Plain [.receive bb, .direct bb] := by simp [Plain, Event.isPage]
    exact ⟨hheld, fun hm ↦ List.forall_mem_append.mpr ⟨h.none hm, hplain⟩, h.rule.append hplain⟩
  | filter hi =>
    have hplain := h.none (Mode.ne_refused_of_active hi.active)
    by_cases hm : m' = .refused
    · subst hm
      refine ⟨hheld, fun hne ↦ absurd rfl hne, ?_⟩
      cases hi with
      | refuse hr => exact pageRule_of_refusal h.held hplain hr
      | carry _ hc => cases hc
    · have hnew := plain_of_invoked hi hm
      exact ⟨hheld, fun _ ↦ List.forall_mem_append.mpr ⟨hplain, hnew⟩, h.rule.append hnew⟩

end

/-- Where a run on one `request_rec` stands, with the error page in its events. -/
theorem afterOutput_mode (e : Engine) (lib : WafLib) (save : SaveEnv) (src : BodySource)
    (env : OutEnv) (s : Exchange) (bbs : List Brigade) (ho : s.r.outFilter = false)
    (hp : corazaCtxFromPrev s.prev = false) :
    ((s.afterOutput e lib save src env bbs).Spent ∧
      Plain (newEvents (exec (corazaPostReadRequest e lib save src) s).2
        (s.afterOutput e lib save src env bbs))) ∨
    ∃ m, InMode m (s.afterOutput e lib save src env bbs) ∧
      Paged m (newEvents (exec (corazaPostReadRequest e lib save src) s).2
        (s.afterOutput e lib save src env bbs)) := by
  have hspent (hy : (exec (corazaPostReadRequest e lib save src) s).2.Spent) :
      (s.afterOutput e lib save src env bbs).Spent ∧
      Plain (newEvents (exec (corazaPostReadRequest e lib save src) s).2
        (s.afterOutput e lib save src env bbs)) := by
    obtain ⟨hlast, -, new, htrace, hbypass⟩ := passOutputs_spent e env bbs hy
    refine ⟨hlast, ?_⟩
    rw [Exchange.afterOutput, newEvents_eq htrace]
    intro ev hev
    have hb := hbypass ev hev
    refine ⟨?_, fun he ↦ ?_⟩
    · cases ev <;> first | rfl | exact hb.elim
    · rw [he] at hb
      exact hb
  rcases hookRun_mode ho hp (corazaPostReadRequest_run e lib save src s) with hoff | ht | hm
  · exact Or.inl (hspent (Or.inl hoff))
  · exact Or.inl (hspent (Or.inr ht))
  · have hstart : Paged .fresh [] :=
      ⟨heldBack_fresh, fun _ _ h ↦ (by cases h), Nat.zero_le 1, alongFrom_nil [], fun h ↦
        (by cases h)⟩
    obtain ⟨new, m', htrace, hmode, hinv⟩ := passOutputs_run (e := e) Paged
      (fun bb _ m evs new m' h ho ↦ h.output ho) hstart hm (fun _ ↦ rfl)
    refine Or.inr ⟨m', hmode, ?_⟩
    rw [Exchange.afterOutput, newEvents_eq htrace]
    exact hinv

/-- The error paths of the filter are atomic. In every run on one `request_rec` with a
transaction of its own, an invocation that meets an engine error, an intervention, a bucket it
cannot read or a chunk too long to be handed over in a response that is not let go there, or a
brigade it cannot set aside, refuses as a whole; and over the whole run the error page comes at
most once, with nothing of the response in front of it, and not for a drop. -/
theorem error_paths_atomic (e : Engine) (lib : WafLib) (save : SaveEnv) (src : BodySource)
    (env : OutEnv) (s : Exchange) (bbs : List Brigade) (ho : s.r.outFilter = false)
    (hp : corazaCtxFromPrev s.prev = false) :
    PageRule (newEvents (exec (corazaPostReadRequest e lib save src) s).2
      (s.afterOutput e lib save src env bbs)) ∧
    ∀ before bb after, bbs = before ++ bb :: after →
      (s.afterOutput e lib save src env before).r.outFilter = true →
      (s.afterOutput e lib save src env before).ctx.interventionTriggered = false →
      Meets env ((s.afterOutput e lib save src env before).arrive bb) bb
        (newEvents (exec (corazaPostReadRequest e lib save src) s).2
          (s.afterOutput e lib save src env before))
        (newEvents ((s.afterOutput e lib save src env before).arrive bb)
          (exec (corazaOutputFilter e env bb)
            ((s.afterOutput e lib save src env before).arrive bb)).2) →
      Atomic
        (newEvents (exec (corazaPostReadRequest e lib save src) s).2
          (s.afterOutput e lib save src env before))
        (newEvents ((s.afterOutput e lib save src env before).arrive bb)
          (exec (corazaOutputFilter e env bb)
            ((s.afterOutput e lib save src env before).arrive bb)).2)
        (exec (corazaOutputFilter e env bb)
          ((s.afterOutput e lib save src env before).arrive bb)).2 := by
  constructor
  · rcases afterOutput_mode e lib save src env s bbs ho hp with ⟨-, hplain⟩ | ⟨m, -, hpaged⟩
    · have hnil : PageRule [] := ⟨Nat.zero_le 1, alongFrom_nil [], fun h ↦ (by cases h)⟩
      have hrule := hnil.append hplain
      rwa [List.nil_append] at hrule
    · exact hpaged.rule
  · intro before bb after _ hon ht hmeets
    rcases afterOutput_mode e lib save src env s before ho hp with
      ⟨hspent, -⟩ | ⟨m, hm, hpaged⟩
    · rcases hspent with hoff | htrue
      · exact absurd (hoff.symm.trans hon) Bool.false_ne_true
      · exact absurd (ht.symm.trans htrue) Bool.false_ne_true
    · exact atomic_of_meets hm (hm.filter.symm.trans hon) hpaged.held hmeets

/-- A deny in the second brigade of a delayed response is met and refused as a whole. -/
theorem bareDeny_atomic :
    plainExchange.r.outFilter = false ∧ corazaCtxFromPrev plainExchange.prev = false ∧
    Meets plainOut
      ((plainExchange.afterOutput (blockingEngine bareDeny) acceptingLib plainSave plainBody
        plainOut [[.data .heap [1]]]).arrive [.data .heap [2]]) [.data .heap [2]]
      (newEvents (exec (corazaPostReadRequest (blockingEngine bareDeny) acceptingLib plainSave
        plainBody) plainExchange).2 (plainExchange.afterOutput (blockingEngine bareDeny)
        acceptingLib plainSave plainBody plainOut [[.data .heap [1]]]))
      (newEvents ((plainExchange.afterOutput (blockingEngine bareDeny) acceptingLib plainSave
        plainBody plainOut [[.data .heap [1]]]).arrive [.data .heap [2]])
        (exec (corazaOutputFilter (blockingEngine bareDeny) plainOut [.data .heap [2]])
          ((plainExchange.afterOutput (blockingEngine bareDeny) acceptingLib plainSave plainBody
            plainOut [[.data .heap [1]]]).arrive [.data .heap [2]])).2) ∧
    Atomic
      (newEvents (exec (corazaPostReadRequest (blockingEngine bareDeny) acceptingLib plainSave
        plainBody) plainExchange).2 (plainExchange.afterOutput (blockingEngine bareDeny)
        acceptingLib plainSave plainBody plainOut [[.data .heap [1]]]))
      (newEvents ((plainExchange.afterOutput (blockingEngine bareDeny) acceptingLib plainSave
        plainBody plainOut [[.data .heap [1]]]).arrive [.data .heap [2]])
        (exec (corazaOutputFilter (blockingEngine bareDeny) plainOut [.data .heap [2]])
          ((plainExchange.afterOutput (blockingEngine bareDeny) acceptingLib plainSave plainBody
            plainOut [[.data .heap [1]]]).arrive [.data .heap [2]])).2)
      (exec (corazaOutputFilter (blockingEngine bareDeny) plainOut [.data .heap [2]])
        ((plainExchange.afterOutput (blockingEngine bareDeny) acceptingLib plainSave plainBody
          plainOut [[.data .heap [1]]]).arrive [.data .heap [2]])).2 := by
  have hmeets : Meets plainOut
      ((plainExchange.afterOutput (blockingEngine bareDeny) acceptingLib plainSave plainBody
        plainOut [[.data .heap [1]]]).arrive [.data .heap [2]]) [.data .heap [2]]
      (newEvents (exec (corazaPostReadRequest (blockingEngine bareDeny) acceptingLib plainSave
        plainBody) plainExchange).2 (plainExchange.afterOutput (blockingEngine bareDeny)
        acceptingLib plainSave plainBody plainOut [[.data .heap [1]]]))
      (newEvents ((plainExchange.afterOutput (blockingEngine bareDeny) acceptingLib plainSave
        plainBody plainOut [[.data .heap [1]]]).arrive [.data .heap [2]])
        (exec (corazaOutputFilter (blockingEngine bareDeny) plainOut [.data .heap [2]])
          ((plainExchange.afterOutput (blockingEngine bareDeny) acceptingLib plainSave plainBody
            plainOut [[.data .heap [1]]]).arrive [.data .heap [2]])).2) :=
    have hbad : (Event.poll (some bareDeny)).Bad := Option.some_ne_none _
    .engine (by decide +kernel) hbad
  exact ⟨rfl, rfl, hmeets, (error_paths_atomic (blockingEngine bareDeny) acceptingLib plainSave
    plainBody plainOut plainExchange [[.data .heap [1]], [.data .heap [2]]] rfl rfl).2
    [[.data .heap [1]]] [.data .heap [2]] [] rfl (by decide) (by decide) hmeets⟩

/-- A chunk one byte longer than an `int` can say. -/
def oversizeBytes : List UInt8 := List.replicate (intMax + 1) 0

/-- Held back, such a chunk exceeds the cap before its length is looked at: the response is let
go with it, and nothing is refused. -/
theorem oversizeChunk_let_go :
    intMax < oversizeBytes.length ∧
    (plainExchange.afterOutput quietEngine acceptingLib plainSave plainBody plainOut []).r.outFilter
      = true ∧
    .pass [.data .heap oversizeBytes, .eos] ∈ newEvents
      (plainExchange.afterOutput quietEngine acceptingLib plainSave plainBody plainOut [])
      (plainExchange.afterOutput quietEngine acceptingLib plainSave plainBody plainOut
        [[.data .heap oversizeBytes, .eos]]) ∧
    (plainExchange.afterOutput quietEngine acceptingLib plainSave plainBody plainOut
      [[.data .heap oversizeBytes, .eos]]).ctx.interventionTriggered = false := by
  have hlen : oversizeBytes.length = intMax + 1 := List.length_replicate
  have hphase3 (bytes : List UInt8) : ∃ y, phase3 quietEngine plainOut [.data .heap bytes, .eos]
      ((plainExchange.afterOutput quietEngine acceptingLib plainSave plainBody plainOut []).arrive
        [.data .heap bytes, .eos]) = (.next (), y) ∧ y.ctx.headersDelayed = true ∧
      y.ctx.pendingBrigade = some [] ∧ y.ctx.pendingLen = 0 ∧
      y.ctx.interventionTriggered = false ∧ ∃ evs, y.trace = (plainExchange.afterOutput quietEngine
        acceptingLib plainSave plainBody plainOut []).trace ++ evs :=
    ⟨_, rfl, rfl, rfl, rfl, rfl, _, rfl⟩
  obtain ⟨y, hopen, hd, hpend, hzero, ht, evs, htrace⟩ := hphase3 oversizeBytes
  obtain ⟨hpassed, htriggered⟩ := passOutput_flush (by decide) (by decide) (by decide) hopen hd
    hpend hzero (by rw [hlen]; decide) (by rw [hlen]; decide)
  have hone (bb : Brigade) : plainExchange.afterOutput quietEngine acceptingLib plainSave plainBody
      plainOut [bb] = (plainExchange.afterOutput quietEngine acceptingLib plainSave plainBody
        plainOut []).passOutput quietEngine plainOut bb := rfl
  rw [hone, htriggered, newEvents_eq (by rw [hpassed, htrace, List.append_assoc])]
  refine ⟨by rw [hlen]; exact Nat.lt_succ_self _, by decide, by simp, ht⟩

end CorazaApache.Http
