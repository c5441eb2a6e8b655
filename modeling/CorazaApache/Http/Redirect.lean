import CorazaApache.Http.Replay

/-!
# Internal redirects and the saved body

An internal redirect starts a new `request_rec` on which httpd has reset the request-level
filters; the fixups hook runs on it again. The redirect branch of the hook,
`src/mod_coraza_phase1.c:131–149`, finds the context of the chain and adds the output filter,
but not the input filter that replays the body, so only the first `request_rec` replays.
-/

namespace CorazaApache.Http
open CorazaApache.Base CorazaApache.Base.Prog CorazaApache.Config CorazaApache.Apr

namespace Exchange

/-- httpd's internal redirect to `r`: a new `request_rec` without the module's context and
filters, linked to the one before. -/
def internalRedirect (r : Request) (s : Exchange) : Exchange :=
  { s with
    r := { r with requestConfig := false, outFilter := false, inFilter := false }
    prev := s.r :: s.prev
    trace := s.trace ++ [.redirect] }

/-- An internal redirect with the fixups hook on the new `request_rec`. -/
def followRedirect (e : Engine) (lib : WafLib) (env : SaveEnv) (src : BodySource)
    (s : Exchange) (r : Request) : Exchange :=
  (exec (corazaPostReadRequest e lib env src) (s.internalRedirect r)).2

/-- A chain of internal redirects. -/
def followRedirects (e : Engine) (lib : WafLib) (env : SaveEnv) (src : BodySource)
    (s : Exchange) (rs : List Request) : Exchange :=
  rs.foldl (followRedirect e lib env src) s

/-- A redirect target that is a main request in a scope with the module on. -/
def TargetOn (p : Process) (r : Request) : Prop :=
  r.main = false ∧ ∃ d, r.perDirConfig = some d ∧ (p.dirConfs.get d).enable = 1

variable {e : Engine} {lib : WafLib} {env : SaveEnv} {src : BodySource} {s : Exchange}

/-- The hook on a redirected request whose chain has the context: the request gets the context
and the output filter, and nothing else happens. -/
theorem followRedirect_eq {r : Request} (hc : s.r.requestConfig = true)
    (ht : TargetOn s.process r) :
    s.followRedirect e lib env src r = (s.internalRedirect r).updReq fun r ↦
      { r with requestConfig := true, outFilter := true } := by
  obtain ⟨hmain, d, hd, henable⟩ := ht
  have hprev : corazaCtxFromPrev (s.internalRedirect r).prev = true := by
    simp [corazaCtxFromPrev, internalRedirect, hc]
  have hm : (s.internalRedirect r).r.main = false := hmain
  have hon : (s.internalRedirect r).enabled = true := by
    simp [enabled, internalRedirect, hd, henable]
  have hends : Ends (corazaPostReadRequest e lib env src) (s.internalRedirect r)
      (fun _ _ ↦ False) (fun _ s' ↦ s' = (s.internalRedirect r).updReq fun r ↦
        { r with requestConfig := true, outFilter := true }) := by
    have hcfg : (s.internalRedirect r).r.requestConfig = false := rfl
    simp [corazaPostReadRequest, hm, hon, hcfg, hprev]
  exact exec_of_ends (R := fun _ s' ↦ s' = (s.internalRedirect r).updReq fun r ↦
    { r with requestConfig := true, outFilter := true })
    (hends.mono (fun _ _ h ↦ h.elim) fun _ _ h ↦ h)

/-- Behind a chain of redirects that is not empty, the replay filter is not on. -/
theorem followRedirects_off {rs : List Request} (hc : s.r.requestConfig = true)
    (hne : rs ≠ []) (ht : ∀ r ∈ rs, TargetOn s.process r) :
    (s.followRedirects e lib env src rs).r.inFilter = false := by
  induction rs generalizing s with
  | nil => exact absurd rfl hne
  | cons r rs ih =>
    rw [List.forall_mem_cons] at ht
    have hcons : s.followRedirects e lib env src (r :: rs) =
        (s.followRedirect e lib env src r).followRedirects e lib env src rs := rfl
    rw [hcons, followRedirect_eq hc ht.1]
    by_cases hrs : rs = []
    · rw [hrs]
      rfl
    · exact ih rfl hrs ht.2

/-! ### Reading until the end of stream -/

/-- What a stream holds before its first end of stream. -/
def upToEos (l : List Symbol) : List Symbol := l.takeWhile (· ≠ .eos)

/-- A body read on a connection whose body has been consumed: the filter below has only the end
of stream to deliver. -/
def ReadDrained (rd : Read) : Prop := BodyMode rd.mode ∧ symbols rd.below = [.eos]

/-- A handler that reads until the end of stream gets exactly `body`, and gets there. -/
structure ReceivesBody (ops : BrigadeOps) (body : List UInt8) (s : Exchange) : Prop where
  exactly : ∀ reads : List Read, (∀ rd ∈ reads, ReadDrained rd) →
    .eos ∈ s.delivered ops false reads → upToEos (s.delivered ops false reads) = body.map .byte
  ends : ∀ reads : List Read, (∀ rd ∈ reads, ReadDrained rd ∧ rd.mode ≠ .speculative) →
    body.length < reads.length → .eos ∈ s.delivered ops false reads

private theorem upToEos_body (body : List UInt8) (more : List Symbol) :
    upToEos (body.map .byte ++ .eos :: more) = body.map .byte := by
  induction body with
  | nil => rfl
  | cons b body ih =>
    rw [List.map_cons, List.cons_append, upToEos, List.takeWhile_cons_of_pos (by simp)]
    exact congrArg _ ih

/-- Once the end of stream came, more of the stream changes nothing. -/
theorem upToEos_append {l : List Symbol} (h : .eos ∈ l) (more : List Symbol) :
    upToEos (l ++ more) = upToEos l := by
  induction l with
  | nil => cases h
  | cons x l ih =>
    rw [upToEos, upToEos, List.cons_append, List.takeWhile_cons, List.takeWhile_cons]
    split
    · next hx =>
      rw [decide_eq_true_eq] at hx
      exact congrArg _ (ih ((List.mem_cons.mp h).resolve_left (Ne.symm hx)))
    · rfl

variable {ops : BrigadeOps}

/-- Until the copy is used up, a handler gets a front part of it. -/
theorem delivered_cases (hops : ops.Documented) (hs : s.Replaying) (hleft : s.left ≠ [])
    {reads : List Read} (hr : ∀ rd ∈ reads, ReadDrained rd) :
    s.delivered ops false reads ++ (s.afterReads ops reads).left = s.left ∨
      ∃ more, s.delivered ops false reads = s.left ++ more := by
  induction reads generalizing s with
  | nil => exact Or.inl rfl
  | cons rd reads ih =>
    rw [List.forall_mem_cons] at hr
    have hstep := readStep hops hs hr.1.1
    rw [afterReads_cons, delivered_cons]
    by_cases hspec : rd.mode = .speculative
    · have hsame := hstep.peek hspec
      have hrest := ih hstep.replaying (by rw [hsame]; exact hleft) hr.2
      rw [if_neg (fun h ↦ h.1 hspec), List.nil_append, ← hsame]
      exact hrest
    · have hsplit := hstep.consume hspec
      rw [if_pos (hstep.answered hleft)] at hsplit
      rw [if_pos ⟨hspec, fun h ↦ (by cases h)⟩]
      by_cases hl : (s.handlerRead ops rd).2.2.left = []
      · rw [hl, List.append_nil] at hsplit
        exact Or.inr ⟨_, by rw [hsplit]⟩
      · rcases ih hstep.replaying hl hr.2 with h | ⟨more, h⟩
        · exact Or.inl (by rw [List.append_assoc, h, hsplit])
        · exact Or.inr ⟨more, by rw [h, ← List.append_assoc, hsplit]⟩

/-- On the `request_rec` the body was read for, a handler receives it. -/
theorem receivesBody_of_replaying (hops : ops.Documented) (hs : s.Replaying)
    {body : List UInt8} (hleft : s.left = body.map .byte ++ [.eos]) :
    s.ReceivesBody ops body := by
  have hne : s.left ≠ [] := by rw [hleft]; exact List.append_ne_nil_of_right_ne_nil _ (by decide)
  constructor
  · intro reads hr heos
    rcases delivered_cases hops hs hne hr with h | ⟨more, h⟩
    · rw [← upToEos_append heos, h, hleft]
      exact upToEos_body body []
    · rw [h, hleft, List.append_assoc]
      exact upToEos_body body more
  · intro reads hr hlen
    have hused : (s.afterReads ops reads).left = [] := by
      refine left_eq_nil_of_reads hops hs (fun rd hrd ↦ ⟨(hr rd hrd).1.1, (hr rd hrd).2⟩) ?_
      rw [hleft, List.length_append, List.length_map]
      exact hlen
    rcases delivered_cases hops hs hne (fun rd hrd ↦ (hr rd hrd).1) with h | ⟨more, h⟩
    · rw [hused, List.append_nil] at h
      rw [h, hleft]
      simp
    · rw [h, hleft]
      simp

/-- Without the replay filter, reads are answered from below. -/
theorem delivered_of_off (hoff : s.r.inFilter = false) (reads : List Read) :
    s.delivered ops false reads =
      reads.flatMap fun rd ↦ if rd.mode ≠ .speculative then symbols rd.below else [] := by
  have hread (rd : Read) : s.handlerRead ops rd = (.below, rd.below, s) := by
    rw [handlerRead, if_neg (by rw [hoff]; exact Bool.false_ne_true)]
  induction reads with
  | nil => rfl
  | cons rd reads ih =>
    rw [delivered_cons, hread, ih, List.flatMap_cons]
    simp

/-- Without the replay filter, a handler receives the body only if it is empty. -/
theorem receivesBody_of_off (hoff : s.r.inFilter = false) (body : List UInt8) :
    s.ReceivesBody ops body ↔ body = [] := by
  constructor
  · intro h
    have hread := h.exactly [⟨.exhaustive, 0, [.eos]⟩]
      (by simp [ReadDrained, BodyMode, Bucket.symbols])
    rw [delivered_of_off hoff] at hread
    have hbody := hread (by decide)
    rw [← List.map_eq_nil_iff, ← hbody]
    decide
  · rintro rfl
    constructor
    · intro reads hr heos
      have hall : ∀ x ∈ s.delivered ops false reads, x = .eos := by
        intro x hx
        rw [delivered_of_off hoff] at hx
        obtain ⟨rd, hrd, hx⟩ := List.mem_flatMap.mp hx
        split at hx
        · rw [(hr rd hrd).2] at hx
          exact List.mem_singleton.mp hx
        · cases hx
      cases hd : s.delivered ops false reads with
      | nil => rfl
      | cons x l =>
        rw [hall x (by rw [hd]; exact List.mem_cons_self)]
        rfl
    · intro reads hr hlen
      obtain ⟨rd, hrd⟩ := List.exists_mem_of_length_pos hlen
      rw [delivered_of_off hoff, List.mem_flatMap]
      refine ⟨rd, hrd, ?_⟩
      rw [if_pos (hr rd hrd).2, (hr rd hrd).1.2]
      exact List.mem_singleton_self _

end Exchange

/-- When the body survives internal redirects. The handler on the last `request_rec` of a chain
receives the body of an admitted request exactly if there was no redirect or nothing to
receive: the redirect branch of the hook never adds the replay filter. -/
theorem receivesBody_iff (e : Engine) (lib : WafLib) (env : SaveEnv) (src : BodySource)
    (s : Exchange) (rs : List Request) (hops : env.ops.Documented)
    (hsetup : src.setupClientBlock = retOk ∨ 0 < src.setupClientBlock)
    (hmain : s.r.main = false) (hon : s.enabled = true) (hctx : s.r.requestConfig = false)
    (hprev : corazaCtxFromPrev s.prev = false) (hb : src.shouldClientBlock = true)
    (hret : (exec (corazaPostReadRequest e lib env src) s).1 = retDeclined)
    (hrs : ∀ r ∈ rs,
      Exchange.TargetOn (exec (corazaPostReadRequest e lib env src) s).2.process r) :
    ((exec (corazaPostReadRequest e lib env src) s).2.followRedirects e lib env src
      rs).ReceivesBody env.ops (bodyBytes src.chunks) ↔ rs = [] ∨ src.chunks = [] := by
  obtain ⟨-, -, -, hstate⟩ :=
    admitted_of_declined e lib env src s hops hsetup hmain hon hctx hprev hb hret
  have hempty : bodyBytes src.chunks = [] ↔ src.chunks = [] := by
    rw [bodyBytes, List.flatMap_eq_nil_iff]
    refine ⟨fun h ↦ List.eq_nil_iff_forall_not_mem.mpr fun chunk hc ↦ ?_, fun h ↦ by simp [h]⟩
    exact chunk.nonempty (h chunk hc)
  by_cases hnil : rs = []
  · subst hnil
    have hrec := Exchange.receivesBody_of_replaying hops hstate.replaying hstate.left
    exact ⟨fun _ ↦ Or.inl rfl, fun _ ↦ hrec⟩
  · rw [Exchange.receivesBody_of_off (Exchange.followRedirects_off hstate.config hnil hrs), hempty]
    exact ⟨Or.inr, fun h ↦ h.resolve_left hnil⟩

/-- Without a redirect the body of `plainExchange` is received. -/
theorem plainBody_received_without_redirect :
    ((exec (corazaPostReadRequest quietEngine acceptingLib plainSave plainBody)
      plainExchange).2.followRedirects quietEngine acceptingLib plainSave plainBody
        []).ReceivesBody listOps [1, 2, 3] :=
  (receivesBody_iff quietEngine acceptingLib plainSave plainBody plainExchange []
    documented_listOps (Or.inl rfl) rfl rfl rfl rfl rfl (by decide) (by simp)).mpr (Or.inl rfl)

/-- Behind one redirect the handler finds an end of stream in the place of the body. -/
theorem plainBody_lost_behind_redirect :
    ((exec (corazaPostReadRequest quietEngine acceptingLib plainSave plainBody)
      plainExchange).1 = retDeclined ∧
    Exchange.TargetOn (exec (corazaPostReadRequest quietEngine acceptingLib plainSave plainBody)
      plainExchange).2.process plainRequest) ∧
    ¬ ((exec (corazaPostReadRequest quietEngine acceptingLib plainSave plainBody)
      plainExchange).2.followRedirects quietEngine acceptingLib plainSave plainBody
        [plainRequest]).ReceivesBody listOps [1, 2, 3] := by
  refine ⟨⟨by decide, rfl, 0, rfl, by decide⟩, fun h ↦ ?_⟩
  have hread := h.exactly [⟨.exhaustive, 0, [.eos]⟩]
    (by simp [Exchange.ReadDrained, Exchange.BodyMode, Bucket.symbols]) (by decide)
  exact absurd hread (by decide)

end CorazaApache.Http
