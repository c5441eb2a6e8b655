import Mathlib.Data.List.Induction
import CorazaApache.Http.BodyIn

/-!
# The handler reads the body that was inspected

The copy is part memory, part file. While the hook reads, the bytes in memory followed by those
in the file are the bytes read so far, since nothing goes to memory once the file is open. While
the handler reads, what it got followed by what is left is the body and its end of stream.
-/

namespace CorazaApache.Http
open CorazaApache.Base CorazaApache.Base.Prog CorazaApache.Config CorazaApache.Apr

/-- The bytes of the body. -/
def bodyBytes (chunks : List BodyChunk) : List UInt8 := chunks.flatMap BodyChunk.bytes

/-- The request body bytes handed to the engine. -/
def requestBytes (evs : List Event) : List UInt8 :=
  evs.flatMap fun
    | .call (.appendRequestBody bs) _ => bs
    | _ => []

/-! ### Keeping the copy -/

/-- The invariant of the copy: memory then file hold the bytes so far, and memory is within the
limit. -/
structure Kept (memLimit : Int) (chunks : List BodyChunk) (st : BodyLocals × Brigade) : Prop where
  content : symbols st.2 ++ (st.1.spool.getD []).map .byte = (bodyBytes chunks).map .byte
  heap : (heapLen st.2 : Int) = st.1.savedLen
  limit : st.1.savedLen ≤ memLimit

private theorem kept_nil {memLimit : Int} (h : 0 ≤ memLimit) :
    Kept memLimit [] (⟨0, none, 0⟩, []) :=
  ⟨rfl, rfl, h⟩

private theorem Kept.keepChunk {ops : BrigadeOps} (hops : ops.Documented) {memLimit : Int}
    {chunks : List BodyChunk} {st : BodyLocals × Brigade} (h : Kept memLimit chunks st)
    (chunk : BodyChunk) :
    Kept memLimit (chunks ++ [chunk]) (Http.keepChunk ops memLimit st chunk) := by
  have hb : bodyBytes (chunks ++ [chunk]) = bodyBytes chunks ++ chunk.bytes := by
    simp [bodyBytes]
  obtain ⟨l, saved⟩ := st
  have hcontent := h.content
  rw [Http.keepChunk]
  dsimp only at hcontent ⊢
  split
  · next hfit =>
    simp only [fitsInMemory, decide_eq_true_eq] at hfit
    rw [hfit.1, Option.getD_none, List.map_nil, List.append_nil] at hcontent
    refine ⟨?_, ?_, ?_⟩
    · rw [hb, List.map_append, ← hcontent, hops.write_symbols]
      simp [hfit.1]
    · have hh := h.heap
      dsimp only at hh ⊢
      rw [hops.write_heap]
      omega
    · exact hfit.2
  · refine ⟨?_, h.heap, h.limit⟩
    rw [hb, List.map_append, ← hcontent]
    simp [List.append_assoc]

private theorem kept_keptBody {ops : BrigadeOps} (hops : ops.Documented) {memLimit : Int}
    (hlim : 0 ≤ memLimit) (chunks : List BodyChunk) :
    Kept memLimit chunks (keptBody ops memLimit chunks) := by
  induction chunks using List.reverseRecOn with
  | nil => exact kept_nil hlim
  | append_singleton chunks chunk ih =>
    have hk : keptBody ops memLimit (chunks ++ [chunk]) =
        Http.keepChunk ops memLimit (keptBody ops memLimit chunks) chunk := by
      simp [keptBody]
    rw [hk]
    exact ih.keepChunk hops chunk

/-- The closed copy is the body and one end of stream. -/
theorem Kept.symbols_closeBody {memLimit : Int} {chunks : List BodyChunk}
    {st : BodyLocals × Brigade} (h : Kept memLimit chunks st) :
    symbols (closeBody st.1 st.2) = (bodyBytes chunks).map .byte ++ [.eos] := by
  rw [← h.content, closeBody, symbols_append]
  congr 1
  cases st.1.spool with
  | none => simp
  | some bytes => simp [Bucket.symbols]

private theorem heapLen_closeBody (l : BodyLocals) (saved : Brigade) :
    heapLen (closeBody l saved) = heapLen saved := by
  rw [closeBody, heapLen_append]
  split
  · rw [heapLen_append]
    rfl
  · rfl

private theorem getLast?_closeBody (l : BodyLocals) (saved : Brigade) :
    (closeBody l saved).getLast? = some .eos := by
  rw [closeBody, List.getLast?_append]
  rfl

private theorem memLimitOf_nonneg (s : Exchange) : 0 ≤ memLimitOf s := by
  unfold memLimitOf
  dsimp only
  split
  · assumption
  · decide

/-! ### Replaying it -/

namespace Exchange

/-- The state of a request whose handler may read: the copy ends in its end of stream until it
is used up, and the filter is on the chain as long as there is a copy. -/
structure Replaying (s : Exchange) : Prop where
  clear : s.ctx.interventionTriggered = false
  onChain : s.ctx.savedBody ≠ none → s.r.inFilter = true
  last : ∀ saved, s.ctx.savedBody = some saved → saved = [] ∨ saved.getLast? = some .eos

private theorem Replaying.withSaved {s : Exchange} (h : Replaying s) (hs : s.ctx.savedBody ≠ none)
    {saved : Brigade} (hl : saved = [] ∨ saved.getLast? = some .eos) :
    Replaying (s.withSaved saved) :=
  ⟨h.clear, fun _ ↦ h.onChain hs, fun _ he ↦ Option.some.inj he ▸ hl⟩

/-- The modes a handler reads a body in. -/
def BodyMode (m : InputMode) : Prop :=
  m = .readBytes ∨ m = .exhaustive ∨ m = .getLine ∨ m = .speculative

/-- A copied brigade reads like the original. -/
theorem symbols_map_copy {ops : BrigadeOps} (hops : ops.Documented) (bb : Brigade) :
    symbols (bb.map ops.copy) = symbols bb := by
  induction bb with
  | nil => rfl
  | cons b bb ih => rw [List.map_cons, symbols_cons, symbols_cons, hops.copy_symbols, ih]

/-- A brigade that ends in an end of stream has something to read. -/
theorem symbols_ne_nil {saved : Brigade} (h : saved.getLast? = some .eos) : symbols saved ≠ [] := by
  obtain ⟨front, rfl⟩ := List.getLast?_eq_some_iff.mp h
  simp [Bucket.symbols]

variable {ops : BrigadeOps} {s : Exchange} {rd : Read} {saved : Brigade}

/-- What partition does at a positive offset: it cuts there, or finds everything shorter. -/
theorem partition_cases (hops : ops.Documented) (saved : Brigade) {n : Nat} (hn : 0 < n) :
    (n ≤ (dataBytes saved).length ∧ ∃ before after,
      ops.partition saved n = (.success, before, after) ∧ (dataBytes before).length = n ∧
      symbols before ++ symbols after = symbols saved) ∨
    ((dataBytes saved).length < n ∧ ∃ before,
      ops.partition saved n = (.incomplete, before, []) ∧ symbols before = symbols saved) := by
  have hsym := hops.partition_symbols saved n
  rcases Nat.lt_or_ge (dataBytes saved).length n with hlt | hge
  · obtain ⟨hst, hafter⟩ := hops.partition_incomplete saved n hlt
    refine Or.inr ⟨hlt, (ops.partition saved n).2.1, ?_, ?_⟩
    · rw [← hst, ← hafter]
    · rw [hafter, symbols_nil, List.append_nil] at hsym
      exact hsym
  · obtain ⟨hst, hlen⟩ := hops.partition_success saved n hn hge
    exact Or.inl ⟨hge, (ops.partition saved n).2.1, (ops.partition saved n).2.2,
      by rw [← hst], hlen, hsym⟩

/-- A speculative read copies a prefix of what is left and leaves what is left as it was. -/
theorem replaySpeculative_spec (hops : ops.Documented) (hs : s.Replaying)
    (hsaved : s.ctx.savedBody = some saved) (hne : saved ≠ []) (readbytes : Int) :
    (s.replaySpeculative ops readbytes saved).1 = .success ∧
    (s.replaySpeculative ops readbytes saved).2.2.Replaying ∧
    (s.replaySpeculative ops readbytes saved).2.2.left = s.left ∧
    (0 < readbytes → symbols (s.replaySpeculative ops readbytes saved).2.1 <+: s.left ∧
      (dataBytes (s.replaySpeculative ops readbytes saved).2.1).length =
        min readbytes.toNat (symbolBytes s.left).length) := by
  have hleft : s.left = symbols saved := by rw [left, hsaved]; rfl
  have hsome : s.ctx.savedBody ≠ none := by rw [hsaved]; exact Option.some_ne_none _
  have hlast := (hs.last saved hsaved).resolve_left hne
  have hcopy (bb : Brigade) : (dataBytes (bb.map ops.copy)).length = (dataBytes bb).length := by
    rw [← symbolBytes_symbols, symbols_map_copy hops, symbolBytes_symbols]
  unfold replaySpeculative
  by_cases h0 : 0 < readbytes
  · rw [if_pos h0]
    have hn : 0 < readbytes.toNat := by omega
    have hl := hops.partition_last saved readbytes.toNat hlast
    rcases partition_cases hops saved hn with ⟨hge, before, after, hp, hlen, hsym⟩ |
      ⟨hlt, before, hp, hsym⟩
    · rw [hp] at hl ⊢
      refine ⟨rfl, hs.withSaved hsome (Or.inr hl), ?_, fun _ ↦ ⟨?_, ?_⟩⟩
      · rw [hleft, ← hsym]
        exact symbols_append before after
      · rw [hleft, ← hsym, symbols_map_copy hops]
        exact List.prefix_append _ _
      · dsimp only
        rw [hcopy, hlen, hleft, symbolBytes_symbols]
        omega
    · rw [hp] at hl ⊢
      dsimp only at hl ⊢
      rw [List.append_nil] at hl ⊢
      refine ⟨rfl, hs.withSaved hsome (Or.inr hl), ?_, fun _ ↦ ⟨?_, ?_⟩⟩
      · rw [hleft, ← hsym]
        rfl
      · have hcopied : symbols (before.map ops.copy) = s.left := by
          rw [hleft, ← hsym, symbols_map_copy hops]
        exact hcopied ▸ List.prefix_rfl
      · rw [hcopy, hleft, symbolBytes_symbols, ← symbolBytes_symbols before, hsym,
          symbolBytes_symbols]
        omega
  · rw [if_neg h0]
    exact ⟨rfl, hs, rfl, fun h ↦ absurd h h0⟩

/-- A consuming read on a copy that is not used up delivers a non-empty front part of it. -/
theorem replay_consumes (hops : ops.Documented) (hs : s.Replaying)
    (hsaved : s.ctx.savedBody = some saved) (hne : saved ≠ []) (hm : BodyMode rd.mode)
    (hspec : rd.mode ≠ .speculative) :
    (s.corazaReplaySavedBody ops rd saved).1 = .success ∧
    (s.corazaReplaySavedBody ops rd saved).2.2.Replaying ∧
    symbols (s.corazaReplaySavedBody ops rd saved).2.1 ++
      (s.corazaReplaySavedBody ops rd saved).2.2.left = s.left ∧
    symbols (s.corazaReplaySavedBody ops rd saved).2.1 ≠ [] := by
  have hleft : s.left = symbols saved := by rw [left, hsaved]; rfl
  have hsome : s.ctx.savedBody ≠ none := by rw [hsaved]; exact Option.some_ne_none _
  have hlast := (hs.last saved hsaved).resolve_left hne
  have hread := symbols_ne_nil hlast
  have heat : rd.mode ≠ .eatCrlf := by
    rcases hm with h | h | h | h
    all_goals rw [h]; decide
  unfold corazaReplaySavedBody
  rw [if_neg hne, if_neg heat]
  by_cases hg : rd.mode = .getLine
  · rw [if_pos hg]
    have hsym := hops.splitLine_symbols saved hugeStringLen
    refine ⟨rfl, hs.withSaved hsome ?_, ?_, hops.splitLine_progress _ _ (by decide) hread⟩
    · by_cases hr : (ops.splitLine saved hugeStringLen).2 = []
      · exact Or.inl hr
      · exact Or.inr (hops.splitLine_last _ _ hlast hr)
    · rw [hleft]
      exact hsym
  · rw [if_neg hg, if_neg hspec]
    by_cases hx : rd.mode = .exhaustive ∨ rd.readbytes ≤ 0
    · rw [if_pos hx]
      exact ⟨rfl, hs.withSaved hsome (Or.inl rfl), by rw [hleft]; exact List.append_nil _, hread⟩
    · rw [if_neg hx]
      have hn : 0 < rd.readbytes.toNat := by
        have : ¬ rd.readbytes ≤ 0 := fun h ↦ hx (Or.inr h)
        omega
      have hl := hops.partition_last saved rd.readbytes.toNat hlast
      rcases partition_cases hops saved hn with ⟨hge, before, after, hp, hlen, hsym⟩ |
        ⟨hlt, before, hp, hsym⟩
      · rw [hp] at hl ⊢
        refine ⟨rfl, hs.withSaved hsome ?_, by rw [hleft]; exact hsym, fun he ↦ ?_⟩
        · by_cases ha : after = []
          · exact Or.inl ha
          · rw [List.getLast?_append_of_ne_nil _ ha] at hl
            exact Or.inr hl
        · rw [← symbolBytes_symbols, he] at hlen
          exact absurd hlen (by simpa [symbolBytes] using Nat.ne_of_lt hn)
      · rw [hp]
        dsimp only
        rw [List.append_nil]
        refine ⟨rfl, hs.withSaved hsome (Or.inl rfl), ?_, by rw [hsym]; exact hread⟩
        rw [hleft, ← hsym]
        exact List.append_nil _

/-! ### One read -/

/-- What one read in a body mode does to a request whose handler may read. -/
structure ReadStep (ops : BrigadeOps) (rd : Read) (s : Exchange) : Prop where
  replaying : (s.handlerRead ops rd).2.2.Replaying
  peek : rd.mode = .speculative → (s.handlerRead ops rd).2.2.left = s.left
  consume : rd.mode ≠ .speculative →
    (if (s.handlerRead ops rd).1 = .success then symbols (s.handlerRead ops rd).2.1 else []) ++
      (s.handlerRead ops rd).2.2.left = s.left
  answered : s.left ≠ [] → (s.handlerRead ops rd).1 = .success
  peeked : s.left ≠ [] → rd.mode = .speculative → 0 < rd.readbytes →
    symbols (s.handlerRead ops rd).2.1 <+: s.left ∧
    (dataBytes (s.handlerRead ops rd).2.1).length =
      min rd.readbytes.toNat (symbolBytes s.left).length
  shrinks : s.left ≠ [] → rd.mode ≠ .speculative →
    (s.handlerRead ops rd).2.2.left.length < s.left.length

/-- Where nothing of the copy is left, a read goes below and leaves nothing. -/
theorem readStep_of_below (hleft : s.left = []) {s' : Exchange} {bb : Brigade}
    (h : s.handlerRead ops rd = (.below, bb, s')) (hs' : s'.Replaying) (hl' : s'.left = []) :
    ReadStep ops rd s := by
  refine ⟨?_, fun _ ↦ ?_, fun _ ↦ ?_, ?_, ?_, ?_⟩
  · rw [h]
    exact hs'
  · rw [h, hleft]
    exact hl'
  · rw [h, hleft]
    exact hl'
  all_goals exact fun hne ↦ absurd hleft hne

/-- While something of the copy is left, it answers the read. -/
theorem readStep_of_saved (hops : ops.Documented) (hs : s.Replaying)
    (hsaved : s.ctx.savedBody = some saved) (hne : saved ≠ []) (hm : BodyMode rd.mode) :
    ReadStep ops rd s := by
  have hon : s.r.inFilter = true := hs.onChain (by rw [hsaved]; exact Option.some_ne_none _)
  have hread : s.handlerRead ops rd = s.corazaReplaySavedBody ops rd saved := by
    rw [handlerRead, if_pos hon, corazaInputFilter, hsaved]
    dsimp only
    rw [hs.clear]
    rfl
  by_cases hspec : rd.mode = .speculative
  · have hpeek : s.corazaReplaySavedBody ops rd saved =
        s.replaySpeculative ops rd.readbytes saved := by
      rw [corazaReplaySavedBody, if_neg hne, if_neg (by rw [hspec]; decide),
        if_neg (by rw [hspec]; decide), if_pos hspec]
    obtain ⟨hst, hrep, hleft, hpre⟩ := replaySpeculative_spec hops hs hsaved hne rd.readbytes
    rw [← hpeek, ← hread] at hst hrep hleft hpre
    exact ⟨hrep, fun _ ↦ hleft, fun h ↦ absurd hspec h, fun _ ↦ hst, fun _ _ ↦ hpre,
      fun _ h ↦ absurd hspec h⟩
  · obtain ⟨hst, hrep, hsplit, hout⟩ := replay_consumes hops hs hsaved hne hm hspec
    rw [← hread] at hst hrep hsplit hout
    refine ⟨hrep, fun h ↦ absurd h hspec, fun _ ↦ ?_, fun _ ↦ hst, fun _ h ↦ absurd h hspec,
      fun _ _ ↦ ?_⟩
    · rw [if_pos hst]
      exact hsplit
    · have hpos := List.length_pos_iff.mpr hout
      rw [← hsplit, List.length_append]
      omega

/-- Every read in a body mode is one of the two. -/
theorem readStep (hops : ops.Documented) (hs : s.Replaying) (hm : BodyMode rd.mode) :
    ReadStep ops rd s := by
  cases hsaved : s.ctx.savedBody with
  | none =>
    have hleft : s.left = [] := by rw [left, hsaved]; rfl
    by_cases hon : s.r.inFilter = true
    · have hread : s.handlerRead ops rd =
          (.below, rd.below, s.updReq fun r ↦ { r with inFilter := false }) := by
        rw [handlerRead, if_pos hon, corazaInputFilter, hsaved]
      exact readStep_of_below hleft hread ⟨hs.clear, fun h ↦ absurd hsaved h, hs.last⟩ hleft
    · exact readStep_of_below hleft (by rw [handlerRead, if_neg hon]) hs hleft
  | some saved =>
    by_cases hne : saved = []
    · subst hne
      have hleft : s.left = [] := by rw [left, hsaved]; rfl
      have hon : s.r.inFilter = true := hs.onChain (by rw [hsaved]; exact Option.some_ne_none _)
      have hread : s.handlerRead ops rd = (.below, rd.below,
          (s.updCtx fun c ↦ { c with savedBody := none }).updReq
            fun r ↦ { r with inFilter := false }) := by
        rw [handlerRead, if_pos hon, corazaInputFilter, hsaved]
        dsimp only
        rw [hs.clear]
        rfl
      exact readStep_of_below hleft hread
        ⟨hs.clear, fun h ↦ absurd rfl h, fun _ he ↦ (by cases he)⟩ rfl
    · exact readStep_of_saved hops hs hsaved hne hm

/-! ### A sequence of reads -/

/-- The first read comes first. -/
theorem afterReads_cons (s : Exchange) (rd : Read) (reads : List Read) :
    s.afterReads ops (rd :: reads) = (s.handlerRead ops rd).2.2.afterReads ops reads := rfl

/-- It delivers its own part first. -/
theorem delivered_cons (replayed : Bool) (s : Exchange) (rd : Read) (reads : List Read) :
    s.delivered ops replayed (rd :: reads) =
      (if rd.mode ≠ .speculative ∧ (replayed → (s.handlerRead ops rd).1 = .success) then
        symbols (s.handlerRead ops rd).2.1 else []) ++
      (s.handlerRead ops rd).2.2.delivered ops replayed reads := rfl

private theorem replaying_afterReads (hops : ops.Documented) (hs : s.Replaying) {reads : List Read}
    (hm : ∀ rd ∈ reads, BodyMode rd.mode) : (s.afterReads ops reads).Replaying := by
  induction reads generalizing s with
  | nil => exact hs
  | cons rd reads ih =>
    rw [List.forall_mem_cons] at hm
    exact ih (readStep hops hs hm.1).replaying hm.2

/-- What was delivered and what is left make up what was left before. -/
theorem delivered_append_left (hops : ops.Documented) (hs : s.Replaying) {reads : List Read}
    (hm : ∀ rd ∈ reads, BodyMode rd.mode) :
    s.delivered ops true reads ++ (s.afterReads ops reads).left = s.left := by
  induction reads generalizing s with
  | nil => rfl
  | cons rd reads ih =>
    rw [List.forall_mem_cons] at hm
    have hstep := readStep hops hs hm.1
    rw [afterReads_cons, delivered_cons, List.append_assoc, ih hstep.replaying hm.2]
    by_cases hspec : rd.mode = .speculative
    · rw [if_neg (fun h ↦ h.1 hspec)]
      exact hstep.peek hspec
    · have hc := hstep.consume hspec
      simpa [hspec] using hc

/-- Enough consuming reads use the copy up. -/
theorem left_eq_nil_of_reads (hops : ops.Documented) (hs : s.Replaying) {reads : List Read}
    (hm : ∀ rd ∈ reads, BodyMode rd.mode ∧ rd.mode ≠ .speculative)
    (hlen : s.left.length ≤ reads.length) : (s.afterReads ops reads).left = [] := by
  induction reads generalizing s with
  | nil => exact List.length_eq_zero_iff.mp (Nat.le_zero.mp hlen)
  | cons rd reads ih =>
    rw [List.forall_mem_cons] at hm
    have hstep := readStep hops hs hm.1.1
    rw [afterReads_cons]
    refine ih hstep.replaying hm.2 ?_
    by_cases hleft : s.left = []
    · have hc := hstep.consume hm.1.2
      rw [hleft, List.append_eq_nil_iff] at hc
      rw [hc.2]
      exact Nat.zero_le _
    · have hlt := hstep.shrinks hleft hm.1.2
      rw [List.length_cons] at hlen
      omega

end Exchange

/-! ### From the hook to the handler -/

/-- The bytes handed over in two runs, one after the other. -/
@[simp] theorem requestBytes_append (a b : List Event) :
    requestBytes (a ++ b) = requestBytes a ++ requestBytes b := List.flatMap_append

private theorem requestBytes_inspected (chunks : List BodyChunk) :
    requestBytes (chunks.flatMap (inspectedChunk true)) = bodyBytes chunks := by
  induction chunks with
  | nil => rfl
  | cons chunk chunks ih =>
    rw [List.flatMap_cons, requestBytes_append, ih]
    simp [inspectedChunk, requestBytes, bodyBytes]

/-- Submitting headers hands the engine no body. -/
theorem requestBytes_submitted {pairs : List HeaderPair} {evs : List Event}
    (h : Submitted .addRequestHeaders .addRequestHeader pairs evs) : requestBytes evs = [] := by
  have hsingle : requestBytes (pairs.map fun p ↦ .call (.addRequestHeader p) 0) = [] := by
    induction pairs with
    | nil => rfl
    | cons p pairs ih => simp [requestBytes]
  rcases h with ⟨-, rfl⟩ | ⟨packed, len, -, rfl⟩ | ⟨before, hbefore, rfl⟩
  · rfl
  · rfl
  · rw [requestBytes_append, hsingle]
    rcases hbefore with rfl | ⟨packed, len, rc, -, rfl⟩
    · rfl
    · rfl

private theorem requestBytes_phase1 {s : Exchange} {evs : List Event} (h : Phase1Done s evs) :
    requestBytes evs = [] := by
  obtain ⟨rc1, rc2, rc3, headers, -, -, -, ⟨pairs, -, hheaders⟩, rfl⟩ := h
  rw [requestBytes_append, requestBytes_append, requestBytes_submitted hheaders]
  rfl

/-- A body read with access on was appended to the engine as it came. -/
theorem requestBytes_inspection {s : Exchange} {src : BodySource} {evs : List Event}
    (hb : src.shouldClientBlock = true) (h : Inspected s src evs) :
    ∃ access, .call .isRequestBodyAccessible access ∈ evs ∧
      (access ≠ 0 → requestBytes evs = bodyBytes src.chunks) := by
  obtain ⟨first, body, rc, hfirst, hbody, -, rfl⟩ := h
  rcases hbody with ⟨hno, -⟩ | ⟨-, -, access, rfl⟩
  · rw [hb] at hno
    cases hno
  · refine ⟨access, by simp, fun ha ↦ ?_⟩
    have htrue : (decide (access ≠ 0)) = true := decide_eq_true ha
    rw [htrue, requestBytes_append, requestBytes_append, requestBytes_phase1 hfirst]
    have hcons : requestBytes (.call .isRequestBodyAccessible access ::
        src.chunks.flatMap (inspectedChunk true)) = bodyBytes src.chunks :=
      requestBytes_inspected src.chunks
    rw [hcons]
    exact List.append_nil _

/-- The state an admitted request with a body is in. -/
structure Admitted (src : BodySource) (s : Exchange) : Prop where
  config : s.r.requestConfig = true
  replaying : s.Replaying
  left : s.left = (bodyBytes src.chunks).map .byte ++ [.eos]
  limit : (heapLen (s.ctx.savedBody.getD []) : Int) ≤ memLimitOf s

/-- The hook leaves a body it admits ready to be read. -/
theorem admitted_state {env : SaveEnv} (hops : env.ops.Documented) {src : BodySource}
    (hb : src.shouldClientBlock = true) (s : Exchange) (handle : Nat) (p : Process)
    (evs : List Event) : Admitted src ((s.admitted env src handle p).after evs) := by
  have hkept := kept_keptBody hops (memLimitOf_nonneg ((s.admitted env src handle p).after evs))
    src.chunks
  have hctx : ((s.admitted env src handle p).after evs).ctx.savedBody =
      some (closeBody (keptBody env.ops (memLimitOf ((s.admitted env src handle p).after evs))
        src.chunks).1 (keptBody env.ops (memLimitOf ((s.admitted env src handle p).after evs))
        src.chunks).2) := by
    simp only [Exchange.after_ctx, Exchange.admitted, hb, if_true]
    rfl
  refine ⟨?_, ⟨?_, fun _ ↦ ?_, fun saved hsaved ↦ Or.inr ?_⟩, ?_, ?_⟩
  · simp only [Exchange.after_r, Exchange.admitted, hb, if_true]
    rfl
  · simp only [Exchange.after_ctx, Exchange.admitted, hb, if_true]
    rfl
  · simp only [Exchange.after_r, Exchange.admitted, hb, if_true]
    rfl
  · rw [hctx] at hsaved
    rw [← Option.some.inj hsaved]
    exact getLast?_closeBody _ _
  · rw [Exchange.left, hctx]
    exact hkept.symbols_closeBody
  · rw [hctx, Option.getD_some, heapLen_closeBody, hkept.heap]
    exact hkept.limit

/-- The copy in memory stays within the limit while the body is read. -/
theorem ends_bodyLoop_limit {e : Engine} {env : SaveEnv} (hops : env.ops.Documented)
    {memLimit : Int} (hlim : 0 ≤ memLimit) (inspect : Bool) (chunks : List BodyChunk)
    {s : Exchange} (hc : s.r.requestConfig = true) :
    Ends (foldEach (bodyChunk e env memLimit inspect) ⟨0, none, 0⟩ chunks) (s.withSaved [])
      (fun _ s' ↦ (heapLen (s'.ctx.savedBody.getD []) : Int) ≤ memLimit)
      (Blocked s.trace) := by
  rw [← Exchange.after_nil (s.withSaved [])]
  refine ends_bodyLoop hc ?_
  have hkept := kept_keptBody hops hlim chunks
  have hheap := hkept.heap
  have hlimit := hkept.limit
  simp only [Exchange.after_ctx, Exchange.withSaved, Exchange.updCtx_ctx, Option.getD_some]
  omega

section

variable (e : Engine) (lib : WafLib) (env : SaveEnv) (src : BodySource) (s : Exchange)

/-- The hook admits a request with a body only inspected and with the copy in place. -/
theorem admitted_of_declined (hops : env.ops.Documented)
    (hsetup : src.setupClientBlock = retOk ∨ 0 < src.setupClientBlock)
    (hmain : s.r.main = false) (hon : s.enabled = true) (hctx : s.r.requestConfig = false)
    (hprev : corazaCtxFromPrev s.prev = false) (hb : src.shouldClientBlock = true)
    (hret : (exec (corazaPostReadRequest e lib env src) s).1 = retDeclined) :
    ∃ evs, (exec (corazaPostReadRequest e lib env src) s).2.trace = s.trace ++ evs ∧
      Inspected s src evs ∧ Admitted src (exec (corazaPostReadRequest e lib env src) s).2 := by
  have h := ends_corazaPostReadRequest e lib env src s hsetup hmain hon hctx hprev
  refine exec_of_ends (R := fun v s' ↦ v = retDeclined → ∃ evs, s'.trace = s.trace ++ evs ∧
    Inspected s src evs ∧ Admitted src s') (h.mono ?_ ?_) hret
  · rintro v s' ⟨-, handle, p, evs, -, hins, rfl⟩ -
    refine ⟨evs, ?_, hins, admitted_state hops hb s handle p evs⟩
    simp only [Exchange.after_trace, Exchange.admitted, hb, if_true]
    rfl
  · rintro v s' ⟨hv, -⟩ rfl
    exact absurd hv (by decide)

/-- The application reads the body the engine inspected. If the hook admits a request with a
body, then with body access on the engine got the bytes of the chunks; the part in memory is
within the limit at every point of the loop and at its end; and for every sequence of reads,
what was delivered followed by what is left is the body and one end of stream, a speculative
read shows a prefix and takes nothing, and every other read takes something, so that reading
until the end of stream ends. -/
theorem savedBody_is_body (hops : env.ops.Documented)
    (hsetup : src.setupClientBlock = retOk ∨ 0 < src.setupClientBlock)
    (hmain : s.r.main = false) (hon : s.enabled = true) (hctx : s.r.requestConfig = false)
    (hprev : corazaCtxFromPrev s.prev = false) (hb : src.shouldClientBlock = true)
    (hret : (exec (corazaPostReadRequest e lib env src) s).1 = retDeclined) :
    let s' := (exec (corazaPostReadRequest e lib env src) s).2
    (∃ evs access, s'.trace = s.trace ++ evs ∧ .call .isRequestBodyAccessible access ∈ evs ∧
      (access ≠ 0 → requestBytes evs = bodyBytes src.chunks)) ∧
    ((heapLen (s'.ctx.savedBody.getD []) : Int) ≤ memLimitOf s' ∧
      ∀ (t : Exchange) (inspect : Bool) (memLimit : Int) (done : List BodyChunk),
        t.r.requestConfig = true → 0 ≤ memLimit →
        Ends (foldEach (bodyChunk e env memLimit inspect) ⟨0, none, 0⟩ done) (t.withSaved [])
          (fun _ t' ↦ (heapLen (t'.ctx.savedBody.getD []) : Int) ≤ memLimit)
          (Blocked t.trace)) ∧
    ∀ reads : List Read, (∀ rd ∈ reads, Exchange.BodyMode rd.mode) →
      let t := s'.afterReads env.ops reads
      s'.delivered env.ops true reads ++ t.left = (bodyBytes src.chunks).map .byte ++ [.eos] ∧
      ((∀ rd ∈ reads, rd.mode ≠ .speculative) → (bodyBytes src.chunks).length < reads.length →
        t.left = []) ∧
      ∀ rd : Read, Exchange.BodyMode rd.mode → Exchange.ReadStep env.ops rd t := by
  intro s'
  obtain ⟨evs, htrace, hins, hstate⟩ :=
    admitted_of_declined e lib env src s hops hsetup hmain hon hctx hprev hb hret
  obtain ⟨access, hmem, hbytes⟩ := requestBytes_inspection hb hins
  refine ⟨⟨evs, access, htrace, hmem, hbytes⟩, ⟨hstate.limit, fun t inspect memLimit done hc hl ↦
    ends_bodyLoop_limit hops hl inspect done hc⟩, fun reads hm ↦ ⟨?_, fun hcons hlen ↦ ?_, ?_⟩⟩
  · rw [← hstate.left]
    exact Exchange.delivered_append_left hops hstate.replaying hm
  · refine Exchange.left_eq_nil_of_reads hops hstate.replaying
      (fun rd hrd ↦ ⟨hm rd hrd, hcons rd hrd⟩) ?_
    rw [hstate.left, List.length_append, List.length_map]
    exact hlen
  · exact fun rd hrd ↦
      Exchange.readStep hops (Exchange.replaying_afterReads hops hstate.replaying hm) hrd

end

/-- One read of the whole of `plainBody` delivers it. -/
theorem plainBody_replayed :
    (exec (corazaPostReadRequest quietEngine acceptingLib plainSave plainBody)
      plainExchange).2.delivered plainSave.ops true [⟨.exhaustive, 0, []⟩] =
    [.byte 1, .byte 2, .byte 3, .eos] := by
  have h := savedBody_is_body quietEngine acceptingLib plainSave plainBody plainExchange
    documented_listOps (Or.inl rfl) rfl rfl rfl rfl rfl (by decide)
  obtain ⟨hall, -, -⟩ := h.2.2 [⟨.exhaustive, 0, []⟩] (by simp [Exchange.BodyMode])
  have hnone : ((exec (corazaPostReadRequest quietEngine acceptingLib plainSave plainBody)
      plainExchange).2.afterReads plainSave.ops [⟨.exhaustive, 0, []⟩]).left = [] := by decide
  rw [hnone, List.append_nil] at hall
  exact hall

end CorazaApache.Http
