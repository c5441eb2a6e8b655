import CorazaApache.Config.Startup
import Mathlib.Data.List.Nodup

/-!
# Giving the WAFs of a child back

`src/mod_coraza.c:1284–1357`. A handle may stand on several objects, so `coraza_child_exit` looks
before it frees: a `dir_conf` is passed by if a server conf holds its handle or an earlier
`dir_conf` did. The fields are zeroed only when all of them have been looked at. Server confs
are zeroed one by one, which is what keeps one that several servers share from being freed again.
-/

namespace CorazaApache.Config
open CorazaApache.Base

namespace Process

/-- Whether a server conf holds the handle; `src/mod_coraza.c:1313–1321`. -/
def sharedWithServer (p : Process) (servers : List ServerRec) (w : Nat) : Bool :=
  servers.any fun sv ↦
    match sv.moduleConfig with
    | some c => w == p.serverWafOf c
    | none => false

/-- The first pass over the tracked objects, where `done` are those before the rest: the handles
`coraza_free_waf` is called on. `src/mod_coraza.c:1305–1338`. -/
def freeTracked (p : Process) (servers : List ServerRec) : List Nat → List Nat → List Nat
  | _, [] => []
  | done, d :: rest =>
    if p.wafOf d = 0 then freeTracked p servers (done ++ [d]) rest
    else if p.sharedWithServer servers (p.wafOf d) then freeTracked p servers (done ++ [d]) rest
    else if done.any fun j ↦ p.wafOf j == p.wafOf d then
      freeTracked p servers (done ++ [d]) rest
    else p.wafOf d :: freeTracked p servers (done ++ [d]) rest

/-- The second pass; `src/mod_coraza.c:1339–1341`. -/
def zeroTracked (p : Process) (tracked : List Nat) : Process :=
  tracked.foldl (fun p d ↦ p.setWaf d 0) p

/-- The loop over the servers: the handles freed, and what is left;
`src/mod_coraza.c:1344–1354`. -/
def freeServers : Process → List ServerRec → List Nat × Process
  | p, [] => ([], p)
  | p, sv :: rest =>
    match sv.moduleConfig with
    | none => freeServers p rest
    | some c =>
      if p.serverWafOf c ≠ 0 then
        let (freed, q) := freeServers (p.setServerWaf c 0) rest
        (p.serverWafOf c :: freed, q)
      else freeServers p rest

/-- `coraza_child_exit`: the calls of `coraza_free_waf` in order, and the state it leaves;
`src/mod_coraza.c:1290–1357`. The library stays loaded. -/
def corazaChildExit (p : Process) (servers : List ServerRec) : List Nat × Process :=
  match p.configDirConfs with
  | none => p.freeServers servers
  | some tracked =>
    let freed := p.freeTracked servers [] tracked
    let (more, q) := (p.zeroTracked tracked).freeServers servers
    (freed ++ more, q)

/-! ### Who holds a handle -/

/-- A server in the list has this conf. -/
def OnServer (servers : List ServerRec) (c : Nat) : Prop := ∃ sv ∈ servers, sv.moduleConfig = some c

/-- A server conf holds the handle. -/
def ServerHolds (p : Process) (servers : List ServerRec) (w : Nat) : Prop :=
  ∃ c, OnServer servers c ∧ p.serverWafOf c = w

/-- One of these objects holds the handle. -/
def HeldOn (p : Process) (ds : List Nat) (w : Nat) : Prop := ∃ d ∈ ds, p.wafOf d = w

/-- A `dir_conf` that was tracked when the child started holds the handle. -/
def TrackedHolds (p : Process) (w : Nat) : Prop := p.HeldOn (p.configDirConfs.getD []) w

/-- Two confs with a WAF do not have the same one. -/
def DistinctServerWafs (p : Process) (servers : List ServerRec) : Prop :=
  ∀ b c, OnServer servers b → OnServer servers c → p.serverWafOf b ≠ 0 →
    p.serverWafOf b = p.serverWafOf c → b = c

private theorem onServer_cons {sv : ServerRec} {servers : List ServerRec} {c : Nat} :
    OnServer (sv :: servers) c ↔ sv.moduleConfig = some c ∨ OnServer servers c := by
  simp [OnServer]

private theorem sharedWithServer_iff (p : Process) (servers : List ServerRec) (w : Nat) :
    p.sharedWithServer servers w = true ↔ p.ServerHolds servers w := by
  induction servers with
  | nil => simp [sharedWithServer, ServerHolds, OnServer]
  | cons sv servers ih =>
    have hcons : p.sharedWithServer (sv :: servers) w =
        ((match sv.moduleConfig with
          | some c => w == p.serverWafOf c
          | none => false) || p.sharedWithServer servers w) := rfl
    rw [hcons, Bool.or_eq_true, ih]
    simp only [ServerHolds, onServer_cons]
    cases hc : sv.moduleConfig with
    | none => simp
    | some c =>
      constructor
      · rintro (h | ⟨b, hb, hw⟩)
        · exact ⟨c, Or.inl rfl, (beq_iff_eq.mp h).symm⟩
        · exact ⟨b, Or.inr hb, hw⟩
      · rintro ⟨b, hb | hb, hw⟩
        · cases hb
          exact Or.inl (beq_iff_eq.mpr hw.symm)
        · exact Or.inr ⟨b, hb, hw⟩

/-! ### The tracked objects -/

private theorem heldOn_cons (p : Process) (d : Nat) (ds : List Nat) (w : Nat) :
    p.HeldOn (d :: ds) w ↔ p.wafOf d = w ∨ p.HeldOn ds w := by
  simp [HeldOn]

private theorem heldOn_concat (p : Process) (d : Nat) (ds : List Nat) (w : Nat) :
    p.HeldOn (ds ++ [d]) w ↔ p.HeldOn ds w ∨ p.wafOf d = w := by
  simp [HeldOn, or_and_right, exists_or]

/-- The first pass frees each handle on the tracked objects that no server holds and that was not
seen before. -/
theorem mem_freeTracked (p : Process) (servers : List ServerRec) (done rest : List Nat) (w : Nat) :
    w ∈ p.freeTracked servers done rest ↔
      w ≠ 0 ∧ ¬ p.ServerHolds servers w ∧ p.HeldOn rest w ∧ ¬ p.HeldOn done w := by
  induction rest generalizing done with
  | nil => simp [freeTracked, HeldOn]
  | cons d rest ih =>
    -- An object that is passed by has a handle that nothing is to be done for.
    have hpass (hno : p.wafOf d = 0 ∨ p.ServerHolds servers (p.wafOf d) ∨
        p.HeldOn done (p.wafOf d)) :
        w ∈ p.freeTracked servers (done ++ [d]) rest ↔
          w ≠ 0 ∧ ¬ p.ServerHolds servers w ∧ p.HeldOn (d :: rest) w ∧ ¬ p.HeldOn done w := by
      rw [ih, heldOn_cons, heldOn_concat]
      by_cases hw : p.wafOf d = w
      · rw [hw] at hno
        tauto
      · tauto
    rw [freeTracked]
    split
    · next hz => exact hpass (Or.inl hz)
    · next hz =>
      split
      · next hs => exact hpass (Or.inr (Or.inl ((p.sharedWithServer_iff servers _).mp hs)))
      · next hs =>
        rw [sharedWithServer_iff] at hs
        split
        · next hd => exact hpass (Or.inr (Or.inr (by simpa [HeldOn] using hd)))
        · next hd =>
          have hd : ¬ p.HeldOn done (p.wafOf d) := by simpa [HeldOn] using hd
          rw [List.mem_cons, ih, heldOn_cons, heldOn_concat]
          by_cases hw : p.wafOf d = w
          · rw [hw] at hz hs hd
            tauto
          · rw [eq_comm (a := w)]
            tauto

/-- It frees no handle twice. -/
theorem nodup_freeTracked (p : Process) (servers : List ServerRec) (done rest : List Nat) :
    (p.freeTracked servers done rest).Nodup := by
  induction rest generalizing done with
  | nil => exact List.nodup_nil
  | cons d rest ih =>
    rw [freeTracked]
    split
    · exact ih _
    · split
      · exact ih _
      · split
        · exact ih _
        · apply List.nodup_cons.mpr
          constructor
          · intro h
            have hseen := ((p.mem_freeTracked servers _ _ _).mp h).2.2.2
            exact hseen ⟨d, by simp, rfl⟩
          · exact ih _

/-- Only the handles of the tracked objects change, and these are zero. -/
theorem wafOf_zeroTracked (p : Process) (tracked : List Nat) (d : Nat) :
    (p.zeroTracked tracked).wafOf d = if d ∈ tracked then 0 else p.wafOf d := by
  induction tracked generalizing p with
  | nil => simp [zeroTracked]
  | cons e tracked ih =>
    have hcons : p.zeroTracked (e :: tracked) = (p.setWaf e 0).zeroTracked tracked := rfl
    rw [hcons, ih, wafOf_setWaf]
    by_cases hd : d ∈ tracked
    · simp [hd]
    · by_cases he : d = e
      · subst he
        -- An address that was never allocated reads zero anyway.
        by_cases hlt : d < p.dirConfs.size
        · simp [hlt]
        · have hzero : p.wafOf d = 0 := not_not.mp fun hne ↦ hlt (lt_size_of_wafOf hne)
          simp [hlt, hzero]
      · simp [hd, he, Ne.symm he]

/-- The second pass leaves the servers their handles. -/
@[simp] theorem serverWafOf_zeroTracked (p : Process) (tracked : List Nat) (c : Nat) :
    (p.zeroTracked tracked).serverWafOf c = p.serverWafOf c := by
  induction tracked generalizing p with
  | nil => rfl
  | cons d tracked ih =>
    have hcons : p.zeroTracked (d :: tracked) = (p.setWaf d 0).zeroTracked tracked := rfl
    rw [hcons, ih]
    rfl

/-! ### The servers -/

private theorem serverWafOf_zeroed (p : Process) (c e : Nat) :
    (p.setServerWaf c 0).serverWafOf e = if c = e then 0 else p.serverWafOf e := by
  rw [serverWafOf_setServerWaf]
  by_cases hc : c = e
  · by_cases hlt : e < p.serverConfs.size
    · rw [if_pos ⟨hc, hlt⟩, if_pos hc]
    · have hzero : p.serverWafOf e = 0 := by
        rw [serverWafOf, Arena.get_of_size_le _ _ (by omega)]
        rfl
      rw [if_neg (fun h ↦ hlt h.2), if_pos hc, hzero]
  · rw [if_neg (fun h ↦ hc h.1), if_neg hc]

/-- Zeroing a conf takes its own handle away and no other one. -/
theorem serverHolds_zeroed {p : Process} {servers : List ServerRec} {c w : Nat} (hw : w ≠ 0) :
    (p.setServerWaf c 0).ServerHolds servers w ↔
      ∃ b, OnServer servers b ∧ b ≠ c ∧ p.serverWafOf b = w := by
  constructor
  · rintro ⟨b, hb, hbw⟩
    rw [serverWafOf_zeroed] at hbw
    split at hbw
    · exact absurd hbw.symm hw
    · next hne => exact ⟨b, hb, Ne.symm hne, hbw⟩
  · rintro ⟨b, hb, hne, hbw⟩
    exact ⟨b, hb, by rw [serverWafOf_zeroed, if_neg (Ne.symm hne), hbw]⟩

private theorem DistinctServerWafs.zeroed {p : Process} {sv : ServerRec} {rest : List ServerRec}
    (h : p.DistinctServerWafs (sv :: rest)) (c : Nat) :
    (p.setServerWaf c 0).DistinctServerWafs rest := by
  intro a b ha hb hz hab
  simp only [serverWafOf_zeroed] at hz hab
  split at hz
  · exact absurd rfl hz
  · next hca =>
    rw [if_neg hca] at hab
    split at hab
    · exact absurd hab hz
    · exact h a b (onServer_cons.mpr (Or.inr ha)) (onServer_cons.mpr (Or.inr hb)) hz hab

/-- Behind the two passes the handles of the servers are freed. -/
theorem mem_freeServers (p : Process) (servers : List ServerRec) (w : Nat) :
    w ∈ (p.freeServers servers).1 ↔ w ≠ 0 ∧ p.ServerHolds servers w := by
  induction servers generalizing p with
  | nil => simp [freeServers, ServerHolds, OnServer]
  | cons sv rest ih =>
    simp only [ServerHolds, onServer_cons]
    rw [freeServers]
    cases hc : sv.moduleConfig with
    | none => simpa [ServerHolds] using ih p
    | some c =>
      dsimp only
      split
      · next hz =>
        rw [List.mem_cons, ih]
        constructor
        · rintro (rfl | ⟨hw, hheld⟩)
          · exact ⟨hz, c, Or.inl rfl, rfl⟩
          · obtain ⟨b, hb, -, hbw⟩ := (serverHolds_zeroed hw).mp hheld
            exact ⟨hw, b, Or.inr hb, hbw⟩
        · rintro ⟨hw, b, hb, hbw⟩
          by_cases hbc : b = c
          · subst hbc
            exact Or.inl hbw.symm
          · apply Or.inr
            constructor
            · exact hw
            · apply (serverHolds_zeroed hw).mpr
              exact ⟨b, hb.resolve_left fun h ↦ hbc (Option.some.inj h).symm, hbc, hbw⟩
      · next hz =>
        have hzero : p.serverWafOf c = 0 := not_not.mp hz
        rw [ih, ServerHolds]
        apply and_congr_right
        intro hw
        constructor
        · rintro ⟨b, hb, hbw⟩
          exact ⟨b, Or.inr hb, hbw⟩
        · rintro ⟨b, hb | hb, hbw⟩
          · cases hb
            exact absurd (hbw.symm.trans hzero) hw
          · exact ⟨b, hb, hbw⟩

/-- It frees no handle twice if no two servers share one. -/
theorem nodup_freeServers {p : Process} {servers : List ServerRec}
    (h : p.DistinctServerWafs servers) : (p.freeServers servers).1.Nodup := by
  induction servers generalizing p with
  | nil => exact List.nodup_nil
  | cons sv rest ih =>
    have hrest : p.DistinctServerWafs rest := fun a b ha hb ↦
      h a b (onServer_cons.mpr (Or.inr ha)) (onServer_cons.mpr (Or.inr hb))
    rw [freeServers]
    cases hc : sv.moduleConfig with
    | none => exact ih hrest
    | some c =>
      dsimp only
      split
      · next hz =>
        apply List.nodup_cons.mpr
        constructor
        · intro hmem
          obtain ⟨hw, hheld⟩ := (mem_freeServers _ rest _).mp hmem
          obtain ⟨b, hb, hbc, hbw⟩ := (serverHolds_zeroed hw).mp hheld
          have hbz : p.serverWafOf b ≠ 0 := by rwa [hbw]
          exact hbc (h b c (onServer_cons.mpr (Or.inr hb)) (onServer_cons.mpr (Or.inl hc)) hbz hbw)
        · exact ih (h.zeroed c)
      · exact ih hrest

/-- The loop does not touch a `dir_conf`. -/
theorem wafOf_freeServers (p : Process) (servers : List ServerRec) (d : Nat) :
    (p.freeServers servers).2.wafOf d = p.wafOf d := by
  induction servers generalizing p with
  | nil => rfl
  | cons sv rest ih =>
    rw [freeServers]
    split
    · exact ih p
    · split
      · exact ih _
      · exact ih p

/-- A zero handle stays, and every conf of a server has one in the end. -/
theorem serverWafOf_freeServers (p : Process) (servers : List ServerRec) (c : Nat) :
    p.serverWafOf c = 0 ∨ OnServer servers c → (p.freeServers servers).2.serverWafOf c = 0 := by
  induction servers generalizing p with
  | nil => simp [freeServers, OnServer]
  | cons sv rest ih =>
    rw [onServer_cons, freeServers]
    cases hb : sv.moduleConfig with
    | none =>
      intro h
      exact ih p (h.imp_right fun h ↦ h.resolve_left (by simp))
    | some b =>
      dsimp only
      intro h
      split
      · apply ih
        rw [serverWafOf_zeroed]
        by_cases hbc : b = c
        · exact Or.inl (if_pos hbc)
        · rw [if_neg hbc]
          exact h.imp_right fun h ↦ h.resolve_left fun h ↦ hbc (Option.some.inj h)
      · next hz =>
        apply ih
        rcases h with h | h | h
        · exact Or.inl h
        · cases h
          exact Or.inl (not_not.mp hz)
        · exact Or.inr h

/-- The two passes over the tracked objects and the loop over the servers, whether or not there
are tracked objects. -/
theorem corazaChildExit_eq (p : Process) (servers : List ServerRec) :
    p.corazaChildExit servers =
      (p.freeTracked servers [] (p.configDirConfs.getD []) ++
          ((p.zeroTracked (p.configDirConfs.getD [])).freeServers servers).1,
        ((p.zeroTracked (p.configDirConfs.getD [])).freeServers servers).2) := by
  unfold corazaChildExit
  cases p.configDirConfs with
  | none => rfl
  | some tracked => rfl

/-- However the handles are spread over the tracked `dir_conf`s and the server confs, each one
that is not zero is freed once, nothing else is, and no field keeps one. -/
theorem childExit_frees_once (p : Process) (servers : List ServerRec)
    (h : p.DistinctServerWafs servers) :
    (p.corazaChildExit servers).1.Nodup ∧
      (∀ w, w ∈ (p.corazaChildExit servers).1 ↔
        w ≠ 0 ∧ (p.ServerHolds servers w ∨ p.TrackedHolds w)) ∧
      (∀ c, OnServer servers c → (p.corazaChildExit servers).2.serverWafOf c = 0) ∧
      ∀ d ∈ p.configDirConfs.getD [], (p.corazaChildExit servers).2.wafOf d = 0 := by
  rw [corazaChildExit_eq]
  set tracked := p.configDirConfs.getD [] with ht
  -- Zeroing the tracked objects does not change what the servers hold.
  have hserver (w : Nat) : (p.zeroTracked tracked).ServerHolds servers w ↔
      p.ServerHolds servers w := by
    simp only [ServerHolds, serverWafOf_zeroTracked]
  have hdistinct : (p.zeroTracked tracked).DistinctServerWafs servers := by
    simpa only [DistinctServerWafs, serverWafOf_zeroTracked] using h
  have hnone (w : Nat) : ¬ p.HeldOn [] w := by simp [HeldOn]
  apply And.intro
  · apply List.Nodup.append (p.nodup_freeTracked servers [] tracked)
      (nodup_freeServers hdistinct)
    intro w hd hs
    rw [mem_freeTracked] at hd
    rw [mem_freeServers, hserver] at hs
    exact hd.2.1 hs.2
  apply And.intro
  · intro w
    rw [List.mem_append, mem_freeTracked, mem_freeServers, hserver]
    have hw := hnone w
    have htracked : p.TrackedHolds w ↔ p.HeldOn tracked w := Iff.rfl
    tauto
  constructor
  · intro c hc
    exact serverWafOf_freeServers _ servers c (Or.inr hc)
  · intro d hd
    rw [wafOf_freeServers, wafOf_zeroTracked, if_pos hd]

/-- Three servers with two confs between them, and five tracked objects: two have a handle of
their own in common, one has that of a server, one has none. -/
def sharedHandles : Process :=
  { init with
    dirConfs := ⟨[5, 9, 5, 0, 7].map fun w ↦ { (default : CorazaDirConf) with waf := w }⟩
    serverConfs := ⟨[9, 8].map fun w ↦ { (default : CorazaServerConf) with waf := w }⟩
    configDirConfs := some [0, 1, 2, 3, 4] }

/-- The servers of `sharedHandles`. -/
def sharingServers : List ServerRec := [⟨some 0, none⟩, ⟨some 0, none⟩, ⟨some 1, none⟩]

/-- Handles shared between servers and sections are freed once. -/
theorem childExit_frees_shared :
    (sharedHandles.corazaChildExit sharingServers).1 = [5, 7, 9, 8] ∧
      (sharedHandles.corazaChildExit sharingServers).1.Nodup ∧
      ∀ d ∈ [0, 1, 2, 3, 4], (sharedHandles.corazaChildExit sharingServers).2.wafOf d = 0 := by
  have hconf (c : Nat) (hc : OnServer sharingServers c) : c = 0 ∨ c = 1 := by
    simp [OnServer, sharingServers] at hc
    omega
  have hdistinct : sharedHandles.DistinctServerWafs sharingServers := by
    intro b c hb hc hz hbc
    rcases hconf b hb with rfl | rfl <;> rcases hconf c hc with rfl | rfl <;>
      first | rfl | exact absurd hbc (by decide)
  have hfree := childExit_frees_once sharedHandles sharingServers hdistinct
  exact ⟨by decide, hfree.1, hfree.2.2.2⟩

end Process
end CorazaApache.Config
