import CorazaApache.Config.MergeAlgebra

/-!
# Refusing a configuration that is on without rules

`src/mod_coraza.c:1364–1456`. The check has two sides that see different things. Every rule
directive is counted, in whatever section it stands. Where `Coraza On` is looked for is a list:
the servers' own level and the vectors of their `<Directory>` and `<Location>` sections. httpd
keeps the vectors of `<Files>` and `<If>` sections in the per-directory configuration of the
scope around them, which the check does not open.
-/

namespace CorazaApache.Config
open CorazaApache.Base

/-! ### Static configurations with their sections -/

/-- The sections the module's directives are allowed in. -/
inductive SectionKind where
  | directory
  | location
  | files
  | ifSection
  deriving DecidableEq, Repr

/-- A section: the server it belongs to, its kind, and the number of the section around it, with
`none` at server level. -/
structure ConfSection where
  server : Nat
  kind : SectionKind
  enclosing : Option Nat
  deriving DecidableEq

/-- A static configuration with its sections in the order in which they are opened, so that the
one around another comes first. -/
structure SectionedConf extends StaticConf where
  sections : List ConfSection
  inside : ∀ d ∈ directives, ∀ k, d.scope = some k →
    ∃ sec : ConfSection, sections[k]? = some sec ∧ sec.server = d.server
  nested : ∀ (k : Nat) (sec : ConfSection), sections[k]? = some sec → sec.server ≤ vhosts ∧
    ∀ j, sec.enclosing = some j →
      j < k ∧ ∃ outer : ConfSection, sections[j]? = some outer ∧ outer.server = sec.server

/-- What the check reads of `core_server_config`: the module's slot in each vector of `sec_dir`
and of `sec_url`. -/
structure CoreServerConfig where
  secDir : List (Option Nat)
  secUrl : List (Option Nat)
  deriving DecidableEq

/-- A `server_rec` with its `core_server_config`. -/
structure CheckedServer extends ServerRec where
  core : Option CoreServerConfig
  deriving DecidableEq

namespace SectionedConf

/-- The vectors of the sections of one kind at one server. -/
def vectors (conf : SectionedConf) (st : Startup) (server : Nat) (kind : SectionKind) :
    List (Option Nat) :=
  (List.range conf.sections.length).filterMap fun k ↦
    match conf.sections[k]? with
    | some sec =>
      if sec.server = server ∧ sec.kind = kind then some (st.dirVector (server, some k)) else none
    | none => none

/-- The `core_server_config` of server `i`; that of a virtual host is merged onto the main
server's. -/
def coreServerConfig (conf : SectionedConf) (st : Startup) (i : Nat) : CoreServerConfig :=
  let own := fun kind ↦ conf.vectors st i kind
  let base := fun kind ↦ if i = 0 then [] else conf.vectors st 0 kind
  ⟨base .directory ++ own .directory, base .location ++ own .location⟩

/-- What the `check_config` hook is called with. -/
def load (conf : SectionedConf) (env : ConfigEnv) :
    Except (List UInt8) (List CheckedServer × Process) :=
  match Startup.init.readDirectives env conf.directives, conf.toStaticConf.load env with
  | .ok st, .ok (servers, p) =>
    .ok (servers.zipIdx.map fun x ↦ ⟨x.1, some (conf.coreServerConfig st x.2)⟩, p)
  | .error err, _ => .error err
  | .ok _, .error err => .error err

end SectionedConf

/-! ### The check -/

/-- The message of the check, for the scope it found; `src/mod_coraza.c:1445–1451`. -/
def corazaNoRulesMsg (scope : List UInt8) : List UInt8 :=
  ascii "coraza: \"Coraza On\" (" ++ scope ++
    ascii (") requires at least one rule directive -- CorazaRules, CorazaRulesFile or a Sec* " ++
      "directive -- somewhere in the server configuration, and none was found: the WAF would " ++
      "run without rules and pass everything through. Rules that live only in .htaccess files " ++
      "are not visible at startup.")

namespace Process

/-- `coraza_config_has_rules`; `src/mod_coraza.c:1364–1382`. -/
def corazaConfigHasRules (p : Process) (servers : List CheckedServer) : Bool :=
  servers.any fun sv ↦
    match sv.moduleConfig with
    | some c =>
      decide (0 < (p.serverConfs.get c).rulesInline ∨ 0 < (p.serverConfs.get c).rulesFile)
    | none => false

/-- The module's slot of a vector is enabled. -/
def enabledBy (p : Process) (slot : Option Nat) : Bool :=
  match slot with
  | some d => (p.dirConfs.get d).enable == 1
  | none => false

/-- One round of the search; `src/mod_coraza.c:1396–1421`. -/
def enabledAt (p : Process) (sv : CheckedServer) : Option (List UInt8) :=
  if p.enabledBy sv.lookupDefaults then some (ascii "server level")
  else
    match sv.core with
    | none => none
    | some csc =>
      if csc.secDir.any p.enabledBy then some (ascii "in a <Directory> section")
      else if csc.secUrl.any p.enabledBy then some (ascii "in a <Location> section")
      else none

/-- `coraza_config_enabled_where`: the scope and the server; `src/mod_coraza.c:1384–1424`. -/
def corazaConfigEnabledWhere (p : Process) :
    List CheckedServer → Option (List UInt8 × CheckedServer)
  | [] => none
  | sv :: rest =>
    match p.enabledAt sv with
    | some scope => some (scope, sv)
    | none => corazaConfigEnabledWhere p rest

/-- `coraza_check_config`: `OK`, or `HTTP_INTERNAL_SERVER_ERROR` with what is logged and for which
server; `src/mod_coraza.c:1426–1456`. -/
def corazaCheckConfig (p : Process) (servers : List CheckedServer) :
    Except (List UInt8 × CheckedServer) Unit :=
  match p.corazaConfigEnabledWhere servers with
  | some (scope, sv) =>
    if !p.corazaConfigHasRules servers then .error (corazaNoRulesMsg scope, sv) else .ok ()
  | none => .ok ()

end Process

/-! ### What a configuration says -/

/-- The `Coraza` directives of a scope, in order. -/
def flagsAt (ds : List PlacedDirective) (slot : Nat × Option Nat) : List Bool :=
  ds.filterMap fun d ↦ if (d.server, d.scope) = slot then d.directive.flag else none

/-- How many rules of one kind stand anywhere in a server. -/
def ruleCount (ds : List PlacedDirective) (server : Nat) (t : CorazaRuleType) : Nat :=
  ds.countP fun d ↦ d.server = server ∧ d.directive.ruleType = some t

namespace SectionedConf

/-- The scope sets `Coraza On`: the last of its `Coraza` directives does. -/
def SetsOn (conf : SectionedConf) (slot : Nat × Option Nat) : Prop :=
  (flagsAt conf.directives slot).getLast? = some true

instance (conf : SectionedConf) (slot : Nat × Option Nat) : Decidable (conf.SetsOn slot) :=
  inferInstanceAs (Decidable (_ = some true))

/-- Some scope of some server carries a rule directive. -/
def HasRules (conf : SectionedConf) : Prop := ∃ d ∈ conf.directives, d.directive.ruleType ≠ none

instance (conf : SectionedConf) : Decidable conf.HasRules :=
  inferInstanceAs (Decidable (∃ d ∈ conf.directives, d.directive.ruleType ≠ none))

/-- The scope is the level of a server, a `<Directory>` or a `<Location>`. -/
def Walked (conf : SectionedConf) (slot : Nat × Option Nat) : Prop :=
  ∀ k, slot.2 = some k → ∃ sec : ConfSection, conf.sections[k]? = some sec ∧
    (sec.kind = .directory ∨ sec.kind = .location)

/-- At some server the number of rules of one kind is not a multiple of 2³². -/
def CountsRules (conf : SectionedConf) : Prop :=
  ∃ i t, ruleCount conf.directives i t % 2 ^ 32 ≠ 0

end SectionedConf

/-! ### Reading the directives -/

/-- The field `enable` for the last directive of a scope. -/
def enableValue : Option Bool → Int
  | none => -1
  | some b => if b then 1 else 0

/-- The field `enable` at the level of server `i`; a virtual host inherits the main server's. -/
def levelEnable (ds : List PlacedDirective) (i : Nat) : Int :=
  override (-1) (enableValue (flagsAt ds (0, none)).getLast?)
    (enableValue (flagsAt ds (i, none)).getLast?)

/-- The counter of one kind of rule. -/
def CorazaServerConf.counter (sc : CorazaServerConf) : CorazaRuleType → UInt32
  | .inline => sc.rulesInline
  | .file => sc.rulesFile

private theorem Process.counter_countRule (sc : CorazaServerConf) (e : CorazaRuleEntry)
    (t : CorazaRuleType) :
    (Process.countRule sc e).counter t = sc.counter t + if t = e.type then 1 else 0 := by
  unfold Process.countRule
  cases he : e.type <;> cases t <;> simp [CorazaServerConf.counter]

private theorem Process.enable_run {env : ConfigEnv} {p q : Process} {path : Bool} {dcf scf : Nat}
    {dir : Directive} (h : dir.run env p path dcf scf = .ok q) {d : Nat}
    (hd : d < p.dirConfs.size) :
    (q.dirConfs.get d).enable =
      if d = dcf then dir.flag.elim (p.dirConfs.get d).enable fun b ↦ if b then 1 else 0
      else (p.dirConfs.get d).enable := by
  rcases directive_run_cases h with ⟨cmd, e, -, ht, rfl⟩ | ⟨f, -, -, hf, rfl⟩
  · have hflag : dir.flag = none := Directive.flag_of_ruleType (by rw [ht]; exact nofun)
    rw [storeRule_eq, hflag]
    simp only [Arena.get_set, Option.elim_none, ite_self]
    split
    · next hs => rw [hs.1]
    · rfl
  · simp only [updateDirConf, Arena.get_set]
    by_cases hs : d = dcf
    · subst hs
      rw [if_pos ⟨rfl, hd⟩, if_pos rfl]
      exact hf _
    · rw [if_neg (fun hn ↦ hs hn.1.symm), if_neg hs]

private theorem Process.counter_run {env : ConfigEnv} {p q : Process} {path : Bool} {dcf scf : Nat}
    {dir : Directive} (h : dir.run env p path dcf scf = .ok q) {c : Nat}
    (hc : c < p.serverConfs.size) (t : CorazaRuleType) :
    (q.serverConfs.get c).counter t =
      (p.serverConfs.get c).counter t + if c = scf ∧ dir.ruleType = some t then 1 else 0 := by
  rcases directive_run_cases h with ⟨cmd, e, -, ht, rfl⟩ | ⟨f, -, ht, -, rfl⟩
  · rw [storeRule_eq, ht]
    simp only [Arena.get_set]
    by_cases hs : c = scf
    · subst hs
      rw [if_pos ⟨rfl, hc⟩, counter_countRule]
      simp [eq_comm]
    · rw [if_neg (fun hn ↦ hs hn.1.symm), if_neg (fun hn ↦ hs hn.1)]
      exact (UInt32.add_zero _).symm
  · rw [ht, if_neg (fun hn ↦ nomatch hn.2)]
    exact (UInt32.add_zero _).symm

private theorem flagsAt_concat (ds : List PlacedDirective) (d : PlacedDirective)
    (slot : Nat × Option Nat) :
    flagsAt (ds ++ [d]) slot =
      flagsAt ds slot ++ if (d.server, d.scope) = slot then d.directive.flag.toList else [] := by
  rw [flagsAt, List.filterMap_append, flagsAt]
  congr 1
  by_cases hs : (d.server, d.scope) = slot
  · cases hf : d.directive.flag <;> simp [hs, hf]
  · simp [hs]

private theorem ruleCount_concat (ds : List PlacedDirective) (d : PlacedDirective) (i : Nat)
    (t : CorazaRuleType) :
    ruleCount (ds ++ [d]) i t =
      ruleCount ds i t + if d.server = i ∧ d.directive.ruleType = some t then 1 else 0 := by
  rw [ruleCount, List.countP_append, List.countP_singleton, ruleCount]
  simp

namespace Startup

/-- What the directives read so far have left in the objects of their scopes and servers. -/
structure Noted (st : Startup) (ds : List PlacedDirective) : Prop where
  enable : ∀ slot d, st.dirVector slot = some d →
    (st.process.dirConfs.get d).enable = enableValue (flagsAt ds slot).getLast?
  unset : ∀ slot, st.dirVector slot = none → flagsAt ds slot = []
  counts : ∀ i c, st.moduleConfig i = some c → ∀ t,
    (st.process.serverConfs.get c).counter t = UInt32.ofNat (ruleCount ds i t)
  uncounted : ∀ i, st.moduleConfig i = none → ∀ t, ruleCount ds i t = 0

private theorem noted_init : Noted init [] where
  enable slot d h := by
    simp only [init] at h
    split at h
    · cases h
      rfl
    · cases h
  unset _ _ := rfl
  counts i c h t := by
    simp only [init] at h
    split at h
    · cases h
      cases t <;> rfl
    · cases h
  uncounted _ _ _ := rfl

variable {st : Startup} {ds : List PlacedDirective}

private theorem Noted.ensureDirConf (h : Noted st ds) (hr : Reading st) (slot : Nat × Option Nat) :
    Noted (st.ensureDirConf slot).2 ds := by
  unfold Startup.ensureDirConf
  cases hs : st.dirVector slot with
  | some d => exact h
  | none =>
    refine ⟨fun s d hd ↦ ?_, fun s hn ↦ ?_, h.counts, h.uncounted⟩
    · simp only [Process.corazaCreateDirConf_fst] at hd
      split at hd
      · next he =>
        cases hd
        rw [he, h.unset slot hs]
        simp only [Process.corazaCreateDirConf, Arena.get_alloc_self]
        rfl
      · simp only [Process.corazaCreateDirConf]
        rw [Arena.get_alloc_of_lt _ _ _ (hr.dirLt s d hd)]
        exact h.enable s d hd
    · apply h.unset
      dsimp only at hn
      split at hn
      · cases hn
      · exact hn

private theorem Noted.ensureServerConf (h : Noted st ds) (hr : Reading st) (server : Nat) :
    Noted (st.ensureServerConf server).2 ds := by
  unfold Startup.ensureServerConf
  cases hs : st.moduleConfig server with
  | some c => exact h
  | none =>
    refine ⟨h.enable, h.unset, fun i c hc t ↦ ?_, fun i hn ↦ ?_⟩
    · simp only [Process.corazaCreateServerConf_fst] at hc
      split at hc
      · next he =>
        cases hc
        rw [he, h.uncounted server hs]
        simp only [Process.corazaCreateServerConf, Arena.get_alloc_self]
        cases t <;> rfl
      · simp only [Process.corazaCreateServerConf]
        rw [Arena.get_alloc_of_lt _ _ _ (hr.confLt i c hc)]
        exact h.counts i c hc t
    · apply h.uncounted
      dsimp only at hn
      split at hn
      · cases hn
      · exact hn

/-- One accepted directive adds its own flag or its own rule, and nothing elsewhere. -/
theorem Noted.run (h : Noted st ds) (hr : Reading st) {env : ConfigEnv} {d : PlacedDirective}
    {dcf scf : Nat} (hd : st.dirVector (d.server, d.scope) = some dcf)
    (hc : st.moduleConfig d.server = some scf) {p : Process}
    (hrun : d.directive.run env st.process d.scope.isSome dcf scf = .ok p) :
    Noted { st with process := p } (ds ++ [d]) where
  enable slot x hx := by
    dsimp only
    rw [Process.enable_run hrun (hr.dirLt slot x hx), h.enable slot x hx, flagsAt_concat]
    by_cases hs : (d.server, d.scope) = slot
    · subst hs
      rw [hd] at hx
      cases hx
      rw [if_pos rfl, if_pos rfl]
      cases d.directive.flag with
      | none => simp
      | some b => simp [enableValue]
    · have hne : x ≠ dcf := by
        rintro rfl
        exact hs (hr.dirInj _ _ x hd hx)
      rw [if_neg hne, if_neg hs, List.append_nil]
  unset slot hn := by
    have hs : (d.server, d.scope) ≠ slot := by
      rintro rfl
      rw [hd] at hn
      cases hn
    rw [flagsAt_concat, h.unset slot hn, if_neg hs, List.append_nil]
  counts i c hi t := by
    dsimp only
    rw [Process.counter_run hrun (hr.confLt i c hi), h.counts i c hi, ruleCount_concat,
      UInt32.ofNat_add]
    congr 1
    have hiff : c = scf ↔ d.server = i := by
      constructor
      · rintro rfl
        exact hr.confInj _ _ c hc hi
      · rintro rfl
        rw [hi] at hc
        exact Option.some.inj hc
    simp only [hiff]
    split <;> rfl
  uncounted i hn t := by
    have hs : ¬ (d.server = i ∧ d.directive.ruleType = some t) := by
      rintro ⟨rfl, -⟩
      rw [hc] at hn
      cases hn
    rw [ruleCount_concat, h.uncounted i hn, if_neg hs]

private theorem Noted.readDirective (h : Noted st ds) (hr : Reading st) {env : ConfigEnv}
    {d : PlacedDirective} {st' : Startup} (hread : st.readDirective env d = .ok st') :
    Noted st' (ds ++ [d]) := by
  obtain ⟨hr₁, hd⟩ := hr.ensureDirConf (d.server, d.scope)
  obtain ⟨hr₂, hc, hvec⟩ := hr₁.ensureServerConf d.server
  have h₂ := (h.ensureDirConf hr (d.server, d.scope)).ensureServerConf hr₁ d.server
  unfold Startup.readDirective at hread
  dsimp only at hread
  split at hread
  · cases hread
  · next p hrun =>
    cases hread
    exact h₂.run hr₂ (by rw [hvec]; exact hd) hc hrun

/-- Over the whole file. -/
theorem Noted.readDirectives (h : Noted st ds) (hr : Reading st) {env : ConfigEnv}
    {rest : List PlacedDirective} {st' : Startup}
    (hread : st.readDirectives env rest = .ok st') : Noted st' (ds ++ rest) := by
  induction rest generalizing st ds with
  | nil =>
    cases hread
    rw [List.append_nil]
    exact h
  | cons d rest ih =>
    rw [Startup.readDirectives] at hread
    split at hread
    · cases hread
    · next st₁ h₁ =>
      have h' := ih (h.readDirective hr h₁) (hr.readDirective h₁) hread
      rwa [List.append_assoc, List.singleton_append] at h'

/-! ### The servers the check walks -/

/-- Server `i` after the fix-up. -/
structure Served (st : Startup) (ds : List PlacedDirective) (q : Process) (i : Nat)
    (sv : ServerRec) : Prop where
  conf : sv.moduleConfig = (st.moduleConfig i).or (st.moduleConfig 0)
  base : ∃ d < q.dirConfs.size, sv.lookupDefaults = some d ∧
    (q.dirConfs.get d).enable = levelEnable ds i

private theorem Served.extends {q q' : Process} {i : Nat} {sv : ServerRec} (h : Served st ds q i sv)
    (he : q.Extends q') : Served st ds q' i sv := by
  obtain ⟨d, hd, hs, henable⟩ := h.base
  refine ⟨h.conf, d, Nat.lt_of_lt_of_le hd he.size, hs, ?_⟩
  rw [he.dir d hd]
  exact henable

/-- The main server and a virtual host without a level of its own have the main level. -/
theorem Noted.levelEnable_of_main (h : Noted st ds) (hr : Reading st) {b : Nat}
    (hb : st.dirVector (0, none) = some b) {q : Process} (hq : st.process.Extends q) {i : Nat}
    (hi : i = 0 ∨ st.dirVector (i, none) = none) :
    (q.dirConfs.get b).enable = levelEnable ds i := by
  rw [hq.dir b (hr.dirLt _ b hb), h.enable _ b hb, levelEnable]
  rcases hi with rfl | hi
  · unfold override
    split <;> rfl
  · rw [h.unset _ hi]
    exact (override_unset_right (-1) _).symm

private theorem Noted.fixupVirtualHost (h : Noted st ds) (hr : Reading st) {q : Process}
    (hq : Fixing st q) (i : Nat) :
    Served st ds (Config.fixupVirtualHost (st.serverRec 0) q (st.serverRec i)).2 i
      (Config.fixupVirtualHost (st.serverRec 0) q (st.serverRec i)).1 := by
  obtain ⟨b, hb⟩ := Option.isSome_iff_exists.mp hr.main.2
  have hblt := hr.dirLt _ b hb
  simp only [Config.fixupVirtualHost, serverRec, hb]
  cases hd : st.dirVector (i, none) with
  | none =>
    have hlt := Nat.lt_of_lt_of_le hblt hq.ext.size
    exact ⟨rfl, b, hlt, rfl, h.levelEnable_of_main hr hb hq.ext (Or.inr hd)⟩
  | some d =>
    refine ⟨rfl, q.dirConfs.size, ?_, rfl, ?_⟩
    · rw [Process.size_merge]
      exact Nat.lt_succ_self _
    · have hmerge := congrArg Settings.enable (q.settingsOf_merge b d)
      have hbe : (q.settingsOf b).enable = enableValue (flagsAt ds (0, none)).getLast? := by
        rw [← h.enable _ b hb, ← hq.ext.dir b hblt]
        rfl
      have hde : (q.settingsOf d).enable = enableValue (flagsAt ds (i, none)).getLast? := by
        rw [← h.enable _ d hd, ← hq.ext.dir d (hr.dirLt _ d hd)]
        rfl
      apply hmerge.trans
      show override (-1) _ _ = _
      rw [hbe, hde, levelEnable]

private theorem Noted.fixupVirtualHosts (h : Noted st ds) (hr : Reading st) {s b : Nat}
    (hs : st.moduleConfig 0 = some s) (hb : st.dirVector (0, none) = some b) {q : Process}
    (hq : Fixing st q) (is : List Nat) (hi : ∀ i ∈ is, i ≠ 0) :
    List.Forall₂ (Served st ds (Config.fixupVirtualHosts (st.serverRec 0) q
      (is.map st.serverRec)).2) is
      (Config.fixupVirtualHosts (st.serverRec 0) q (is.map st.serverRec)).1 := by
  induction is generalizing q with
  | nil => exact .nil
  | cons i is ih =>
    obtain ⟨hi0, hirest⟩ := List.forall_mem_cons.mp hi
    obtain ⟨hq₁, -, -⟩ := hr.fixupVirtualHost hs hb hq hi0
    obtain ⟨-, hext, -, -⟩ := hr.fixupVirtualHosts hs hb hq₁ is hirest
    simp only [List.map_cons, Config.fixupVirtualHosts]
    exact .cons ((h.fixupVirtualHost hr hq i).extends hext) (ih hq₁ hirest)

/-- What the hooks are called with, for a configuration that is accepted. -/
theorem served_of_load {conf : StaticConf} {env : ConfigEnv} {servers : List ServerRec}
    {p : Process} {st : Startup} (hst : init.readDirectives env conf.directives = .ok st)
    (hl : conf.load env = .ok (servers, p)) :
    st.process.Extends p ∧
      List.Forall₂ (Served st conf.directives p) (List.range (conf.vhosts + 1)) servers := by
  have hr : Reading st := reading_init.readDirectives hst
  have h : Noted st conf.directives := noted_init.readDirectives reading_init hst
  obtain ⟨s, hs⟩ := Option.isSome_iff_exists.mp hr.main.1
  obtain ⟨b, hb⟩ := Option.isSome_iff_exists.mp hr.main.2
  have hall := h.fixupVirtualHosts hr hs hb hr.fixing _ (vhosts_ne_zero conf.vhosts)
  obtain ⟨hq, -, -, -⟩ := hr.fixupVirtualHosts hs hb hr.fixing _ (vhosts_ne_zero conf.vhosts)
  rw [List.map_map, show st.serverRec ∘ (· + 1) = fun i ↦ st.serverRec (i + 1) from rfl]
    at hall hq
  rw [StaticConf.load, hst] at hl
  cases hl
  refine ⟨hq.ext, ?_⟩
  rw [List.range_succ_eq_map]
  refine .cons ⟨?_, b, Nat.lt_of_lt_of_le (hr.dirLt _ b hb) hq.ext.size, hb, ?_⟩ hall
  · rw [serverRec, Option.or_self]
  · exact h.levelEnable_of_main hr hb hq.ext (Or.inl rfl)

end Startup

/-! ### What the check sees -/

private theorem enableValue_eq_one {o : Option Bool} : enableValue o = 1 ↔ o = some true := by
  rcases o with _ | _ | _ <;> decide

private theorem Process.enabledBy_iff {p : Process} {slot : Option Nat} :
    p.enabledBy slot = true ↔ ∃ d, slot = some d ∧ (p.dirConfs.get d).enable = 1 := by
  cases slot with
  | none => simp [Process.enabledBy]
  | some d => simp [Process.enabledBy]

private theorem Process.enabledAt_eq_none {p : Process} {sv : CheckedServer}
    {csc : CoreServerConfig}
    (hcore : sv.core = some csc) : p.enabledAt sv = none ↔ p.enabledBy sv.lookupDefaults = false ∧
      csc.secDir.any p.enabledBy = false ∧ csc.secUrl.any p.enabledBy = false := by
  unfold Process.enabledAt
  rw [hcore]
  dsimp only
  cases p.enabledBy sv.lookupDefaults <;> cases csc.secDir.any p.enabledBy <;>
    cases csc.secUrl.any p.enabledBy <;> simp

private theorem Process.enabledWhere_eq_none {p : Process} {servers : List CheckedServer} :
    p.corazaConfigEnabledWhere servers = none ↔ ∀ sv ∈ servers, p.enabledAt sv = none := by
  induction servers with
  | nil => simp [Process.corazaConfigEnabledWhere]
  | cons sv rest ih =>
    rw [Process.corazaConfigEnabledWhere, List.forall_mem_cons, ← ih]
    cases p.enabledAt sv with
    | none => simp
    | some scope => simp

namespace SectionedConf

variable {conf : SectionedConf} {env : ConfigEnv} {servers : List CheckedServer} {p : Process}

/-- A vector of a section belongs to a section of that kind at that server. -/
theorem mem_vectors {st : Startup} {i : Nat} {kind : SectionKind} {slot : Option Nat} :
    slot ∈ conf.vectors st i kind ↔ ∃ (k : Nat) (sec : ConfSection),
      conf.sections[k]? = some sec ∧ sec.server = i ∧ sec.kind = kind ∧
        st.dirVector (i, some k) = slot := by
  unfold vectors
  rw [List.mem_filterMap]
  constructor
  · rintro ⟨k, -, hk⟩
    cases hsec : conf.sections[k]? with
    | none => simp [hsec] at hk
    | some sec =>
      simp only [hsec, Option.ite_none_right_eq_some, Option.some.injEq] at hk
      exact ⟨k, sec, hsec, hk.1.1, hk.1.2, hk.2⟩
  · rintro ⟨k, sec, hsec, hserver, hkind, hslot⟩
    have hlt : k < conf.sections.length := (List.getElem?_eq_some_iff.mp hsec).1
    refine ⟨k, List.mem_range.mpr hlt, ?_⟩
    simp only [hsec]
    rw [if_pos ⟨hserver, hkind⟩, hslot]

/-- The hook's servers, with what the directives left. -/
structure Loaded (conf : SectionedConf) (st : Startup) (servers : List CheckedServer)
    (p : Process) : Prop where
  reading : Startup.Reading st
  noted : Startup.Noted st conf.directives
  ext : st.process.Extends p
  length : servers.length = conf.vhosts + 1
  server : ∀ i sv, servers[i]? = some sv →
    Startup.Served st conf.directives p i sv.toServerRec ∧
      sv.core = some (conf.coreServerConfig st i)

private theorem loaded_of_load (hl : conf.load env = .ok (servers, p)) :
    ∃ st, Loaded conf st servers p := by
  unfold load at hl
  split at hl
  · next st svs q hst hload =>
    cases hl
    obtain ⟨hext, hserved⟩ := Startup.served_of_load hst hload
    obtain ⟨hlen, hget⟩ := List.forall₂_iff_get.mp hserved
    rw [List.length_range] at hlen
    refine ⟨st, Startup.reading_init.readDirectives hst,
      Startup.noted_init.readDirectives Startup.reading_init hst, hext, ?_, fun i sv hsv ↦ ?_⟩
    · rw [List.length_map, List.length_zipIdx, hlen]
    · rw [List.getElem?_map, List.getElem?_zipIdx, Option.map_map, Option.map_eq_some_iff] at hsv
      obtain ⟨rec, hrec, rfl⟩ := hsv
      obtain ⟨hi, hrec⟩ := List.getElem?_eq_some_iff.mp hrec
      subst hrec
      have hserver := hget i (by rw [List.length_range]; omega) hi
      simp only [List.get_eq_getElem, List.getElem_range] at hserver
      exact ⟨hserver, by simp⟩
  · cases hl
  · cases hl

namespace Loaded

variable {st : Startup}

/-- The vector of a scope is enabled exactly when the scope sets `Coraza On`. -/
theorem enabledBy_vector (h : Loaded conf st servers p) (slot : Nat × Option Nat) :
    p.enabledBy (st.dirVector slot) = true ↔ conf.SetsOn slot := by
  rw [Process.enabledBy_iff, SetsOn, ← enableValue_eq_one]
  cases hs : st.dirVector slot with
  | none =>
    rw [h.noted.unset slot hs]
    constructor
    · rintro ⟨d, hd, -⟩
      cases hd
    · exact fun hone ↦ absurd hone (by decide)
  | some d =>
    rw [← h.noted.enable slot d hs, ← h.ext.dir d (h.reading.dirLt slot d hs)]
    simp

/-- The level of a server is enabled by its own directives or by those of the main server. -/
theorem enabledBy_level (h : Loaded conf st servers p) {i : Nat} {sv : CheckedServer}
    (hsv : servers[i]? = some sv) :
    p.enabledBy sv.lookupDefaults = true ↔ levelEnable conf.directives i = 1 := by
  obtain ⟨d, -, hd, henable⟩ := (h.server i sv hsv).1.base
  rw [Process.enabledBy_iff, hd, ← henable]
  simp

private theorem server_lt (h : Loaded conf st servers p) {i : Nat} (hi : i ≤ conf.vhosts) :
    ∃ sv, servers[i]? = some sv ∧ sv ∈ servers := by
  have hlt : i < servers.length := by
    rw [h.length]
    exact Nat.lt_succ_of_le hi
  exact ⟨_, List.getElem?_eq_getElem hlt, List.getElem_mem hlt⟩

end Loaded

private theorem setsOn_of_levelEnable {i : Nat} (h : levelEnable conf.directives i = 1) :
    conf.SetsOn (0, none) ∨ conf.SetsOn (i, none) := by
  unfold levelEnable override at h
  split at h
  · exact Or.inr (enableValue_eq_one.mp h)
  · exact Or.inl (enableValue_eq_one.mp h)

private theorem levelEnable_of_setsOn {i : Nat} (h : conf.SetsOn (i, none)) :
    levelEnable conf.directives i = 1 := by
  have hown := enableValue_eq_one.mpr h
  unfold levelEnable override
  rw [hown]
  rfl

/-- Only a directive of the scope sets it. -/
theorem exists_of_setsOn {slot : Nat × Option Nat} (h : conf.SetsOn slot) :
    ∃ d ∈ conf.directives, (d.server, d.scope) = slot := by
  obtain ⟨d, hd, hflag⟩ := List.mem_filterMap.mp (List.mem_of_getLast? h)
  refine ⟨d, hd, ?_⟩
  by_contra hne
  rw [if_neg hne] at hflag
  cases hflag

/-- What the search finds stands at server level, in a `<Directory>` or in a `<Location>`. -/
theorem Loaded.walked_of_enabledAt {st : Startup} (h : Loaded conf st servers p) {i : Nat}
    {sv : CheckedServer} (hsv : servers[i]? = some sv) (hat : p.enabledAt sv ≠ none) :
    ∃ slot, conf.SetsOn slot ∧ conf.Walked slot := by
  have hsection {j : Nat} {kind : SectionKind} (hkind : kind = .directory ∨ kind = .location)
      (hany : (conf.vectors st j kind).any p.enabledBy = true) :
      ∃ slot, conf.SetsOn slot ∧ conf.Walked slot := by
    obtain ⟨x, hx, hon⟩ := List.any_eq_true.mp hany
    obtain ⟨k, sec, hsec, -, rfl, rfl⟩ := mem_vectors.mp hx
    refine ⟨(j, some k), (h.enabledBy_vector _).mp hon, fun k' hk' ↦ ?_⟩
    cases hk'
    exact ⟨sec, hsec, hkind⟩
  have hkinds {kind : SectionKind} (hkind : kind = .directory ∨ kind = .location)
      (hany : ((if i = 0 then [] else conf.vectors st 0 kind) ++
        conf.vectors st i kind).any p.enabledBy = true) :
      ∃ slot, conf.SetsOn slot ∧ conf.Walked slot := by
    rw [List.any_append, Bool.or_eq_true] at hany
    rcases hany with hbase | hown
    · by_cases hi : i = 0
      · simp [hi] at hbase
      · rw [if_neg hi] at hbase
        exact hsection hkind hbase
    · exact hsection hkind hown
  rw [Ne, Process.enabledAt_eq_none (h.server i sv hsv).2] at hat
  by_cases hlevel : p.enabledBy sv.lookupDefaults = true
  · rcases setsOn_of_levelEnable ((h.enabledBy_level hsv).mp hlevel) with hon | hon
    · exact ⟨_, hon, nofun⟩
    · exact ⟨_, hon, nofun⟩
  · by_cases hdir : (conf.coreServerConfig st i).secDir.any p.enabledBy = true
    · exact hkinds (Or.inl rfl) hdir
    · apply hkinds (Or.inr rfl)
      by_contra hurl
      simp only [Bool.not_eq_true] at hlevel hdir hurl
      exact hat ⟨hlevel, hdir, hurl⟩

/-- At the server of a walked scope that sets `Coraza On` the search finds something. -/
theorem Loaded.enabledAt_of_walked {st : Startup} (h : Loaded conf st servers p)
    {slot : Nat × Option Nat} (hon : conf.SetsOn slot) (hwalked : conf.Walked slot)
    {sv : CheckedServer} (hsv : servers[slot.1]? = some sv) : p.enabledAt sv ≠ none := by
  obtain ⟨i, scope⟩ := slot
  intro hat
  obtain ⟨hlevel, hdir, hurl⟩ :=
    (Process.enabledAt_eq_none (h.server i sv hsv).2).mp hat
  cases scope with
  | none =>
    rw [(h.enabledBy_level hsv).mpr (levelEnable_of_setsOn hon)] at hlevel
    cases hlevel
  | some k =>
    obtain ⟨sec, hsec, hkind⟩ := hwalked k rfl
    obtain ⟨d, hd, hslot⟩ := exists_of_setsOn hon
    obtain ⟨rfl, hscope⟩ := Prod.mk.inj hslot
    obtain ⟨sec', hsec', hserver⟩ := conf.inside d hd k hscope
    rw [hsec] at hsec'
    cases hsec'
    -- The vector is among the server's own, of either kind.
    have hown {kind : SectionKind} (hk : sec.kind = kind)
        (hany : (conf.vectors st d.server kind).any p.enabledBy = false) : False := by
      have hmem : st.dirVector (d.server, some k) ∈ conf.vectors st d.server kind :=
        mem_vectors.mpr ⟨k, sec, hsec, hserver, hk, rfl⟩
      have hfalse := List.any_eq_false.mp hany _ hmem
      exact hfalse ((h.enabledBy_vector _).mpr hon)
    simp only [coreServerConfig, List.any_append, Bool.or_eq_false_iff] at hdir hurl
    rcases hkind with hk | hk
    · exact hown hk hdir.2
    · exact hown hk hurl.2

private theorem Loaded.enabledWhere_iff {st : Startup} (h : Loaded conf st servers p) :
    p.corazaConfigEnabledWhere servers ≠ none ↔ ∃ slot, conf.SetsOn slot ∧ conf.Walked slot := by
  rw [Ne, Process.enabledWhere_eq_none]
  constructor
  · intro hne
    push Not at hne
    obtain ⟨sv, hmem, hat⟩ := hne
    obtain ⟨i, hi⟩ := List.mem_iff_getElem?.mp hmem
    exact h.walked_of_enabledAt hi hat
  · rintro ⟨slot, hon, hwalked⟩ hall
    obtain ⟨d, hd, hslot⟩ := exists_of_setsOn hon
    have hi : slot.1 ≤ conf.vhosts := by
      rw [← hslot]
      exact conf.placed d hd
    obtain ⟨sv, hsv, hmem⟩ := h.server_lt hi
    exact h.enabledAt_of_walked hon hwalked hsv (hall sv hmem)

private theorem exists_of_ruleCount {i : Nat} {t : CorazaRuleType}
    (h : ruleCount conf.directives i t % 2 ^ 32 ≠ 0) :
    ∃ d ∈ conf.directives, d.server = i ∧ d.directive.ruleType = some t := by
  have hpos : 0 < ruleCount conf.directives i t := by
    apply Nat.pos_of_ne_zero
    intro hzero
    exact h (by rw [hzero]; rfl)
  obtain ⟨d, hd, ht⟩ := List.countP_pos_iff.mp hpos
  exact ⟨d, hd, of_decide_eq_true ht⟩

private theorem hasRules_of_countsRules (h : conf.CountsRules) : conf.HasRules := by
  obtain ⟨i, t, hcount⟩ := h
  obtain ⟨d, hd, -, ht⟩ := exists_of_ruleCount hcount
  refine ⟨d, hd, ?_⟩
  rw [ht]
  exact nofun

/-- A counter is positive when the rules of its kind are not a multiple of 2³². -/
theorem Loaded.counter_pos {st : Startup} (h : Loaded conf st servers p) {i c : Nat}
    (hc : st.moduleConfig i = some c) (t : CorazaRuleType) :
    0 < (p.serverConfs.get c).counter t ↔ ruleCount conf.directives i t % 2 ^ 32 ≠ 0 := by
  rw [h.ext.server, h.noted.counts i c hc t, UInt32.lt_iff_toNat_lt, UInt32.toNat_ofNat']
  exact Nat.pos_iff_ne_zero

private theorem Loaded.configHasRules_iff {st : Startup} (h : Loaded conf st servers p) :
    p.corazaConfigHasRules servers = true ↔ conf.CountsRules := by
  unfold Process.corazaConfigHasRules
  rw [List.any_eq_true]
  constructor
  · rintro ⟨sv, hmem, hpos⟩
    obtain ⟨i, hi⟩ := List.mem_iff_getElem?.mp hmem
    have hserved := (h.server i sv hi).1.conf
    -- The counters are those of the server or of the main one.
    have hcounts {j c : Nat} (hj : st.moduleConfig j = some c)
        (hpos : 0 < (p.serverConfs.get c).rulesInline ∨ 0 < (p.serverConfs.get c).rulesFile) :
        conf.CountsRules := by
      rcases hpos with hinline | hfile
      · exact ⟨j, .inline, (h.counter_pos hj .inline).mp hinline⟩
      · exact ⟨j, .file, (h.counter_pos hj .file).mp hfile⟩
    cases hc : sv.moduleConfig with
    | none => simp [hc] at hpos
    | some c =>
      simp only [hc, decide_eq_true_eq] at hpos
      rw [hc] at hserved
      cases hown : st.moduleConfig i with
      | none =>
        rw [hown, Option.none_or] at hserved
        exact hcounts hserved.symm hpos
      | some c' =>
        rw [hown, Option.some_or] at hserved
        cases hserved
        exact hcounts hown hpos
  · rintro ⟨i, t, hcount⟩
    obtain ⟨d, hd, rfl, -⟩ := exists_of_ruleCount hcount
    obtain ⟨sv, hsv, hmem⟩ := h.server_lt (conf.placed d hd)
    refine ⟨sv, hmem, ?_⟩
    have hserved := (h.server _ sv hsv).1.conf
    cases hown : st.moduleConfig d.server with
    | none =>
      rw [h.noted.uncounted _ hown t] at hcount
      exact absurd rfl hcount
    | some c =>
      rw [hown, Option.some_or] at hserved
      simp only [hserved, decide_eq_true_eq]
      have hpos := (h.counter_pos hown t).mpr hcount
      cases t with
      | inline => exact Or.inl hpos
      | file => exact Or.inr hpos

/-- The check refuses what it sees enabled while it counts no rules. -/
theorem checkConfig_ne_ok (hl : conf.load env = .ok (servers, p)) :
    p.corazaCheckConfig servers ≠ .ok () ↔
      (∃ slot, conf.SetsOn slot ∧ conf.Walked slot) ∧ ¬ conf.CountsRules := by
  obtain ⟨st, h⟩ := loaded_of_load hl
  rw [← h.enabledWhere_iff, ← h.configHasRules_iff]
  unfold Process.corazaCheckConfig
  cases p.corazaConfigEnabledWhere servers with
  | none => simp
  | some found => cases p.corazaConfigHasRules servers <;> simp

/-- The check refuses exactly the configurations that are on without rules if and only if one of
the scopes that are on is one the check walks, and rules are counted. -/
theorem checkConfig_iff (hl : conf.load env = .ok (servers, p)) :
    (p.corazaCheckConfig servers ≠ .ok () ↔ (∃ slot, conf.SetsOn slot) ∧ ¬ conf.HasRules) ↔
      (((∃ slot, conf.SetsOn slot) → ¬ conf.HasRules →
          ∃ slot, conf.SetsOn slot ∧ conf.Walked slot) ∧
        ((∃ slot, conf.SetsOn slot ∧ conf.Walked slot) → conf.HasRules → conf.CountsRules)) := by
  rw [checkConfig_ne_ok hl]
  have hcounts := @hasRules_of_countsRules conf
  have hon : (∃ slot, conf.SetsOn slot ∧ conf.Walked slot) → ∃ slot, conf.SetsOn slot :=
    fun ⟨slot, h, _⟩ ↦ ⟨slot, h⟩
  constructor
  · intro hiff
    constructor
    · intro hset hno
      exact (hiff.mpr ⟨hset, hno⟩).1
    · intro hwalked hrules
      by_contra hno
      exact (hiff.mp ⟨hwalked, hno⟩).2 hrules
  · rintro ⟨hseen, hcounted⟩
    constructor
    · rintro ⟨hwalked, hno⟩
      exact ⟨hon hwalked, fun hrules ↦ hno (hcounted hwalked hrules)⟩
    · rintro ⟨hset, hno⟩
      exact ⟨hseen hset hno, fun hc ↦ hno (hcounts hc)⟩

/-- A virtual host that is on in a `<Location>`, and no rule anywhere. -/
def locationOn : SectionedConf where
  vhosts := 1
  directives := [⟨1, some 0, .coraza true⟩]
  placed := by decide
  sections := [⟨1, .location, none⟩]
  inside := by decide
  nested k sec h := by
    obtain ⟨rfl, rfl⟩ : k = 0 ∧ sec = ⟨1, .location, none⟩ := by
      cases k <;> simp_all
    exact ⟨Nat.le_refl 1, nofun⟩

/-- It is refused: its only scope that is on is walked, and there is nothing to count. -/
theorem checkConfig_locationOn :
    ∃ servers p, locationOn.load plainEnv = .ok (servers, p) ∧
      p.corazaCheckConfig servers ≠ .ok () := by
  have hon : locationOn.SetsOn (1, some 0) := by decide
  have hno : ¬ locationOn.HasRules := by decide
  refine ⟨_, _, rfl, ((@checkConfig_iff locationOn plainEnv _ _ rfl).mpr ⟨?_, ?_⟩).mpr
    ⟨⟨_, hon⟩, hno⟩⟩
  · intro _ _
    refine ⟨_, hon, fun k hk ↦ ?_⟩
    cases hk
    exact ⟨_, rfl, Or.inr rfl⟩
  · intro _ hrules
    exact absurd hrules hno

/-- The main server is on in a `<Files>` section, and no rule anywhere. -/
def filesOn : SectionedConf where
  vhosts := 0
  directives := [⟨0, some 0, .coraza true⟩]
  placed := by decide
  sections := [⟨0, .files, none⟩]
  inside := by decide
  nested k sec h := by
    obtain ⟨rfl, rfl⟩ : k = 0 ∧ sec = ⟨0, .files, none⟩ := by
      cases k <;> simp_all
    exact ⟨Nat.le_refl 0, nofun⟩

/-- A configuration that is on only in a `<Files>` section passes the check without rules. -/
theorem files_on_without_rules_accepted :
    ¬ ∀ (conf : SectionedConf) (env : ConfigEnv) (servers : List CheckedServer) (p : Process),
      conf.load env = .ok (servers, p) →
      (p.corazaCheckConfig servers ≠ .ok () ↔
        (∃ slot, conf.SetsOn slot) ∧ ¬ conf.HasRules) := by
  intro h
  have hon : filesOn.SetsOn (0, some 0) := by decide
  have hno : ¬ filesOn.HasRules := by decide
  exact (h filesOn plainEnv _ _ rfl).mpr ⟨⟨_, hon⟩, hno⟩ rfl

end SectionedConf
end CorazaApache.Config
