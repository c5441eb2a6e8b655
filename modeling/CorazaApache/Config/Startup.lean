import CorazaApache.Config.Waf

/-!
# Startup: reading the configuration and building the WAFs of a child

httpd reads the directives in file order, creating a configuration object the first time a
directive needs it, then gives every virtual host the main server's objects where it has none
of its own and merges its base `dir_conf` onto the main one. After the fork
`coraza_child_init`, `src/mod_coraza.c:1152–1277`, builds one WAF per server and one per
tracked `dir_conf`.
-/

namespace CorazaApache.Config
open CorazaApache.Base

/-- The directives of `coraza_directives`; `src/mod_coraza.c:886–970`. -/
inductive Directive where
  | coraza (flag : Bool)
  | corazaRules (arg : CString)
  | corazaRulesFile (arg : CString)
  | corazaTransactionId (arg : CString)
  | corazaRequestBodyInMemoryLimit (arg : CString)
  | sec (name : List UInt8) (args : CString)

/-- A directive and where it stands: server 0 is the main one, `none` is server level and
`some k` the `k`-th section of that server. -/
structure PlacedDirective where
  server : Nat
  scope : Option Nat
  directive : Directive

/-- A static configuration: directives in file order, each on a server that exists. -/
structure StaticConf where
  vhosts : Nat
  directives : List PlacedDirective
  placed : ∀ d ∈ directives, d.server ≤ vhosts

/-- While the configuration is read: the module's slot in each server's `module_config` and in
each per-directory vector, `(i, none)` being the `lookup_defaults` of server `i`. -/
structure Startup where
  process : Process
  moduleConfig : Nat → Option Nat
  dirVector : Nat × Option Nat → Option Nat

/-- The module's part of a `server_rec` once virtual hosts are fixed up. -/
structure ServerRec where
  moduleConfig : Option Nat
  lookupDefaults : Option Nat
  deriving DecidableEq

/-- Dispatch to the handler the directive is registered with. -/
def Directive.run (env : ConfigEnv) (p : Process) (path : Bool) (dcf scf : Nat) :
    Directive → Except (List UInt8) Process
  | .coraza flag => .ok (p.cmdCorazaEnable dcf flag)
  | .corazaRules arg => p.cmdCorazaRules ⟨ascii "CorazaRules", path⟩ dcf scf arg
  | .corazaRulesFile arg =>
    p.cmdCorazaRulesFile env ⟨ascii "CorazaRulesFile", path⟩ dcf scf arg
  | .corazaTransactionId arg => .ok (p.cmdCorazaTransactionId dcf arg)
  | .corazaRequestBodyInMemoryLimit arg => p.cmdCorazaBodyMemLimit env dcf arg
  | .sec name args => p.cmdSecDirective ⟨name, path⟩ dcf scf args

namespace Startup

/-- httpd has created both objects of the main server before it reads the first directive. -/
def init : Startup :=
  let (c, p) := Process.init.corazaCreateServerConf
  let (d, p) := p.corazaCreateDirConf
  { process := p
    moduleConfig := fun i ↦ if i = 0 then some c else none
    dirVector := fun slot ↦ if slot = (0, none) then some d else none }

/-- The `dir_conf` a directive applies to, created on first use. -/
def ensureDirConf (st : Startup) (slot : Nat × Option Nat) : Nat × Startup :=
  match st.dirVector slot with
  | some d => (d, st)
  | none =>
    let (d, p) := st.process.corazaCreateDirConf
    (d, { st with
      process := p
      dirVector := fun s ↦ if s = slot then some d else st.dirVector s })

/-- The server conf a directive applies to, created on first use. -/
def ensureServerConf (st : Startup) (server : Nat) : Nat × Startup :=
  match st.moduleConfig server with
  | some c => (c, st)
  | none =>
    let (c, p) := st.process.corazaCreateServerConf
    (c, { st with
      process := p
      moduleConfig := fun i ↦ if i = server then some c else st.moduleConfig i })

/-- One directive: httpd's `ap_set_config_vectors`, then the handler. -/
def readDirective (env : ConfigEnv) (st : Startup) (d : PlacedDirective) :
    Except (List UInt8) Startup :=
  let (dcf, st) := st.ensureDirConf (d.server, d.scope)
  let (scf, st) := st.ensureServerConf d.server
  match d.directive.run env st.process d.scope.isSome dcf scf with
  | .error err => .error err
  | .ok p => .ok { st with process := p }

/-- All directives; a refused one stops httpd. -/
def readDirectives (env : ConfigEnv) : Startup → List PlacedDirective →
    Except (List UInt8) Startup
  | st, [] => .ok st
  | st, d :: ds =>
    match st.readDirective env d with
    | .error err => .error err
    | .ok st => readDirectives env st ds

/-- The `server_rec` of server `i` as the directives leave it. -/
def serverRec (st : Startup) (i : Nat) : ServerRec :=
  ⟨st.moduleConfig i, st.dirVector (i, none)⟩

end Startup

/-- httpd's treatment of one virtual host: the main server's conf if it has none (the module
registers no server merge), and the merge of its `lookup_defaults` onto the main one. -/
def fixupVirtualHost (main : ServerRec) (p : Process) (virt : ServerRec) : ServerRec × Process :=
  let conf := virt.moduleConfig.or main.moduleConfig
  match main.lookupDefaults, virt.lookupDefaults with
  | some b, some d =>
    let (m, p) := p.corazaMergeDirConf b d
    (⟨conf, some m⟩, p)
  | base, virt => (⟨conf, virt.or base⟩, p)

/-- httpd's `ap_fixup_virtual_hosts`, over the virtual hosts in list order. -/
def fixupVirtualHosts (main : ServerRec) : Process → List ServerRec → List ServerRec × Process
  | p, [] => ([], p)
  | p, virt :: rest =>
    let (sv, p) := fixupVirtualHost main p virt
    let (svs, p) := fixupVirtualHosts main p rest
    (sv :: svs, p)

/-- The process and the list of servers `coraza_child_init` is called with. -/
def StaticConf.load (conf : StaticConf) (env : ConfigEnv) :
    Except (List UInt8) (List ServerRec × Process) :=
  match Startup.init.readDirectives env conf.directives with
  | .error err => .error err
  | .ok st =>
    let main := st.serverRec 0
    let (svs, p) := fixupVirtualHosts main st.process
      ((List.range conf.vhosts).map fun i ↦ st.serverRec (i + 1))
    .ok (main :: svs, p)

/-- The virtual hosts are numbered from 1. -/
theorem vhosts_ne_zero (n : Nat) : ∀ i ∈ (List.range n).map (· + 1), i ≠ 0 := by
  intro i hi
  obtain ⟨j, -, rfl⟩ := List.mem_map.mp hi
  exact Nat.succ_ne_zero j

/-- A configuration that is loaded has had all its directives read. -/
theorem StaticConf.exists_of_load {conf : StaticConf} {env : ConfigEnv} {servers : List ServerRec}
    {p : Process} (h : conf.load env = .ok (servers, p)) :
    ∃ st, Startup.init.readDirectives env conf.directives = .ok st ∧
      (st.serverRec 0 :: (fixupVirtualHosts (st.serverRec 0) st.process
        ((List.range conf.vhosts).map fun i ↦ st.serverRec (i + 1))).1,
      (fixupVirtualHosts (st.serverRec 0) st.process
        ((List.range conf.vhosts).map fun i ↦ st.serverRec (i + 1))).2) = (servers, p) := by
  unfold load at h
  split at h
  · cases h
  · next st hst => exact ⟨st, hst, Except.ok.inj h⟩

/-- The handle of the WAF built for a server without rules, if a configuration could be had. -/
def emptyWaf (b : WafBuild) : Option Nat := if b.config = 0 then none else some b.waf

namespace Process

/-- The rules of the server conf at an address, by content. -/
def serverRulesOf (p : Process) (c : Nat) : RuleList := p.arrays.get (p.serverConfs.get c).rules

/-- The WAF handle of the server conf at an address. -/
def serverWafOf (p : Process) (c : Nat) : Nat := (p.serverConfs.get c).waf

/-- `scf->waf = w`. -/
def setServerWaf (p : Process) (c w : Nat) : Process :=
  { p with serverConfs := p.serverConfs.set c { p.serverConfs.get c with waf := w } }

/-- A stored server handle is found again; a store elsewhere is not seen. -/
theorem serverWafOf_setServerWaf (p : Process) (c w e : Nat) :
    (p.setServerWaf c w).serverWafOf e =
      if c = e ∧ e < p.serverConfs.size then w else p.serverWafOf e := by
  unfold serverWafOf setServerWaf
  simp only [Arena.get_set]
  split <;> rfl

/-- The build without rules; `src/mod_coraza.c:1195–1207`. -/
def buildEmptyWaf (p : Process) (lib : WafLib) : Option Nat × Process :=
  let b := lib.build p.builds
  let p := { p with builds := p.builds + 1 }
  (emptyWaf b,
    match emptyWaf b with
    | none => p
    | some waf => p.recordWaf waf [])

/-- The build of one server; `src/mod_coraza.c:1191–1209`. -/
def buildServerWaf (p : Process) (lib : WafLib) (c : Nat) : Process :=
  if 0 < (p.serverRulesOf c).length then
    let (waf, p) := p.buildWaf lib (p.serverRulesOf c)
    p.setServerWaf c waf
  else
    match p.buildEmptyWaf lib with
    | (some waf, p) => p.setServerWaf c waf
    | (none, p) => p

/-- One round of step 2; `src/mod_coraza.c:1185–1227`. -/
def initServer (lib : WafLib) (p : Process) (sv : ServerRec) : Process :=
  match sv.moduleConfig with
  | none => p
  | some c =>
    let p := p.buildServerWaf lib c
    if p.serverWafOf c = 0 then p
    else
      match sv.lookupDefaults with
      | none => p
      | some b => if p.wafOf b = 0 then p.setWaf b (p.serverWafOf c) else p

/-- One round of step 3, where `done` are the tracked objects before `d`;
`src/mod_coraza.c:1234–1266`. -/
def initTracked (lib : WafLib) (p : Process) (done : List Nat) (d : Nat) : Process :=
  let dcf := p.dirConfs.get d
  if !dcf.hasRules || (p.rulesOf d).length = 0 then p
  else
    match done.find? (fun j ↦ (p.dirConfs.get j).rules = dcf.rules ∧ p.wafOf j ≠ 0) with
    | some j => p.setWaf d (p.wafOf j)
    | none =>
      let (waf, p) := p.buildWaf lib (p.rulesOf d)
      p.setWaf d waf

/-- Step 3 over the tracked objects that are left. -/
def initTrackedFrom (lib : WafLib) : Process → List Nat → List Nat → Process
  | p, _, [] => p
  | p, done, d :: rest => initTrackedFrom lib (p.initTracked lib done d) (done ++ [d]) rest

/-- `coraza_child_init`; `loaded` says whether `coraza_dl_open` succeeded.
`src/mod_coraza.c:1165–1277`. -/
def corazaChildInit (p : Process) (lib : WafLib) (loaded : Bool) (servers : List ServerRec) :
    Process :=
  if !loaded then p
  else
    let p := { p with wafCachePool := true }
    let p := servers.foldl (initServer lib) p
    let p := initTrackedFrom lib p [] (p.trackedDirConfs.getD [])
    { p with configDirConfs := p.trackedDirConfs, trackedDirConfs := none }

end Process
end CorazaApache.Config
