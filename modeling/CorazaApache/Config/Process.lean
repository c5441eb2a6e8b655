import CorazaApache.Base.Arena
import CorazaApache.Config.Rules

/-!
# The module's state in one process

Configuration objects and rule arrays live in pools and are shared by pointer:
`src/mod_coraza.h:55–74`. The static variables of `src/mod_coraza.c:33–70` and what the
module has made the engine build are kept beside them. Addresses are allocation
positions, a `NULL` pointer is `none`, and the zero handle is `0`.
-/

namespace CorazaApache.Config
open CorazaApache.Base

/-- `coraza_dir_conf_t`; `rules` and `mergeChild` are addresses. -/
structure CorazaDirConf where
  enable : Int
  hasRules : Bool
  rules : Nat
  transactionId : Option CString
  bodyMemLimit : Int
  waf : Nat
  mergeChild : Option Nat
  deriving DecidableEq

/-- The zeroed object `apr_pcalloc` hands out. -/
instance : Inhabited CorazaDirConf :=
  ⟨{ enable := 0, hasRules := false, rules := 0, transactionId := none, bodyMemLimit := 0,
     waf := 0, mergeChild := none }⟩

/-- `coraza_server_conf_t`; the unused `dir_confs` array is left out, and the counters wrap like the
source's `unsigned`. -/
structure CorazaServerConf where
  rules : Nat
  waf : Nat
  rulesInline : UInt32
  rulesFile : UInt32
  deriving DecidableEq

instance : Inhabited CorazaServerConf :=
  ⟨{ rules := 0, waf := 0, rulesInline := 0, rulesFile := 0 }⟩

/-- `waf_cache_entry_t`; `rules` is the entry's own copy and gives `rules_nelts`. -/
structure WafCacheEntry where
  hash : UInt64
  rules : RuleList
  waf : Nat
  deriving DecidableEq

/-- `WAF_CACHE_MAX`. -/
def wafCacheMax : Nat := 64

/-- What libcoraza and libc answer during one WAF build: the configuration handle, whether
`strdup` of the `i`-th value succeeds, what `coraza_rules_add` or `coraza_rules_add_file`
returns for it, and the handle of `coraza_new_waf`. -/
structure WafBuild where
  config : Nat
  strdup : Nat → Bool
  rulesAdd : Nat → Int
  rulesAddFile : Nat → Int
  waf : Nat

/-- The engine's side of WAFs and transactions: its answers to the `k`-th build and to the
`k`-th transaction request of the process. -/
structure WafLib where
  build : Nat → WafBuild
  newTransaction : Nat → Nat

/-- One call of `coraza_new_transaction` or `coraza_new_transaction_with_id`. -/
structure TransactionCall where
  waf : Nat
  id : Option CString
  handle : Nat
  deriving DecidableEq

/-- The process. `builds` counts WAF builds; `wafs` records every non-zero handle
`coraza_new_waf` returned with the rules its configuration had been given. -/
structure Process where
  arrays : Arena RuleList
  dirConfs : Arena CorazaDirConf
  serverConfs : Arena CorazaServerConf
  trackedDirConfs : Option (List Nat)
  configDirConfs : Option (List Nat)
  wafCache : List WafCacheEntry
  wafCachePool : Bool
  wafCacheFullLogged : Bool
  builds : Nat
  wafs : List (Nat × RuleList)
  transactions : List TransactionCall
  deriving DecidableEq

namespace Process

/-- The statics as the loader leaves them, with empty pools. -/
def init : Process :=
  { arrays := Arena.empty, dirConfs := Arena.empty, serverConfs := Arena.empty,
    trackedDirConfs := none, configDirConfs := none, wafCache := [], wafCachePool := false,
    wafCacheFullLogged := false, builds := 0, wafs := [], transactions := [] }

/-- The rules of the `dir_conf` at an address, by content. -/
def rulesOf (p : Process) (d : Nat) : RuleList := p.arrays.get (p.dirConfs.get d).rules

/-- The WAF handle stored in the `dir_conf` at an address. -/
def wafOf (p : Process) (d : Nat) : Nat := (p.dirConfs.get d).waf

/-- Assign to fields of the `dir_conf` at an address. -/
def updateDirConf (p : Process) (d : Nat) (f : CorazaDirConf → CorazaDirConf) : Process :=
  { p with dirConfs := p.dirConfs.set d (f (p.dirConfs.get d)) }

/-- `dcf->waf = w`. -/
def setWaf (p : Process) (d w : Nat) : Process :=
  p.updateDirConf d fun c ↦ { c with waf := w }

/-- Some configuration given exactly `rules` was built into `w`. -/
def BuiltFrom (p : Process) (w : Nat) (rules : RuleList) : Prop := (w, rules) ∈ p.wafs

instance (p : Process) (w : Nat) (rules : RuleList) : Decidable (p.BuiltFrom w rules) :=
  inferInstanceAs (Decidable ((w, rules) ∈ p.wafs))

/-- An object with a handle was allocated. -/
theorem lt_size_of_wafOf {p : Process} {d : Nat} (h : p.wafOf d ≠ 0) : d < p.dirConfs.size :=
  p.dirConfs.lt_size_of_ne fun he ↦ h (congrArg CorazaDirConf.waf he)

/-- So was one with rules. -/
theorem lt_size_of_hasRules {p : Process} {d : Nat} (h : (p.dirConfs.get d).hasRules = true) :
    d < p.dirConfs.size :=
  p.dirConfs.lt_size_of_ne fun he ↦
    Bool.false_ne_true ((congrArg CorazaDirConf.hasRules he).symm.trans h)

/-- Writing a handle leaves the rules. -/
@[simp] theorem rulesOf_setWaf (p : Process) (d w e : Nat) :
    (p.setWaf d w).rulesOf e = p.rulesOf e := by
  unfold rulesOf setWaf updateDirConf
  simp only [Arena.get_set]
  split
  · next h => rw [h.1]
  · rfl

/-- It leaves the pointer back to the section. -/
@[simp] theorem mergeChild_setWaf (p : Process) (d w e : Nat) :
    ((p.setWaf d w).dirConfs.get e).mergeChild = (p.dirConfs.get e).mergeChild := by
  unfold setWaf updateDirConf
  simp only [Arena.get_set]
  split
  · next h => rw [h.1]
  · rfl

/-- A stored handle is found again; a store elsewhere is not seen. -/
theorem wafOf_setWaf (p : Process) (d w e : Nat) :
    (p.setWaf d w).wafOf e = if d = e ∧ e < p.dirConfs.size then w else p.wafOf e := by
  unfold wafOf setWaf updateDirConf
  simp only [Arena.get_set]
  split <;> rfl

/-- It allocates nothing. -/
@[simp] theorem size_setWaf (p : Process) (d w : Nat) :
    (p.setWaf d w).dirConfs.size = p.dirConfs.size := by
  simp [setWaf, updateDirConf]

/-- It builds nothing. -/
@[simp] theorem wafs_setWaf (p : Process) (d w : Nat) : (p.setWaf d w).wafs = p.wafs := rfl

/-- It leaves the cache. -/
@[simp] theorem wafCache_setWaf (p : Process) (d w : Nat) :
    (p.setWaf d w).wafCache = p.wafCache := rfl

end Process
end CorazaApache.Config
