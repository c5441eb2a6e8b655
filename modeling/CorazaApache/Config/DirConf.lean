import CorazaApache.Config.Process
import CorazaApache.Config.Scan

/-!
# Directive handlers, creation and merge of configuration objects

`src/mod_coraza.c:475–850,872–885,973–1071`. A directive handler either refuses the
directive with a message or updates the scope's `dir_conf` and its server's conf. A merge
allocates a new `dir_conf` whose rules are the parent's followed by the child's; it shares
the rule array of the only side that has rules, and takes over a WAF handle from one side.
-/

namespace CorazaApache.Config
open CorazaApache.Base

/-- What `httpd` and APR answer to the directive handlers: `ap_server_root_relative`, the
reads of an opened rules file (up to end of file, or up to a read error when `eof` is
false) or `none` when it cannot be opened, and `apr_strtoff` as the value read and the rest
of the string. -/
structure ConfigEnv where
  serverRootRelative : CString → Option CString
  openFile : CString → Option (List (List UInt8) × Bool)
  strtoff : CString → Option (Int × List UInt8)

/-- `cmd_parms`: the name of the directive and whether it stands inside a section
(`cmd->path != NULL`). -/
structure CmdParms where
  name : List UInt8
  path : Bool
  deriving DecidableEq

/-- `CORAZA_UNSUPPORTED_MSG`; `src/mod_coraza.c:663–666`. -/
def corazaUnsupportedMsg : List UInt8 :=
  ascii ("is not implemented by the Coraza engine; the WAF would fail to build " ++
    "in every child process after fork. Remove it: rules must come from " ++
    "local files or inline text")

/-- The decimal digits `%u` prints. -/
def printUnsigned (n : UInt32) : List UInt8 := ascii (toString n.toNat)

/-- `coraza_check_rules_text`; `src/mod_coraza.c:668–692`. -/
def corazaCheckRulesText (cmd : CmdParms) (text : CString) : Option (List UInt8) :=
  let (bad, scan) :=
    match corazaRulesScan corazaRulesScanInit text.bytes with
    | (some bad, s) => (some bad, s)
    | (none, s) => corazaRulesScanDone s
  bad.map fun bad ↦
    if scan.recLine = 1 ∧ text.bytes.take bad.length = bad then
      ascii "coraza: \"" ++ bad ++ ascii "\" " ++ corazaUnsupportedMsg
    else
      ascii "coraza: \"" ++ bad ++ ascii "\" (" ++ cmd.name ++ ascii " text, line " ++
        printUnsigned scan.recLine ++ ascii ") " ++ corazaUnsupportedMsg

/-- The read loop of `coraza_check_rules_file`; `src/mod_coraza.c:728–742`. -/
def scanReads (eof : Bool) (s : CorazaRulesScan) :
    List (List UInt8) → Option (List UInt8) × CorazaRulesScan
  | [] => if eof then corazaRulesScanDone s else (none, s)
  | buf :: rest =>
    match corazaRulesScan s buf with
    | (some bad, s') => (some bad, s')
    | (none, s') => scanReads eof s' rest

/-- `coraza_check_rules_file`: the refusal, or the resolved path; `src/mod_coraza.c:694–750`. -/
def corazaCheckRulesFile (env : ConfigEnv) (path : CString) : Except (List UInt8) CString :=
  match env.serverRootRelative path with
  | none => .error (ascii "coraza: invalid rules file path \"" ++ path.bytes ++ ascii "\"")
  | some full =>
    match env.openFile full with
    | none => .ok full
    | some (reads, eof) =>
      match scanReads eof corazaRulesScanInit reads with
      | (none, _) => .ok full
      | (some bad, s) =>
        .error (ascii "coraza: \"" ++ bad ++ ascii "\" (" ++ full.bytes ++ ascii ":" ++
          printUnsigned s.recLine ++ ascii ") " ++ corazaUnsupportedMsg)

namespace Process

/-- `apr_array_push` on the array at an address. -/
def pushRule (p : Process) (arr : Nat) (e : CorazaRuleEntry) : Process :=
  { p with arrays := p.arrays.set arr (p.arrays.get arr ++ [e]) }

/-- Count a rule by its kind; `src/mod_coraza.c:776,812`. -/
def countRule (sc : CorazaServerConf) (e : CorazaRuleEntry) : CorazaServerConf :=
  match e.type with
  | .inline => { sc with rulesInline := sc.rulesInline + 1 }
  | .file => { sc with rulesFile := sc.rulesFile + 1 }

/-- The part `cmd_coraza_rules` and `cmd_coraza_rules_file` share once the check passed;
`src/mod_coraza.c:769–783,805–819`. Server-level rules also go to the server conf. -/
def storeRule (p : Process) (cmd : CmdParms) (dcf scf : Nat) (e : CorazaRuleEntry) : Process :=
  let p := p.pushRule (p.dirConfs.get dcf).rules e
  let p := p.updateDirConf dcf fun c ↦ { c with hasRules := true }
  let sc := countRule (p.serverConfs.get scf) e
  let p := { p with serverConfs := p.serverConfs.set scf sc }
  if cmd.path then p else p.pushRule sc.rules e

/-- `cmd_coraza_enable`; `src/mod_coraza.c:479–486`. -/
def cmdCorazaEnable (p : Process) (dcf : Nat) (flag : Bool) : Process :=
  p.updateDirConf dcf fun c ↦ { c with enable := if flag then 1 else 0 }

/-- `cmd_coraza_rules`; `src/mod_coraza.c:752–786`. -/
def cmdCorazaRules (p : Process) (cmd : CmdParms) (dcf scf : Nat) (arg : CString) :
    Except (List UInt8) Process :=
  match corazaCheckRulesText cmd arg with
  | some err => .error err
  | none => .ok (p.storeRule cmd dcf scf ⟨.inline, arg⟩)

/-- `cmd_coraza_rules_file`; `src/mod_coraza.c:788–822`. -/
def cmdCorazaRulesFile (p : Process) (env : ConfigEnv) (cmd : CmdParms) (dcf scf : Nat)
    (arg : CString) : Except (List UInt8) Process :=
  match corazaCheckRulesFile env arg with
  | .error err => .error err
  | .ok full => .ok (p.storeRule cmd dcf scf ⟨.file, full⟩)

/-- `cmd_coraza_transaction_id`; `src/mod_coraza.c:824–831`. -/
def cmdCorazaTransactionId (p : Process) (dcf : Nat) (arg : CString) : Process :=
  p.updateDirConf dcf fun c ↦ { c with transactionId := some arg }

/-- `cmd_sec_directive`: the line is put together again and stored as an inline rule;
`src/mod_coraza.c:834–850`. -/
def cmdSecDirective (p : Process) (cmd : CmdParms) (dcf scf : Nat) (args : CString) :
    Except (List UInt8) Process :=
  p.cmdCorazaRules cmd dcf scf (CString.ofBytes (cmd.name ++ [32] ++ args.bytes))

/-- `cmd_coraza_body_mem_limit`; `src/mod_coraza.c:866–885`. -/
def cmdCorazaBodyMemLimit (p : Process) (env : ConfigEnv) (dcf : Nat) (arg : CString) :
    Except (List UInt8) Process :=
  match env.strtoff arg with
  | some (limit, []) =>
    if limit < 0 then
      .error (ascii "CorazaRequestBodyInMemoryLimit must be a non-negative number of bytes")
    else .ok (p.updateDirConf dcf fun c ↦ { c with bodyMemLimit := limit })
  | _ => .error (ascii "CorazaRequestBodyInMemoryLimit must be a non-negative number of bytes")

/-- `coraza_create_dir_conf`; `src/mod_coraza.c:977–989`. -/
def corazaCreateDirConf (p : Process) : Nat × Process :=
  (p.dirConfs.size,
    { p with
      arrays := p.arrays.alloc []
      dirConfs := p.dirConfs.alloc
        { enable := -1, hasRules := false, rules := p.arrays.size, transactionId := none,
          bodyMemLimit := -1, waf := 0, mergeChild := none } })

/-- `coraza_create_server_conf`; it also resets the tracker. `src/mod_coraza.c:1051–1071`. -/
def corazaCreateServerConf (p : Process) : Nat × Process :=
  (p.serverConfs.size,
    { p with
      arrays := p.arrays.alloc []
      serverConfs := p.serverConfs.alloc
        { rules := p.arrays.size, waf := 0, rulesInline := 0, rulesFile := 0 }
      trackedDirConfs := some [] })

/-- The fields of a merge that do not depend on the rules; `src/mod_coraza.c:1002–1011`. -/
def mergedScalars (pconf cconf : CorazaDirConf) : CorazaDirConf :=
  { (default : CorazaDirConf) with
    enable := if cconf.enable ≠ -1 then cconf.enable else pconf.enable
    transactionId := if cconf.transactionId.isSome then cconf.transactionId
      else pconf.transactionId
    bodyMemLimit := if cconf.bodyMemLimit ≠ -1 then cconf.bodyMemLimit
      else pconf.bodyMemLimit }

/-- The merged object and the pool of arrays; `src/mod_coraza.c:1013–1040`. -/
def mergedDirConf (p : Process) (parent child : Nat) : CorazaDirConf × Arena RuleList :=
  let pconf := p.dirConfs.get parent
  let cconf := p.dirConfs.get child
  let m := mergedScalars pconf cconf
  if 0 < (p.rulesOf parent).length then
    if 0 < (p.rulesOf child).length then
      ({ m with rules := p.arrays.size, hasRules := true, waf := cconf.waf,
                mergeChild := some child },
        p.arrays.alloc (p.rulesOf parent ++ p.rulesOf child))
    else
      ({ m with rules := pconf.rules, hasRules := pconf.hasRules, waf := pconf.waf }, p.arrays)
  else if 0 < (p.rulesOf child).length then
    ({ m with rules := cconf.rules, hasRules := cconf.hasRules, waf := cconf.waf }, p.arrays)
  else
    ({ m with rules := p.arrays.size }, p.arrays.alloc [])

/-- `coraza_merge_dir_conf`; the merged object is tracked until the tracker is frozen.
`src/mod_coraza.c:991–1049`. -/
def corazaMergeDirConf (p : Process) (parent child : Nat) : Nat × Process :=
  let (m, arrays) := p.mergedDirConf parent child
  (p.dirConfs.size,
    { p with
      arrays := arrays
      dirConfs := p.dirConfs.alloc m
      trackedDirConfs := p.trackedDirConfs.map (· ++ [p.dirConfs.size]) })

end Process
end CorazaApache.Config
