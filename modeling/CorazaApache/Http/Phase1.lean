import CorazaApache.Http.Intervention

/-!
# The fixups hook: phases 1 and 2

`src/mod_coraza_phase1.c`. The hook feeds connection, request line and headers to the engine,
then reads the whole body, hands it to the engine chunk by chunk and keeps a copy for the
handler: in memory up to a limit, in a temporary file past it. Every engine result is checked
and every step is followed by a poll for an intervention.
-/

namespace CorazaApache.Http
open CorazaApache.Base CorazaApache.Base.Prog CorazaApache.Config CorazaApache.Apr

/-- `CORAZA_DEFAULT_BODY_MEM_LIMIT`. -/
def defaultBodyMemLimit : Int := 128 * 1024

/-- `CORAZA_BODY_READ_CHUNK`. -/
def bodyReadChunk : Nat := 64 * 1024

/-- What one successful `ap_get_client_block` delivers. -/
structure BodyChunk where
  bytes : List UInt8
  nonempty : bytes ≠ []
  bound : bytes.length ≤ bodyReadChunk
  deriving DecidableEq

/-- The request body as httpd delivers it: the result of `ap_setup_client_block`, whether there
is a body, the chunks, and the result of the read after the last one. -/
structure BodySource where
  setupClientBlock : Int
  shouldClientBlock : Bool
  chunks : List BodyChunk
  final : Int
  final_le : final ≤ 0

/-- What APR answers while the copy is kept: whether a write to the brigade, the creation of the
temporary file and a write to it succeed. -/
structure SaveEnv where
  ops : BrigadeOps
  brigadeWriteOk : Brigade → List UInt8 → Bool
  openSpoolOk : Bool
  spoolWriteOk : List UInt8 → List UInt8 → Bool

/-- The local variables of the read loop; `src/mod_coraza_phase1.c:357–359`. The spool is what
the temporary file holds. -/
structure BodyLocals where
  savedLen : Int
  spool : Option (List UInt8)
  spoolLen : Int
  deriving DecidableEq

/-- `ctx->intervention_triggered = 1; return HTTP_INTERNAL_SERVER_ERROR;`. -/
def failClosed {α : Type} : Hook Int α := do
  modify fun s ↦ s.updCtx fun c ↦ { c with interventionTriggered := true }
  Prog.ret httpInternalServerError

/-- A `coraza_process_*` call of the hook with its check. -/
def checkProcess (e : Engine) (c : EngineCall) : Hook Int Unit := do
  let rc ← engineCall e c
  when (corazaProcessFailed rc) failClosed

/-- A `coraza_add_*` or `coraza_append_*` call of the hook with its check. -/
def checkCall (e : Engine) (c : EngineCall) : Hook Int Unit := do
  let rc ← engineCall e c
  when (corazaCallFailed rc) failClosed

/-- The poll of the hook: an intervention is logged early and enforced. -/
def pollHook (e : Engine) : Hook Int Unit := fun s ↦
  let (ret, s) := s.corazaProcessIntervention e true
  if 0 < ret then
    let (v, s) := s.corazaEnforceIntervention ret
    (.ret v, s)
  else (.next (), s)

/-- The bulk path of header submission: whether it is done. -/
def submitBulk {ρ : Type} (e : Engine) (bulk : List UInt8 → Nat → Nat → EngineCall)
    (pairs : List HeaderPair) : Hook ρ Bool :=
  if pairs.length = 0 then pure true
  else
    match corazaPackHeaders pairs with
    | none => pure false
    | some (packed, len) => do
      let rc ← engineCall e (bulk packed len pairs.length)
      pure (!corazaCallFailed rc)

/-- Header submission, the same for requests and responses: one packed call, and the headers one
by one where that fails; `fail` is the fail-closed exit of the caller.
`src/mod_coraza_phase1.c:258–308`, `src/mod_coraza_filter_out.c:226–261`. -/
def submitHeaders {ρ : Type} (e : Engine) (bulk : List UInt8 → Nat → Nat → EngineCall)
    (single : HeaderPair → EngineCall) (fail : Hook ρ Unit) (pairs : List HeaderPair) :
    Hook ρ Unit := do
  let bulkDone ← submitBulk e bulk pairs
  when (!bulkDone) (forEach pairs fun p ↦ do
    when (decide (intMax < p.name.length ∨ intMax < p.value.length)) fail
    let rc ← engineCall e (single p)
    when (corazaCallFailed rc) fail)

/-- `HTTP_VERSION(major, minor)`. -/
def httpVersionNumber (major minor : Int) : Int := 1000 * major + minor

/-- The protocol handed to the engine: the token as it arrived, else one for the version
number; `src/mod_coraza_phase1.c:201–221`. -/
def requestProtocol (r : Request) : CString :=
  let mapped :=
    if r.protoNum = httpVersionNumber 0 9 then CString.ofString "HTTP/0.9"
    else if r.protoNum = httpVersionNumber 1 0 then CString.ofString "HTTP/1.0"
    else if r.protoNum = httpVersionNumber 1 1 then CString.ofString "HTTP/1.1"
    else if r.protoNum = httpVersionNumber 2 0 then CString.ofString "HTTP/2.0"
    else CString.ofString "HTTP/1.1"
  match r.protocol with
  | some p => if p.bytes ≠ [] then p else mapped
  | none => mapped

/-- The first call of phase 1; `src/mod_coraza_phase1.c:158–171`. -/
def connectionCall (s : Exchange) : EngineCall :=
  .processConnection (s.r.useragentIp.getD (CString.ofString "0.0.0.0"))
    (s.r.useragentPort.getD 0) (s.conn.localIp.getD (CString.ofString "0.0.0.0"))
    (s.conn.localPort.getD 0)

/-- The second call of phase 1; `src/mod_coraza_phase1.c:223–226`. -/
def uriCall (s : Exchange) : EngineCall :=
  .processUri s.r.unparsedUri s.r.method (requestProtocol s.r)

/-- `coraza_create_ctx` from the hook; `src/mod_coraza_phase1.c:151–155`. -/
def createCtx (lib : WafLib) : Hook Int Unit := fun s ↦
  match s.process.corazaCreateCtx lib (s.r.perDirConfig.getD 0) s.r.serverConf with
  | (none, p) => (.ret httpInternalServerError, { s with process := p })
  | (some handle, p) =>
    (.next (), { s with
      process := p
      ctx := { (default : CorazaRequestCtx) with transaction := handle }
      r := { s.r with requestConfig := true } })

/-- Whether a chunk still goes to memory; `src/mod_coraza_phase1.c:386`. -/
def fitsInMemory (memLimit : Int) (l : BodyLocals) (chunk : BodyChunk) : Bool :=
  l.spool = none ∧ l.savedLen + chunk.bytes.length ≤ memLimit

/-- Whether APR keeps the copy of one chunk; `src/mod_coraza_phase1.c:386–407`. -/
def keepOk (env : SaveEnv) (memLimit : Int) (l : BodyLocals) (saved : Brigade)
    (chunk : BodyChunk) : Bool :=
  if fitsInMemory memLimit l chunk then env.brigadeWriteOk saved chunk.bytes
  else (l.spool.isSome || env.openSpoolOk) && env.spoolWriteOk (l.spool.getD []) chunk.bytes

/-- The copy with one more chunk; `src/mod_coraza_phase1.c:386–407`. -/
def keepChunk (ops : BrigadeOps) (memLimit : Int) (st : BodyLocals × Brigade)
    (chunk : BodyChunk) : BodyLocals × Brigade :=
  let (l, saved) := st
  let n : Int := chunk.bytes.length
  if fitsInMemory memLimit l chunk then
    ({ l with savedLen := l.savedLen + n }, ops.brigadeWrite saved chunk.bytes)
  else
    ({ l with spool := some (l.spool.getD [] ++ chunk.bytes), spoolLen := l.spoolLen + n }, saved)

/-- Keep a copy of one chunk or fail closed; `src/mod_coraza_phase1.c:386–407`. -/
def saveChunk (env : SaveEnv) (memLimit : Int) (l : BodyLocals) (chunk : BodyChunk) :
    Hook Int BodyLocals := do
  let s ← get
  let saved := s.ctx.savedBody.getD []
  when (!keepOk env memLimit l saved chunk) failClosed
  let (l, saved) := keepChunk env.ops memLimit (l, saved) chunk
  modify fun s ↦ s.updCtx fun c ↦ { c with savedBody := some saved }
  pure l

/-- One round of the read loop; `src/mod_coraza_phase1.c:378–424`. -/
def bodyChunk (e : Engine) (env : SaveEnv) (memLimit : Int) (inspectBody : Bool)
    (l : BodyLocals) (chunk : BodyChunk) : Hook Int BodyLocals := do
  let l ← saveChunk env memLimit l chunk
  when inspectBody do
    checkCall e (.appendRequestBody chunk.bytes)
    pollHook e
  pure l

/-- The spool as one file bucket, then the end of stream; `src/mod_coraza_phase1.c:430–442`. -/
def closeBody (l : BodyLocals) (saved : Brigade) : Brigade :=
  (match l.spool with
    | some bytes => saved ++ [.data .file bytes]
    | none => saved) ++ [.eos]

/-- The last step of phase 2, with or without a body; `src/mod_coraza_phase1.c:451–471`. -/
def finishPhase2 (e : Engine) : Hook Int Unit := do
  checkProcess e .processRequestBody
  modify fun s ↦ s.updCtx fun c ↦ { c with phase2Done := true }
  pollHook e

/-- The limit of the copy in memory; `src/mod_coraza_phase1.c:354–356`. -/
def memLimitOf (s : Exchange) : Int :=
  let limit := (s.process.dirConfs.get (s.r.perDirConfig.getD 0)).bodyMemLimit
  if 0 ≤ limit then limit else defaultBodyMemLimit

/-- Read and inspect the body; `src/mod_coraza_phase1.c:353–449`. -/
def readBody (e : Engine) (env : SaveEnv) (src : BodySource) : Hook Int Unit := do
  let s ← get
  let access ← engineCall e .isRequestBodyAccessible
  modify fun s ↦ s.updCtx fun c ↦ { c with savedBody := some [] }
  let l ← foldEach (bodyChunk e env (memLimitOf s) (access ≠ 0)) ⟨0, none, 0⟩ src.chunks
  when (src.final < 0) (Prog.ret httpBadRequest)
  modify fun s ↦ s.updCtx fun c ↦ { c with savedBody := c.savedBody.map (closeBody l) }
  modify fun s ↦ s.updReq fun r ↦ { r with readLength := 0, inFilter := true }

/-- Phase 2; `src/mod_coraza_phase1.c:341–474`. -/
def phase2 (e : Engine) (env : SaveEnv) (src : BodySource) : Hook Int Unit := do
  when (src.setupClientBlock ≠ retOk) (Prog.ret src.setupClientBlock)
  when src.shouldClientBlock (readBody e env src)
  finishPhase2 e

/-- Phase 1; `src/mod_coraza_phase1.c:157–324`. -/
def phase1 (e : Engine) : Hook Int Unit := do
  let s ← get
  checkProcess e (connectionCall s)
  pollHook e
  checkProcess e (uriCall s)
  pollHook e
  submitHeaders e .addRequestHeaders .addRequestHeader failClosed (collectPairs s.r.headersIn)
  checkProcess e .processRequestHeaders
  pollHook e

/-- `coraza_ctx_from_prev`: whether an earlier `request_rec` of the chain has the context. -/
def corazaCtxFromPrev (prev : List Request) : Bool := prev.any (·.requestConfig)

/-- `coraza_post_read_request`; `src/mod_coraza_phase1.c:108–477`. -/
def corazaPostReadRequest (e : Engine) (lib : WafLib) (env : SaveEnv) (src : BodySource) :
    Hook Int Int := do
  let s ← get
  when s.r.main (Prog.ret retDeclined)
  when (!s.enabled) (Prog.ret retDeclined)
  when s.r.requestConfig (Prog.ret retDeclined)
  when (corazaCtxFromPrev s.prev) do
    modify fun s ↦ s.updReq fun r ↦ { r with requestConfig := true, outFilter := true }
    Prog.ret retDeclined
  createCtx lib
  phase1 e
  modify fun s ↦ s.updReq fun r ↦ { r with outFilter := true }
  phase2 e env src
  pure retDeclined

end CorazaApache.Http
