import Mathlib.Tactic.Simps.Basic
import CorazaApache.Apr.Brigade
import CorazaApache.Base.Prog
import CorazaApache.Config.Waf
import CorazaApache.Http.Headers

/-!
# One client request

The state the hooks and filters work on: the current `request_rec` with the earlier ones of its
internal-redirect chain, the connection, the module's request context, and the module's own
process state. What the module does to the engine and to the filter below is recorded as a
trace of events; the engine answers each call from the events so far, so every possible
behaviour is some `Engine`.

A chain has at most one context: `coraza_ctx_from_prev` finds the one of any earlier
`request_rec`, and a new one is created only when there is none. It therefore stands beside the
chain, and each `request_rec` says whether its `request_config` points to it.
-/

namespace CorazaApache.Http
open CorazaApache.Base CorazaApache.Config CorazaApache.Apr

/-! ### Return codes of httpd and APR -/

/-- `OK`. -/
def retOk : Int := 0

/-- `DECLINED`. -/
def retDeclined : Int := -1

/-- `DONE`. -/
def retDone : Int := -2

/-- `HTTP_OK`. -/
def httpOk : Int := 200

/-- `HTTP_CREATED`. -/
def httpCreated : Int := 201

/-- `HTTP_NO_CONTENT`. -/
def httpNoContent : Int := 204

/-- `HTTP_BAD_REQUEST`. -/
def httpBadRequest : Int := 400

/-- `HTTP_FORBIDDEN`. -/
def httpForbidden : Int := 403

/-- `HTTP_INTERNAL_SERVER_ERROR`. -/
def httpInternalServerError : Int := 500

/-- What an output filter returns; `passed` stands for whatever the next filter returned. -/
inductive FilterStatus where
  | success
  | filterError
  | eGeneral
  | eConnAborted
  | passed
  deriving DecidableEq, Repr

/-! ### The engine -/

/-- `coraza_intervention_t`. -/
structure Intervention where
  action : Option CString
  status : Int
  data : Option CString
  ruleId : Int
  deriving DecidableEq

/-- The calls the module makes on its transaction. -/
inductive EngineCall where
  | processConnection (clientIp : CString) (clientPort : Int) (serverIp : CString)
      (serverPort : Int)
  | processUri (uri method version : CString)
  | addRequestHeaders (packed : List UInt8) (len count : Nat)
  | addRequestHeader (pair : HeaderPair)
  | processRequestHeaders
  | isRequestBodyAccessible
  | appendRequestBody (bytes : List UInt8)
  | processRequestBody
  | addResponseHeaders (packed : List UInt8) (len count : Nat)
  | addResponseHeader (pair : HeaderPair)
  | processResponseHeaders (status : Int) (version : CString)
  | isResponseBodyAccessible
  | isResponseBodyProcessable
  | appendResponseBody (bytes : List UInt8)
  | processResponseBody
  | updateStatusCode (status : Int)
  | processLogging
  deriving DecidableEq

/-- What is observed of an exchange. `receive` is a brigade arriving at the output filter chain,
`pass` one the filter hands on, `direct` one that meets a chain without the filter, `returned`
what the filter answers its caller, `delay` the start of the header delay, and `redirect` the
start of the next `request_rec` of the chain. -/
inductive Event where
  | call (c : EngineCall) (rc : Int)
  | poll (i : Option Intervention)
  | receive (bb : Brigade)
  | pass (bb : Brigade)
  | direct (bb : Brigade)
  | die (status : Int)
  | delay
  | returned (status : FilterStatus)
  | redirect
  deriving DecidableEq

/-- An engine: its answers to calls and to polls for an intervention, given what happened so
far. -/
structure Engine where
  ret : List Event → EngineCall → Int
  intervention : List Event → Option Intervention

/-- `CORAZA_CALL_FAILED`. -/
def corazaCallFailed (rc : Int) : Bool := rc ≠ 0

/-- `coraza_process_failed`. -/
def corazaProcessFailed (rc : Int) : Bool := rc < 0

/-- A call of the strict kind succeeds with 0. -/
theorem corazaCallFailed_eq_false {rc : Int} : corazaCallFailed rc = false ↔ rc = 0 := by
  rw [corazaCallFailed, decide_eq_false_iff_not, not_not]

/-- A process call succeeds with anything that is not negative. -/
theorem corazaProcessFailed_eq_false {rc : Int} : corazaProcessFailed rc = false ↔ 0 ≤ rc := by
  rw [corazaProcessFailed, decide_eq_false_iff_not, Int.not_lt]

/-! ### Requests -/

/-- `coraza_request_ctx_t`; `src/mod_coraza.h:133–147`. -/
structure CorazaRequestCtx where
  transaction : Nat
  pendingBrigade : Option Brigade
  pendingLen : Nat
  headersDelayed : Bool
  phase2Done : Bool
  savedBody : Option Brigade
  phase3Done : Bool
  phase4Done : Bool
  logged : Bool
  interventionTriggered : Bool
  responseBodyProcessable : Bool
  dropConnection : Bool
  deriving DecidableEq

/-- The zeroed context `apr_pcalloc` hands out. -/
instance : Inhabited CorazaRequestCtx :=
  ⟨{ transaction := 0, pendingBrigade := none, pendingLen := 0, headersDelayed := false,
     phase2Done := false, savedBody := none, phase3Done := false, phase4Done := false,
     logged := false, interventionTriggered := false, responseBodyProcessable := false,
     dropConnection := false }⟩

/-- What the module reads and writes of a `request_rec`. `requestConfig` says that the module's
slot points to the context, `outFilter` and `inFilter` that its filters are on the chain. -/
structure Request where
  main : Bool
  perDirConfig : Option Nat
  serverConf : Nat
  requestConfig : Bool
  useragentPort : Option Int
  useragentIp : Option CString
  protoNum : Int
  protocol : Option CString
  unparsedUri : CString
  method : CString
  headersIn : Table
  headersOut : Table
  errHeadersOut : Table
  contentType : Option CString
  status : Int
  headerOnly : Bool
  readLength : Int
  outFilter : Bool
  inFilter : Bool
  deriving DecidableEq

/-- What the module reads and writes of the connection. -/
structure Conn where
  localPort : Option Int
  localIp : Option CString
  keepaliveClose : Bool
  aborted : Bool
  deriving DecidableEq

/-- A client request in progress; `prev` is the `r->prev` chain, nearest first, `tables` the
table functions of the APR it is served with, and `brigade` what the module has left in the
brigade its output filter was called with. -/
structure Exchange where
  r : Request
  prev : List Request
  conn : Conn
  ctx : CorazaRequestCtx
  process : Process
  tables : TableOps
  trace : List Event
  brigade : Brigade := []

namespace Exchange

/-- Record an event. -/
@[simps] def log (s : Exchange) (ev : Event) : Exchange := { s with trace := s.trace ++ [ev] }

/-- Call the engine and record the call with its result. -/
def callEngine (e : Engine) (c : EngineCall) (s : Exchange) : Int × Exchange :=
  (e.ret s.trace c, s.log (.call c (e.ret s.trace c)))

/-- Assign to fields of the context. -/
@[simps] def updCtx (s : Exchange) (f : CorazaRequestCtx → CorazaRequestCtx) : Exchange :=
  { s with ctx := f s.ctx }

/-- Assign to fields of the current `request_rec`. -/
@[simps] def updReq (s : Exchange) (f : Request → Request) : Exchange := { s with r := f s.r }

/-- The state some events later, with nothing else changed. -/
@[simps] def after (s : Exchange) (evs : List Event) : Exchange :=
  { s with trace := s.trace ++ evs }

/-- The `dir_conf` of the current `request_rec`, if there is one and it enables the module. -/
def enabled (s : Exchange) : Bool :=
  match s.r.perDirConfig with
  | none => false
  | some d => (s.process.dirConfs.get d).enable = 1

/-- No event makes no difference. -/
@[simp] theorem after_nil (s : Exchange) : s.after [] = s := by simp [after]

/-- One more event behind some. -/
@[simp] theorem log_after (s : Exchange) (evs : List Event) (ev : Event) :
    (s.after evs).log ev = s.after (evs ++ [ev]) := by simp [after, log]

/-- Some events behind others. -/
@[simp] theorem after_after (s : Exchange) (evs evs' : List Event) :
    (s.after evs).after evs' = s.after (evs ++ evs') := by simp [after]

end Exchange

/-- A block of a hook or filter that returns `ρ`. -/
abbrev Hook (ρ α : Type) := Prog Exchange ρ α

/-- Call the engine from inside a block. -/
def engineCall {ρ : Type} (e : Engine) (c : EngineCall) : Hook ρ Int := fun s ↦
  (.next (e.ret s.trace c), s.log (.call c (e.ret s.trace c)))

/-- A call falls through with its result recorded. -/
@[simp] theorem ends_engineCall {ρ : Type} (e : Engine) (c : EngineCall) (s : Exchange)
    (Q : Int → Exchange → Prop) (E : ρ → Exchange → Prop) :
    Prog.Ends (engineCall e c : Hook ρ Int) s Q E ↔
      Q (e.ret s.trace c) (s.log (.call c (e.ret s.trace c))) := Iff.rfl

end CorazaApache.Http
