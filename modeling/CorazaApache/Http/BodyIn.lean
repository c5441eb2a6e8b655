import CorazaApache.Http.FailClosed

/-!
# The input filter: replaying the saved body

`src/mod_coraza_body_in.c`. A handler's read is answered from the copy fixups kept, which
shrinks as it is delivered, until it is used up; then the filter steps aside. What the filter
below would answer to a read comes with the read.
-/

namespace CorazaApache.Http
open CorazaApache.Base CorazaApache.Base.Prog CorazaApache.Config CorazaApache.Apr

/-- `ap_input_mode_t`. -/
inductive InputMode where
  | readBytes
  | getLine
  | eatCrlf
  | speculative
  | exhaustive
  | init
  deriving DecidableEq, Repr

/-- A read of the handler; `below` is what the filter below would deliver for it. -/
structure Read where
  mode : InputMode
  readbytes : Int
  below : Brigade
  deriving DecidableEq

/-- Who answered a read: the saved body, the filter below, or an APR error. -/
inductive ReadStatus where
  | success
  | below
  | error
  deriving DecidableEq, Repr

/-- `HUGE_STRING_LEN`. -/
def hugeStringLen : Nat := 8192

namespace Exchange

/-- The speculative branch; `src/mod_coraza_body_in.c:50–74`. -/
def replaySpeculative (ops : BrigadeOps) (readbytes : Int) (saved : Brigade) (s : Exchange) :
    ReadStatus × Brigade × Exchange :=
  if 0 < readbytes then
    match ops.partition saved readbytes.toNat with
    | (.error, before, after) => (.error, [], s.withSaved (before ++ after))
    | (.success, before, after) => (.success, before.map ops.copy, s.withSaved (before ++ after))
    | (.incomplete, before, after) =>
      (.success, (before ++ after).map ops.copy, s.withSaved (before ++ after))
  else (.success, saved.map ops.copy, s)

/-- `coraza_replay_saved_body`; `src/mod_coraza_body_in.c:24–102`. -/
def corazaReplaySavedBody (ops : BrigadeOps) (rd : Read) (saved : Brigade) (s : Exchange) :
    ReadStatus × Brigade × Exchange :=
  if saved = [] then
    (.below, rd.below,
      (s.updCtx fun c ↦ { c with savedBody := none }).updReq fun r ↦ { r with inFilter := false })
  else if rd.mode = .eatCrlf then (.below, rd.below, s)
  else if rd.mode = .getLine then
    let (out, rest) := ops.splitLine saved hugeStringLen
    (.success, out, s.withSaved rest)
  else if rd.mode = .speculative then s.replaySpeculative ops rd.readbytes saved
  else if rd.mode = .exhaustive ∨ rd.readbytes ≤ 0 then (.success, saved, s.withSaved [])
  else
    match ops.partition saved rd.readbytes.toNat with
    | (.incomplete, before, after) => (.success, before ++ after, s.withSaved [])
    | (.error, before, after) => (.error, [], s.withSaved (before ++ after))
    | (.success, before, after) => (.success, before, s.withSaved after)

/-- `coraza_input_filter`; `src/mod_coraza_body_in.c:113–126`. -/
def corazaInputFilter (ops : BrigadeOps) (rd : Read) (s : Exchange) :
    ReadStatus × Brigade × Exchange :=
  match s.ctx.savedBody with
  | some saved =>
    if !s.ctx.interventionTriggered then s.corazaReplaySavedBody ops rd saved
    else (.below, rd.below, s.updReq fun r ↦ { r with inFilter := false })
  | none => (.below, rd.below, s.updReq fun r ↦ { r with inFilter := false })

/-- A read on the current `request_rec`: through the filter while it is on the chain. -/
def handlerRead (ops : BrigadeOps) (rd : Read) (s : Exchange) : ReadStatus × Brigade × Exchange :=
  if s.r.inFilter then s.corazaInputFilter ops rd else (.below, rd.below, s)

/-- The state after a sequence of reads. -/
def afterReads (ops : BrigadeOps) (s : Exchange) (reads : List Read) : Exchange :=
  reads.foldl (fun s rd ↦ (s.handlerRead ops rd).2.2) s

/-- What a handler got, in order, from reads that consume; with `replayed` only what came from
the saved body. -/
def delivered (ops : BrigadeOps) (replayed : Bool) : Exchange → List Read → List Symbol
  | _, [] => []
  | s, rd :: rest =>
    let (st, bb, s') := s.handlerRead ops rd
    (if rd.mode ≠ .speculative ∧ (replayed → st = .success) then symbols bb else []) ++
      delivered ops replayed s' rest

/-- What is left of the saved body. -/
def left (s : Exchange) : List Symbol := symbols (s.ctx.savedBody.getD [])

end Exchange
end CorazaApache.Http
