/-
The router of a connection and the calls that wait on it (`RuntimeIpcClient` of
`packages/iso4-sandbox/src/client.ts`).

A call of `executeRun` puts its entry in the run table, writes its request and waits.  The
router gives each frame to the entry under its run id, until a frame throws or the reader
rejects; then it fails everything in flight.

Everything that is not a frame comes from outside: the callbacks of the writes, the signals,
the timers, the events of the socket.  The listeners of a signal run one at a time, and other
synchronous calls may come between.  A write to a destroyed socket fails, any other may fail.

A promise is the list of the calls that settle it; the first one counts.  The streams of a
run are left out: no branch of the router depends on what they hold.

* `RuntimeIpcClient.step` — the steps;
* `RuntimeIpcClient.Clean` — a request write ends while the run still has its entry.
-/
import Iso4.FrameTypes
import Iso4.Lib.Cyclic
import Iso4.Lib.Execution
import Iso4.Lib.Handles
import Iso4.RuntimePayloads

namespace Iso4

namespace Router

open Framing Handles Ipc Wire

/-! ### Runs -/

inductive RouterError where
  /-- `ProtocolDesyncError`. -/
  | desync (message : String)
  | decode (e : DecodeError)
  /-- What the reader or a write rejects with. -/
  | error (message : String)
  deriving DecidableEq

/-- What an abort listener calls. -/
inductive AbortKind where
  | beginSoftAbort
  | beginHardAbort
  | cancelSoft
  | cancelHard
  deriving DecidableEq

/-- The listeners put on before the `Result`. -/
def AbortKind.midRun : AbortKind → Bool
  | .beginSoftAbort => true
  | .beginHardAbort => true
  | .cancelSoft => false
  | .cancelHard => false

structure AbortListener where
  signal : Nat
  kind : AbortKind
  deriving DecidableEq

/-- `signal?.addEventListener('abort', …)`. -/
def listenersOn (signal : Option Nat) (kind : AbortKind) : List AbortListener :=
  signal.toList.map fun signal => ⟨signal, kind⟩

/-- What `detachAbort` of an entry removes. -/
inductive DetachAbort where
  | noop
  | midRun
  | grace
  deriving DecidableEq

/-- The timer behind a hard abort. -/
inductive GraceTimer where
  | unset
  | running
  | cleared
  | fired
  deriving DecidableEq

/-- A run as it goes to the caller.  The outbound streams and the dropped call ids are the
ones of its entry. -/
structure RawRunResult where
  result : Blob
  epilogue : Bool
  graceWork : Bool
  deriving DecidableEq

/-- How `executeRun` settles. -/
inductive RunOutcome where
  | resolved (raw : RawRunResult)
  /-- `RunAbortedError`, with the reason of a signal. -/
  | aborted (signal : Nat)
  | threw (e : RouterError)
  deriving DecidableEq

/-- Where a call of `executeRun` is. -/
inductive RunStage where
  /-- `await this.write(frame)`. -/
  | writing
  /-- `await settled`. -/
  | awaiting
  | returned
  deriving DecidableEq

/-- A call of `executeRun` with its entry. -/
structure RunEntry where
  runId : Nat
  /-- It has a dispatcher. -/
  dispatcher : Bool
  signal : Option Nat
  hardAbortSignal : Option Nat
  droppedCallIds : List Nat
  /-- The calls of `resolve` and `reject`. -/
  settled : List (Except RouterError RawRunResult)
  /-- The calls of `epilogue`, once it is there. -/
  epilogue : Option (List (Option DecodedRunComplete))
  detachAbort : DetachAbort
  /-- The listeners on its signals. -/
  listeners : List AbortListener
  graceTimer : GraceTimer
  stage : RunStage
  /-- Its request went to a destroyed socket. -/
  doomed : Bool
  /-- How `executeRun` settled. -/
  outcomes : List RunOutcome

namespace RunEntry

/-- No `Result` and no failure has reached it. -/
def awaitsResult (e : RunEntry) : Bool := e.settled.isEmpty

/-- Its epilogue was handed out and did not settle. -/
def inGrace (e : RunEntry) : Bool := e.epilogue.any List.isEmpty

/-- `entry.detachAbort()`. -/
def detach (e : RunEntry) : RunEntry :=
  match e.detachAbort with
  | .noop => e
  | .midRun =>
    { e with
      listeners := e.listeners.filter fun l => !l.kind.midRun
      graceTimer := if e.graceTimer = .running then .cleared else e.graceTimer }
  | .grace => { e with listeners := e.listeners.filter fun l => l.kind.midRun }

/-- `entry.resolve` and `entry.reject`. -/
def settle (e : RunEntry) (result : Except RouterError RawRunResult) : RunEntry :=
  { e with settled := e.settled ++ [result] }

/-- `entry.epilogue`. -/
def settleEpilogue (e : RunEntry) (report : Option DecodedRunComplete) : RunEntry :=
  { e with epilogue := e.epilogue.map fun calls => calls ++ [report] }

/-- The rest of `routeResult` when no `RunComplete` follows. -/
def finish (e : RunEntry) (payload : Blob) : RunEntry :=
  { e.detach with detachAbort := .noop }.settle (.ok ⟨payload, false, false⟩)

/-- The rest of `routeResult` when one does; whether a signal has fired. -/
def enterGrace (e : RunEntry) (payload : Blob) (graceWork aborted : Bool) : RunEntry :=
  let e := e.detach
  { e with
    epilogue := some []
    detachAbort := if aborted then .noop else .grace
    listeners := e.listeners ++ if aborted then [] else
      listenersOn e.signal .cancelSoft ++ listenersOn e.hardAbortSignal .cancelHard
  }.settle (.ok ⟨payload, true, graceWork⟩)

/-- What the router does to an entry when it stops. -/
def tearDown (failure : RouterError) (e : RunEntry) : RunEntry :=
  if e.epilogue.isSome then e.detach.settleEpilogue none else e.detach.settle (.error failure)

end RunEntry

/-! ### Control requests -/

inductive RequestStage where
  | writing
  | written
  /-- The write failed and the call threw. -/
  | threw (e : RouterError)
  deriving DecidableEq

/-- A call of `precompile` or `stats`. -/
structure ControlRequest where
  /-- The request id of a `precompile`. -/
  requestId : Option Nat
  /-- The calls that settle its reply. -/
  reply : List (Except RouterError Blob)
  stage : RequestStage
  doomed : Bool
  deriving DecidableEq

/-- It has neither a reply nor a failure. -/
def ControlRequest.pending (q : ControlRequest) : Bool :=
  q.reply.isEmpty && match q.stage with
    | .threw _ => false
    | _ => true

structure ControlWaiter where
  expects : RustToTsMessageType
  request : Nat

/-! ### The client -/

/-- Where the router is. -/
inductive Routing where
  | reading
  /-- It writes the answer to a bridge call. -/
  | answering
  | stopped
  deriving DecidableEq

structure RuntimeIpcClient where
  disposed : Bool
  broken : Bool
  /-- The socket is destroyed. -/
  destroyed : Bool
  routing : Routing
  nextRunId : Nat
  /-- Run ids, with the call of `executeRun` each is of. -/
  runs : AList fun _ : Nat => Nat
  graceRuns : Int
  /-- The calls of `executeRun`. -/
  entries : List RunEntry
  nextPrecompileId : Nat
  precompileWaiters : AList fun _ : Nat => Nat
  controlWaiters : List ControlWaiter
  /-- The calls of `precompile` and `stats`. -/
  requests : List ControlRequest
  /-- The signals that fired. -/
  aborted : List Nat
  /-- The `Terminate` frames written, and whether each is hard. -/
  terminates : List (Nat × Bool)
  /-- What `onSlotAllowance` was called with. -/
  slotAllowances : List Nat

inductive ClientOp where
  /-- `runRawCode` or `prefixRun`; whether the request can be encoded. -/
  | runRawCode (encodes dispatcher : Bool) (signal hardAbortSignal : Option Nat)
  /-- The request write of a run ends. -/
  | written (run : Nat)
  | writeFailed (run : Nat) (message : String)
  /-- `executeRun` goes on after `await settled`. -/
  | resume (run : Nat)
  | abort (signal : Nat)
  /-- A listener of a signal that fired gets its turn. -/
  | notify (run : Nat) (listener : AbortListener)
  | timerFires (run : Nat)
  | route (frame : TypedFrame RustToTsMessageType)
  /-- The write that the router waits on ends. -/
  | answered
  | answerFailed (message : String)
  /-- The reader rejects. -/
  | readRejects (message : String)
  /-- `error`, `end` or `close`; whether the socket is destroyed. -/
  | socketEvent (destroyed : Bool)
  | dispose
  | precompile
  | stats
  | requestWritten (request : Nat)
  | requestFailed (request : Nat) (message : String)

/-- What routing a frame comes to. -/
inductive Routed where
  | done
  | answers
  | throws (e : RouterError)

/-! ### The decoders of the stream frames -/

def decodeStreamPullPayload (payload : Blob) : Except DecodeError (Nat × Nat × Nat) :=
  Reader.run (do
    let runId ← HostReader.readU32
    let streamId ← HostReader.readU32
    let credit ← HostReader.readU32
    HostReader.assertDone
    pure (runId, streamId, credit)) payload

def decodeStreamCancelPayload (payload : Blob) : Except DecodeError (Nat × Nat × String) :=
  Reader.run (do
    let runId ← HostReader.readU32
    let streamId ← HostReader.readU32
    let reason ← HostReader.readString
    HostReader.assertDone
    pure (runId, streamId, reason)) payload

def decodeStreamChunkPayload (payload : Blob) : Except DecodeError (Nat × Nat × Blob) :=
  Reader.run (do
    let runId ← HostReader.readU32
    let streamId ← HostReader.readU32
    let len ← HostReader.readU32
    let data ← HostReader.readRawBytes len
    HostReader.assertDone
    pure (runId, streamId, data)) payload

def readStreamError : HostReader.HRead String := do
  let present ← HostReader.readU8
  if present = 1 then HostReader.readString else pure "the sandbox body source failed"

def decodeStreamEndPayload (payload : Blob) : Except DecodeError (Nat × Nat × Option String) :=
  Reader.run (do
    let runId ← HostReader.readU32
    let streamId ← HostReader.readU32
    let ok ← HostReader.readU8
    let error ← if ok = 1 then pure none else some <$> readStreamError
    HostReader.assertDone
    pure (runId, streamId, error)) payload

/-! ### The texts of the router -/

/-- An id, or that the payload has none. -/
def idText (id : Option Nat) : String := (id.map toString).getD "(truncated payload)"

def strayResult (runId : Option Nat) : RouterError :=
  .desync ("Result frame carries runId " ++ idText runId ++ " but no run " ++
    "with that id is awaiting a Result on this connection — the runtime is " ++
    "answering a run this client does not know")

def strayRunComplete (runId : Nat) : RouterError :=
  .desync ("RunComplete frame carries runId " ++ toString runId ++ " but no run with that id " ++
    "is in its waitUntil grace phase on this connection")

def strayPrecompile (requestId : Option Nat) : RouterError :=
  .desync ("PrecompileResult carries requestId " ++ idText requestId ++ " " ++
    "but no precompile with that id is pending on this connection")

def strayReply (messageType : RustToTsMessageType) : RouterError :=
  .desync ("unexpected frame type " ++ formatByte messageType.byte ++ " " ++
    "with no matching request pending on this connection")

def unexpectedFrame (messageType : RustToTsMessageType) : RouterError :=
  .desync ("unexpected frame type " ++ formatByte messageType.byte)

def shortBridgeCall : RouterError := .desync "BridgeCall payload too short to carry a run id"

def unattributedStream : RouterError :=
  .desync ("stream frame carries runId 0 — the runtime never leaves stream " ++
    "frames unattributed on a session connection")

namespace RuntimeIpcClient

def new : RuntimeIpcClient where
  disposed := false
  broken := false
  destroyed := false
  routing := .reading
  nextRunId := 0
  runs := ∅
  graceRuns := 0
  entries := []
  nextPrecompileId := 0
  precompileWaiters := ∅
  controlWaiters := []
  requests := []
  aborted := []
  terminates := []
  slotAllowances := []

/-- What the cap of the pool bounds. -/
def load (s : RuntimeIpcClient) : Int :=
  s.runs.entries.length - s.graceRuns + s.precompileWaiters.entries.length +
    s.controlWaiters.length

def modifyEntry (s : RuntimeIpcClient) (run : Nat) (f : RunEntry → RunEntry) : RuntimeIpcClient :=
  { s with entries := s.entries.modify run f }

def modifyRequest (s : RuntimeIpcClient) (request : Nat) (f : ControlRequest → ControlRequest) :
    RuntimeIpcClient :=
  { s with requests := s.requests.modify request f }

/-- `signal?.aborted`. -/
def isAborted (s : RuntimeIpcClient) (signal : Option Nat) : Bool := signal.any (· ∈ s.aborted)

/-- `runs.get`. -/
def entryOf (s : RuntimeIpcClient) (runId : Nat) : Option (Nat × RunEntry) := do
  let run ← s.runs.lookup runId
  let e ← s.entries[run]?
  pure (run, e)

/-! ### `executeRun` -/

/-- Ids are `u32`. -/
def idSpace : Nat := 2 ^ 32

/-- `nextRunIdValue`, with a bound on the rounds of its loop. -/
def nextRunIdValue (s : RuntimeIpcClient) : Option Nat :=
  Cyclic.firstAfter idSpace (fun id => id = 0 || (s.runs.lookup id).isSome) idSpace s.nextRunId

/-- `executeRun` up to its write. -/
def executeRun (s : RuntimeIpcClient) (runId : Nat) (dispatcher : Bool)
    (signal hardAbortSignal : Option Nat) : RuntimeIpcClient :=
  { s with
    runs := s.runs.insert runId s.entries.length
    entries := s.entries ++ [{
      runId, dispatcher, signal, hardAbortSignal
      droppedCallIds := []
      settled := []
      epilogue := none
      detachAbort := if signal.isSome || hardAbortSignal.isSome then .midRun else .noop
      -- a signal that has fired gets no listener
      listeners :=
        listenersOn (signal.filter (· ∉ s.aborted)) .beginSoftAbort ++
          listenersOn (hardAbortSignal.filter (· ∉ s.aborted)) .beginHardAbort
      graceTimer := .unset
      stage := .writing
      doomed := s.destroyed
      outcomes := [] }] }

def runRawCode (s : RuntimeIpcClient) (encodes dispatcher : Bool)
    (signal hardAbortSignal : Option Nat) : RuntimeIpcClient :=
  if s.disposed then s
  else
    match s.nextRunIdValue with
    | none => s
    | some runId =>
      if encodes then
        { s with nextRunId := runId }.executeRun runId dispatcher signal hardAbortSignal
      else { s with nextRunId := runId }

def terminate (s : RuntimeIpcClient) (runId : Nat) (hard : Bool) : RuntimeIpcClient :=
  { s with terminates := s.terminates ++ [(runId, hard)] }

def beginHardAbort (s : RuntimeIpcClient) (run : Nat) (e : RunEntry) : RuntimeIpcClient :=
  if e.graceTimer = .unset then
    (s.terminate e.runId true).modifyEntry run fun e => { e with graceTimer := .running }
  else s.terminate e.runId true

/-- The request is written. -/
def written (s : RuntimeIpcClient) (run : Nat) (e : RunEntry) : RuntimeIpcClient :=
  if e.stage = .writing && !e.doomed then
    let s' := s.modifyEntry run fun e => { e with stage := .awaiting }
    if s.isAborted e.hardAbortSignal then s'.beginHardAbort run e
    else if s.isAborted e.signal then s'.terminate e.runId false
    else s'
  else s

/-- The request write throws: the run goes, if it is in the table. -/
def writeFailed (s : RuntimeIpcClient) (run : Nat) (e : RunEntry) (message : String) :
    RuntimeIpcClient :=
  if e.stage = .writing then
    if (s.runs.lookup e.runId).isSome then
      { s with runs := s.runs.erase e.runId }.modifyEntry run fun e =>
        { e.detach.settle (.error (.error message)) with stage := .awaiting }
    else s.modifyEntry run fun e => { e with stage := .awaiting }
  else s

/-- What `executeRun` makes of the way its promise settled. -/
def outcomeOf (s : RuntimeIpcClient) (e : RunEntry) : Except RouterError RawRunResult → RunOutcome
  | .ok raw => .resolved raw
  | .error failure =>
    match e.signal.filter (· ∈ s.aborted) with
    | some signal => .aborted signal
    | none =>
      match e.hardAbortSignal.filter (· ∈ s.aborted) with
      | some signal => .aborted signal
      | none => .threw failure

def resume (s : RuntimeIpcClient) (run : Nat) (e : RunEntry) : RuntimeIpcClient :=
  if e.stage = .awaiting then
    match e.settled.head? with
    | none => s
    | some result =>
      s.modifyEntry run fun e =>
        { e with stage := .returned, outcomes := e.outcomes ++ [s.outcomeOf e result] }
  else s

/-! ### Aborts -/

/-- A listener is removed, then called. -/
def notify (s : RuntimeIpcClient) (run : Nat) (e : RunEntry) (l : AbortListener) :
    RuntimeIpcClient :=
  if l ∈ e.listeners ∧ l.signal ∈ s.aborted then
    let s := s.modifyEntry run fun e => { e with listeners := e.listeners.erase l }
    match l.kind with
    | .beginSoftAbort => s.terminate e.runId false
    | .beginHardAbort => s.beginHardAbort run e
    | .cancelSoft => s.terminate e.runId false
    | .cancelHard => s.terminate e.runId true
  else s

def abortConnection (s : RuntimeIpcClient) : RuntimeIpcClient :=
  if s.broken then s else { s with broken := true, destroyed := true }

def timerFires (s : RuntimeIpcClient) (run : Nat) (e : RunEntry) : RuntimeIpcClient :=
  if e.graceTimer = .running then
    (s.modifyEntry run fun e => { e with graceTimer := .fired }).abortConnection
  else s

/-! ### The router -/

/-- Route a `Result` frame. -/
def routeResult (s : RuntimeIpcClient) (payload : Blob) : RuntimeIpcClient × Routed :=
  let s := { s with
    slotAllowances := s.slotAllowances ++ [peekRunCompletionSlotAllowance payload] }
  match peekRunCompletionRunId payload with
  | none => (s, .throws (strayResult none))
  | some runId =>
    match s.entryOf runId with
    | none => (s, .throws (strayResult (some runId)))
    | some (run, e) =>
      if e.epilogue.isSome then (s, .throws (strayResult (some runId)))
      else
        let flags := peekRunCompletionBackgroundFlags payload
        if flags = 0 then
          ({ s with runs := s.runs.erase runId }.modifyEntry run fun e => e.finish payload, .done)
        else
          let hard := s.isAborted e.hardAbortSignal
          let aborted := hard || s.isAborted e.signal
          ({ s with
              graceRuns := s.graceRuns + 1
              terminates := s.terminates ++ if aborted then [(runId, hard)] else []
            }.modifyEntry run fun e => e.enterGrace payload (flags % 2 = 1) aborted,
            .done)

/-- Route a `RunComplete` frame. -/
def routeRunComplete (s : RuntimeIpcClient) (payload : Blob) : RuntimeIpcClient × Routed :=
  let dropped := ((peekRunCompletionRunId payload).bind s.entryOf).elim [] fun p =>
    p.2.droppedCallIds
  match decodeRunCompletePayload payload dropped with
  | .error e => (s, .throws (.decode e))
  | .ok report =>
    match s.entryOf report.runId with
    | none => (s, .throws (strayRunComplete report.runId))
    | some (run, e) =>
      if e.epilogue.isSome then
        ({ s with
            runs := s.runs.erase report.runId
            graceRuns := s.graceRuns - 1
          }.modifyEntry run fun e => e.detach.settleEpilogue (some report),
          .done)
      else (s, .throws (strayRunComplete report.runId))

def routePrecompileResult (s : RuntimeIpcClient) (payload : Blob) : RuntimeIpcClient × Routed :=
  match peekPrecompileResultRequestId payload with
  | none => (s, .throws (strayPrecompile none))
  | some requestId =>
    match s.precompileWaiters.lookup requestId with
    | none => (s, .throws (strayPrecompile (some requestId)))
    | some request =>
      ({ s with precompileWaiters := s.precompileWaiters.erase requestId }.modifyRequest request
          fun q => { q with reply := q.reply ++ [Except.ok payload] },
        .done)

def routeStatsResult (s : RuntimeIpcClient) (frame : TypedFrame RustToTsMessageType) :
    RuntimeIpcClient × Routed :=
  match s.controlWaiters with
  | [] => (s, .throws (strayReply frame.messageType))
  | waiter :: rest =>
    if waiter.expects = frame.messageType then
      ({ s with controlWaiters := rest }.modifyRequest waiter.request fun q =>
          { q with reply := q.reply ++ [Except.ok frame.payload] },
        .done)
    else (s, .throws (strayReply frame.messageType))

variable {V : Type} (codec : ValueCodec V)

/-- The handlers run on their own; the router waits only for an answer it writes itself. -/
def dispatchBridgeCallFrame (s : RuntimeIpcClient) (payload : Blob) (run : Nat) (e : RunEntry) :
    RuntimeIpcClient × Routed :=
  if s.isAborted e.signal || s.isAborted e.hardAbortSignal then
    match peekBridgeCallId payload with
    | none => (s, .done)
    | some callId =>
      (s.modifyEntry run fun e => { e with droppedCallIds := e.droppedCallIds.insert callId }, .done)
  else
    match decodeBridgeCallPayload codec payload with
    | .error failure =>
      match peekBridgeCallId payload with
      | none => (s, .throws (.decode failure))
      | some _ => (s, .answers)
    | .ok _ => (s, if e.dispatcher then .done else .answers)

def routeBridgeCall (s : RuntimeIpcClient) (payload : Blob) : RuntimeIpcClient × Routed :=
  match peekBridgeCallRunId payload with
  | none => (s, .throws shortBridgeCall)
  | some runId =>
    match s.entryOf runId with
    | none => (s, .done)
    | some (run, e) => s.dispatchBridgeCallFrame codec payload run e

/-- A frame for a stream the host sends; `owned` when a run id of 0 is refused. -/
def routeStream {α : Type} (decoded : Except DecodeError (Nat × α)) (owned : Bool) : Routed :=
  match decoded with
  | .error e => .throws (.decode e)
  | .ok (runId, _) => if owned && runId = 0 then .throws unattributedStream else .done

def routeFrame (s : RuntimeIpcClient) (frame : TypedFrame RustToTsMessageType) :
    RuntimeIpcClient × Routed :=
  match frame.messageType with
  | .result => s.routeResult frame.payload
  | .runComplete => s.routeRunComplete frame.payload
  | .log => (s, .done)
  | .precompileResult => s.routePrecompileResult frame.payload
  | .statsResult => s.routeStatsResult frame
  | .bridgeCall => s.routeBridgeCall codec frame.payload
  | .streamChunk => (s, routeStream (decodeStreamChunkPayload frame.payload) false)
  | .streamEnd => (s, routeStream (decodeStreamEndPayload frame.payload) false)
  | .streamPull => (s, routeStream (decodeStreamPullPayload frame.payload) true)
  | .streamCancel => (s, routeStream (decodeStreamCancelPayload frame.payload) true)
  | .hello => (s, .throws (unexpectedFrame .hello))

/-- The requests that wait for a reply. -/
def waiting (s : RuntimeIpcClient) : List Nat :=
  s.controlWaiters.map ControlWaiter.request ++ handles s.precompileWaiters

/-- The `catch` of `routeFrames`. -/
def tearDown (s : RuntimeIpcClient) (failure : RouterError) : RuntimeIpcClient :=
  { s with
    broken := true
    destroyed := true
    routing := .stopped
    runs := ∅
    graceRuns := 0
    entries := modifyAll s.entries (handles s.runs) (RunEntry.tearDown failure)
    controlWaiters := []
    precompileWaiters := ∅
    requests := modifyAll s.requests s.waiting fun q =>
      { q with reply := q.reply ++ [Except.error failure] } }

def route (s : RuntimeIpcClient) (frame : TypedFrame RustToTsMessageType) : RuntimeIpcClient :=
  match s.routeFrame codec frame with
  | (s, .done) => s
  | (s, .answers) => { s with routing := .answering }
  | (s, .throws e) => s.tearDown e

/-! ### Control requests -/

/-- `nextPrecompileIdValue`. -/
def nextPrecompileIdValue (s : RuntimeIpcClient) : Option Nat :=
  Cyclic.firstAfter idSpace (fun id => (s.precompileWaiters.lookup id).isSome) idSpace
    s.nextPrecompileId

def precompile (s : RuntimeIpcClient) : RuntimeIpcClient :=
  if s.disposed then s
  else
    match s.nextPrecompileIdValue with
    | none => s
    | some requestId =>
      { s with
        nextPrecompileId := requestId
        precompileWaiters := s.precompileWaiters.insert requestId s.requests.length
        requests := s.requests ++ [⟨some requestId, [], .writing, s.destroyed⟩] }

/-- `controlRequest` of `stats`. -/
def stats (s : RuntimeIpcClient) : RuntimeIpcClient :=
  if s.disposed then s
  else
    { s with
      controlWaiters := s.controlWaiters ++ [⟨.statsResult, s.requests.length⟩]
      requests := s.requests ++ [⟨none, [], .writing, s.destroyed⟩] }

def requestWritten (s : RuntimeIpcClient) (request : Nat) (q : ControlRequest) :
    RuntimeIpcClient :=
  if q.stage = .writing && !q.doomed then
    s.modifyRequest request fun q => { q with stage := .written }
  else s

/-- The waiter of a `precompile` goes by its id, the one of a `stats` by itself. -/
def requestFailed (s : RuntimeIpcClient) (request : Nat) (q : ControlRequest) (message : String) :
    RuntimeIpcClient :=
  if q.stage = .writing then
    let s := s.modifyRequest request fun q => { q with stage := .threw (.error message) }
    match q.requestId with
    | some requestId => { s with precompileWaiters := s.precompileWaiters.erase requestId }
    | none =>
      { s with controlWaiters := s.controlWaiters.eraseP fun waiter => waiter.request = request }
  else s

/-! ### Steps -/

def step (s : RuntimeIpcClient) : ClientOp → RuntimeIpcClient
  | .runRawCode encodes dispatcher signal hardAbortSignal =>
    s.runRawCode encodes dispatcher signal hardAbortSignal
  | .written run => s.entries[run]?.elim s (s.written run)
  | .writeFailed run message => s.entries[run]?.elim s fun e => s.writeFailed run e message
  | .resume run => s.entries[run]?.elim s (s.resume run)
  | .abort signal => { s with aborted := s.aborted.insert signal }
  | .notify run listener => s.entries[run]?.elim s fun e => s.notify run e listener
  | .timerFires run => s.entries[run]?.elim s (s.timerFires run)
  | .route frame => if s.routing = .reading then s.route codec frame else s
  | .answered => if s.routing = .answering then { s with routing := .reading } else s
  | .answerFailed message =>
    if s.routing = .answering then s.tearDown (.error message) else s
  | .readRejects message => if s.routing = .reading then s.tearDown (.error message) else s
  | .socketEvent destroyed => { s with broken := true, destroyed := s.destroyed || destroyed }
  | .dispose => { s with disposed := true, destroyed := true }
  | .precompile => s.precompile
  | .stats => s.stats
  | .requestWritten request => s.requests[request]?.elim s (s.requestWritten request)
  | .requestFailed request message =>
    s.requests[request]?.elim s fun q => s.requestFailed request q message

/-- What the end of a write finds: a failed one finds the run's own entry without an epilogue,
or none; one that succeeds finds the run without its `Result` if it starts the timer of a hard
abort; a failed `precompile` finds its own waiter, or none. -/
def Clean (s : RuntimeIpcClient) : ClientOp → Prop
  | .written run =>
    ∀ e ∈ s.entries[run]?, e.stage = .writing → s.isAborted e.hardAbortSignal = true →
      e.graceTimer = .unset → e.awaitsResult = true
  | .writeFailed run _ =>
    ∀ e ∈ s.entries[run]?, e.stage = .writing → ∀ owner ∈ s.runs.lookup e.runId,
      owner = run ∧ e.epilogue.isNone = true
  | .requestFailed request _ =>
    ∀ q ∈ s.requests[request]?, q.stage = .writing → ∀ requestId ∈ q.requestId,
      ∀ owner ∈ s.precompileWaiters.lookup requestId, owner = request
  | _ => True

end RuntimeIpcClient

end Router

end Iso4
