/-
The connection of a host, as the runtime serves it: the demux of
`crates/server/src/session.rs`.

One thread reads the frames of the connection.  It holds the lock of the route table
for one access at a time, so a run may finish on its own thread between any two of its
steps.  A run is routed from its registration to its end; the guard of the demux fails
what is still routed when the thread ends, whatever the reason.

* `inboundOf`, `RunFrame.inbound` — what a run is sent for a frame;
* `Session.step` — the steps of the demux and of the runs.
-/
import Iso4.Framing
import Iso4.Payloads

namespace Iso4

open Wire Ipc

namespace Session

/-! ### Messages to a run -/

inductive RunMessageType where
  | bridgeResponse | streamChunk | streamEnd | streamPull | streamCancel
  deriving DecidableEq

inductive Inbound where
  | bridgeResponse (callId : Nat) (result : Except BridgeErrorPayload (Option Blob))
  | streamChunk (streamId : Nat) (data : Blob)
  | streamEnd (streamId : Nat) (error : Option String)
  | streamPull (streamId credit : Nat)
  | streamCancel (streamId : Nat) (reason : String)
  | terminate (mode : TerminateMode)
  | connectionLost (detail : Option String)

/-- The message of the guard. -/
def Inbound.isLost : Inbound → Bool
  | .connectionLost none => true
  | _ => false

def decoded {α : Type} (what : String) (r : Except IoError α) : Except String α :=
  r.mapError fun e => what ++ " decode: " ++ e.message

/-- `inbound_of`. -/
def inboundOf (type : RunMessageType) (payload : Blob) : Except String Inbound :=
  match type with
  | .bridgeResponse => do
    let (_, callId, result) ← decoded "response" (parseBridgeResponsePayload.run payload)
    .ok (.bridgeResponse callId result)
  | .streamChunk => do
    let (streamId, data) ← decoded "stream chunk" (parseStreamChunkPayload.run payload)
    .ok (.streamChunk streamId data)
  | .streamEnd => do
    let ended ← decoded "stream end" (parseStreamEndPayload.run payload)
    .ok (.streamEnd ended.streamId
      (if ended.ok then none else some (ended.error.getD "the host body source failed")))
  | .streamPull => do
    let (streamId, credit) ← decoded "stream pull" (parseStreamPullPayload.run payload)
    .ok (.streamPull streamId credit)
  | .streamCancel => do
    let (streamId, reason) ← decoded "stream cancel" (parseStreamCancelPayload.run payload)
    .ok (.streamCancel streamId reason)

/-- A frame for a run that is let in: its payload, or the mode of a `Terminate`. -/
inductive RunFrame where
  | message (type : RunMessageType) (payload : Blob)
  | terminate (mode : TerminateMode)

def overCap (length cap : Nat) : String :=
  "frame length " ++ toString length ++ " exceeds max frame length " ++ toString cap

/-- What the run is sent: a frame over its cap, or one that does not decode, is the loss of
its connection. -/
def RunFrame.inbound (frameCap : Nat) : RunFrame → Inbound
  | .message type payload =>
    if frameCap < payload.length + 1 then
      .connectionLost (some (overCap (payload.length + 1) frameCap))
    else
      match inboundOf type payload with
      | .ok msg => msg
      | .error detail => .connectionLost (some detail)
  | .terminate mode => .terminate mode

/-! ### The route table -/

structure RunRoute where
  /-- The token of the run. -/
  handle : Nat
  frameCap : Nat

/-- `conn_runs`. -/
abbrev ConnRuns := List (Nat × RunRoute)

def lookup (routes : ConnRuns) (runId : Nat) : Option RunRoute :=
  (routes.find? (·.1 = runId)).map Prod.snd

/-- A megabyte count in bytes, held at `u32::MAX`. -/
def megabytes (mb : Nat) : Nat := min (mb * (1024 * 1024)) (2 ^ 32 - 1)

def frameCapFor (limits : ResourceLimits) : Nat :=
  if limits.softMemoryMb = 0 then
    if limits.hardMemoryMb = 0 then Framing.defaultMaxFrameLength
    else megabytes limits.hardMemoryMb
  else megabytes limits.softMemoryMb

def peekRunId : Blob → Option Nat
  | a :: b :: c :: d :: _ => some (ofU32be a b c d)
  | _ => none

/-! ### The demux and the runs -/

/-- The frames of the connection; a type byte of another kind is a failed read. -/
inductive DemuxFrame where
  | close
  | authenticate
  | run (payload : Blob)
  | prefixRun (payload : Blob)
  | precompile (payload : Blob)
  | disposePrefix (payload : Blob)
  /-- Whether the answer could be queued. -/
  | stats (sent : Bool)
  | runFrame (type : RunMessageType) (payload : Blob)
  | terminate (payload : Blob)

/-- Where the demux thread is, between two accesses to the table. -/
inductive Demux where
  | reading
  /-- It holds the handle of a run and a message for it. -/
  | delivering (handle : Nat) (msg : Inbound)
  /-- The id was free; the engine decides. -/
  | starting (runId frameCap : Nat)
  /-- The engine has registered the run and hands it to a thread. -/
  | registered (runId handle : Nat)
  /-- The start returned an error. -/
  | failing (runId : Nat) (error : String)
  | refusing (runId : Nat) (error : String)
  | tearingDown (routes : List RunRoute)
  | ended

inductive Phase where
  | registered
  | live
  /-- The route was dropped, the answer is to be sent. -/
  | concluded
  | answered
  /-- It never ran. -/
  | unstarted
  deriving DecidableEq

structure StartedRun where
  runId : Nat
  phase : Phase
  deriving DecidableEq

/-- Why a route left the table. -/
inductive Removal where
  | finished
  | startFailed
  | tornDown
  deriving DecidableEq

/-- A `Result` or `RunComplete` on the link. -/
inductive Answer where
  | final (handle : Nat)
  | refused (runId : Nat) (error : String)

/-- A frame for a run, and the route that was found for it. -/
structure Routed where
  runId : Nat
  frame : RunFrame
  route : Option RunRoute

structure Delivery where
  handle : Nat
  msg : Inbound

def Routed.delivery (f : Routed) : Option Delivery :=
  f.route.map fun r => ⟨r.handle, f.frame.inbound r.frameCap⟩

end Session

open Session

/-- The session.  The runs are listed by token; `routed`, `refusals` and `removed` only
record what was done. -/
structure Session where
  routes : ConnRuns
  demux : Demux
  runs : List StartedRun
  deliveries : List Delivery
  answers : List Answer
  routed : List Routed
  refusals : List (Nat × String)
  removed : List (Nat × Removal)

/-- One step of one thread. -/
inductive SessionStep where
  | frame (f : DemuxFrame)
  | readFailed
  | deliver
  /-- The engine registers the run. -/
  | register
  /-- The engine refuses, before it registered the run or after. -/
  | startFails (error : String)
  /-- The run is on its thread. -/
  | starts
  | unregister
  | refuse
  | tearDown
  | panic
  /-- The run of this token calls `finished`. -/
  | finished (handle : Nat)
  | answer (handle : Nat)

namespace Session

def new : Session := ⟨[], .reading, [], [], [], [], [], []⟩

def setPhase (s : Session) (handle : Nat) (phase : Phase) : Session :=
  { s with runs := s.runs.modify handle fun r => { r with phase } }

/-- `HashMap::remove`. -/
def removeRoute (s : Session) (runId : Nat) (why : Removal) : Session :=
  match lookup s.routes runId with
  | none => s
  | some r =>
    { s with
      routes := s.routes.filter (·.1 ≠ runId)
      removed := s.removed ++ [(r.handle, why)] }

/-- The drop of `FailRunsOnDrop`, as far as its lock. -/
def endDemux (s : Session) : Session :=
  { s with
    routes := []
    demux := .tearingDown (s.routes.map Prod.snd)
    removed := s.removed ++ s.routes.map fun e => (e.2.handle, .tornDown) }

def duplicateRun (runId : Nat) : String :=
  "run id " ++ toString runId ++ " is already in flight on this connection; every concurrent run needs " ++
    "a distinct id"

/-- `start_run`, up to the call of the engine. -/
def startRun (s : Session) (runId frameCap : Nat) : Session :=
  match lookup s.routes runId with
  | some _ =>
    { s with
      demux := .refusing runId (duplicateRun runId)
      refusals := s.refusals ++ [(runId, duplicateRun runId)] }
  | none => { s with demux := .starting runId frameCap }

/-- The lookup of `route_run_frame` and of `route_terminate`. -/
def routeFrame (s : Session) (runId : Nat) (frame : RunFrame) : Session :=
  let s := { s with routed := s.routed ++ [⟨runId, frame, lookup s.routes runId⟩] }
  match lookup s.routes runId with
  | none => s
  | some r => { s with demux := .delivering r.handle (frame.inbound r.frameCap) }

def routeRunFrame (s : Session) (type : RunMessageType) (payload : Blob) : Session :=
  match peekRunId payload with
  | none => s.endDemux
  | some runId => s.routeFrame runId (.message type payload)

def routeTerminate (s : Session) (payload : Blob) : Session :=
  match parseTerminatePayload.run payload with
  | .error _ => s.endDemux
  | .ok (runId, mode) => s.routeFrame runId (.terminate mode)

/-- The arms of the demux loop. -/
def handleFrame (s : Session) : DemuxFrame → Session
  | .close => s.endDemux
  | .authenticate => s.endDemux
  | .run payload =>
    match parseRunPayload.run payload with
    | .error _ => s.endDemux
    | .ok req => s.startRun req.runId (frameCapFor req.limits)
  | .prefixRun payload =>
    match parsePrefixRunPayload.run payload with
    | .error _ => s.endDemux
    | .ok req => s.startRun req.runId (frameCapFor req.limits)
  | .precompile payload =>
    match parsePrecompilePayload.run payload with
    | .error _ => s.endDemux
    | .ok _ => s
  | .disposePrefix payload =>
    match parseDisposePrefixPayload.run payload with
    | .error _ => s.endDemux
    | .ok _ => s
  | .stats sent => if sent then s else s.endDemux
  | .runFrame type payload => s.routeRunFrame type payload
  | .terminate payload => s.routeTerminate payload

/-- What the demux thread does next, by where it is. -/
def demuxStep (s : Session) : SessionStep → Demux → Session
  | .frame f, .reading => s.handleFrame f
  | .readFailed, .reading => s.endDemux
  | .deliver, .delivering handle msg =>
    { s with demux := .reading, deliveries := s.deliveries ++ [⟨handle, msg⟩] }
  | .register, .starting runId frameCap =>
    { s with
      routes := s.routes.filter (·.1 ≠ runId) ++ [(runId, ⟨s.runs.length, frameCap⟩)]
      demux := .registered runId s.runs.length
      runs := s.runs ++ [⟨runId, .registered⟩] }
  | .startFails error, .starting runId _ =>
    { s with demux := .failing runId error, refusals := s.refusals ++ [(runId, error)] }
  | .startFails error, .registered runId handle =>
    { s.setPhase handle .unstarted with
      demux := .failing runId error
      refusals := s.refusals ++ [(runId, error)] }
  | .starts, .registered _ handle => { s.setPhase handle .live with demux := .reading }
  | .unregister, .failing runId error =>
    { s.removeRoute runId .startFailed with demux := .refusing runId error }
  | .refuse, .refusing runId error =>
    { s with demux := .reading, answers := s.answers ++ [.refused runId error] }
  | .tearDown, .tearingDown [] => { s with demux := .ended }
  | .tearDown, .tearingDown (r :: rest) =>
    { s with
      demux := .tearingDown rest
      deliveries := s.deliveries ++ [⟨r.handle, .connectionLost none⟩] }
  | .panic, .tearingDown _ => s
  | .panic, .ended => s
  | .panic, _ => s.endDemux
  | _, _ => s

/-- `finish_run` on the thread of a run: the route goes, then the answer. -/
def runStep (s : Session) (handle : Nat) (run : StartedRun) : SessionStep → Session
  | .finished _ =>
    if run.phase = .live then (s.removeRoute run.runId .finished).setPhase handle .concluded else s
  | .answer _ =>
    if run.phase = .concluded then
      { s.setPhase handle .answered with answers := s.answers ++ [.final handle] }
    else s
  | _ => s

def step (s : Session) (e : SessionStep) : Session :=
  match e with
  | .finished handle =>
    match s.runs[handle]? with
    | some run => s.runStep handle run e
    | none => s
  | .answer handle =>
    match s.runs[handle]? with
    | some run => s.runStep handle run e
    | none => s
  | e => s.demuxStep e s.demux

end Session

end Iso4
