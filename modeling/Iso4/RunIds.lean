/-
The run ids of one connection, at both of its ends: the run table of
`packages/iso4-sandbox/src/client.ts` and the routes of `crates/server/src/session.rs`,
with the frames in flight between them.

The host picks the ids from a counter that wraps at 2^32.  It forgets a run when its
last frame is routed; the runtime drops the route before it sends that frame.  A frame
carries its run id and nothing else that tells runs apart, so runs are numbered here by
their order of starting: the number travels with a frame only to say which run it is of.

* `RunWorld.nextRunIdValue` — the allocator;
* `RunWorld.step` — the steps of the host and of the runtime.
-/
import Iso4.Lib.Cyclic
import Mathlib.Algebra.Ring.Nat
import Mathlib.Data.List.AList

namespace Iso4

/-! ### Frames -/

/-- A frame on its way to the runtime. -/
inductive RunWire where
  /-- `Run` or `PrefixRun`. -/
  | start (runId run : Nat)
  /-- `BridgeResponse`, `StreamChunk`, `StreamEnd`, `StreamPull`, `StreamCancel` or `Terminate`. -/
  | tagged (runId run : Nat)
  deriving DecidableEq

/-- A frame on its way to the host. -/
inductive RuntimeFrame where
  /-- `BridgeCall`, `StreamChunk`, `StreamEnd`, `StreamPull` or `StreamCancel`. -/
  | tagged (runId run : Nat)
  /-- `Result`; whether its background flags are set. -/
  | result (runId run : Nat) (background : Bool)
  | runComplete (runId run : Nat)
  deriving DecidableEq

/-! ### The two ends -/

/-- An entry of `runs`; whether it has its epilogue. -/
structure HostRun where
  run : Nat
  epilogue : Bool
  deriving DecidableEq

/-- Where a run is, as far as the runtime has it. -/
inductive RunStage where
  /-- Its request is on its way. -/
  | requested
  /-- Routed; whether its early `Result` went out. -/
  | running (early : Bool)
  /-- Its route is dropped. -/
  | concluded (early : Bool)
  | answered
  deriving DecidableEq

structure StartedId where
  runId : Nat
  stage : RunStage
  deriving DecidableEq

/-- A connection.  `started` lists the runs in the order they were started; `toRun` and
`toEntry` record which run a tagged frame was of and which run it was given to. -/
structure RunWorld where
  nextRunId : Nat
  runs : AList fun _ : Nat => HostRun
  /-- The host has torn the connection down: it routes and writes no more. -/
  closed : Bool
  toRuntime : List RunWire
  routes : AList fun _ : Nat => Nat
  toHost : List RuntimeFrame
  started : List StartedId
  toRun : List (Nat × Nat)
  toEntry : List (Nat × Nat)
  /-- Runs refused because their id was routed. -/
  duplicates : List Nat

inductive RunIdStep where
  /-- `runRawCode` or `prefixRun`; whether the request can be encoded. -/
  | start (encodes : Bool)
  /-- The host writes a frame with the id of a run. -/
  | hostWrites (run : Nat)
  /-- The demux handles the next frame; whether the engine takes a run. -/
  | receive (taken : Bool)
  | runSends (run : Nat)
  | earlyResult (run : Nat)
  /-- `HostLink::finished`. -/
  | finished (run : Nat)
  /-- `send_completion`; whether the run ended with an output. -/
  | completion (run : Nat) (output : Bool)
  /-- The host routes the next frame. -/
  | route
  | close

namespace RunWorld

def new : RunWorld := ⟨0, ∅, false, [], ∅, [], [], [], [], []⟩

/-- Run ids are `u32`. -/
def idSpace : Nat := 2 ^ 32

/-- `nextRunIdValue`, with a bound on the rounds of its loop. -/
def nextRunIdValue (w : RunWorld) : Option Nat :=
  Cyclic.firstAfter idSpace (fun id => id = 0 || (w.runs.lookup id).isSome) idSpace w.nextRunId

def setStage (w : RunWorld) (run : Nat) (stage : RunStage) : RunWorld :=
  { w with started := w.started.modify run fun r => { r with stage } }

/-- The id is picked, then the request is encoded, registered and written. -/
def start (w : RunWorld) (encodes : Bool) : RunWorld :=
  match w.nextRunIdValue with
  | none => w
  | some runId =>
    if encodes then
      { w with
        nextRunId := runId
        runs := w.runs.insert runId ⟨w.started.length, false⟩
        toRuntime := w.toRuntime ++ [.start runId w.started.length]
        started := w.started ++ [⟨runId, .requested⟩] }
    else { w with nextRunId := runId }

/-- The demux is the only one to add a route, so its check and the route are one step.
A run that is refused, as a duplicate or by the engine, gets its `Result` at once. -/
def startRun (w : RunWorld) (taken : Bool) (runId run : Nat) : RunWorld :=
  match w.routes.lookup runId with
  | some _ =>
    { w.setStage run .answered with
      toHost := w.toHost ++ [.result runId run false]
      duplicates := w.duplicates ++ [run] }
  | none =>
    if taken then { w.setStage run (.running false) with routes := w.routes.insert runId run }
    else { w.setStage run .answered with toHost := w.toHost ++ [.result runId run false] }

def handleFrame (w : RunWorld) (taken : Bool) : RunWire → RunWorld
  | .start runId run => w.startRun taken runId run
  | .tagged runId run =>
    match w.routes.lookup runId with
    | none => w
    | some owner => { w with toRun := w.toRun ++ [(run, owner)] }

def desync (w : RunWorld) : RunWorld := { w with closed := true }

def routeResult (w : RunWorld) (runId : Nat) (background : Bool) : RunWorld :=
  match w.runs.lookup runId with
  | none => w.desync
  | some entry =>
    if entry.epilogue then w.desync
    else if background then { w with runs := w.runs.insert runId { entry with epilogue := true } }
    else { w with runs := w.runs.erase runId }

def routeRunComplete (w : RunWorld) (runId : Nat) : RunWorld :=
  match w.runs.lookup runId with
  | none => w.desync
  | some entry => if entry.epilogue then { w with runs := w.runs.erase runId } else w.desync

def routeFrame (w : RunWorld) : RuntimeFrame → RunWorld
  | .tagged runId run =>
    match w.runs.lookup runId with
    | none => w
    | some entry => { w with toEntry := w.toEntry ++ [(run, entry.run)] }
  | .result runId _ background => w.routeResult runId background
  | .runComplete runId _ => w.routeRunComplete runId

/-- The host writes with the id of a run, or its thread goes on. -/
def runStep (w : RunWorld) (run : Nat) (r : StartedId) : RunIdStep → RunWorld
  | .hostWrites _ => { w with toRuntime := w.toRuntime ++ [.tagged r.runId run] }
  | .runSends _ =>
    match r.stage with
    | .running _ => { w with toHost := w.toHost ++ [.tagged r.runId run] }
    | _ => w
  | .earlyResult _ =>
    match r.stage with
    | .running false =>
      { w.setStage run (.running true) with toHost := w.toHost ++ [.result r.runId run true] }
    | _ => w
  | .finished _ =>
    match r.stage with
    | .running early => { w.setStage run (.concluded early) with routes := w.routes.erase r.runId }
    | _ => w
  | .completion _ output =>
    match r.stage with
    | .concluded early =>
      { w.setStage run .answered with
        toHost := w.toHost ++
          [if early && output then .runComplete r.runId run else .result r.runId run false] }
    | _ => w
  | _ => w

/-- What the host does, unless the connection is torn down. -/
def onHost (w w' : RunWorld) : RunWorld := if w.closed then w else w'

def step (w : RunWorld) : RunIdStep → RunWorld
  | .start encodes => w.onHost (w.start encodes)
  | .receive taken =>
    match w.toRuntime with
    | [] => w
    | f :: rest => { w with toRuntime := rest }.handleFrame taken f
  | .route =>
    match w.toHost with
    | [] => w
    | f :: rest => w.onHost ({ w with toHost := rest }.routeFrame f)
  | .close => w.desync
  | .hostWrites run =>
    w.onHost ((w.started[run]?).elim w fun r => w.runStep run r (.hostWrites run))
  | .runSends run => (w.started[run]?).elim w fun r => w.runStep run r (.runSends run)
  | .earlyResult run => (w.started[run]?).elim w fun r => w.runStep run r (.earlyResult run)
  | .finished run => (w.started[run]?).elim w fun r => w.runStep run r (.finished run)
  | .completion run output => (w.started[run]?).elim w fun r => w.runStep run r (.completion run output)

/-- A frame is written while no newer run has been given the id of its run. -/
def InTime (w : RunWorld) : RunIdStep → Prop
  | .hostWrites run => ∀ r ∈ w.started[run]?, ∀ r' ∈ w.started.drop (run + 1), r'.runId ≠ r.runId
  | _ => True

end RunWorld

end Iso4
