/-
The turns of a run (`crates/core/src/v8/runloop.rs`, `bridge.rs`, `modules.rs`,
`timers.rs`, `streams.rs`): entering the isolate on behalf of one run, doing
one unit of work, a microtask checkpoint, and scanning the run's root promise
or its post-Result phase.

The turn functions are programs over the operations `Op`, so that a fact about
everything a turn can do is one check per operation (`Program.Prog.run_rel`).
They return what the source's `ScanOutcome` says; a source function that
returns a failure beside an outcome returns `finished` here, as both of its
callers make of it.

Every look at the reason cell is an operation of its own: between two looks
the watchdog or a hard abort may fire.
-/
import Iso4.Core
import Iso4.Lib.Program

namespace Iso4

open Program

/-- What a turn does to the world and to its run. -/
inductive Op : Type → Type where
  | now : Op Nat
  | reason : Op (Option TerminationReason)
  | resetReason : Op Unit
  | terminating : Op Bool
  | cancelTerminate : Op Unit
  /-- `TurnGuard::begin`. -/
  | arm : Op Unit
  /-- `InstanceGuard::clear`. -/
  | disarm : Op Unit
  /-- Run guest JS. -/
  | js : Op Slice
  /-- Read a thrown or rejected value, which can run guest getters. -/
  | read : Op RunError
  | resultStreamMode (on : Bool) : Op Unit
  | self : Op LiveRun
  | entry (f : RunCallState → RunCallState) : Op Unit
  /-- Take the resolver of an answered bridge call. -/
  | resolved (callId : Nat) : Op Unit
  /-- Arm a root promise. -/
  | root (st : PromiseState) (callPending rootIsCallResult : Bool) : Op Unit
  | graceStatus (s : GraceStatus) : Op Unit
  /-- Record the first error of the post-Result phase. -/
  | graceError (e : String × String) : Op Unit
  /-- Ship the early `Result` and switch to the post-Result phase. -/
  | beginGrace (exports : Nat) (hasGrace hasStreams : Bool) : Op Unit
  | send (msg : Outbound) : Op SendResult

namespace Turn

/-- Run one stretch of guest JS. -/
def runSlice (t : Turn) (s : Slice) : Turn := t.actAll s.acts

def js (t : Turn) : Slice × Turn :=
  let s := t.script.slices.head?.getD Slice.idle
  (s, (t.onCore Core.popSlice).runSlice s)

def read (t : Turn) : RunError × Turn :=
  let s := t.script.getters.head?.getD Slice.idle
  (s.error.toRunError, (t.onCore Core.popGetter).runSlice s)

/-- The guard target of the owner's phase. -/
def arm (t : Turn) : Turn :=
  match t.owner.rs.phase with
  | .grace g => t.onCore fun c => c.arm ⟨g.graceCpuCap, none⟩
  | _ =>
    if t.owner.job.limits.wallTimeMs > 0 then
      t.onCore fun c => c.now.2.arm ⟨t.owner.job.limits.cpuTimeMs,
        some (c.now.1 + (fromMillis t.owner.job.limits.wallTimeMs - t.owner.rs.counted))⟩
    else t.onCore fun c => c.arm ⟨t.owner.job.limits.cpuTimeMs, none⟩

def onGrace (t : Turn) (f : GraceState → GraceState) : Turn :=
  t.onOwner fun rs =>
    match rs.phase with
    | .grace g => { rs with phase := .grace (f g) }
    | _ => rs

/-- The flags of an early `Result`. -/
def backgroundFlags (hasGrace hasStreams : Bool) : Nat :=
  (if hasGrace then 1 else 0) + (if hasStreams then 2 else 0)

/-- Send the early `Result`; `false` = hold mode, or the send failed. -/
def sendEarlyResult (t : Turn) (exports : Nat) (hasGrace hasStreams : Bool) : Bool × Turn :=
  if t.owner.job.epilogue.isSome && t.owner.job.link then
    let sent := t.asking fun c =>
      c.send t.owner.token (.result (.success exports (backgroundFlags hasGrace hasStreams)))
    (sent.1 = .ok, sent.2)
  else (false, t)

/-- Freeze the counted clock of the run phase: the rest of this turn belongs to
grace. -/
def freezeCounted (t : Turn) : Turn :=
  let frozen := t.asking Core.now
  let t := frozen.2.onOwner fun rs =>
    { rs with counted := rs.counted + (rs.turnEntered.map fun e => frozen.1 - e).getD 0 }
  let entered := t.asking Core.now
  entered.2.onOwner fun rs => { rs with turnEntered := some entered.1 }

/-- The post-Result phase as it starts. -/
def graceState (limits : Limits) (exports graceStart : Nat) (hasGrace earlyResultSent : Bool) :
    GraceState where
  exports := exports
  graceStart := graceStart
  wallCap := if hasGrace then some (fromMillis limits.graceMs) else none
  counted := 0
  -- A streaming-only phase has no waitUntil work to drive.
  graceStatus := if hasGrace then none else some .settled
  graceCpuCap := if limits.cpuTimeMs > 0 then limits.cpuTimeMs else limits.graceMs
  error := none
  earlyResultSent := earlyResultSent

/-- The switch to the post-Result phase. -/
def beginGrace (t : Turn) (exports : Nat) (hasGrace hasStreams : Bool) : Turn :=
  let early := t.freezeCounted.sendEarlyResult exports hasGrace hasStreams
  let started := early.2.asking Core.now
  started.2.onOwner fun rs =>
    { rs with phase := .grace (graceState t.owner.job.limits exports started.1 hasGrace early.1) }

/-- What the operations do. -/
def handle : Handler Op Turn
  | _, .now, t => t.asking Core.now
  | _, .reason, t => t.asking Core.readReason
  | _, .resetReason, t => ((), t.onCore Core.resetReason)
  | _, .terminating, t => t.asking Core.isTerminating
  | _, .cancelTerminate, t => ((), t.onCore Core.cancelTerminate)
  | _, .arm, t => ((), t.arm)
  | _, .disarm, t => ((), t.onCore Core.disarm)
  | _, .js, t => t.js
  | _, .read, t => t.read
  | _, .resultStreamMode on, t => ((), t.onCore fun c => { c with resultStreamMode := on })
  | _, .self, t => (t.owner, t)
  | _, .entry f, t => ((), t.onOwner fun rs => rs.onEntry f)
  | _, .resolved callId, t =>
    ((), t.onOwner fun rs => { rs with resolvers := rs.resolvers.erase callId })
  | _, .root st callPending rootIsCallResult, t =>
    ((), t.onOwner fun rs => { rs with phase := .settling st callPending rootIsCallResult })
  | _, .graceStatus s, t => ((), t.onGrace fun g => { g with graceStatus := some s })
  | _, .graceError e, t => ((), t.onGrace fun g => { g with error := some (g.error.getD e) })
  | _, .beginGrace exports hasGrace hasStreams, t => ((), t.beginGrace exports hasGrace hasStreams)
  | _, .send msg, t => t.sendFor t.owner msg

end Turn

/-- Turn code. -/
abbrev TurnM := Prog Op

namespace TurnM

/-- Perform one operation. -/
abbrev perform {α : Type} (o : Op α) : TurnM α := Prog.perform o

/-- `finished(Err(rs.fail(e)))`. -/
def fail (e : RunError) : TurnM ScanOutcome := pure (.finished (.error e))

/-- `finished(Err(rs.fail(termination_or(facts.reason, e))))`. -/
def failOr (e : RunError) : TurnM ScanOutcome := do
  let r ← perform .reason
  fail (terminationOr r e)

/-- `finished(Err(rs.fail(reason_error(facts.reason))))`. -/
def failReason : TurnM ScanOutcome := do
  let r ← perform .reason
  fail (reasonError r)

/-- Release the guard after a turn body. -/
def disarming (body : TurnM ScanOutcome) : TurnM ScanOutcome := do
  let o ← body
  perform .disarm
  pure o

/-- Run a turn body under the guard of the owner's phase. -/
def guarded (body : TurnM ScanOutcome) : TurnM ScanOutcome := do
  perform .arm
  disarming body

/-- Execution is being terminated with no reason recorded. -/
def bareTerminated : TurnM Bool := do
  match ← perform .reason with
  | some _ => pure false
  | none => perform .terminating

/-- Execution is being terminated. -/
def terminated : TurnM Bool := do
  match ← perform .reason with
  | some _ => pure true
  | none => perform .terminating

/-! ### Ending the post-Result phase -/

/-- The owner's outbound streams the host may still read. -/
def openStreams (l : LiveRun) : List Nat :=
  match l.rs.entry.outStreams with
  | none => []
  | some st => (st.streams.entries.filter fun e => !e.2.done).map Sigma.fst

/-- End one outbound stream without guest cleanup. -/
def closeOutStream (id : Nat) : TurnM Unit := do
  perform (.entry (RunCallState.modifyOut id fun s =>
    { s with done := true, pending := none, backlog := 0 }))
  let _ ← perform (.send (.streamEnd id (some "run ended")))

def closeEach : List Nat → TurnM Unit
  | [] => pure ()
  | id :: ids => do
    closeOutStream id
    closeEach ids

/-- `close_out_streams`. -/
def closeOutStreams : TurnM Unit := do
  let l ← perform .self
  closeEach (openStreams l)

/-- The finished value of a run whose post-Result phase ends as it stands. -/
def graceOutput (l : LiveRun) : Output :=
  match l.rs.phase with
  | .grace g =>
    { exports := g.exports
      background := some
        { status := g.graceStatus.getD .truncated
          error := g.error
          earlyResultSent := g.earlyResultSent } }
  -- Only ever called in grace.
  | _ => ⟨0, none⟩

/-- `finish_post_phase` with `finish_grace`. -/
def finishPostPhase : TurnM Output := do
  closeOutStreams
  let l ← perform .self
  pure (graceOutput l)

/-- `finished(Ok(finish_post_phase(rs)))`. -/
def endPhase : TurnM ScanOutcome := do
  let output ← finishPostPhase
  pure (.finished (.ok output))

/-- `finish_killed_grace`: a dynamic `import()` keeps its message. -/
def finishKilledGrace : TurnM ScanOutcome := do
  match ← perform .reason with
  | some (.dynamicImport message) => perform (.graceError ("Error", message))
  | _ => pure ()
  endPhase

/-! ### Outbound streams -/

/-- Send backlog under credit, in chunks. -/
def flushStream (id : Nat) : Nat → TurnM Bool
  | 0 => pure false
  | fuel + 1 => do
    let l ← perform .self
    match l.rs.entry.outStreams.bind fun st => st.streams.lookup id with
    | none => pure false
    | some s =>
      if s.done || s.credit = 0 || s.backlog = 0 then pure false
      else
        let n := min s.backlog (min s.credit streamChunkMaxBytes)
        match ← perform (.send (.streamChunk id n)) with
        | .ok => do
          perform (.entry (RunCallState.modifyOut id fun s =>
            { s with backlog := s.backlog - n, credit := s.credit - n }))
          let _ ← flushStream id fuel
          pure true
        | _ => do
          -- Dead link: the connection-loss event ends the phase.
          perform (.entry (RunCallState.modifyOut id fun s => { s with done := true }))
          pure false

inductive DriveStep where
  | idle
  | await (p : PullState)
  | startPull

/-- What one outbound stream needs next. -/
def classifyStream (l : LiveRun) (id : Nat) : DriveStep :=
  match l.rs.entry.outStreams.bind fun st => st.streams.lookup id with
  | none => .idle
  | some s =>
    if s.done || s.backlog ≠ 0 || s.credit = 0 then .idle
    else match s.pending with
      | some p => .await p
      | none => .startPull

/-- The backlog of a stream, which bounds the chunks of one flush. -/
def backlogOf (l : LiveRun) (id : Nat) : Nat :=
  match l.rs.entry.outStreams.bind fun st => st.streams.lookup id with
  | none => 0
  | some s => s.backlog

/-- Flush a stream and classify its next step. -/
def advance (id : Nat) : TurnM (Bool × DriveStep) := do
  let l ← perform .self
  let progressed ← flushStream id (backlogOf l id)
  let l ← perform .self
  pure (progressed, classifyStream l id)

/-- Conclude a pull into the stream. -/
def settleStream (id : Nat) (p : PullState) : TurnM Unit :=
  match p with
  | .chunk bytes => perform (.entry (RunCallState.modifyOut id fun s =>
      { s with pending := none, backlog := bytes }))
  | .failed message => do
    perform (.entry (RunCallState.modifyOut id fun s => { s with pending := none, done := true }))
    let _ ← perform (.send (.streamEnd id (some message)))
  | _ => do
    perform (.entry (RunCallState.modifyOut id fun s => { s with pending := none, done := true }))
    let _ ← perform (.send (.streamEnd id none))

/-- Start one pull on the guest stream. -/
def startPull (id : Nat) (progressed : Bool) : TurnM Bool := do
  let s ← perform .js
  match s.completion with
  | .threw =>
    if ← perform .terminating then pure progressed
    else do
      let _ ← perform .read
      if ← perform .terminating then pure progressed
      else do
        settleStream id (.failed "body stream pull failed")
        pure true
  | _ =>
    if ← perform .terminating then pure progressed
    else do
      perform (.entry (RunCallState.modifyOut id fun st => { st with pending := some s.pull }))
      pure true

/-- `drive_out_stream`: whether the stream made progress. -/
def driveOutStream (id : Nat) : TurnM Bool := do
  let (progressed, step) ← advance id
  match step with
  | .idle => pure progressed
  | .startPull => startPull id progressed
  | .await .pending => pure progressed
  | .await p => do
    match p with
    | .failed _ => let _ ← perform .read
    | _ => pure ()
    settleStream id p
    -- A settled pull leaves no promise behind: this pass ends the loop.
    let (_, step) ← advance id
    match step with
    | .startPull => startPull id true
    | _ => pure true

/-- One round over the streams; `none` when execution is being terminated. -/
def driveEach : List Nat → Bool → TurnM (Option Bool)
  | [], progressed => pure (some progressed)
  | id :: ids, progressed => do
    let p ← driveOutStream id
    if ← perform .terminating then pure none
    else driveEach ids (progressed || p)

/-- Rounds of `drive_out_streams`. -/
def driveRounds (ids : List Nat) : Nat → TurnM Unit
  | 0 => pure ()
  | rounds + 1 => do
    match ← driveEach ids false with
    | some true => do
      let _ ← perform .js
      if ← perform .terminating then pure ()
      else driveRounds ids rounds
    | _ => pure ()

/-- `OUT_DRIVE_MAX_ROUNDS`. -/
def outDriveMaxRounds : Nat := 32

/-- `drive_out_streams`. -/
def driveOutStreams : TurnM Unit := do
  let l ← perform .self
  match l.rs.entry.outStreams with
  | none => pure ()
  | some st =>
    if st.streams.keys.isEmpty then pure ()
    else driveRounds st.streams.keys outDriveMaxRounds

/-- `cancel_out_stream`, with guest cleanup. -/
def cancelOutStream (id : Nat) (message : String) (notifyHost : Bool) : TurnM Unit := do
  let l ← perform .self
  match l.rs.entry.outStreams.bind fun st => st.streams.lookup id with
  | none => pure ()
  | some s =>
    if s.done then pure ()
    else do
      perform (.entry (RunCallState.modifyOut id fun s =>
        { s with done := true, pending := none, backlog := 0 }))
      if notifyHost then
        let _ ← perform (.send (.streamEnd id (some message)))
      let _ ← perform .js

def cancelEach (message : String) : List Nat → TurnM Unit
  | [] => pure ()
  | id :: ids => do
    cancelOutStream id message true
    if ← perform .terminating then pure ()
    else cancelEach message ids

/-- `cancel_all_out_streams`. -/
def cancelAllOutStreams (message : String) : TurnM Unit := do
  let l ← perform .self
  cancelEach message (openStreams l)

/-! ### The post-Result phase -/

/-- Look at the registered promises in order: which are still pending, and the
first rejection.  The registrations are out of reach of `waitUntil`, but the
promises themselves can settle while a rejection is read. -/
def drainWaits : Nat → Nat → List Nat → Option (String × String) →
    TurnM (List Nat × Option (String × String))
  | 0, _, still, firstError => pure (still, firstError)
  | n + 1, i, still, firstError => do
    let l ← perform .self
    match l.rs.entry.waits[i]?, firstError with
    | some .pending, e => drainWaits n (i + 1) (still ++ [i]) e
    | some .rejected, none => do
      let err ← perform .read
      let e := match err with
        | .runtimeError name message => (name, message)
        | _ => ("Error", "background work failed")
      drainWaits n (i + 1) still (some e)
    | _, e => drainWaits n (i + 1) still e

/-- Record the first rejection of a drain. -/
def recordRejection : Option (String × String) → TurnM Unit
  | some e => perform (.graceError e)
  | none => pure ()

/-- Decide the waitUntil part once nothing is pending, or truncate it at its
wall. -/
def decideWaits (still : List Nat) : TurnM Unit := do
  if still.isEmpty then
    let l ← perform .self
    match l.rs.phase with
    | .grace g => perform (.graceStatus (if g.error.isSome then .failed else .settled))
    | _ => pure ()
  else
    let now ← perform .now
    let l ← perform .self
    match l.rs.phase with
    | .grace g =>
      if now - g.graceStart ≥ fromMillis l.job.limits.graceMs then
        perform (.graceStatus .truncated)
      else pure ()
    | _ => pure ()

/-- Put the pending promises back and decide. -/
def concludeDrain (still : List Nat) (firstError : Option (String × String)) : TurnM Bool := do
  perform (.entry fun e =>
    { e with waits := still.filterMap fun i => e.waits[i]?, waitArmed := true })
  -- Reading a rejection can run guest getters.
  match ← perform .reason with
  | some _ => pure true
  | none => do
    recordRejection firstError
    decideWaits still
    pure false

/-- The waitUntil part of a drain, while undecided; `true` = killed meanwhile. -/
def scanWaits : TurnM Bool := do
  perform (.entry fun e => { e with waitArmed := false })
  let l ← perform .self
  let drained ← drainWaits l.rs.entry.waits.length 0 [] none
  concludeDrain drained.1 drained.2

/-- Whether the waitUntil part is decided. -/
def graceDecided (l : LiveRun) : Bool :=
  match l.rs.phase with
  | .grace g => g.graceStatus.isSome
  | _ => false

/-- The end of a drain: is the phase over? -/
def graceVerdict : TurnM ScanOutcome := do
  let l ← perform .self
  if graceDecided l && !l.outStreamsOpen then endPhase
  else if !l.job.link && l.earliestTimer.isNone then do
    -- Nothing can resolve the rest.
    if graceDecided l then pure ()
    else perform (.graceStatus .truncated)
    endPhase
  else pure .continue

/-- Drain the registered promises while undecided; `true` = killed meanwhile. -/
def drainRegistered : TurnM Bool := do
  let l ← perform .self
  if graceDecided l then pure false else scanWaits

/-- `grace_scan`: one drain of the post-Result phase. -/
def graceScan : TurnM ScanOutcome := do
  let _ ← perform .js
  match ← perform .reason with
  | some _ => finishKilledGrace
  | none => do
    driveOutStreams
    match ← perform .reason with
    | some _ => finishKilledGrace
    | none => do
      let killed ← drainRegistered
      if killed then finishKilledGrace
      else graceVerdict

/-- The switch to the post-Result phase and its first drain. -/
def enterGrace (exports : Nat) (hasGrace hasStreams : Bool) : TurnM ScanOutcome := do
  perform (.beginGrace exports hasGrace hasStreams)
  guarded graceScan

/-- The end of the run phase, when background work or streams are left. -/
def endRunPhase (exports : Nat) (hasGrace hasStreams : Bool) : TurnM ScanOutcome := do
  perform .disarm
  let bare ← bareTerminated
  perform .cancelTerminate
  if bare then fail .aborted
  else
    match ← perform .reason with
    | some r => do
      -- A fire raced the settled value: nothing was interrupted.
      perform .resetReason
      if r = .abort then fail .aborted
      else pure (.finished (.ok ⟨exports, none⟩))
    | none => enterGrace exports hasGrace hasStreams

/-- A settled value within its limits: grace, or done. -/
def completeOrGrace (exports : Nat) (l : LiveRun) : TurnM ScanOutcome := do
  let bare ← bareTerminated
  if bare then do
    -- An abort that landed after the last JS left the isolate.
    perform .cancelTerminate
    fail .aborted
  else
    let hasGrace := !l.rs.entry.waits.isEmpty && l.job.limits.graceMs > 0
    let hasStreams := l.outStreamsOpen
    if !hasGrace && !hasStreams then pure (.finished (.ok ⟨exports, none⟩))
    else endRunPhase exports hasGrace hasStreams

/-- `build_output_and_maybe_grace`: the common tail of a settled run. -/
def buildOutputAndMaybeGrace (exports : Nat) : TurnM ScanOutcome := do
  match ← perform .reason with
  | some _ => failOr (.internal "terminated during result serialization")
  | none => do
    let l ← perform .self
    match l.rs.bridgeError with
    | some e => fail e
    | none =>
      if l.job.limits.maxExportBytes > 0 && exports > l.job.limits.maxExportBytes then
        fail .exportTooLarge
      else completeOrGrace exports l

/-! ### Invoking and settling -/

/-- What a thrown value without a bridge error behind it means. -/
def classifyThrown : TurnM RunError := do
  match ← perform .reason with
  | some r => pure r.error
  | none =>
    -- Belt and braces: a terminate with no reason at all.
    if ← perform .terminating then pure RunError.aborted
    else perform .read

/-- A thrown call or evaluation, classified. -/
def failThrown : TurnM ScanOutcome := do
  let l ← perform .self
  match l.rs.bridgeError with
  | some e => failOr e
  | none => do
    let error ← classifyThrown
    let l ← perform .self
    failOr (l.rs.bridgeError.getD error)

/-- `serialize_call_result`. -/
def serializeCallResult (next : Nat → TurnM ScanOutcome) : TurnM ScanOutcome := do
  match ← perform .reason with
  | some _ => failReason
  | none => do
    let l ← perform .self
    perform (.resultStreamMode (l.job.epilogue.isSome && l.job.link))
    let s ← perform .js
    perform (.resultStreamMode false)
    match s.completion with
    | .threw => do
      -- A getter's bridge violation is the real cause of the failure.
      let l ← perform .self
      failOr (l.rs.bridgeError.getD (.exportNotSerializable "call result could not be serialized"))
    | _ => next s.bytes

/-- The state a returned promise has after the checkpoint that follows. -/
def settledBy (returned : PromiseState) (checkpoint : Slice) : PromiseState :=
  match checkpoint.completion with
  | .promise st => st
  | _ => returned

/-- `invoke_requested_call`. -/
def invokeRequestedCall : TurnM ScanOutcome := do
  -- A path segment can be an accessor.
  let target ← perform .js
  match target.completion with
  | .threw => fail (.callTargetNotFound "call export path does not resolve")
  | _ => do
    let args ← perform .js
    match args.completion with
    | .threw => failOr (.internal "failed to deserialize call arguments")
    | _ => do
      let called ← perform .js
      match called.completion with
      | .threw => failThrown
      | .promise st => do
        let checkpoint ← perform .js
        match ← perform .reason with
        | some _ => failReason
        | none => do
          let l ← perform .self
          match l.rs.bridgeError with
          | some e => fail e
          | none => do
            perform (.root (settledBy st checkpoint) false true)
            pure .continue
      | .value => do
        let _ ← perform .js
        let l ← perform .self
        match l.rs.bridgeError with
        | some e => failOr e
        | none => serializeCallResult buildOutputAndMaybeGrace

/-- `extract_module_exports`. -/
def extractModuleExports : TurnM ScanOutcome := do
  match ← perform .reason with
  | some _ => failReason
  | none => do
    let walk ← perform .js
    match walk.completion with
    | .threw => failOr (.internal "failed to read module export names")
    | _ => do
      let s ← perform .js
      match s.completion with
      | .threw => do
        -- A getter that ended the run must not get a per-export retry.
        match ← perform .reason with
        | some _ => failReason
        | none => do
          let l ← perform .self
          match l.rs.bridgeError with
          | some e => fail e
          | none => do
            let retry ← perform .js
            match retry.completion with
            | .threw => failOr (.exportNotSerializable "exports could not be serialized")
            | _ => buildOutputAndMaybeGrace retry.bytes
      | _ => buildOutputAndMaybeGrace s.bytes

/-- One pass of `scan`'s loop; `again` is the rest of it. -/
def scanPass (again : TurnM ScanOutcome) : TurnM ScanOutcome := do
  let l ← perform .self
  match l.rs.phase with
  | .grace _ => graceScan
  | .starting => fail (.internal "scan before the start turn armed a phase")
  | .settling .pending _ rootIsCallResult =>
    match l.rs.bridgeError with
    | some e => failOr e
    | none =>
      if !l.job.link && l.earliestTimer.isNone then do
        -- Nothing in the isolate can ever resolve it.
        failOr (.exportNotSerializable
          (if rootIsCallResult then "call returned a promise that is still pending"
            else "module evaluation promise is still pending after poll loop"))
      else pure .continue
  | .settling .rejected _ _ => do
    match ← perform .read with
    | .hostBridge m => failOr (.hostBridge m)
    | _ => do
      let l ← perform .self
      match l.rs.bridgeError with
      | some e => failOr e
      | none => do
        let err ← perform .read
        let l ← perform .self
        failOr (l.rs.bridgeError.getD err)
  | .settling .fulfilled callPending rootIsCallResult =>
    if callPending then do
      match ← invokeRequestedCall with
      | .continue => again
      | done => pure done
    else if rootIsCallResult then serializeCallResult buildOutputAndMaybeGrace
    else extractModuleExports

/-- `scan`.  Invoking the requested call leaves none pending, so the loop turns
at most twice. -/
def scan : TurnM ScanOutcome :=
  scanPass (scanPass (fail (.internal "call invoked twice")))

/-- `finish_turn`: the shared tail of frame, timer and idle turns. -/
def finishTurn (inGrace : Bool) : TurnM ScanOutcome := do
  match ← perform .reason with
  | some r => if inGrace then finishKilledGrace else fail r.error
  | none => do
    let l ← perform .self
    match l.rs.bridgeError with
    | some e =>
      if inGrace then do
        perform (.graceError ("Error", "bridge error"))
        endPhase
      else failOr e
    | none => scan

/-! ### The turns -/

/-- Arm the run-scoped registries at the setup-to-run boundary. -/
def armEntry : TurnM Unit := do
  let l ← perform .self
  perform (.entry fun e => { e with waits := [], waitArmed := true, streams := some ∅ })
  if l.job.epilogue.isSome && l.job.link then do
    let now ← perform .now
    perform (.entry fun e => { e with outStreams := some ⟨∅, 1, now⟩ })
  else pure ()

/-- `start_turn`. -/
def startTurn : TurnM ScanOutcome := do
  let setup ← perform .js
  match setup.completion with
  | .threw => failOr (.internal "failed to install the call's globals")
  | _ => do
    armEntry
    let l ← perform .self
    match l.job.entry with
    | .prefixExport => do
      match ← invokeRequestedCall with
      | .continue => scan
      | done => pure done
    | .module => do
      -- Compile and instantiate.
      let linked ← perform .js
      match linked.completion with
      | .threw => failOr (.importError "module did not link")
      | _ => do
        let evaluated ← perform .js
        match evaluated.completion with
        | .threw => failThrown
        | .value => fail (.internal "module evaluation did not return a Promise")
        | .promise st => do
          let checkpoint ← perform .js
          match ← perform .reason with
          | some _ => failReason
          | none => do
            perform (.root (settledBy st checkpoint) l.job.call false)
            scan

/-- The start turn and the release of its pre-armed guard. -/
def beginCall : TurnM ScanOutcome := disarming startTurn

/-- `deliver_stream_frame`: `some` when the host broke the credit window. -/
def deliverStreamFrame (l : LiveRun) (msg : Inbound) : TurnM (Option RunError) := do
  match msg with
  | .streamChunk id bytes =>
    match l.rs.entry.streams.bind fun m => m.lookup id with
    | none => pure none
    | some st =>
      if st.cancelled then pure none
      else if st.pending then do
        perform (.entry (RunCallState.mapStreams fun m => m.insert id { st with pending := false }))
        if bytes = 0 then pure ()
        else let _ ← perform (.send (.streamPull id bytes))
        let _ ← perform .js
        pure none
      else if st.buffered.sum + bytes > streamCreditWindowBytes + streamChunkMaxBytes then
        pure (some (.internal "stream credit window violated by the host"))
      else do
        perform (.entry (RunCallState.mapStreams fun m =>
          m.insert id { st with buffered := st.buffered ++ [bytes] }))
        pure none
  | .streamEnd id error =>
    match l.rs.entry.streams.bind fun m => m.lookup id with
    | none => pure none
    | some st => do
      let ended := match error with
        | none => Except.ok ()
        | some m => Except.error m
      let wakes := st.buffered.isEmpty && st.pending
      perform (.entry (RunCallState.mapStreams fun m =>
        m.insert id { st with ended := some ended, pending := st.pending && !wakes }))
      if wakes then
        let _ ← perform .js
      pure none
  | _ => pure none

/-- `note_out_credit`. -/
def noteOutCredit (id credit : Nat) : TurnM Unit := do
  let now ← perform .now
  perform (.entry (RunCallState.mapOut fun st => { st with lastActivity := now }))
  perform (.entry (RunCallState.modifyOut id fun s =>
    if s.done then s else { s with credit := min (s.credit + credit) (2 ^ 32 - 1) }))

/-- `note_out_activity`. -/
def noteOutActivity : TurnM Unit := do
  let now ← perform .now
  perform (.entry (RunCallState.mapOut fun st => { st with lastActivity := now }))

/-- The body of `frame_turn`: deliver `msg` to the run, checkpoint, scan. -/
def frameBody (msg : Inbound) : TurnM ScanOutcome := do
  let l ← perform .self
  let inGrace := l.rs.phase.isGrace
  let tail : TurnM ScanOutcome := do
    let _ ← perform .js
    finishTurn inGrace
  match msg with
  | .bridgeResponse callId answer =>
    -- An unknown call id is a stale frame.
    if callId ∈ l.rs.resolvers then do
      perform (.resolved callId)
      let _ ← perform .js
      match answer with
      | .undecodable message => failOr (.typeNotSerializable message)
      | _ => tail
    else tail
  | .terminate => if inGrace then endPhase else fail .aborted
  | .streamPull id credit => do
    noteOutCredit id credit
    tail
  | .streamCancel id => do
    noteOutActivity
    cancelOutStream id "cancelled" false
    tail
  | msg => do
    match ← deliverStreamFrame l msg with
    | some e => fail e
    | none => tail

/-- `frame_turn`. -/
def frameTurn (msg : Inbound) : TurnM ScanOutcome := guarded (frameBody msg)

/-- The body of `timer_turn` once a timer was popped. -/
def timerBody (inGrace : Bool) : TurnM ScanOutcome := do
  let called ← perform .js
  let tail : TurnM ScanOutcome := do
    let _ ← perform .js
    finishTurn inGrace
  match called.completion with
  | .threw => do
    let killed ← terminated
    if killed then tail
    else do
      let err ← perform .read
      match ← perform .reason with
      | some _ => finishTurn inGrace
      | none =>
        if inGrace then do
          let e := match err with
            | .runtimeError name message => (name, message)
            | _ => ("Error", "timer callback failed")
          perform (.graceError e)
          endPhase
        else fail err
  | _ => tail

/-- `timer_turn`: fire the run's earliest pending timer. -/
def timerTurn : TurnM ScanOutcome := do
  let l ← perform .self
  match l.rs.entry.timers.popEarliest with
  | none => pure .continue
  | some timers => do
    perform (.entry fun e => { e with timers := timers })
    guarded (timerBody l.rs.phase.isGrace)

/-- `stream_idle_turn`. -/
def streamIdleTurn : TurnM ScanOutcome := guarded do
  cancelAllOutStreams "stream idle timeout"
  let _ ← perform .js
  finishTurn true

/-- `conn_lost_stream_turn`. -/
def connLostStreamTurn : TurnM Unit := do
  perform .arm
  cancelAllOutStreams "connection lost"
  let _ ← perform .js
  perform .disarm

/-! ### Boundaries -/

/-- `boundary_deadline`. -/
def boundaryDeadline : TurnM RunResult := do
  let l ← perform .self
  match l.rs.phase with
  | .grace _ => do
    let output ← finishPostPhase
    pure (.ok output)
  | _ => pure (.error .wallTimeout)

/-- `boundary_close`: the run's event source died. -/
def boundaryClose : TurnM RunResult := do
  let l ← perform .self
  match l.rs.phase with
  | .grace _ => do
    perform (.graceError ("Error", "poll loop socket read"))
    let output ← finishPostPhase
    pure (.ok output)
  | _ => pure (.error (.internal "poll loop socket read"))

/-- `conclude_grace_wall`: `none` while outbound streams hold the phase open. -/
def concludeGraceWall : TurnM (Option Output) := do
  perform (.graceStatus .truncated)
  let l ← perform .self
  if l.outStreamsOpen then pure none
  else do
    let output ← finishPostPhase
    pure (some output)

/-- `handle_loop_event` for what the instance loop delivers. -/
def handleLoopEvent (msg : Inbound) : TurnM ScanOutcome := do
  match msg with
  | .connectionLost => do
    let l ← perform .self
    if l.rs.phase.isGrace && l.outStreamsOpen then connLostStreamTurn
    let result ← boundaryClose
    pure (.finished result)
  | msg => frameTurn msg

end TurnM

end Iso4
