/-
The instance loop (`crates/core/src/v8/instance.rs`, and `instance_main` of
`crates/core/src/warm.rs`): one owner thread serving a warm instance's queue of
jobs, suspended runs, deadlines, completions, and the taint sweep.

`Inst.step` is one step of the owner thread.  A step goes from one point where
the source looks at something shared to the next: a wait, one pass of the
deadline sweep, one turn, the conclusion of that turn, one run of a taint
sweep, one `try_recv` of the drain.  What the other threads do meanwhile comes
with the step's `Script`.

The live runs are kept as a list without regard to the order `swap_remove`
leaves them in.
-/
import Iso4.Turns

namespace Iso4

open Program TurnM

/-- An entry of the deadline heap: `(deadline, run token)`. -/
abbrev DeadlineKey := ℕ ×ₗ ℕ

namespace DeadlineKey

def mk (deadline token : Nat) : DeadlineKey := toLex (deadline, token)

def deadline (k : DeadlineKey) : Nat := (ofLex k).1

def token (k : DeadlineKey) : Nat := (ofLex k).2

@[simp] theorem deadline_mk (d t : Nat) : (mk d t).deadline = d := rfl

@[simp] theorem token_mk (d t : Nat) : (mk d t).token = t := rfl

theorem mk_eta (k : DeadlineKey) : mk k.deadline k.token = k := rfl

theorem deadline_le {k l : DeadlineKey} (h : k ≤ l) : k.deadline ≤ l.deadline := by
  rcases Prod.Lex.le_iff.mp h with h | ⟨h, -⟩
  · exact h.le
  · exact h.le

end DeadlineKey

/-- What a sweep makes way for. -/
inductive After where
  | top
  | dispatch (j : CallJob)
  | deliver (token : Nat) (msg : Inbound) (stamp : Nat)

/-- Where a turn was entered from. -/
inductive TurnKind where
  | start
  /-- The event arm, with the deadline the heap knew. -/
  | event (queued : Option Nat)
  | swept (cutoff : Nat) (next : After)

/-- Where the owner thread stands. -/
inductive Pc where
  /-- Waiting for the first job. -/
  | boot
  /-- Creating the isolate for the first job. -/
  | create (j : CallJob)
  /-- The isolate could not be created: every job is answered with this. -/
  | broken (e : RunError)
  | wait
  | sweep (cutoff : Nat) (next : After)
  | dispatch (j : CallJob)
  | deliver (token : Nat) (msg : Inbound) (stamp : Nat)
  /-- The turn of `l` returned. -/
  | turned (kind : TurnKind) (l : LiveRun) (o : ScanOutcome)
  /-- Every sender is gone: failing the live runs. -/
  | closing
  /-- `taint_sweep` over the live runs. -/
  | taint
  /-- `taint_sweep` over the queue. -/
  | drain
  /-- The loop returned; the receiver still exists. -/
  | exiting
  | gone

/-- An instance as its owner thread sees it. -/
structure Inst extends Core where
  deadlines : MinHeap DeadlineKey
  retired : Bool
  /-- `LAST_CULPRIT_RUN_ID`. -/
  culprit : Nat
  pc : Pc
  /-- The jobs dropped unanswered: out of the loop's hands, or with the channel. -/
  lost : List Nat

def After.pc : After → Pc
  | .top => .wait
  | .dispatch j => .dispatch j
  | .deliver token msg stamp => .deliver token msg stamp

namespace Core

def new (clock : Nat) : Core where
  clock := clock
  reason := none
  lastRead := none
  bareTerminate := false
  terminating := false
  armed := none
  queue := []
  seen := []
  live := []
  touched := []
  resultStreamMode := false
  log := []
  script := Script.silent

/-! ### Concluding a run -/

/-- The minimal completion sent in place of one the host cannot carry. -/
def minimalCompletion : Outbound → Outbound
  | .runComplete report => .runComplete
      { status := report.status
        error := some ("Error", "the grace report was too large to send; its telemetry was dropped")
        earlyResultSent := true }
  | _ => .result (.failure
      (.internal "the run's result was too large to send to the host") false)

/-- `send_completion`. -/
def sendCompletion (c : Core) (token : Nat) (msg : Outbound) : Core :=
  if (c.send token msg).1 = .tooLarge then
    ((c.send token msg).2.send token (minimalCompletion msg)).2
  else (c.send token msg).2

/-- `completion_message`. -/
def completionMessage (result : RunResult) (prefixStage : Bool) : Outbound :=
  match result with
  | .ok output =>
    match output.background with
    | some report =>
      if report.earlyResultSent then .runComplete report
      else .result (.success output.exports 0)
    | none => .result (.success output.exports 0)
  | .error e => .result (.failure e prefixStage)

/-- `finish_job` with `finish_run`: drop the route, run the release hook, send
the completion. -/
def finishJob (c : Core) (job : CallJob) (result : RunResult) (tainted prefixFailed : Bool) : Core :=
  let c := c.note (.concluded job.token result)
  if job.link then
    let c := (c.note (.finished job.token)).note (.released job.token tainted)
    c.sendCompletion job.token (completionMessage result prefixFailed)
  else c.note (.released job.token tainted)

/-- The inbound streams the host may still be pumping. -/
def pumping (l : LiveRun) : List Nat :=
  match l.rs.entry.streams with
  | none => []
  | some m => (m.entries.filter fun e => e.2.ended.isNone && !e.2.cancelled).map Sigma.fst

def cancelPumping : List Nat → TurnM Unit
  | [] => pure ()
  | id :: ids => do
    let _ ← perform (.send (.streamCancel id))
    cancelPumping ids

/-- The stream cleanup of `conclude_run`: `close_run_streams`, then
`close_out_streams`. -/
def closeStreams : TurnM Unit := do
  let l ← perform .self
  perform (.entry fun e => { e with streams := none })
  cancelPumping (pumping l)
  closeOutStreams

/-- Run turn code for a run that is not in `live`. -/
def runTurn {α : Type} (c : Core) (l : LiveRun) (p : TurnM α) : α × Turn :=
  p.run Turn.handle { toCore := c, owner := l }

/-- `conclude_run`. -/
def concludeRun (c : Core) (l : LiveRun) (result : RunResult) (tainted : Bool) : Core :=
  ((c.runTurn l closeStreams).2.toCore.cancelTerminate).finishJob l.job result tainted false

/-- `instance_tainted`. -/
def instanceTainted (c : Core) : Bool × Core :=
  if c.reason.isSome || c.bareTerminate then (true, c) else c.isTerminating

/-- Take a live run out (`swap_remove`). -/
def takeRun (c : Core) (token : Nat) : Core :=
  { c with live := c.live.eraseP fun l => l.token = token }

/-- Park a run (`live.push`). -/
def park (c : Core) (l : LiveRun) : Core := { c with live := c.live ++ [l] }

def findRun (c : Core) (token : Nat) : Option LiveRun := c.live.find? fun l => l.token = token

end Core

namespace Inst

/-- A spawned instance, before its first job. -/
def new (clock : Nat) : Inst where
  toCore := Core.new clock
  deadlines := MinHeap.empty
  retired := false
  culprit := 0
  pc := .boot
  lost := []

def withCore (s : Inst) (c : Core) : Inst := { s with toCore := c }

def goto (s : Inst) (pc : Pc) : Inst := { s with pc := pc }

/-- The owner thread ends: the receiver is dropped with what is left in the
channel. -/
def exit (s : Inst) : Inst :=
  { s with queue := [], lost := s.lost ++ jobTokens s.queue, pc := .gone }

/-! ### The deadline heap -/

/-- Whether a heap entry is its run's next deadline. -/
def validEntry (live : List LiveRun) (k : DeadlineKey) : Bool :=
  match live.find? fun l => l.token = k.token with
  | some l => l.nextDeadline == some k.deadline
  | none => false

/-- `peek_valid_deadline`: discard stale heap tops. -/
def peekValidDeadline (s : Inst) : Option DeadlineKey × Inst :=
  let h := s.deadlines.prune (validEntry s.live)
  (h.peek, { s with deadlines := h })

/-- Queue a run's next deadline. -/
def queueDeadline (s : Inst) (l : LiveRun) : Inst :=
  match l.nextDeadline with
  | some d => { s with deadlines := s.deadlines.push (DeadlineKey.mk d l.token) }
  | none => s

/-- One touched run of `drain_touched_timers`. -/
def requeueTouched (s : Inst) (token : Nat) : Inst :=
  match s.findRun token with
  | some l => s.queueDeadline l
  | none => s

/-- `drain_touched_timers`. -/
def drainTouchedTimers (s : Inst) : Inst :=
  let s' := s.touched.foldl requeueTouched s
  { s' with touched := [] }

/-! ### Turns of the loop -/

/-- `note_turn_owner`. -/
def noteTurnOwner (s : Inst) (job : CallJob) : Inst := { s with culprit := job.epilogue.getD 0 }

/-- Take the run out and enter a turn whose wait ended at `wokeAt`. -/
def beginTurn (s : Inst) (l : LiveRun) (wokeAt : Nat) : LiveRun × Inst :=
  let s := (s.withCore (s.takeRun l.token)).noteTurnOwner l.job
  (l.enterTurn wokeAt s.now.1, s.withCore { s.now.2 with lastRead := none })

/-- Run turn code for a run in the owner's hands. -/
def runFor {α : Type} (s : Inst) (l : LiveRun) (p : TurnM α) : α × LiveRun × Inst :=
  let r := s.runTurn l p
  (r.1, r.2.owner, s.withCore r.2.toCore)

/-- A turn of `l`. -/
def runTurnOf (s : Inst) (l : LiveRun) (p : TurnM ScanOutcome) : ScanOutcome × LiveRun × Inst :=
  (s.withCore (s.note (.turn l.token l.rs.phase l.rs.counted))).runFor l p

/-- Run a turn of `l` and leave its outcome to `concludeTurn`. -/
def takeTurn (s : Inst) (kind : TurnKind) (l : LiveRun) (p : TurnM ScanOutcome) : Inst :=
  let r := s.runTurnOf l p
  r.2.2.goto (.turned kind r.2.1 r.1)

/-- Conclude a run in the owner's hands. -/
def conclude (s : Inst) (l : LiveRun) (result : RunResult) (tainted : Bool) : Inst :=
  s.withCore (s.concludeRun l result tainted)

/-- Park a run that stays in flight and queue its deadline. -/
def parkRun (s : Inst) (l : LiveRun) : Inst := (s.queueDeadline l).withCore (s.park l)

/-- `leave_turn`, which reads the clock. -/
def leaveTurn (s : Inst) (l : LiveRun) : LiveRun × Inst := (l.leaveTurn s.now.1, s.withCore s.now.2)

/-- The turn owner stays in flight. -/
def suspend (s : Inst) (kind : TurnKind) (l : LiveRun) : Inst :=
  match kind with
  | .start => s.parkRun l
  | .event queued =>
    let left := s.leaveTurn l
    if left.1.nextDeadline ≠ queued then left.2.parkRun left.1
    else left.2.withCore (left.2.park left.1)
  | .swept _ _ => (s.leaveTurn l).2.parkRun (s.leaveTurn l).1

def TurnKind.resume : TurnKind → Pc
  | .start => .wait
  | .event _ => .wait
  | .swept cutoff next => .sweep cutoff next

/-- A received job that a sweep was to make way for. -/
def TurnKind.heldJob : TurnKind → List Nat
  | .swept _ (.dispatch j) => [j.token]
  | _ => []

/-- The owner after its turn: concluded, or still in flight. -/
def settleOwner (s : Inst) (kind : TurnKind) (l : LiveRun) (o : ScanOutcome) (tainted : Bool) : Inst :=
  match o with
  | .finished result => s.conclude l result tainted
  | .continue =>
    -- A bare terminate mid-turn: classify and conclude the owner here.
    if tainted then s.conclude l (.error (reasonError s.reason)) true
    else s.suspend kind l

/-- What follows every turn: the taint verdict, the owner's conclusion or
suspension, and the touched timers. -/
def concludeTurn (s : Inst) (kind : TurnKind) (l : LiveRun) (o : ScanOutcome) : Inst :=
  if s.instanceTainted.1 then
    let s := s.withCore (s.instanceTainted.2.note (.tainted l.token))
    let s := (s.settleOwner kind l o true).drainTouchedTimers
    -- The loop returns after its taint sweep; a job in its hands goes with it.
    { s with lost := s.lost ++ TurnKind.heldJob kind, pc := .taint }
  else
    let s := s.withCore s.instanceTainted.2
    (s.settleOwner kind l o false).drainTouchedTimers.goto (TurnKind.resume kind)

/-! ### The sweep -/

/-- Act on a deadline of `l`: enter it at `wokeAt`. -/
def actOn (s : Inst) (l : LiveRun) (wokeAt due : Nat) : LiveRun × Inst :=
  (s.withCore (s.note (.acted l.token due))).beginTurn l wokeAt

/-- A deadline that is a real turn; the wait ended at its due instant, not at
its late fire. -/
def sweepTurn (s : Inst) (cutoff : Nat) (next : After) (due : Nat) (l : LiveRun)
    (p : TurnM ScanOutcome) : Inst :=
  let entered := s.actOn l due due
  entered.2.takeTurn (.swept cutoff next) entered.1 p

/-- The waitUntil wall: bookkeeping, the phase may stay open for streams.  The
entry that surfaced was `surfaced`. -/
def sweepWall (s : Inst) (surfaced due : Nat) (l : LiveRun) : Inst :=
  let entered := s.actOn l surfaced due
  let r := entered.2.runFor entered.1 concludeGraceWall
  match r.1 with
  | some output => r.2.2.conclude r.2.1 (.ok output) false
  | none => (r.2.2.leaveTurn r.2.1).2.parkRun (r.2.2.leaveTurn r.2.1).1

/-- The run of an expired post-Result entry: stream idle turn, waitUntil wall,
or a stale entry. -/
def sweepGrace (s : Inst) (cutoff : Nat) (next : After) (surfaced : Nat) (l : LiveRun) : Inst :=
  let now := s.now.1
  let s := s.withCore s.now.2
  match l.outIdleDeadline.filter fun d => d ≤ now with
  | some d => s.sweepTurn cutoff next d l streamIdleTurn
  | none =>
    match l.graceWallInstant.filter fun d => d ≤ now with
    | some d => s.sweepWall surfaced d l
    -- Stale entry (activity moved the deadline): requeue.
    | none => s.queueDeadline l

/-- The wall boundary: counted wall reaches its cap exactly here. -/
def sweepBoundary (s : Inst) (due : Nat) (l : LiveRun) : Inst :=
  let entered := s.actOn l due due
  let r := entered.2.runFor entered.1 boundaryDeadline
  r.2.2.conclude r.2.1 r.1 false

/-- Serve the expired entry of one run. -/
def sweepRun (s : Inst) (cutoff : Nat) (next : After) (due : Nat) (l : LiveRun) : Inst :=
  if l.earliestTimer = some due then s.sweepTurn cutoff next due l timerTurn
  else if l.rs.phase.isGrace then s.sweepGrace cutoff next due l
  else s.sweepBoundary due l

/-- One pass of `sweep_expired_deadlines`. -/
def sweepPass (s : Inst) (cutoff : Nat) (next : After) : Inst :=
  let top := s.peekValidDeadline.1
  let s := s.peekValidDeadline.2
  match top with
  | none => s.goto next.pc
  | some k =>
    if k.deadline > cutoff then s.goto next.pc
    else
      let s := { s with deadlines := s.deadlines.pop }
      match s.findRun k.token with
      | none => s
      | some l => s.sweepRun cutoff next k.deadline l

/-! ### Messages -/

/-- A fresh run of a job. -/
def newRun (job : CallJob) (start : Nat) : LiveRun where
  job := job
  rs :=
    { start := start
      phase := .starting
      counted := 0
      parkedAt := start
      turnEntered := some start
      bridgeError := none
      resolvers := []
      entry := RunCallState.new }

/-- The start turn under its pre-armed guard, placeholders first. -/
def placeholdersThenCall : TurnM ScanOutcome := do
  let placeholders ← perform .js
  match placeholders.completion with
  | .threw => do
    perform .disarm
    failOr (.internal "failed to install bridge placeholders")
  | _ => beginCall

/-- The guard target of a start turn. -/
def startTarget (limits : Limits) (start : Nat) : TurnTarget where
  cpuCapMs := limits.cpuTimeMs
  wallDeadline := if limits.wallTimeMs > 0 then some (start + fromMillis limits.wallTimeMs) else none

/-- Make a run of the job and arm its start turn. -/
def beginStart (s : Inst) (job : CallJob) : LiveRun × Inst :=
  let s := s.noteTurnOwner job
  -- With runs live the reason is known to be clear.
  let c := if s.live.isEmpty then s.resetReason else s.toCore
  (newRun job c.now.1,
    s.withCore ({ c.now.2 with lastRead := none }.arm (startTarget job.limits c.now.1)))

/-- `dispatch_job` up to the taint verdict. -/
def dispatchJob (s : Inst) (job : CallJob) : Inst :=
  let entered := s.beginStart job
  let r := entered.2.runTurnOf entered.1 placeholdersThenCall
  let left := r.2.2.leaveTurn r.2.1
  left.2.goto (.turned .start left.1 r.1)

/-- Hand an event to its run; an event of a run that is not live is late. -/
def deliverEvent (s : Inst) (token : Nat) (msg : Inbound) (stamp : Nat) : Inst :=
  match s.findRun token with
  | none => s.goto .wait
  | some l =>
    let s := s.withCore (s.note (.delivered token stamp l.nextDeadline))
    (s.beginTurn l stamp).2.takeTurn (.event l.nextDeadline) (s.beginTurn l stamp).1
      (handleLoopEvent msg)

/-- What a received message leads to. -/
def receive (s : Inst) (e : RoutedEvent) : Inst :=
  match e.event with
  | .retire => { s with retired := true }
  | .job j => s.goto (.sweep e.stamp (.dispatch j))
  | .host m => s.goto (.sweep e.stamp (.deliver e.token m e.stamp))

/-- The wait timed out: everything expired as of now is due. -/
def timedOut (s : Inst) : Inst := (s.withCore s.now.2).goto (.sweep s.now.1 .top)

/-- What a wait that lasted from `asked` on ends with. -/
def wake (s : Inst) (top : Option DeadlineKey) (asked : Nat) : Inst :=
  match s.queue with
  | e :: rest => (s.withCore { s.toCore with queue := rest }).receive e
  | [] =>
    if s.script.hungUp then s.goto .closing
    else match top with
      | none => s
      | some k => if s.clock ≥ max k.deadline asked then s.timedOut else s

/-- One wait of the loop, bounded by the nearest deadline. -/
def waitStep (s : Inst) : Inst :=
  if s.live.isEmpty && s.retired then s.goto .exiting
  else
    let top := s.peekValidDeadline.1
    let s := s.peekValidDeadline.2
    let asked := s.now.1
    -- The clock reading of the timeout, then the wait itself.
    (s.withCore s.now.2.now.2).wake top asked

/-- The first message is a job, or the instance was evicted before serving. -/
def bootStep (s : Inst) : Inst :=
  let s := s.withCore s.now.2
  match s.queue with
  | [] => if s.script.hungUp then s.exit else s
  | e :: rest =>
    let s := s.withCore { s.toCore with queue := rest }
    match e.event with
    | .job j => s.goto (.create j)
    | .retire => s.exit
    | .host _ => s

/-- The prefix's own, repeatable failures mark it broken. -/
def prefixFailed : RunError → Bool
  | .runtimeError _ _ => true
  | .moduleNotFound _ => true
  | .importError _ => true
  | .prefixBridgeCall _ => true
  | .prefixDidNotSettle _ => true
  | _ => false

def createStep (s : Inst) (j : CallJob) : Inst :=
  match s.script.coldStart with
  | none => s.goto (.dispatch j)
  | some e => (s.withCore (s.finishJob j (.error e) true (prefixFailed e))).goto (.broken e)

/-- Answer the jobs of a broken instance until the channel closes. -/
def brokenStep (s : Inst) (e : RunError) : Inst :=
  let s := s.withCore s.now.2
  match s.queue with
  | [] => if s.script.hungUp then s.exit else s
  | m :: rest =>
    let s := s.withCore { s.toCore with queue := rest }
    match m.event with
    | .job j => s.withCore (s.finishJob j (.error e) true (prefixFailed e))
    | _ => s

/-- One run of the taint sweep. -/
def taintStep (s : Inst) : Inst :=
  match s.live with
  | [] => s.goto .drain
  | l :: rest =>
    let reset := RunError.instanceReset (resetCause s.reason) s.culprit
    (s.withCore { s.toCore with live := rest }).conclude l (.error reset) true

/-- One `try_recv` of the taint sweep. -/
def drainStep (s : Inst) : Inst :=
  match s.queue with
  | [] => s.goto .exiting
  | m :: rest =>
    let s := s.withCore { s.toCore with queue := rest }
    match m.event with
    | .job j =>
      let reset := RunError.instanceReset (resetCause s.reason) s.culprit
      s.withCore (s.finishJob j (.error reset) true false)
    | _ => s

/-- One run failed because every sender is gone. -/
def closeStep (s : Inst) : Inst :=
  match s.live with
  | [] => s.goto .exiting
  | l :: rest =>
    let r := (s.withCore { s.toCore with live := rest }).runFor l boundaryClose
    r.2.2.conclude r.2.1 r.1 false

/-- What the owner thread does next, under the script it was given. -/
def advance (s : Inst) : Inst :=
  match s.pc with
  | .boot => s.bootStep
  | .create j => s.createStep j
  | .broken e => s.brokenStep e
  | .wait => s.waitStep
  | .sweep cutoff next => s.sweepPass cutoff next
  | .dispatch j => s.dispatchJob j
  | .deliver token msg stamp => s.deliverEvent token msg stamp
  | .turned kind l o => s.concludeTurn kind l o
  | .closing => s.closeStep
  | .taint => s.taintStep
  | .drain => (s.withCore s.now.2).drainStep
  | .exiting => (s.withCore s.now.2).exit
  | .gone => s

def load (s : Inst) (script : Script) : Inst := s.withCore { s.toCore with script := script }

/-- One step of the owner thread. -/
def step (s : Inst) (script : Script) : Inst := (s.load script).advance

end Inst

end Iso4
