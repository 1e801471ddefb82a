/-
The state of one in-flight run and its deadlines
(`crates/core/src/v8/runloop.rs`, `streams.rs`, `runtable.rs`).

A run is in its start turn, settling its root promise, or in the post-Result
(grace) phase.  Its wall budgets erode on counted time: `enterTurn` folds the
wait that ended, `leaveTurn` folds the turn and parks.  `nextDeadline` is the
instant the loop has to wake for it, the sooner of its phase boundary and its
earliest timer.

Promise and stream handles stand for the states V8 keeps behind them; console
output, bridge-call records and telemetry are left out.
-/
import Iso4.Timers

namespace Iso4

/-- `STREAM_CHUNK_MAX_BYTES`. -/
def streamChunkMaxBytes : Nat := 64 * 1024

/-- `STREAM_CREDIT_WINDOW_BYTES`. -/
def streamCreditWindowBytes : Nat := 256 * 1024

/-- `OUT_STREAM_IDLE_MS`. -/
def outStreamIdleMs : Nat := 10000

inductive PromiseState where
  | pending
  | fulfilled
  | rejected
  deriving DecidableEq, Repr

/-- The promise of a started pull, with what it settles to. -/
inductive PullState where
  | pending
  | chunk (bytes : Nat)
  | eof
  | failed (message : String)
  deriving DecidableEq, Repr

/-- One outbound streamed body: host credit, the pull in flight and the unsent
rest of the last chunk. -/
structure OutStream where
  credit : Nat
  pending : Option PullState
  backlog : Nat
  done : Bool
  deriving DecidableEq, Repr

/-- The run's outbound bodies; `lastActivity` anchors the idle deadline. -/
structure OutTable where
  streams : AList fun _ : Nat => OutStream
  nextId : Nat
  lastActivity : Nat

/-- Whether the host may still read one of them. -/
def OutTable.isOpen (st : OutTable) : Bool := st.streams.entries.any fun e => !e.2.done

/-- One inbound streamed body: chunk sizes not read yet, terminal state, and
whether a sandbox read waits for data. -/
structure StreamState where
  buffered : List Nat
  ended : Option (Except String Unit)
  cancelled : Bool
  pending : Bool

def StreamState.new : StreamState where
  buffered := []
  ended := none
  cancelled := false
  pending := false

/-- What native callbacks reach through the run table. -/
structure RunCallState where
  /-- The promises registered with `waitUntil`. -/
  waits : List PromiseState
  /-- Whether `waitUntil` can register: off until the start turn arms it, and
  while a drain has taken the registrations. -/
  waitArmed : Bool
  streams : Option (AList fun _ : Nat => StreamState)
  outStreams : Option OutTable
  timers : TimerTable

def RunCallState.new : RunCallState where
  waits := []
  waitArmed := false
  streams := none
  outStreams := none
  timers := TimerTable.empty

namespace RunCallState

def mapStreams (f : (AList fun _ : Nat => StreamState) → AList fun _ : Nat => StreamState)
    (e : RunCallState) : RunCallState :=
  { e with streams := e.streams.map f }

def mapOut (f : OutTable → OutTable) (e : RunCallState) : RunCallState :=
  { e with outStreams := e.outStreams.map f }

/-- Change one outbound stream; unknown ids are ignored. -/
def modifyOut (id : Nat) (f : OutStream → OutStream) : RunCallState → RunCallState :=
  mapOut fun st =>
    match st.streams.lookup id with
    | none => st
    | some s => { st with streams := st.streams.insert id (f s) }

end RunCallState

/-- The report of a finished post-Result phase. -/
structure GraceReport where
  status : GraceStatus
  error : Option (String × String)
  earlyResultSent : Bool
  deriving DecidableEq, Repr

/-- A settled run value; `exports` is the size of its blob. -/
structure Output where
  exports : Nat
  background : Option GraceReport
  deriving DecidableEq, Repr

/-- Post-Result bookkeeping: the `waitUntil` part. -/
structure GraceState where
  exports : Nat
  graceStart : Nat
  /-- `none` for a phase entered only for streaming. -/
  wallCap : Option Nat
  counted : Nat
  graceStatus : Option GraceStatus
  graceCpuCap : Nat
  error : Option (String × String)
  earlyResultSent : Bool
  deriving DecidableEq, Repr

inductive RunPhase where
  | starting
  | settling (root : PromiseState) (callPending rootIsCallResult : Bool)
  | grace (g : GraceState)
  deriving DecidableEq, Repr

def RunPhase.isGrace : RunPhase → Bool
  | .grace _ => true
  | _ => false

/-- Loop-side state of one in-flight run. -/
structure RunState where
  start : Nat
  phase : RunPhase
  counted : Nat
  parkedAt : Nat
  turnEntered : Option Nat
  bridgeError : Option RunError
  /-- Call ids of bridge calls whose answer is awaited. -/
  resolvers : List Nat
  entry : RunCallState

def RunState.onEntry (rs : RunState) (f : RunCallState → RunCallState) : RunState :=
  { rs with entry := f rs.entry }

/-- What a run executes: a one-off module, or an export of the prefix module. -/
inductive RunEntry where
  | module
  | prefixExport
  deriving DecidableEq, Repr

/-- One call forwarded to an owner thread. -/
structure CallJob where
  token : Nat
  limits : Limits
  entry : RunEntry
  /-- A call is requested; always so on a warm instance. -/
  call : Bool
  /-- The wire run id of an early `Result`; `none` = hold mode. -/
  epilogue : Option Nat
  /-- The run has a link, and events reach it. -/
  link : Bool
  deriving DecidableEq, Repr

/-- One in-flight run with its job. -/
structure LiveRun where
  job : CallJob
  rs : RunState

namespace LiveRun

def token (l : LiveRun) : Nat := l.job.token

/-- The wire id completions and resets name the run by. -/
def runId (l : LiveRun) : Nat := l.job.epilogue.getD 0

/-- Fold the wait that ended at `wokeAt` and mark a turn as executing. -/
def enterTurn (l : LiveRun) (wokeAt now : Nat) : LiveRun :=
  let wait := wokeAt - l.rs.parkedAt
  match l.rs.phase with
  | .grace g =>
    { l with rs := { l.rs with phase := .grace { g with counted := g.counted + wait },
                               turnEntered := some now } }
  | _ => { l with rs := { l.rs with counted := l.rs.counted + wait, turnEntered := some now } }

/-- Fold the finished turn's execution into the phase's counted time and park. -/
def leaveTurn (l : LiveRun) (now : Nat) : LiveRun :=
  let exec := (l.rs.turnEntered.map fun t => now - t).getD 0
  match l.rs.phase with
  | .grace g =>
    { l with rs := { l.rs with phase := .grace { g with counted := g.counted + exec },
                               turnEntered := none, parkedAt := now } }
  | _ => { l with rs := { l.rs with counted := l.rs.counted + exec, turnEntered := none,
                                    parkedAt := now } }

/-- Whether the run has outbound streams the host may still read. -/
def outStreamsOpen (l : LiveRun) : Bool :=
  match l.rs.entry.outStreams with
  | none => false
  | some st => st.isOpen

/-- The idle deadline while outbound streams are open. -/
def outIdleDeadline (l : LiveRun) : Option Nat :=
  match l.rs.entry.outStreams with
  | none => none
  | some st =>
    if st.isOpen then some (st.lastActivity + fromMillis outStreamIdleMs) else none

/-- The waitUntil wall's boundary instant while undecided. -/
def graceWallInstant (l : LiveRun) : Option Nat :=
  match l.rs.phase with
  | .grace g =>
    if g.graceStatus.isNone then g.wallCap.map fun cap => l.rs.parkedAt + (cap - g.counted)
    else none
  | _ => none

/-- Whether the phase's waitUntil wall is due (and still undecided). -/
def graceWallDue (l : LiveRun) (now : Nat) : Bool :=
  match l.graceWallInstant with
  | some d => d ≤ now
  | none => false

/-- The sooner of two optional instants. -/
def sooner : Option Nat → Option Nat → Option Nat
  | some a, some b => some (min a b)
  | some a, none => some a
  | none, b => b

/-- The instant of the run's current boundary deadline. -/
def deadlineInstant (l : LiveRun) : Option Nat :=
  match l.rs.phase with
  | .grace _ => sooner l.graceWallInstant l.outIdleDeadline
  | _ =>
    if l.job.limits.wallTimeMs > 0 then
      some (l.rs.parkedAt + (fromMillis l.job.limits.wallTimeMs - l.rs.counted))
    else none

/-- The run's earliest pending-timer deadline. -/
def earliestTimer (l : LiveRun) : Option Nat := l.rs.entry.timers.peekDeadline

/-- The instant the loop must next wake for this run. -/
def nextDeadline (l : LiveRun) : Option Nat := sooner l.deadlineInstant l.earliestTimer

@[simp] theorem token_enterTurn (l : LiveRun) (w n : Nat) : (l.enterTurn w n).token = l.token := by
  unfold enterTurn
  split <;> rfl

@[simp] theorem job_enterTurn (l : LiveRun) (w n : Nat) : (l.enterTurn w n).job = l.job := by
  unfold enterTurn
  split <;> rfl

@[simp] theorem job_leaveTurn (l : LiveRun) (n : Nat) : (l.leaveTurn n).job = l.job := by
  unfold leaveTurn
  split <;> rfl

@[simp] theorem token_leaveTurn (l : LiveRun) (n : Nat) : (l.leaveTurn n).token = l.token := by
  rw [token, job_leaveTurn, token]

@[simp] theorem entry_enterTurn (l : LiveRun) (w n : Nat) :
    (l.enterTurn w n).rs.entry = l.rs.entry := by
  unfold enterTurn
  split <;> rfl

@[simp] theorem entry_leaveTurn (l : LiveRun) (n : Nat) :
    (l.leaveTurn n).rs.entry = l.rs.entry := by
  unfold leaveTurn
  split <;> rfl

@[simp] theorem isGrace_enterTurn (l : LiveRun) (w n : Nat) :
    (l.enterTurn w n).rs.phase.isGrace = l.rs.phase.isGrace := by
  unfold enterTurn
  split
  · next h => simp [h, RunPhase.isGrace]
  · rfl

@[simp] theorem isGrace_leaveTurn (l : LiveRun) (n : Nat) :
    (l.leaveTurn n).rs.phase.isGrace = l.rs.phase.isGrace := by
  unfold leaveTurn
  split
  · next h => simp [h, RunPhase.isGrace]
  · rfl

@[simp] theorem bridgeError_leaveTurn (l : LiveRun) (n : Nat) :
    (l.leaveTurn n).rs.bridgeError = l.rs.bridgeError := by
  unfold leaveTurn
  split <;> rfl

theorem phase_leaveTurn (l : LiveRun) (n : Nat) (hg : l.rs.phase.isGrace = false) :
    (l.leaveTurn n).rs.phase = l.rs.phase := by
  unfold leaveTurn
  split
  · next h =>
    rw [h] at hg
    cases hg
  · rfl

theorem phase_enterTurn (l : LiveRun) (w n : Nat) (hg : l.rs.phase.isGrace = false) :
    (l.enterTurn w n).rs.phase = l.rs.phase := by
  unfold enterTurn
  split
  · next h =>
    rw [h] at hg
    cases hg
  · rfl

theorem sooner_eq_some {a b : Option Nat} {d : Nat} (h : sooner a b = some d) :
    (a = some d ∨ b = some d) ∧ (∀ x, a = some x → d ≤ x) ∧ ∀ x, b = some x → d ≤ x := by
  cases a with
  | none =>
    refine ⟨Or.inr h, ?_, ?_⟩
    · intro x hx
      cases hx
    · intro x hx
      rw [sooner, hx, Option.some.injEq] at h
      exact h.ge
  | some a =>
    cases b with
    | none =>
      rw [sooner, Option.some.injEq] at h
      subst h
      refine ⟨Or.inl rfl, ?_, ?_⟩
      · intro x hx
        exact (Option.some.inj hx).le
      · intro x hx
        cases hx
    | some b =>
      rw [sooner, Option.some.injEq] at h
      subst h
      refine ⟨?_, ?_, ?_⟩
      · rcases Nat.le_total a b with hab | hab
        · exact Or.inl (by rw [Nat.min_eq_left hab])
        · exact Or.inr (by rw [Nat.min_eq_right hab])
      · intro x hx
        cases hx
        exact Nat.min_le_left _ _
      · intro x hx
        cases hx
        exact Nat.min_le_right _ _

theorem sooner_eq_none {a b : Option Nat} (h : sooner a b = none) : a = none ∧ b = none := by
  cases a <;> cases b <;> simp_all [sooner]

/-- What the loop sleeps to is at most the run's boundary and its timers. -/
theorem nextDeadline_le {l : LiveRun} {d : Nat} (h : l.nextDeadline = some d) :
    (∀ x, l.deadlineInstant = some x → d ≤ x) ∧ ∀ x, l.earliestTimer = some x → d ≤ x :=
  (sooner_eq_some h).2

end LiveRun

/-- A failure, as the host sees it. -/
abbrev RunResult := Except RunError Output

/-- What a scan decided about one run. -/
inductive ScanOutcome where
  | continue
  | finished (result : RunResult)

end Iso4
