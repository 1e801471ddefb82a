/-
The world a turn runs in: channel, clock, reason cell, host link and guest
(`crates/core/src/v8/instance.rs`, `bridge.rs`, `streams.rs`, `timers.rs`,
`crates/core/src/link.rs`).

`Core` is what the owner thread shares with the demux, the watchdog, the host
and the guest.  Everything the owner thread does not decide comes from a
`Script`: how the clock advances and what arrives meanwhile, what a concurrent
guard fire or abort does at each look at the reason cell, what guest JS does
whenever it runs, and how each send on the link ends.

A stretch of guest JS is a list of `GuestAct`s.  It runs at some run's
checkpoint but may act for any live run of the instance: settling a promise
needs only its resolver, and native callbacks attribute to the continuation's
rider while that run is live, to the turn owner otherwise.
-/
import Iso4.Run

namespace Iso4

/-- The host's answer to a bridge call. -/
inductive BridgeAnswer where
  | value
  /-- A value that does not decode. -/
  | undecodable (message : String)
  | error
  deriving DecidableEq, Repr

/-- Host messages addressed to a run. -/
inductive Inbound where
  | bridgeResponse (callId : Nat) (answer : BridgeAnswer)
  | streamChunk (id bytes : Nat)
  | streamEnd (id : Nat) (error : Option String)
  | streamPull (id credit : Nat)
  | streamCancel (id : Nat)
  | terminate
  | connectionLost
  deriving DecidableEq, Repr

/-- One message on an instance's channel. -/
inductive RunEvent where
  | job (j : CallJob)
  | host (m : Inbound)
  | retire
  deriving DecidableEq, Repr

/-- An event tagged with its run and stamped at the demux. -/
structure RoutedEvent where
  token : Nat
  event : RunEvent
  stamp : Nat
  deriving DecidableEq, Repr

/-- The jobs among some messages, by token. -/
def jobTokens (q : List RoutedEvent) : List Nat :=
  q.filterMap fun e =>
    match e.event with
    | .job j => some j.token
    | _ => none

/-- How a run's `Result` reads. -/
inductive RunCompletion where
  | success (exports backgroundFlags : Nat)
  | failure (error : RunError) (prefixStage : Bool)
  deriving DecidableEq, Repr

/-- Messages to the host. -/
inductive Outbound where
  | bridgeCall (callId : Nat)
  | streamPull (id credit : Nat)
  | streamCancel (id : Nat)
  | streamChunk (id bytes : Nat)
  | streamEnd (id : Nat) (error : Option String)
  | result (completion : RunCompletion)
  | runComplete (report : GraceReport)
  deriving DecidableEq, Repr

inductive SendResult where
  | ok
  | tooLarge
  | closed
  deriving DecidableEq, Repr

/-- What happens while time passes. -/
inductive Passing where
  | pass (d : Nat)
  /-- The demux sends an event it stamped `lag` earlier. -/
  | arrive (token : Nat) (event : RunEvent) (lag : Nat)
  deriving DecidableEq, Repr

/-- What a stretch of guest JS can do to the runtime's state.  Where a `rider`
stands, the act attributes to it. -/
inductive GuestAct where
  | elapse (ps : List Passing)
  /-- The watchdog or a hard abort fires meanwhile. -/
  | fire (r : TerminationReason)
  /-- A dynamic `import()` or the heap limit ends the turn from inside. -/
  | kill (r : TerminationReason)
  | settleRoot (token : Nat) (st : PromiseState)
  | settleWait (token i : Nat) (st : PromiseState)
  | settlePull (token id : Nat) (st : PullState)
  | waitUntil (rider : Nat) (st : PromiseState)
  | setTimeout (rider leadMs : Nat)
  | clearTimeout (rider id : Nat)
  | bridgeCall (rider callId : Nat)
  | fatalBridge (rider : Nat) (e : RunError)
  | streamRead (rider id : Nat)
  | streamCancel (rider id : Nat)
  | hydrate (id : Nat)
  /-- A stream body met while a result is serialized. -/
  | registerOut
  deriving DecidableEq, Repr

/-- How a call into JS returns. -/
inductive Completion where
  | threw
  | value
  | promise (st : PromiseState)
  deriving DecidableEq, Repr

/-- A thrown or rejected guest value, as the runtime classifies it. -/
inductive GuestError where
  | runtime (name message : String)
  /-- Tagged as a host handler's error. -/
  | hostBridge (message : String)
  deriving DecidableEq, Repr

def GuestError.toRunError : GuestError → RunError
  | .runtime name message => .runtimeError name message
  | .hostBridge message => .hostBridge message

/-- One stretch of guest JS.  `pull` is the state of the promise it returns as
a body stream's pull, `error` what reading the thrown value gives, `bytes` the
size of what it serializes. -/
structure Slice where
  acts : List GuestAct
  completion : Completion
  pull : PullState
  error : GuestError
  bytes : Nat
  deriving DecidableEq, Repr

/-- A stretch that does nothing. -/
def Slice.idle : Slice := ⟨[], .value, .pending, .runtime "Error" "", 0⟩

/-- Everything the owner thread does not decide. -/
structure Script where
  /-- What passes up to each reading of the clock. -/
  clocks : List (List Passing)
  /-- What fires just before each look at the reason cell or guard clear. -/
  fires : List (Option TerminationReason)
  slices : List Slice
  /-- Guest getters run by reading a rejection. -/
  getters : List Slice
  sends : List SendResult
  /-- Whether a pending terminate still shows. -/
  flags : List Bool
  /-- Every sender of the channel is gone. -/
  hungUp : Bool
  /-- How creating the isolate fails, if it does. -/
  coldStart : Option RunError
  deriving DecidableEq, Repr

/-- Nothing happens but the owner thread. -/
def Script.silent : Script := ⟨[], [], [], [], [], [], false, none⟩

/-- What an armed turn can be ended for by the watchdog. -/
structure TurnTarget where
  cpuCapMs : Nat
  wallDeadline : Option Nat
  deriving DecidableEq, Repr

/-- The history of an owner thread. -/
inductive Event where
  | arrived (token stamp : Nat)
  /-- An event is handed to its run, whose next deadline is `due`. -/
  | delivered (token stamp : Nat) (due : Option Nat)
  /-- A deadline of the run is acted on. -/
  | acted (token deadline : Nat)
  /-- A turn starts on this phase with this counted time. -/
  | turn (token : Nat) (phase : RunPhase) (counted : Nat)
  | sent (token : Nat) (msg : Outbound)
  | dropped (token : Nat) (msg : Outbound)
  | finished (token : Nat)
  | released (token : Nat) (tainted : Bool)
  /-- The result the run is concluded with. -/
  | concluded (token : Nat) (result : RunResult)
  /-- The owner's turn left the instance tainted. -/
  | tainted (token : Nat)

/-- What the owner thread shares with everything around it. -/
structure Core where
  clock : Nat
  reason : Option TerminationReason
  /-- The last look at the reason cell during the current turn. -/
  lastRead : Option TerminationReason
  bareTerminate : Bool
  terminating : Bool
  armed : Option TurnTarget
  queue : List RoutedEvent
  /-- Every token whose job was ever sent here. -/
  seen : List Nat
  /-- The parked runs. -/
  live : List LiveRun
  touched : List Nat
  resultStreamMode : Bool
  /-- Newest first. -/
  log : List Event
  script : Script

namespace Core

def note (c : Core) (e : Event) : Core := { c with log := e :: c.log }

/-- The demux hands one event over.  Tokens are allocated once, and a run's
job precedes every other event of it. -/
def arrive (c : Core) (token : Nat) (event : RunEvent) (lag : Nat) : Core :=
  match event with
  | .job j =>
    if j.token ∈ c.seen then c
    else { c with queue := c.queue ++ [⟨j.token, event, c.clock - lag⟩], seen := j.token :: c.seen }
  | .host _ =>
    if token ∈ c.seen then
      { c with queue := c.queue ++ [⟨token, event, c.clock - lag⟩],
               log := .arrived token (c.clock - lag) :: c.log }
    else c
  | .retire => { c with queue := c.queue ++ [⟨0, event, c.clock - lag⟩] }

def passOne (c : Core) : Passing → Core
  | .pass d => { c with clock := c.clock + d }
  | .arrive token event lag => c.arrive token event lag

def passAll (c : Core) (ps : List Passing) : Core := ps.foldl passOne c

def popClock (c : Core) : Core := { c with script.clocks := c.script.clocks.tail }

def popFire (c : Core) : Core := { c with script.fires := c.script.fires.tail }

def popSlice (c : Core) : Core := { c with script.slices := c.script.slices.tail }

def popGetter (c : Core) : Core := { c with script.getters := c.script.getters.tail }

def popSend (c : Core) : Core := { c with script.sends := c.script.sends.tail }

/-- `Instant::now()`. -/
def now (c : Core) : Nat × Core :=
  let c' := c.popClock.passAll (c.script.clocks.head?.getD [])
  (c'.clock, c')

/-- Whether another thread may end the armed turn for this reason now. -/
def mayFire (c : Core) (r : TerminationReason) : Bool :=
  match c.armed, r with
  | none, _ => false
  | some _, .abort => true
  | some t, .cpu => t.cpuCapMs > 0
  | some t, .wall => match t.wallDeadline with
    | some d => d ≤ c.clock
    | none => false
  | some _, _ => false

/-- Record a reason (the first one stays) and terminate. -/
def kill (c : Core) (r : TerminationReason) : Core :=
  { c with reason := some (c.reason.getD r), terminating := true }

def fire (c : Core) (r : TerminationReason) : Core := if c.mayFire r then c.kill r else c

/-- Let what fires here fire. -/
def race (c : Core) : Core :=
  match c.script.fires.head? with
  | some (some r) => c.popFire.fire r
  | _ => c.popFire

/-- `facts.reason.get()` in a turn. -/
def readReason (c : Core) : Option TerminationReason × Core :=
  (c.race.reason, { c.race with lastRead := c.race.reason })

/-- `ReasonCell::reset`. -/
def resetReason (c : Core) : Core := { c with reason := none, bareTerminate := false }

/-- `InstanceGuard::set_for`. -/
def arm (c : Core) (t : TurnTarget) : Core := { c with armed := some t }

/-- `InstanceGuard::clear`; a fire can still beat it. -/
def disarm (c : Core) : Core := { c.race with armed := none }

/-- `is_execution_terminating`: V8 drops the flag on its own when it leaves
JS, so a pending terminate may or may not still show. -/
def isTerminating (c : Core) : Bool × Core :=
  let shows := c.terminating && c.script.flags.head?.getD true
  (shows, { c with terminating := shows, script.flags := c.script.flags.tail })

/-- Terminate without a reason. -/
def bareKill (c : Core) : Core := { c with bareTerminate := true, terminating := true }

def cancelTerminate (c : Core) : Core := { c with terminating := false }

/-- `HostLink::send`. -/
def send (c : Core) (token : Nat) (msg : Outbound) : SendResult × Core :=
  let r := c.script.sends.head?.getD .ok
  (r, c.popSend.note (if r = .ok then .sent token msg else .dropped token msg))

end Core

/-- A turn in progress: the world, and the run it executes for. -/
structure Turn extends Core where
  owner : LiveRun

namespace Turn

/-- Act on the core alone. -/
def onCore (t : Turn) (f : Core → Core) : Turn := { toCore := f t.toCore, owner := t.owner }

/-- Act on the core alone and answer. -/
def asking {α : Type} (t : Turn) (f : Core → α × Core) : α × Turn :=
  ((f t.toCore).1, { toCore := (f t.toCore).2, owner := t.owner })

/-- Act on the owner's state. -/
def onOwner (t : Turn) (f : RunState → RunState) : Turn :=
  { t with owner := { t.owner with rs := f t.owner.rs } }

/-- Act on the state of one in-flight run, the owner or a co-resident. -/
def onRun (t : Turn) (token : Nat) (f : RunState → RunState) : Turn :=
  if token = t.owner.token then t.onOwner f
  else { t with live := t.live.map fun l => if l.token = token then { l with rs := f l.rs } else l }

/-- The in-flight run with this token. -/
def run? (t : Turn) (token : Nat) : Option LiveRun :=
  if token = t.owner.token then some t.owner else t.live.find? fun l => l.token = token

/-- The run a native callback attributes to: the rider while it is live, the
turn owner otherwise. -/
def attributed (t : Turn) (rider : Nat) : LiveRun := (t.run? rider).getD t.owner

def touch (t : Turn) (token : Nat) : Turn := t.onCore fun c => { c with touched := token :: c.touched }

/-- Send for a run that has a link. -/
def sendFor (t : Turn) (l : LiveRun) (msg : Outbound) : SendResult × Turn :=
  if l.job.link then t.asking fun c => c.send l.token msg else (.ok, t)

/-- Record a bridge error; the first one stays. -/
def recordBridgeError (e : RunError) (rs : RunState) : RunState :=
  { rs with bridgeError := some (rs.bridgeError.getD e) }

/-- `fatal_bridge_error`: record the error and terminate. -/
def fatalBridgeError (t : Turn) (token : Nat) (e : RunError) : Turn :=
  (t.onRun token (recordBridgeError e)).onCore Core.bareKill

/-- `bridge_global_callback` past its limit checks. -/
def bridgeGlobalCallback (t : Turn) (l : LiveRun) (callId : Nat) : Turn :=
  if !l.job.link then t
  -- A getter in the arguments already ended the run: send nothing.
  else if l.rs.bridgeError.isSome || t.reason.isSome then t
  else
    match t.sendFor l (.bridgeCall callId) with
    | (.ok, t') => t'.onRun l.token fun rs => { rs with resolvers := callId :: rs.resolvers }
    | (_, t') => t'.fatalBridgeError l.token (.internal "bridge write failed")

/-- Store an inbound stream's new state. -/
def putStream (t : Turn) (token id : Nat) (st : StreamState) : Turn :=
  t.onRun token fun rs => rs.onEntry (RunCallState.mapStreams fun m => m.insert id st)

/-- `stream_read_callback`: hand out a buffered chunk, or wait. -/
def streamReadCallback (t : Turn) (l : LiveRun) (id : Nat) : Turn :=
  match l.rs.entry.streams.bind fun m => m.lookup id with
  | none => t
  | some st =>
    match st.buffered with
    | bytes :: rest =>
      let t := t.putStream l.token id { st with buffered := rest }
      -- Consumed bytes replenish the host's credit window.
      if bytes = 0 then t else (t.sendFor l (.streamPull id bytes)).2
    | [] =>
      if st.cancelled || st.ended.isSome || st.pending then t
      else t.putStream l.token id { st with pending := true }

/-- `stream_cancel_callback`: the sandbox is done with the body. -/
def streamCancelCallback (t : Turn) (l : LiveRun) (id : Nat) : Turn :=
  match l.rs.entry.streams.bind fun m => m.lookup id with
  | none => t
  | some st =>
    if !st.cancelled && st.ended.isNone then
      let t := t.putStream l.token id { st with cancelled := true, buffered := [], pending := false }
      (t.sendFor l (.streamCancel id)).2
    else t.putStream l.token id { st with pending := false }

def withTimers (timers : TimerTable) (rs : RunState) : RunState :=
  rs.onEntry fun e => { e with timers := timers }

/-- Store a run's changed timers and mark the run touched. -/
def putTimers (t : Turn) (token : Nat) (timers : TimerTable) : Turn :=
  (t.onRun token (withTimers timers)).touch token

/-- `set_timeout_callback`; `leadMs` is what is left of the delay on the frozen
clock. -/
def setTimeoutCallback (t : Turn) (l : LiveRun) (leadMs : Nat) : Turn :=
  match l.rs.entry.timers.setTimeout (t.clock + fromMillis leadMs) with
  | none => t
  | some timers => t.putTimers l.token timers

/-- `clear_timeout_callback`. -/
def clearTimeoutCallback (t : Turn) (l : LiveRun) (id : Nat) : Turn :=
  match l.rs.entry.timers.clearTimeout id with
  | none => t
  | some timers => t.putTimers l.token timers

/-- Settle the `i`-th registered promise. -/
def settleWait (rs : RunState) (i : Nat) (st : PromiseState) : RunState :=
  rs.onEntry fun e => { e with waits := e.waits.modify i fun p => if p = .pending then st else p }

def settleRoot (rs : RunState) (st : PromiseState) : RunState :=
  match rs.phase with
  | .settling .pending callPending rootIsCallResult =>
    { rs with phase := .settling st callPending rootIsCallResult }
  | _ => rs

def settlePull (rs : RunState) (id : Nat) (st : PullState) : RunState :=
  rs.onEntry (RunCallState.modifyOut id fun s =>
    { s with pending := s.pending.map fun p => if p = .pending then st else p })

/-- `register_out_stream`, on the turn owner. -/
def registerOutStream (t : Turn) : Turn :=
  if !t.resultStreamMode then t
  else t.onOwner fun rs => rs.onEntry (RunCallState.mapOut fun st =>
    { st with
      nextId := st.nextId + 1
      streams := st.streams.insert st.nextId ⟨streamCreditWindowBytes, none, 0, false⟩ })

/-- `wait_until_callback` on the attributed run. -/
def registerWait (st : PromiseState) (rs : RunState) : RunState :=
  rs.onEntry fun e => if e.waitArmed then { e with waits := e.waits ++ [st] } else e

/-- One act of guest JS. -/
def act (t : Turn) : GuestAct → Turn
  | .elapse ps => t.onCore fun c => c.passAll ps
  | .fire r => t.onCore fun c => c.fire r
  | .kill r => t.onCore fun c => c.kill r
  | .settleRoot token st => t.onRun token fun rs => settleRoot rs st
  | .settleWait token i st => t.onRun token fun rs => settleWait rs i st
  | .settlePull token id st => t.onRun token fun rs => settlePull rs id st
  | .waitUntil rider st => t.onRun (t.attributed rider).token (registerWait st)
  | .setTimeout rider leadMs => t.setTimeoutCallback (t.attributed rider) leadMs
  | .clearTimeout rider id => t.clearTimeoutCallback (t.attributed rider) id
  | .bridgeCall rider callId => t.bridgeGlobalCallback (t.attributed rider) callId
  | .fatalBridge rider e => t.fatalBridgeError (t.attributed rider).token e
  | .streamRead rider id => t.streamReadCallback (t.attributed rider) id
  | .streamCancel rider id => t.streamCancelCallback (t.attributed rider) id
  | .hydrate id => t.onOwner fun rs =>
      rs.onEntry (RunCallState.mapStreams fun m => m.insert id StreamState.new)
  | .registerOut => t.registerOutStream

/-- Guest JS stops where it is terminated. -/
def actAll (t : Turn) : List GuestAct → Turn
  | [] => t
  | a :: acts => if t.terminating then t else (t.act a).actAll acts

end Turn

end Iso4
