/-
Bridge calls over one connection: `bridge_global_callback` of `crates/core/src/v8/bridge.rs`,
the turn of `crates/core/src/v8/runloop.rs` that settles a call, and
`RuntimeIpcClient.dispatchBridgeCallFrame` of `packages/iso4-sandbox/src/client.ts` with the
handlers it starts.

The connection is `RunWorld`: run ids, routes and the tagged frames on their way.  A tagged
frame that is a `BridgeCall` or a `BridgeResponse` has its content in a queue beside that of
the frames, in the same place.  Calls are listed in the order of their ids, which one counter
gives out for all runs of the connection; the list is the guest's side of them, so a call's
promise is in it.

* `BridgeWorld.enter`, `BridgeWorld.leave` — a call of a stub, before and after the arguments
  are serialized: that runs guest getters, which may call stubs themselves;
* `BridgeWorld.step` — the guests, the connection, the router and the handlers.
-/
import Iso4.RunIdReuse
import Iso4.RuntimePayloads
import Iso4.Framing

namespace Iso4

open Wire Ipc

namespace BridgeCalls

/-! ### Frames -/

/-- A `BridgeCall`, less its run id. -/
structure CallFrame where
  callId : UInt32
  target : BridgeTarget
  args : Blob

abbrev CallAnswer := Except BridgeErrorPayload (Option Blob)

/-- A `BridgeResponse`, less its run id. -/
structure ResponseFrame where
  callId : UInt32
  answer : CallAnswer

/-- The payload the client writes for a response. -/
def ResponseFrame.payload (r : ResponseFrame) (runId : Nat) : Written :=
  encodeBridgeResponsePayload runId r.callId.toNat (r.answer.mapError some)

def ResponseFrame.length (r : ResponseFrame) (runId : Nat) : Nat := ((r.payload runId).getD []).length

/-- `encodeFrame` takes the response. -/
def ResponseFrame.fits (r : ResponseFrame) (runId : Nat) : Bool :=
  (r.payload runId).isSome && r.length runId + 1 ≤ Framing.defaultMaxFrameLength

/-! ### The guest's side -/

/-- What comes of a call that got an id. -/
inductive CallState where
  /-- Blocked after the id was taken. -/
  | unsent
  /-- Sent; its promise is pending. -/
  | pending
  | settled (answer : CallAnswer)

structure Call where
  run : Nat
  frame : CallFrame
  state : CallState

/-- What the demux puts on a run's channel. -/
inductive ChannelEvent where
  | response (r : ResponseFrame)
  /-- `ConnectionLost`, for a response over the run's allowance. -/
  | lost

/-- What a run has of its own: at the host its dispatcher, whether a signal of it has fired,
and the ids of the calls dropped for that; at the runtime the rest. -/
structure Guest where
  maxBridgeCalls : Nat
  maxBridgeCallBytes : Nat
  frameCap : Nat
  dispatcher : Bool
  aborted : Bool
  droppedCallIds : List UInt32
  callCount : Nat
  /-- The targets of the calls whose arguments are being serialized, innermost first. -/
  entered : List BridgeTarget
  bridgeError : Option RunError
  /-- The run was failed by an event. -/
  failed : Bool
  resolvers : AList fun _ : UInt32 => Nat
  events : List ChannelEvent

def Guest.new (maxBridgeCalls maxBridgeCallBytes frameCap : Nat) (dispatcher : Bool) : Guest where
  maxBridgeCalls := maxBridgeCalls
  maxBridgeCallBytes := maxBridgeCallBytes
  frameCap := frameCap
  dispatcher := dispatcher
  aborted := false
  droppedCallIds := []
  callCount := 0
  entered := []
  bridgeError := none
  failed := false
  resolvers := ∅
  events := []

/-- `fatal_bridge_error`: the first one stays. -/
def Guest.fatal (g : Guest) (e : RunError) : Guest := { g with bridgeError := g.bridgeError.or (some e) }

/-! ### The host's side -/

/-- What the router and the handler have made of a call; `written` are the answers it wrote. -/
inductive HandlerPhase where
  /-- Not answered: a signal of the run had fired. -/
  | dropped
  /-- Answered without a handler. -/
  | refused (error : BridgeErrorPayload)
  | running
  /-- The handler has settled and its value is serialized. -/
  | settled (answer : CallAnswer)
  | answered (written : List CallAnswer)

/-- A `BridgeCall` the router gave to an entry, with the run of the entry. -/
structure HostedCall where
  run : Nat
  frame : CallFrame
  phase : HandlerPhase

def HostedCall.written (s : HostedCall) : List CallAnswer :=
  match s.phase with
  | .refused e => [.error e]
  | .answered written => written
  | .dropped | .running | .settled _ => []

/-- The handler of the call was started. -/
def HostedCall.handled (s : HostedCall) : Bool :=
  match s.phase with
  | .dropped | .refused _ => false
  | .running | .settled _ | .answered _ => true

end BridgeCalls

open BridgeCalls

/-! ### The connection -/

/-- `toHost` and `toRuntime` are the contents of the frames on their way in `conn`. -/
structure BridgeWorld where
  conn : RunWorld
  guests : List Guest
  calls : List Call
  toHost : List (Option CallFrame)
  toRuntime : List (Option ResponseFrame)
  served : List HostedCall

namespace BridgeWorld

def new : BridgeWorld := ⟨.new, [], [], [], [], []⟩

/-- A step of the connection; the frames it sends have the given contents. -/
def onConn (w : BridgeWorld) (e : RunIdStep) (up : Option CallFrame) (down : Option ResponseFrame) :
    BridgeWorld :=
  { w with
    conn := w.conn.step e
    toHost := w.toHost ++ List.replicate ((w.conn.step e).toHost.length - w.conn.toHost.length) up
    toRuntime :=
      w.toRuntime ++ List.replicate ((w.conn.step e).toRuntime.length - w.conn.toRuntime.length) down }

def setGuest (w : BridgeWorld) (run : Nat) (f : Guest → Guest) : BridgeWorld :=
  { w with guests := w.guests.modify run f }

def setPhase (w : BridgeWorld) (i : Nat) (phase : HandlerPhase) : BridgeWorld :=
  { w with served := w.served.modify i fun s => { s with phase } }

/-- The run has its entry in the run table. -/
def Running (w : BridgeWorld) (run : Nat) : Prop := ∃ early, w.conn.stageOf run = some (.running early)

instance (w : BridgeWorld) (run : Nat) : Decidable (w.Running run) :=
  match h : w.conn.stageOf run with
  | some (.running early) => .isTrue ⟨early, h⟩
  | some .requested => .isFalse (by rintro ⟨_, h'⟩; cases h.symm.trans h')
  | some (.concluded _) => .isFalse (by rintro ⟨_, h'⟩; cases h.symm.trans h')
  | some .answered => .isFalse (by rintro ⟨_, h'⟩; cases h.symm.trans h')
  | none => .isFalse (by rintro ⟨_, h'⟩; cases h.symm.trans h')

/-- The run takes turns: nothing has failed it. -/
def Alive (w : BridgeWorld) (run : Nat) (g : Guest) : Prop :=
  w.Running run ∧ g.bridgeError = none ∧ g.failed = false

instance (w : BridgeWorld) (run : Nat) (g : Guest) : Decidable (w.Alive run g) :=
  inferInstanceAs (Decidable (_ ∧ _ ∧ _))

/-! ### A call of a stub -/

/-- The callback up to the arguments: `bound` is whether the run binds the name, `target` what
a dispatcher call resolves to. -/
def enter (w : BridgeWorld) (run : Nat) (g : Guest) (bound functionArg : Bool)
    (target : Option BridgeTarget) : BridgeWorld :=
  if ¬ w.Alive run g ∨ bound = false then w
  else if 0 < g.maxBridgeCalls ∧ g.maxBridgeCalls ≤ g.callCount then
    w.setGuest run fun g => { g with callCount := g.callCount + 1 }.fatal .bridgeCallLimitExceeded
  else if functionArg then
    w.setGuest run fun g => { g with callCount := g.callCount + 1 }.fatal .functionArgumentNotSupported
  else
    match target with
    -- the promise of a bogus handle is rejected at once
    | none => w.setGuest run fun g => { g with callCount := g.callCount + 1 }
    | some t => w.setGuest run fun g =>
        { g with callCount := g.callCount + 1, entered := t :: g.entered }

/-- The call takes its id. -/
def logCall (w : BridgeWorld) (run : Nat) (frame : CallFrame) (state : CallState) : BridgeWorld :=
  { w with calls := w.calls ++ [⟨run, frame, state⟩] }

def nextFrame (w : BridgeWorld) (target : BridgeTarget) (args : Blob) : CallFrame :=
  ⟨UInt32.ofNat w.calls.length, target, args⟩

/-- The callback from the serialized arguments on; `killed` is whether a getter of them ended
the run, `link` the link's refusal. -/
def leave (w : BridgeWorld) (run : Nat) (g : Guest) (argsBlob : Except RunError Blob)
    (killed : Bool) (link : Option String) : BridgeWorld :=
  match g.entered, argsBlob with
  | [], _ => w
  | _ :: rest, .error e => w.setGuest run fun g => { g with entered := rest }.fatal e
  | target :: rest, .ok args =>
    let frame := w.nextFrame target args
    if 2 ^ 32 ≤ args.length ∨ 0 < g.maxBridgeCallBytes ∧ g.maxBridgeCallBytes < args.length then
      (w.logCall run frame .unsent).setGuest run fun g =>
        { g with entered := rest }.fatal .bridgeCallPayloadTooLarge
    else if g.bridgeError.isSome ∨ killed ∨ ¬ w.Running run then
      (w.logCall run frame .unsent).setGuest run fun g => { g with entered := rest }
    else
      match link with
      | some e => (w.logCall run frame .unsent).setGuest run fun g =>
          { g with entered := rest }.fatal (.internal ("bridge write failed: " ++ e))
      | none => ((w.logCall run frame .pending).onConn (.runSends run) (some frame) none).setGuest run
          fun g => { g with
            entered := rest
            resolvers := g.resolvers.insert frame.callId w.calls.length }

/-! ### The router and the handlers -/

/-- A response is written, under the id of its run. -/
def respond (w : BridgeWorld) (run : Nat) (callId : UInt32) (answer : CallAnswer) : BridgeWorld :=
  w.onConn (.hostWrites run) none (some ⟨callId, answer⟩)

def serve (w : BridgeWorld) (run : Nat) (frame : CallFrame) (phase : HandlerPhase) : BridgeWorld :=
  { w with served := w.served ++ [⟨run, frame, phase⟩] }

def refuse (w : BridgeWorld) (run : Nat) (frame : CallFrame) (error : BridgeErrorPayload) :
    BridgeWorld :=
  (w.serve run frame (.refused error)).respond run frame.callId (.error error)

def noDispatcher : BridgeErrorPayload := ⟨"Error", "no bridge dispatcher configured", none⟩

def undecodable (message : String) : BridgeErrorPayload :=
  ⟨"TypeError", "host could not decode bridge call arguments: " ++ message, none⟩

/-- `dispatchBridgeCallFrame`; `decoding` is the message of a failed decode. -/
def dispatch (w : BridgeWorld) (run : Nat) (g : Guest) (frame : CallFrame)
    (decoding : Option String) : BridgeWorld :=
  if g.aborted then
    (w.serve run frame .dropped).setGuest run fun g =>
      { g with droppedCallIds := frame.callId :: g.droppedCallIds }
  else
    match decoding with
    | some message => w.refuse run frame (undecodable message)
    | none =>
      if g.dispatcher then w.serve run frame .running else w.refuse run frame noDispatcher

/-- The router takes the next frame. -/
def route (w : BridgeWorld) (decoding : Option String) : BridgeWorld :=
  if w.conn.closed then w
  else
    match w.conn.toHost, w.toHost with
    | f :: _, content :: rest =>
      let w' := { w with conn := w.conn.step .route, toHost := rest }
      match f, content with
      | .tagged runId _, some frame =>
        match w.conn.runs.lookup runId with
        -- the run completed while the frame was in flight
        | none => w'
        | some entry => (w.guests[entry.run]?).elim w' fun g => w'.dispatch entry.run g frame decoding
      | _, _ => w'
    | _, _ => w

/-- The handler's answer is written; one that no frame can carry is replaced by the failure,
and a failure that no frame can carry ends the connection. -/
def answer (w : BridgeWorld) (i : Nat) (s : HostedCall) (a : CallAnswer) (failure : BridgeErrorPayload) :
    BridgeWorld :=
  let runId := (w.conn.idOf s.run).getD 0
  if (ResponseFrame.mk s.frame.callId a).fits runId then
    (w.setPhase i (.answered [a])).respond s.run s.frame.callId a
  else if (ResponseFrame.mk s.frame.callId (.error failure)).fits runId then
    (w.setPhase i (.answered [.error failure])).respond s.run s.frame.callId (.error failure)
  else if (w.conn.runs.lookup runId).isSome then (w.setPhase i (.answered [])).onConn .close none none
  else w.setPhase i (.answered [])

/-- The write of a response failed: the failure is written in its place. -/
def answerAgain (w : BridgeWorld) (i : Nat) (s : HostedCall) (written : List CallAnswer)
    (failure : BridgeErrorPayload) : BridgeWorld :=
  (w.setPhase i (.answered (written ++ [.error failure]))).respond s.run s.frame.callId (.error failure)

/-! ### Responses at the runtime -/

/-- The demux takes the next frame; a response over its run's allowance is the loss of the
run's connection. -/
def receive (w : BridgeWorld) (taken : Bool) : BridgeWorld :=
  match w.conn.toRuntime, w.toRuntime with
  | f :: _, content :: rest =>
    let w' := { w.onConn (.receive taken) none none with toRuntime := rest }
    match f, content with
    | .tagged runId _, some r =>
      match w.conn.routes.lookup runId with
      | none => w'
      | some owner => w'.setGuest owner fun g =>
          { g with events := g.events ++
              [if g.frameCap < r.length runId + 1 then .lost else .response r] }
    | _, _ => w'
  | _, _ => w

def settleCall (w : BridgeWorld) (n : Nat) (a : CallAnswer) : BridgeWorld :=
  { w with calls := w.calls.modify n fun c => { c with state := .settled a } }

/-- The run's turn for a response; `materialises` is whether its value can be deserialized. -/
def settle (w : BridgeWorld) (run : Nat) (g : Guest) (r : ResponseFrame) (materialises : Bool) :
    BridgeWorld :=
  match g.resolvers.lookup r.callId with
  | none => w
  | some n =>
    let w := w.setGuest run fun g => { g with resolvers := g.resolvers.erase r.callId }
    match r.answer with
    | .ok (some _) =>
      if materialises then w.settleCall n r.answer else w.setGuest run fun g => { g with failed := true }
    | _ => w.settleCall n r.answer

/-- The next event of the run's channel; what comes after the run is discarded. -/
def takeEvent (w : BridgeWorld) (run : Nat) (g : Guest) (materialises : Bool) : BridgeWorld :=
  match g.events with
  | [] => w
  | e :: rest =>
    let w' := w.setGuest run fun g => { g with events := rest }
    if w.Alive run g then
      match e with
      | .lost => w'.setGuest run fun g => { g with failed := true }
      | .response r => w'.settle run g r materialises
    else w'

end BridgeWorld

inductive BridgeOp where
  /-- `executeRun`, with the limits and the handlers of the run. -/
  | start (encodes : Bool) (guest : Guest)
  /-- A signal of the run fires. -/
  | abort (run : Nat)
  | enter (run : Nat) (bound functionArg : Bool) (target : Option BridgeTarget)
  | leave (run : Nat) (argsBlob : Except RunError Blob) (killed : Bool) (link : Option String)
  | route (decoding : Option String)
  /-- The handler settles and its value is serialized, or that fails. -/
  | settle (i : Nat) (answer : CallAnswer)
  | answer (i : Nat) (failure : BridgeErrorPayload)
  | answerAgain (i : Nat) (failure : BridgeErrorPayload)
  | receive (taken : Bool)
  | takeEvent (run : Nat) (materialises : Bool)
  /-- A step of the connection that is not about a bridge call. -/
  | other (e : RunIdStep)

namespace BridgeWorld

/-- A step of the connection that has no step of its own here. -/
def plain : RunIdStep → Bool
  | .start _ | .receive _ | .route => false
  | .hostWrites _ | .runSends _ | .earlyResult _ | .finished _ | .completion _ _ | .close => true

/-- The request of a run is written, and the run is given the next number. -/
def begin (w : BridgeWorld) (encodes : Bool) (guest : Guest) : BridgeWorld :=
  let w' := w.onConn (.start encodes) none none
  { w' with
    guests := w.guests ++ List.replicate (w'.conn.started.length - w.conn.started.length)
      (.new guest.maxBridgeCalls guest.maxBridgeCallBytes guest.frameCap guest.dispatcher) }

def step (w : BridgeWorld) : BridgeOp → BridgeWorld
  | .start encodes guest => w.begin encodes guest
  | .abort run => w.setGuest run fun g => { g with aborted := true }
  | .enter run bound functionArg target =>
    (w.guests[run]?).elim w fun g => w.enter run g bound functionArg target
  | .leave run argsBlob killed link =>
    (w.guests[run]?).elim w fun g => w.leave run g argsBlob killed link
  | .route decoding => w.route decoding
  | .settle i a => (w.served[i]?).elim w fun s =>
      match s.phase with
      | .running => w.setPhase i (.settled a)
      | _ => w
  | .answer i failure => (w.served[i]?).elim w fun s =>
      match s.phase with
      | .settled a => w.answer i s a failure
      | _ => w
  | .answerAgain i failure => (w.served[i]?).elim w fun s =>
      match s.phase with
      | .answered [a] => w.answerAgain i s [a] failure
      | _ => w
  | .receive taken => w.receive taken
  | .takeEvent run materialises =>
    (w.guests[run]?).elim w fun g => w.takeEvent run g materialises
  | .other e => if plain e then w.onConn e none none else w

end BridgeWorld

end Iso4
