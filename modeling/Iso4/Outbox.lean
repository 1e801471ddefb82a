/-
The outbound path of one connection (`crates/server/src/ipc.rs`): frames are
written inline by the producer that finds the queue empty and the socket free,
and by the writer thread otherwise.

A `send_frame` call takes the lock up to twice: once to be refused, to take
the socket token (`writing`), to queue its frame or to wait for room, and once
more to give the token back.  The writer thread takes it to pop a frame under
the token and to give the token back.  Between two lock regions a party only
calls `write_vectored`, one call a step, with any answer the socket may give.
Waiting on a condition variable is a state a party may leave at any time, as
spurious wakeups allow.

`outbox_integrity` is the state of the byte stream after every interleaving.
-/
import Iso4.Types
import Iso4.Lib.Execution
import Iso4.Lib.Wire
import Mathlib.Logic.Function.Basic
import Mathlib.Data.List.Perm.Subperm
import Mathlib.Tactic.Common

namespace Iso4

/-! ### Frames -/

inductive RustToTsMessageType where
  | bridgeCall
  | result
  | precompileResult
  | log
  | hello
  | statsResult
  | runComplete
  | streamPull
  | streamCancel
  | streamChunk
  | streamEnd
  deriving DecidableEq, Repr

/-- The type byte of the envelope. -/
def RustToTsMessageType.byte : RustToTsMessageType → UInt8
  | .bridgeCall => 0x01
  | .result => 0x02
  | .precompileResult => 0x03
  | .log => 0x04
  | .hello => 0x05
  | .statsResult => 0x06
  | .runComplete => 0x07
  | .streamPull => 0x08
  | .streamCancel => 0x09
  | .streamChunk => 0x0A
  | .streamEnd => 0x0B

def defaultMaxFrameLength : Nat := 64 * 1024 * 1024

def outboxCapBytes : Nat := 16 * 1024 * 1024

def outboxStallTimeout : Nat := fromMillis 5000

def outboxWriteAttempt : Nat := fromMillis 10

/-- What a producer hands to `send_frame`. -/
structure OutMsg where
  messageType : RustToTsMessageType
  head : List UInt8
  tail : List UInt8
  deriving DecidableEq, Repr

def OutMsg.len (m : OutMsg) : Nat := m.head.length + m.tail.length

/-- The envelope of a frame whose length field is `length`. -/
def envelope (length : Nat) (t : RustToTsMessageType) : List UInt8 := Wire.u32be length ++ [t.byte]

/-- The frame on the wire: length, type, payload. -/
def OutMsg.encode (m : OutMsg) : List UInt8 :=
  envelope (m.len + 1) m.messageType ++ (m.head ++ m.tail)

inductive SendError where
  | invalidInput (message : String)
  | brokenPipe (reason : String)
  | timedOut (reason : String)
  deriving DecidableEq, Repr

/-- `u32::try_from`. -/
def tryU32 (n : Nat) : Option Nat := if n < 2 ^ 32 then some n else none

/-- The ceiling check of `send_frame`: the length field, or the refusal. -/
def payloadLen (m : OutMsg) : Except SendError Nat :=
  match (tryU32 m.len).bind fun total => tryU32 (total + 1) with
  | none => .error (.invalidInput "payload too large")
  | some n =>
    if defaultMaxFrameLength < n then
      .error (.invalidInput
        s!"frame length {n} exceeds max frame length {defaultMaxFrameLength}")
    else .ok n

theorem payloadLen_eq {m : OutMsg} {n : Nat} (h : payloadLen m = .ok n) : n = m.len + 1 := by
  unfold payloadLen tryU32 at h
  split at h
  · cases h
  · next k hk =>
    have hn : k = n := by
      split at h
      · cases h
      · exact Except.ok.inj h
    by_cases hlen : m.len < 2 ^ 32
    · simp only [hlen, if_true, Option.bind_some] at hk
      split at hk
      · exact hn ▸ (Option.some.inj hk).symm
      · cases hk
    · rw [if_neg hlen] at hk
      cases hk

/-- A call past the ceiling check, with the length field it computed. -/
structure SendCall where
  msg : OutMsg
  payloadLen : Nat
  admitted : Iso4.payloadLen msg = .ok payloadLen

/-- A queued unit: a whole frame, or the unwritten rest of one whose inline
write met a jammed socket. -/
inductive OutFrame where
  | frame (m : OutMsg)
  | remainder (bytes : List UInt8)
  deriving DecidableEq, Repr

def OutFrame.len : OutFrame → Nat
  | .frame m => m.len
  | .remainder bytes => bytes.length

/-- What the unit still has to put on the wire. -/
def OutFrame.encode : OutFrame → List UInt8
  | .frame m => m.encode
  | .remainder bytes => bytes

/-! ### Writing one frame -/

/-- `FrameProgress`: the pieces of a frame and how many bytes went out. -/
structure FrameProgress where
  parts : List (List UInt8)
  written : Nat
  deriving DecidableEq, Repr

/-- The loop over the pieces that skips the first `offset` bytes. -/
def slicesFrom : Nat → List (List UInt8) → List (List UInt8)
  | _, [] => []
  | offset, part :: parts =>
    if part.length ≤ offset then slicesFrom (offset - part.length) parts
    else part.drop offset :: slicesFrom 0 parts

namespace FrameProgress

def new (envelope head tail : List UInt8) : FrameProgress := ⟨[envelope, head, tail], 0⟩

def total (p : FrameProgress) : Nat := (p.parts.map List.length).sum

/-- The buffers of one `write_vectored` call. -/
def bufs (p : FrameProgress) : List (List UInt8) := slicesFrom p.written p.parts

/-- The unwritten bytes, as one buffer. -/
def remainder (p : FrameProgress) : List UInt8 := (slicesFrom p.written p.parts).flatten

end FrameProgress

/-- What one `write_vectored` call answers. -/
inductive WriteResult where
  /-- The socket took that many bytes, and never more than it was offered. -/
  | wrote (n : Nat)
  | interrupted
  /-- `WouldBlock` or `TimedOut`. -/
  | wouldBlock
  | failed (e : String)
  deriving DecidableEq, Repr

/-- What `write_some` returns: `Ok(true)`, `Ok(false)`, `Err`. -/
inductive WriteOutcome where
  | complete
  | stopped
  | broken (e : String)
  deriving DecidableEq, Repr

/-- A `write_some` call between two rounds of its loop. -/
structure WriteSome where
  progress : FrameProgress
  deadline : Option Nat
  attempted : Bool
  deriving DecidableEq, Repr

/-- One round of the loop: what goes out, and the return if it is the last. -/
def WriteSome.round (w : WriteSome) (now : Nat) (r : WriteResult) :
    WriteSome × List UInt8 × Option WriteOutcome :=
  if w.progress.total ≤ w.progress.written then (w, [], some .complete)
  else if w.attempted && w.deadline.any (· ≤ now) then (w, [], some .stopped)
  else
    let w := { w with attempted := true }
    let offered := w.progress.bufs.flatten
    match r with
    | .wrote 0 => (w, [], some (.broken "write zero"))
    | .wrote n =>
      let n := min n offered.length
      ({ w with progress.written := w.progress.written + n }, offered.take n, none)
    | .interrupted => (w, [], none)
    | .wouldBlock => (w, [], some .stopped)
    | .failed e => (w, [], some (.broken e))

theorem slicesFrom_flatten (n : Nat) (parts : List (List UInt8)) :
    (slicesFrom n parts).flatten = parts.flatten.drop n := by
  induction parts generalizing n with
  | nil => simp [slicesFrom]
  | cons part parts ih =>
    unfold slicesFrom
    split
    · next h => rw [ih, List.flatten_cons, List.drop_append, List.drop_of_length_le h, List.nil_append]
    · next h =>
      have hn : n - part.length = 0 := by omega
      rw [List.flatten_cons, ih, List.flatten_cons, List.drop_append, hn]

theorem FrameProgress.remainder_eq (p : FrameProgress) :
    p.remainder = p.parts.flatten.drop p.written := slicesFrom_flatten _ _

theorem FrameProgress.remainder_new (e h t : List UInt8) : (new e h t).remainder = e ++ (h ++ t) := by
  simp [FrameProgress.remainder_eq, new]

/-- What a round puts on the wire comes off the front of the rest, and a
completed call leaves none. -/
theorem WriteSome.round_spec {w w' : WriteSome} {now : Nat} {r : WriteResult} {put : List UInt8}
    {o : Option WriteOutcome} (h : w.round now r = (w', put, o)) :
    w.progress.remainder = put ++ w'.progress.remainder ∧
      (o = some .complete → w'.progress.remainder = []) := by
  unfold WriteSome.round at h
  split at h
  · next hdone =>
    obtain ⟨rfl, rfl, rfl⟩ := by simpa only [Prod.mk.injEq] using h
    refine ⟨rfl, fun _ => ?_⟩
    rw [FrameProgress.remainder_eq]
    apply List.drop_of_length_le
    rw [List.length_flatten]
    exact hdone
  · split at h
    · obtain ⟨rfl, rfl, rfl⟩ := by simpa only [Prod.mk.injEq] using h
      exact ⟨rfl, by simp⟩
    · split at h
      · obtain ⟨rfl, rfl, rfl⟩ := by simpa only [Prod.mk.injEq] using h
        exact ⟨rfl, by simp⟩
      · next n _ =>
        obtain ⟨rfl, rfl, rfl⟩ := by simpa only [Prod.mk.injEq] using h
        refine ⟨?_, by simp⟩
        simp only [FrameProgress.remainder_eq, FrameProgress.bufs, slicesFrom_flatten]
        rw [← List.drop_drop, List.take_append_drop]
      · obtain ⟨rfl, rfl, rfl⟩ := by simpa only [Prod.mk.injEq] using h
        exact ⟨rfl, by simp⟩
      · obtain ⟨rfl, rfl, rfl⟩ := by simpa only [Prod.mk.injEq] using h
        exact ⟨rfl, by simp⟩
      · obtain ⟨rfl, rfl, rfl⟩ := by simpa only [Prod.mk.injEq] using h
        exact ⟨rfl, by simp⟩

/-! ### The outbox -/

/-- Where one `send_frame` call stands. -/
inductive SendPc where
  | idle
  /-- Past the ceiling check; the lock is still to be taken. -/
  | entering (c : SendCall)
  /-- Waiting on `not_full`. -/
  | waiting (c : SendCall)
  /-- Writing inline, without the lock. -/
  | writing (c : SendCall) (w : WriteSome)
  /-- The inline write returned; the lock is still to be taken. -/
  | wrote (c : SendCall) (p : FrameProgress) (o : WriteOutcome)

/-- Where the writer thread stands. -/
inductive WriterPc where
  /-- About to take the lock, or waiting on `not_empty`. -/
  | looking
  /-- Inside a `write_some` pass that began at `before` bytes. -/
  | writing (w : WriteSome) (before lastProgress : Nat)
  | wrote (p : FrameProgress) (result : Except String Unit)
  | exited

/-- The shared state under the lock, every party's own state, and what
happened so far: the bytes the socket took, the frames in the order in which
they took the token or a place in the queue, and the returns. -/
structure Outbox where
  queue : List OutFrame
  bytes : Nat
  dead : Option String
  producers : Nat
  writing : Bool
  producer : Nat → SendPc
  writer : WriterPc
  sent : List UInt8
  accepted : List OutMsg
  returned : List (Nat × OutMsg × Except SendError Unit)

namespace Outbox

open Function (update)

def spawn : Outbox where
  queue := []
  bytes := 0
  dead := none
  producers := 1
  writing := false
  producer _ := .idle
  writer := .looking
  sent := []
  accepted := []
  returned := []

/-- Mark the outbox dead; the first reason wins. -/
def kill (s : Outbox) (reason : String) : Outbox := { s with dead := s.dead.or (some reason) }

def setProducer (s : Outbox) (p : Nat) (pc : SendPc) : Outbox :=
  { s with producer := update s.producer p pc }

/-- The call of `p` returns. -/
def ret (s : Outbox) (p : Nat) (m : OutMsg) (r : Except SendError Unit) : Outbox :=
  { s.setProducer p .idle with returned := s.returned ++ [(p, m, r)] }

def inlineProgress (c : SendCall) : FrameProgress :=
  .new (envelope c.payloadLen c.msg.messageType) c.msg.head c.msg.tail

/-- The loop of `send_frame` from its head, under the lock. -/
def enter (s : Outbox) (p : Nat) (c : SendCall) (now : Nat) : Outbox :=
  match s.dead with
  | some reason => s.ret p c.msg (.error (.brokenPipe reason))
  | none =>
    if s.queue.isEmpty && !s.writing then
      { s.setProducer p (.writing c ⟨inlineProgress c, some (now + outboxWriteAttempt), false⟩) with
        writing := true
        accepted := s.accepted ++ [c.msg] }
    else if s.queue.isEmpty || decide (s.bytes + c.msg.len ≤ outboxCapBytes) then
      { s.ret p c.msg (.ok ()) with
        queue := s.queue ++ [.frame c.msg]
        bytes := s.bytes + c.msg.len
        accepted := s.accepted ++ [c.msg] }
    else s.setProducer p (.waiting c)

def queueStalled : String :=
  "outbound queue stalled for 5s — the host stopped draining the connection"

/-- `wait_timeout` returns with the lock held. -/
def wake (s : Outbox) (p : Nat) (c : SendCall) (timedOut : Bool) (now : Nat) : Outbox :=
  if timedOut && s.dead.isNone && !s.queue.isEmpty &&
      decide (outboxCapBytes < s.bytes + c.msg.len) then
    (s.kill queueStalled).ret p c.msg (.error (.timedOut queueStalled))
  else s.enter p c now

/-- One round of the inline write. -/
def attempt (s : Outbox) (p : Nat) (c : SendCall) (w : WriteSome) (now : Nat) (r : WriteResult) :
    Outbox :=
  match w.round now r with
  | (w, put, none) => { s.setProducer p (.writing c w) with sent := s.sent ++ put }
  | (w, put, some o) => { s.setProducer p (.wrote c w.progress o) with sent := s.sent ++ put }

def writeFailed (e : String) : String := "socket write failed: " ++ e

/-- The producer takes the lock again and gives the token back. -/
def conclude (s : Outbox) (p : Nat) (c : SendCall) (q : FrameProgress) (o : WriteOutcome) : Outbox :=
  let s := { s with writing := false }
  match o with
  | .complete => s.ret p c.msg (.ok ())
  | .stopped =>
    { s.ret p c.msg (.ok ()) with
      bytes := s.bytes + q.remainder.length
      queue := .remainder q.remainder :: s.queue }
  | .broken e =>
    (s.kill (writeFailed e)).ret p c.msg (.error (.brokenPipe (writeFailed e)))

/-- The pieces the writer thread writes for a popped unit. -/
def unitProgress : OutFrame → FrameProgress
  | .frame m => .new (envelope ((m.len + 1) % 2 ^ 32) m.messageType) m.head m.tail
  | .remainder bytes => .new [] bytes []

/-- The writer thread under the lock. -/
def look (s : Outbox) (now : Nat) : Outbox :=
  if s.dead.isSome then { s with writer := .exited }
  else if s.writing then s
  else match s.queue with
    | f :: queue =>
      { s with
        queue
        bytes := s.bytes - f.len
        writing := true
        writer := .writing ⟨unitProgress f, none, false⟩ 0 now }
    | [] => if s.producers = 0 then { s with writer := .exited } else s

def noProgress : String :=
  "socket write made no progress for 5s — the host stopped draining the connection"

/-- After a pass that stopped: go on, or give up on a peer that stalls. -/
def retry (p : FrameProgress) (before lastProgress now : Nat) : WriterPc :=
  if before < p.written then .writing ⟨p, none, false⟩ p.written now
  else if outboxStallTimeout ≤ now - lastProgress then .wrote p (.error noProgress)
  else .writing ⟨p, none, false⟩ p.written lastProgress

/-- One round of the writer thread's pass. -/
def writerAttempt (s : Outbox) (w : WriteSome) (before lastProgress now : Nat) (r : WriteResult) :
    Outbox :=
  match w.round now r with
  | (w, put, none) => { s with sent := s.sent ++ put, writer := .writing w before lastProgress }
  | (w, put, some .complete) => { s with sent := s.sent ++ put, writer := .wrote w.progress (.ok ()) }
  | (w, put, some .stopped) =>
    { s with sent := s.sent ++ put, writer := retry w.progress before lastProgress now }
  | (w, put, some (.broken e)) =>
    { s with sent := s.sent ++ put, writer := .wrote w.progress (.error (writeFailed e)) }

/-- The writer thread takes the lock again and gives the token back. -/
def writerConclude (s : Outbox) : Except String Unit → Outbox
  | .ok () => { s with writing := false, writer := .looking }
  | .error reason => { s.kill reason with writing := false, writer := .exited }

end Outbox

/-- One step of one party; the clock and the socket's answers travel in it. -/
inductive OutboxOp where
  | clone
  | dropHandle
  | sendFrame (p : Nat) (m : OutMsg)
  | enter (p now : Nat)
  | wake (p : Nat) (timedOut : Bool) (now : Nat)
  | attempt (p now : Nat) (r : WriteResult)
  | conclude (p : Nat)
  | look (now : Nat)
  | writerAttempt (now : Nat) (r : WriteResult)
  | writerConclude

namespace Outbox

def step (s : Outbox) : OutboxOp → Outbox
  | .clone => { s with producers := s.producers + 1 }
  | .dropHandle => { s with producers := s.producers - 1 }
  | .sendFrame p m =>
    match s.producer p with
    | .idle =>
      match h : payloadLen m with
      | .ok n => s.setProducer p (.entering ⟨m, n, h⟩)
      | .error e => s.ret p m (.error e)
    | _ => s
  | .enter p now =>
    match s.producer p with
    | .entering c => s.enter p c now
    | _ => s
  | .wake p timedOut now =>
    match s.producer p with
    | .waiting c => s.wake p c timedOut now
    | _ => s
  | .attempt p now r =>
    match s.producer p with
    | .writing c w => s.attempt p c w now r
    | _ => s
  | .conclude p =>
    match s.producer p with
    | .wrote c q o => s.conclude p c q o
    | _ => s
  | .look now =>
    match s.writer with
    | .looking => s.look now
    | _ => s
  | .writerAttempt now r =>
    match s.writer with
    | .writing w before lastProgress => s.writerAttempt w before lastProgress now r
    | _ => s
  | .writerConclude =>
    match s.writer with
    | .wrote _ result => s.writerConclude result
    | _ => s

/-! ### The byte stream -/

end Outbox

/-- Who may hold the socket token. -/
inductive Party where
  | writer
  | producer (p : Nat)
  deriving DecidableEq, Repr

/-- The frame the call is writing, if it is. -/
def SendPc.hand : SendPc → Option FrameProgress
  | .writing _ w => some w.progress
  | .wrote _ q _ => some q
  | _ => none

/-- The message of an inline write in progress. -/
def SendPc.inline : SendPc → List OutMsg
  | .writing c _ => [c.msg]
  | .wrote c _ _ => [c.msg]
  | _ => []

def WriterPc.hand : WriterPc → Option FrameProgress
  | .writing w _ _ => some w.progress
  | .wrote q _ => some q
  | _ => none

namespace Outbox

/-- The frame a party has in hand: it holds the token exactly while it has one. -/
def inHand (s : Outbox) : Party → Option FrameProgress
  | .writer => s.writer.hand
  | .producer p => (s.producer p).hand

/-- The encodings of the queued units. -/
def queued (s : Outbox) : List UInt8 := (s.queue.map OutFrame.encode).flatten

/-- The encodings of the accepted frames, in acceptance order. -/
def acceptedBytes (s : Outbox) : List UInt8 := (s.accepted.map OutMsg.encode).flatten

/-- The frames whose `send_frame` returned `Ok`. -/
def sentOk (s : Outbox) : List OutMsg :=
  s.returned.filterMap fun r => match r.2.2 with
    | .ok _ => some r.2.1
    | .error _ => none

/-- What holds of the byte stream, whoever is where. -/
structure Integrity (s : Outbox) : Prop where
  /-- At most one party writes. -/
  exclusive : ∀ q q', (s.inHand q).isSome → (s.inHand q').isSome → q = q'
  /-- The flag says whether one does. -/
  token : s.writing = true ↔ ∃ q, (s.inHand q).isSome
  /-- While a frame is in hand: what was written, its rest and the queue. -/
  inProgress : ∀ q f, s.inHand q = some f →
    s.sent ++ (f.remainder ++ s.queued) = s.acceptedBytes
  /-- Between two frames: what was written and the queue. -/
  between : s.writing = false → s.dead = none → s.sent ++ s.queued = s.acceptedBytes
  /-- Also after a death. -/
  sentPrefix : s.sent <+: s.acceptedBytes
  counter : s.bytes = (s.queue.map OutFrame.len).sum
  /-- Every frame reported as sent was accepted, once for each report. -/
  reported : s.sentOk.Subperm s.accepted
  /-- And no other, once the inline writes are over and none has failed. -/
  reportedAll : s.writing = false → s.dead = none → s.sentOk.Perm s.accepted

/-- The messages of the inline write of the holder `h`. -/
def inlineOf (s : Outbox) : Option Party → List OutMsg
  | some (.producer p) => (s.producer p).inline
  | _ => []

/-- The invariant, with `h` the party that holds the token. -/
structure Held (s : Outbox) (h : Option Party) : Prop where
  token : s.writing = h.isSome
  hands : ∀ q, h ≠ some q → s.inHand q = none
  inProgress : ∀ q, h = some q → ∃ f, s.inHand q = some f ∧
    s.sent ++ (f.remainder ++ s.queued) = s.acceptedBytes
  between : h = none → s.dead = none → s.sent ++ s.queued = s.acceptedBytes
  sentPrefix : s.sent <+: s.acceptedBytes
  counter : s.bytes = (s.queue.map OutFrame.len).sum
  /-- A completed write has nothing left. -/
  complete : ∀ p c f, s.producer p = .wrote c f .complete → f.remainder = []
  writerComplete : ∀ f, s.writer = .wrote f (.ok ()) → f.remainder = []
  /-- The reports, the inline write in progress and the failed one. -/
  reports : ∃ failed, (s.sentOk ++ (s.inlineOf h ++ failed)).Perm s.accepted ∧
    (s.dead = none → failed = [])

theorem Held.integrity {s : Outbox} {h : Option Party} (H : s.Held h) : s.Integrity := by
  have holder : ∀ q, (s.inHand q).isSome → h = some q := by
    intro q hq
    by_contra hne
    rw [H.hands q hne] at hq
    cases hq
  have free : s.writing = false → h = none := by
    intro hw
    rw [H.token] at hw
    simpa using hw
  constructor
  · intro q q' hq hq'
    exact Option.some.inj ((holder q hq).symm.trans (holder q' hq'))
  · rw [H.token]
    constructor
    · intro hs
      obtain ⟨q, hq⟩ := Option.isSome_iff_exists.mp hs
      obtain ⟨f, hf, -⟩ := H.inProgress q hq
      exact ⟨q, by simp [hf]⟩
    · rintro ⟨q, hq⟩
      rw [holder q hq]
      rfl
  · intro q f hf
    obtain ⟨f', hf', hs⟩ := H.inProgress q (holder q (by simp [hf]))
    rw [hf] at hf'
    exact Option.some.inj hf' ▸ hs
  · intro hw hd
    exact H.between (free hw) hd
  · exact H.sentPrefix
  · exact H.counter
  · obtain ⟨failed, hp, -⟩ := H.reports
    exact (List.sublist_append_left _ _).subperm.trans hp.subperm
  · intro hw hd
    obtain ⟨failed, hp, hfailed⟩ := H.reports
    rw [free hw, hfailed hd] at hp
    simpa [inlineOf] using hp

theorem held_spawn : spawn.Held none := by
  have hands : ∀ q, spawn.inHand q = none := by
    rintro (_ | p) <;> rfl
  refine ⟨rfl, fun q _ => hands q, by simp, fun _ _ => rfl, List.prefix_rfl, rfl, ?_, ?_,
    [], by simp [spawn, sentOk, inlineOf], fun _ => rfl⟩
  · intro p c f hf
    cases hf
  · intro f hf
    cases hf

/-! ### One step -/

theorem inHand_setProducer (s : Outbox) (p : Nat) (pc : SendPc) (q : Party) :
    (s.setProducer p pc).inHand q = if q = .producer p then pc.hand else s.inHand q := by
  cases q with
  | writer => simp [inHand, setProducer]
  | producer n =>
    by_cases hn : n = p
    · subst hn
      simp [inHand, setProducer]
    · simp [inHand, setProducer, hn]

theorem Held.holder_ne {s : Outbox} {h : Option Party} {p : Nat} (H : s.Held h)
    (hp : (s.producer p).hand = none) : h ≠ some (.producer p) := by
  intro he
  obtain ⟨f, hf, -⟩ := H.inProgress _ he
  rw [show s.inHand (.producer p) = none from hp] at hf
  cases hf

theorem inlineOf_setProducer {s : Outbox} {h : Option Party} {p : Nat} (pc : SendPc)
    (hne : h ≠ some (.producer p)) : (s.setProducer p pc).inlineOf h = s.inlineOf h := by
  rcases h with _ | _ | n
  · rfl
  · rfl
  · have hn : n ≠ p := fun e => hne (by rw [e])
    simp [inlineOf, setProducer, hn]

/-- A call that has nothing in hand moves to another state with nothing in hand. -/
theorem Held.idle {s : Outbox} {h : Option Party} {p : Nat} (pc : SendPc) (H : s.Held h)
    (hp : (s.producer p).hand = none) (hpc : pc.hand = none) : (s.setProducer p pc).Held h := by
  have hsame : ∀ q, (s.setProducer p pc).inHand q = s.inHand q := by
    intro q
    rw [inHand_setProducer]
    split
    · next hq => rw [hq, hpc]; exact hp.symm
    · rfl
  refine ⟨H.token, ?_, ?_, H.between, H.sentPrefix, H.counter, ?_, H.writerComplete, ?_⟩
  · intro q hq
    rw [hsame]
    exact H.hands q hq
  · intro q hq
    rw [hsame]
    exact H.inProgress q hq
  · intro n c f hn
    by_cases he : n = p
    · subst he
      rw [show (s.setProducer n pc).producer n = pc by simp [setProducer]] at hn
      rw [hn] at hpc
      cases hpc
    · exact H.complete n c f (by simpa [setProducer, he] using hn)
  · rw [inlineOf_setProducer pc (H.holder_ne hp)]
    exact H.reports

theorem sentOk_ret_ok (s : Outbox) (p : Nat) (m : OutMsg) :
    (s.ret p m (.ok ())).sentOk = s.sentOk ++ [m] := by
  simp [sentOk, ret, setProducer]

theorem sentOk_ret_error (s : Outbox) (p : Nat) (m : OutMsg) (e : SendError) :
    (s.ret p m (.error e)).sentOk = s.sentOk := by
  simp [sentOk, ret, setProducer]

/-- A call that has nothing in hand is refused. -/
theorem Held.refused {s : Outbox} {h : Option Party} {p : Nat} {m : OutMsg} {e : SendError}
    (H : s.Held h) (hp : (s.producer p).hand = none) : (s.ret p m (.error e)).Held h := by
  have H' := H.idle .idle hp rfl
  refine ⟨H'.token, H'.hands, H'.inProgress, H'.between, H'.sentPrefix, H'.counter, H'.complete,
    H'.writerComplete, ?_⟩
  rw [sentOk_ret_error]
  exact H'.reports

theorem Held.kill {s : Outbox} {h : Option Party} {reason : String} (H : s.Held h) :
    (s.kill reason).Held h := by
  refine ⟨H.token, H.hands, H.inProgress, ?_, H.sentPrefix, H.counter, H.complete, H.writerComplete,
    ?_⟩
  · intro _ hd
    exact absurd hd (by simp [Outbox.kill])
  · obtain ⟨failed, hperm, -⟩ := H.reports
    exact ⟨failed, hperm, fun hd => absurd hd (by simp [Outbox.kill])⟩

theorem inlineProgress_remainder (c : SendCall) : (inlineProgress c).remainder = c.msg.encode := by
  rw [inlineProgress, FrameProgress.remainder_new, payloadLen_eq c.admitted]
  rfl

/-- Both paths put the same bytes on the wire for a frame. -/
theorem unitProgress_remainder (f : OutFrame) : (unitProgress f).remainder = f.encode := by
  cases f with
  | frame m =>
    rw [unitProgress, FrameProgress.remainder_new, envelope, Wire.u32be_mod]
    rfl
  | remainder bytes => simp [unitProgress, FrameProgress.remainder_new, OutFrame.encode]

/-- A call that has nothing in hand queues its frame behind the others. -/
theorem Held.queue {s : Outbox} {h : Option Party} {p : Nat} {m : OutMsg} (H : s.Held h)
    (hp : (s.producer p).hand = none) (hdead : s.dead = none) :
    Held { s.ret p m (.ok ()) with
      queue := s.queue ++ [.frame m]
      bytes := s.bytes + m.len
      accepted := s.accepted ++ [m] } h := by
  have H' := H.idle .idle hp rfl
  refine ⟨H'.token, H'.hands, ?_, ?_, ?_, ?_, H'.complete, H'.writerComplete, ?_⟩
  · intro q hq
    obtain ⟨f, hf, hs⟩ := H'.inProgress q hq
    refine ⟨f, hf, ?_⟩
    simp only [queued, acceptedBytes, ret, setProducer] at hs ⊢
    simp [← hs, OutFrame.encode]
  · intro hh _
    have hs := H'.between hh hdead
    simp only [queued, acceptedBytes, ret, setProducer] at hs ⊢
    simp [← hs, OutFrame.encode]
  · refine H'.sentPrefix.trans ?_
    simp [acceptedBytes, setProducer]
  · have hc := H'.counter
    simp only [setProducer] at hc
    simp [hc, OutFrame.len]
  · obtain ⟨failed, hperm, hfailed⟩ := H'.reports
    refine ⟨failed, ?_, hfailed⟩
    show ((s.ret p m (.ok ())).sentOk ++ ((s.setProducer p .idle).inlineOf h ++ failed)).Perm
      (s.accepted ++ [m])
    rw [sentOk_ret_ok]
    calc s.sentOk ++ [m] ++ ((s.setProducer p .idle).inlineOf h ++ failed)
        _ = s.sentOk ++ ([m] ++ ((s.setProducer p .idle).inlineOf h ++ failed)) :=
          List.append_assoc _ _ _
        List.Perm _ (s.sentOk ++ (((s.setProducer p .idle).inlineOf h ++ failed) ++ [m])) :=
          List.perm_append_comm.append_left _
        _ = s.sentOk ++ ((s.setProducer p .idle).inlineOf h ++ failed) ++ [m] :=
          (List.append_assoc _ _ _).symm
        List.Perm _ (s.accepted ++ [m]) := hperm.append_right _

/-- The queue is empty and nobody writes: the call takes the token. -/
theorem Held.take {s : Outbox} {p : Nat} {c : SendCall} {deadline : Option Nat} (H : s.Held none)
    (hdead : s.dead = none) (hqueue : s.queue = []) :
    Held { s.setProducer p (.writing c ⟨inlineProgress c, deadline, false⟩) with
      writing := true
      accepted := s.accepted ++ [c.msg] } (some (.producer p)) := by
  have hs := H.between rfl hdead
  refine ⟨rfl, ?_, ?_, by simp, ?_, H.counter, ?_, H.writerComplete, ?_⟩
  · intro q hq
    have hne : q ≠ .producer p := fun e => hq (by rw [e])
    exact (inHand_setProducer s p _ q).trans (by rw [if_neg hne]; exact H.hands q (by simp))
  · intro q hq
    obtain rfl := Option.some.inj hq
    refine ⟨inlineProgress c, ?_, ?_⟩
    · simp [inHand, setProducer, SendPc.hand]
    rw [inlineProgress_remainder]
    simp only [queued, acceptedBytes, setProducer, hqueue] at hs ⊢
    simp [← hs]
  · refine H.sentPrefix.trans ?_
    simp [acceptedBytes]
  · intro n c' f hn
    by_cases he : n = p
    · simp [setProducer, he] at hn
    · exact H.complete n c' f (by simpa [setProducer, he] using hn)
  · obtain ⟨failed, hperm, hfailed⟩ := H.reports
    rw [hfailed hdead] at hperm
    refine ⟨[], ?_, fun _ => rfl⟩
    simp only [inlineOf, List.append_nil] at hperm
    simpa [inlineOf, setProducer, SendPc.inline, sentOk] using hperm.append_right [c.msg]

theorem held_enter {s : Outbox} {h : Option Party} {p : Nat} (c : SendCall) (now : Nat)
    (H : s.Held h) (hp : (s.producer p).hand = none) : ∃ h', (s.enter p c now).Held h' := by
  unfold enter
  split
  · exact ⟨h, H.refused hp⟩
  · next hdead =>
    split
    · next hfree =>
      simp only [Bool.and_eq_true, List.isEmpty_iff, Bool.not_eq_true'] at hfree
      have hh : h = none := by
        have ht := H.token
        rw [hfree.2] at ht
        simpa using ht.symm
      subst hh
      exact ⟨_, H.take hdead hfree.1⟩
    · split
      · exact ⟨h, H.queue hp hdead⟩
      · exact ⟨h, H.idle _ hp rfl⟩

theorem held_wake {s : Outbox} {h : Option Party} {p : Nat} (c : SendCall) (timedOut : Bool)
    (now : Nat) (H : s.Held h) (hp : (s.producer p).hand = none) :
    ∃ h', (s.wake p c timedOut now).Held h' := by
  unfold wake
  split
  · exact ⟨h, H.kill.refused hp⟩
  · exact held_enter c now H hp

/-- The holder writes: what goes out comes off the front of its frame. -/
theorem Held.write {s : Outbox} {p : Nat} {pc : SendPc} {put : List UInt8} {f f' : FrameProgress}
    (H : s.Held (some (.producer p))) (hf : (s.producer p).hand = some f) (hf' : pc.hand = some f')
    (hput : f.remainder = put ++ f'.remainder) (hinline : pc.inline = (s.producer p).inline)
    (hcomplete : ∀ c g, pc = .wrote c g .complete → g.remainder = []) :
    Held { s.setProducer p pc with sent := s.sent ++ put } (some (.producer p)) := by
  obtain ⟨g, hg, hs⟩ := H.inProgress _ rfl
  obtain rfl : f = g := Option.some.inj (hf.symm.trans hg)
  have hs' : s.sent ++ put ++ (f'.remainder ++ s.queued) = s.acceptedBytes := by
    rw [← hs, hput]
    simp
  refine ⟨H.token, ?_, ?_, by simp, ?_, H.counter, ?_, H.writerComplete, ?_⟩
  · intro q hq
    have hne : q ≠ .producer p := fun e => hq (by rw [e])
    exact (inHand_setProducer s p pc q).trans (by rw [if_neg hne]; exact H.hands q hq)
  · intro q hq
    obtain rfl := Option.some.inj hq
    refine ⟨f', ?_, hs'⟩
    simpa [inHand, setProducer] using hf'
  · exact ⟨_, hs'⟩
  · intro n c g hn
    by_cases he : n = p
    · subst he
      exact hcomplete c g (by simpa [setProducer] using hn)
    · exact H.complete n c g (by simpa [setProducer, he] using hn)
  · obtain ⟨failed, hperm, hfailed⟩ := H.reports
    refine ⟨failed, ?_, hfailed⟩
    simpa [inlineOf, setProducer, hinline, sentOk] using hperm

/-- The holder of a party in hand is that party. -/
theorem Held.holder {s : Outbox} {h : Option Party} {q : Party} {f : FrameProgress} (H : s.Held h)
    (hf : s.inHand q = some f) : h = some q := by
  by_contra hne
  rw [H.hands q hne] at hf
  cases hf

theorem held_attempt {s : Outbox} {h : Option Party} {p : Nat} {c : SendCall} {w : WriteSome}
    (now : Nat) (r : WriteResult) (H : s.Held h) (hp : s.producer p = .writing c w) :
    ∃ h', (s.attempt p c w now r).Held h' := by
  have hf : (s.producer p).hand = some w.progress := by rw [hp]; rfl
  obtain rfl := H.holder (q := .producer p) hf
  refine ⟨some (.producer p), ?_⟩
  unfold attempt
  split
  · next w' put hr =>
    refine H.write hf rfl (WriteSome.round_spec hr).1 ?_ ?_
    · rw [hp]; rfl
    · intro c g hc
      cases hc
  · next w' put o hr =>
    refine H.write hf rfl (WriteSome.round_spec hr).1 ?_ ?_
    · rw [hp]; rfl
    · intro c g hc
      injection hc with _ hg ho
      rw [← hg]
      exact (WriteSome.round_spec hr).2 (by rw [ho])

/-- The holder gives the token back, with or without a rest for the queue. -/
theorem Held.giveBack {s : Outbox} {p : Nat} {c : SendCall} {f : FrameProgress} {o : WriteOutcome}
    {queue : List OutFrame} {bytes : Nat} (H : s.Held (some (.producer p)))
    (hp : s.producer p = .wrote c f o)
    (hqueue : (queue.map OutFrame.encode).flatten = f.remainder ++ s.queued)
    (hbytes : bytes = (queue.map OutFrame.len).sum) :
    Held { Outbox.ret { s with writing := false } p c.msg (.ok ()) with bytes, queue } none := by
  obtain ⟨g, hg, hs⟩ := H.inProgress _ rfl
  obtain rfl : f = g := by
    rw [show s.inHand (.producer p) = some f by simp [inHand, hp, SendPc.hand]] at hg
    exact Option.some.inj hg
  refine ⟨rfl, ?_, by simp, ?_, H.sentPrefix, hbytes, ?_, H.writerComplete, ?_⟩
  · intro q _
    refine (inHand_setProducer s p .idle q).trans ?_
    split
    · rfl
    · next hne => exact H.hands q (fun e => hne (Option.some.inj e).symm)
  · intro _ _
    rw [← hqueue] at hs
    exact hs
  · intro n c' g hn
    by_cases he : n = p
    · simp [ret, setProducer, he] at hn
    · exact H.complete n c' g (by simpa [ret, setProducer, he] using hn)
  · obtain ⟨failed, hperm, hfailed⟩ := H.reports
    refine ⟨failed, ?_, hfailed⟩
    have hinline : s.inlineOf (some (.producer p)) = [c.msg] := by
      simp [inlineOf, hp, SendPc.inline]
    rw [hinline] at hperm
    simpa [ret, setProducer, sentOk, inlineOf] using hperm

/-- The holder's write failed: its frame is given up with the connection. -/
theorem Held.giveUp {s : Outbox} {p : Nat} {c : SendCall} {f : FrameProgress} {o : WriteOutcome}
    {reason : String} {e : SendError} (H : s.Held (some (.producer p)))
    (hp : s.producer p = .wrote c f o) :
    Held ((Outbox.kill { s with writing := false } reason).ret p c.msg (.error e)) none := by
  refine ⟨rfl, ?_, by simp, ?_, H.sentPrefix, H.counter, ?_, H.writerComplete, ?_⟩
  · intro q _
    refine (inHand_setProducer s p .idle q).trans ?_
    split
    · rfl
    · next hne => exact H.hands q (fun e => hne (Option.some.inj e).symm)
  · intro _ hd
    exact absurd hd (by simp [ret, setProducer, Outbox.kill])
  · intro n c' g hn
    by_cases he : n = p
    · simp [ret, setProducer, he] at hn
    · exact H.complete n c' g (by simpa [ret, setProducer, Outbox.kill, he] using hn)
  · obtain ⟨failed, hperm, -⟩ := H.reports
    refine ⟨c.msg :: failed, ?_, fun hd => absurd hd (by simp [ret, setProducer, Outbox.kill])⟩
    have hinline : s.inlineOf (some (.producer p)) = [c.msg] := by
      simp [inlineOf, hp, SendPc.inline]
    rw [hinline] at hperm
    simpa [ret, setProducer, Outbox.kill, sentOk, inlineOf] using hperm

theorem held_conclude {s : Outbox} {h : Option Party} {p : Nat} {c : SendCall} {f : FrameProgress}
    {o : WriteOutcome} (H : s.Held h) (hp : s.producer p = .wrote c f o) :
    (s.conclude p c f o).Held none := by
  obtain rfl := H.holder (q := .producer p) (f := f) (by simp [inHand, hp, SendPc.hand])
  cases o with
  | complete => exact H.giveBack hp (by rw [H.complete p c f hp]; rfl) H.counter
  | stopped =>
    refine H.giveBack hp (by simp [queued, OutFrame.encode]) ?_
    simp [H.counter, OutFrame.len, Nat.add_comm]
  | broken e => exact H.giveUp hp

/-! ### The writer thread -/

theorem held_look {s : Outbox} {h : Option Party} (now : Nat) (H : s.Held h)
    (hw : s.writer = .looking) : ∃ h', (s.look now).Held h' := by
  have hne : h ≠ some .writer := by
    intro he
    obtain ⟨f, hf, -⟩ := H.inProgress _ he
    simp [inHand, hw, WriterPc.hand] at hf
  have exits : Held { s with writer := .exited } h := by
    refine ⟨H.token, ?_, ?_, H.between, H.sentPrefix, H.counter, H.complete, ?_, ?_⟩
    · rintro (_ | p) hq
      · rfl
      · exact H.hands (.producer p) hq
    · rintro (_ | p) hq
      · exact absurd hq hne
      · exact H.inProgress (.producer p) hq
    · intro f hf
      cases hf
    · exact H.reports
  unfold look
  split
  · exact ⟨h, exits⟩
  · next hdead =>
    split
    · exact ⟨h, H⟩
    · next hfree =>
      have hh : h = none := by
        have ht := H.token
        rw [Bool.not_eq_true] at hfree
        rw [hfree] at ht
        simpa using ht.symm
      subst hh
      have hdead : s.dead = none := by simpa using hdead
      split
      · next f queue hqueue =>
        refine ⟨some .writer, rfl, ?_, ?_, by simp, H.sentPrefix, ?_, H.complete, ?_, ?_⟩
        · rintro (_ | p) hq
          · exact absurd rfl hq
          · exact H.hands (.producer p) (by simp)
        · intro q hq
          obtain rfl := Option.some.inj hq
          refine ⟨unitProgress f, rfl, ?_⟩
          have hs := H.between rfl hdead
          rw [unitProgress_remainder]
          simpa [queued, acceptedBytes, hqueue] using hs
        · have hc := H.counter
          simp only [hqueue, List.map_cons, List.sum_cons] at hc
          simp only [hc]
          omega
        · intro g hg
          cases hg
        · exact H.reports
      · split
        · exact ⟨none, exits⟩
        · exact ⟨none, H⟩

/-- The writer thread writes. -/
theorem Held.writerWrite {s : Outbox} {pc : WriterPc} {put : List UInt8} {f f' : FrameProgress}
    (H : s.Held (some .writer)) (hf : s.writer.hand = some f) (hf' : pc.hand = some f')
    (hput : f.remainder = put ++ f'.remainder)
    (hcomplete : ∀ g, pc = .wrote g (.ok ()) → g.remainder = []) :
    Held { s with sent := s.sent ++ put, writer := pc } (some .writer) := by
  obtain ⟨g, hg, hs⟩ := H.inProgress _ rfl
  obtain rfl : f = g := Option.some.inj (hf.symm.trans hg)
  have hs' : s.sent ++ put ++ (f'.remainder ++ s.queued) = s.acceptedBytes := by
    rw [← hs, hput]
    simp
  refine ⟨H.token, ?_, ?_, by simp, ⟨_, hs'⟩, H.counter, H.complete, hcomplete, H.reports⟩
  · rintro (_ | p) hq
    · exact absurd rfl hq
    · exact H.hands (.producer p) hq
  · intro q hq
    obtain rfl := Option.some.inj hq
    exact ⟨f', hf', hs'⟩

theorem retry_hand (p : FrameProgress) (before lastProgress now : Nat) :
    (retry p before lastProgress now).hand = some p := by
  unfold retry
  split
  · rfl
  · split <;> rfl

theorem retry_ne_ok (p : FrameProgress) (before lastProgress now : Nat) (g : FrameProgress) :
    retry p before lastProgress now ≠ .wrote g (.ok ()) := by
  unfold retry
  split
  · simp
  · split <;> simp

theorem held_writerAttempt {s : Outbox} {h : Option Party} {w : WriteSome}
    {before lastProgress : Nat} (now : Nat) (r : WriteResult) (H : s.Held h)
    (hw : s.writer = .writing w before lastProgress) :
    (s.writerAttempt w before lastProgress now r).Held (some .writer) := by
  have hf : s.writer.hand = some w.progress := by rw [hw]; rfl
  obtain rfl := H.holder (q := .writer) hf
  unfold writerAttempt
  split
  · next hr => exact H.writerWrite hf rfl (WriteSome.round_spec hr).1 (by simp)
  · next hr =>
    refine H.writerWrite hf rfl (WriteSome.round_spec hr).1 ?_
    intro g hg
    injection hg with hg
    rw [← hg]
    exact (WriteSome.round_spec hr).2 rfl
  · next hr =>
    refine H.writerWrite hf (retry_hand _ _ _ _) (WriteSome.round_spec hr).1 ?_
    intro g hg
    exact absurd hg (retry_ne_ok _ _ _ _ g)
  · next hr => exact H.writerWrite hf rfl (WriteSome.round_spec hr).1 (by simp)

theorem held_writerConclude {s : Outbox} {h : Option Party} {f : FrameProgress}
    {result : Except String Unit} (H : s.Held h) (hw : s.writer = .wrote f result) :
    (s.writerConclude result).Held none := by
  obtain rfl := H.holder (q := .writer) (f := f) (by simp [inHand, hw, WriterPc.hand])
  obtain ⟨g, hg, hs⟩ := H.inProgress _ rfl
  obtain rfl : f = g := by
    rw [show s.inHand .writer = some f by simp [inHand, hw, WriterPc.hand]] at hg
    exact Option.some.inj hg
  have others : ∀ p, s.inHand (.producer p) = none := fun p => H.hands _ (by simp)
  cases result with
  | ok u =>
    refine ⟨rfl, ?_, by simp, ?_, H.sentPrefix, H.counter, H.complete, ?_, H.reports⟩
    · rintro (_ | p) _
      · rfl
      · exact others p
    · intro _ _
      rw [H.writerComplete f hw, List.nil_append] at hs
      exact hs
    · intro g hg
      cases hg
  | error reason =>
    refine ⟨rfl, ?_, by simp, ?_, H.sentPrefix, H.counter, H.complete, ?_, ?_⟩
    · rintro (_ | p) _
      · rfl
      · exact others p
    · intro _ hd
      exact absurd hd (by simp [writerConclude, Outbox.kill])
    · intro g hg
      cases hg
    · obtain ⟨failed, hperm, -⟩ := H.reports
      exact ⟨failed, hperm, fun hd => absurd hd (by simp [writerConclude, Outbox.kill])⟩

/-! ### Every run -/

theorem held_step {s : Outbox} (op : OutboxOp) (H : ∃ h, s.Held h) : ∃ h, (s.step op).Held h := by
  obtain ⟨h, H⟩ := H
  cases op with
  | clone => exact ⟨h, H.token, H.hands, H.inProgress, H.between, H.sentPrefix, H.counter, H.complete,
      H.writerComplete, H.reports⟩
  | dropHandle => exact ⟨h, H.token, H.hands, H.inProgress, H.between, H.sentPrefix, H.counter,
      H.complete, H.writerComplete, H.reports⟩
  | sendFrame p m =>
    simp only [step]
    split
    · next hp =>
      split
      · exact ⟨h, H.idle _ (by rw [hp]; rfl) rfl⟩
      · exact ⟨h, H.refused (by rw [hp]; rfl)⟩
    · exact ⟨h, H⟩
  | enter p now =>
    simp only [step]
    split
    · next hp => exact held_enter _ now H (by rw [hp]; rfl)
    · exact ⟨h, H⟩
  | wake p timedOut now =>
    simp only [step]
    split
    · next hp => exact held_wake _ timedOut now H (by rw [hp]; rfl)
    · exact ⟨h, H⟩
  | attempt p now r =>
    simp only [step]
    split
    · next hp => exact held_attempt now r H hp
    · exact ⟨h, H⟩
  | conclude p =>
    simp only [step]
    split
    · next hp => exact ⟨none, held_conclude H hp⟩
    · exact ⟨h, H⟩
  | look now =>
    simp only [step]
    split
    · next hw => exact held_look now H hw
    · exact ⟨h, H⟩
  | writerAttempt now r =>
    simp only [step]
    split
    · next hw => exact ⟨_, held_writerAttempt now r H hw⟩
    · exact ⟨h, H⟩
  | writerConclude =>
    simp only [step]
    split
    · next hw => exact ⟨none, held_writerConclude H hw⟩
    · exact ⟨h, H⟩

end Outbox

/-- **Byte-stream integrity.**  After every interleaving of producers and the
writer thread, with any answers of the socket and a death at any point, the
bytes written, the rest of the frame in hand and the queue are the accepted
frames in acceptance order; after a death the bytes written are a prefix of
them; one party at most writes; and the byte counter is that of the queue. -/
theorem outbox_integrity (ops : List OutboxOp) :
    (Execution.exec Outbox.step .spawn ops).Integrity := by
  obtain ⟨h, H⟩ := Execution.exec_invariant (I := fun s : Outbox => ∃ h, s.Held h)
    (fun _ op H => Outbox.held_step op H) ⟨none, Outbox.held_spawn⟩ ops
  exact H.integrity

end Iso4
