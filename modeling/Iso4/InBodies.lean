/-
Inbound streamed bodies, byte by byte (`crates/core/src/v8/streams.rs`), and
when a run comes to know them (`crates/core/src/v8/bridge.rs`, `runloop.rs`).

A stream is known to its run from the moment its descriptor is rehydrated.
The descriptors in the answer of a bridge call are rehydrated as the answer is
delivered; those in the arguments of the run's call are rehydrated when the
call is invoked: in the start turn of a prefix run, and of a one-off run only
once its module has settled.  A frame for a stream the run does not know is
dropped.

* `inbound_delivered` — what the guest reads when no frame of a stream is
  delivered while the call that carries it waits for the module;
* `inbound_dropped` — a run that loses a chunk.
-/
import Iso4.Run
import Iso4.Lib.Execution
import Mathlib.Logic.Function.Basic
import Mathlib.Algebra.Ring.Nat
import Mathlib.Tactic.Common

namespace Iso4

/-! ### One stream -/

/-- What a guest read settles to. -/
inductive ReadResult where
  | chunk (data : List UInt8)
  | eof
  | failed (message : String)
  /-- Refused without a look at the stream's data. -/
  | refused (message : String)
  deriving DecidableEq, Repr

/-- The bytes of a read. -/
def ReadResult.bytes : ReadResult → List UInt8
  | .chunk data => data
  | _ => []

/-- The read says that nothing more will come. -/
def ReadResult.isEnd : ReadResult → Prop
  | .eof => True
  | .failed _ => True
  | _ => False

/-- What stream operations do beside changing the stream. -/
inductive InEffect where
  /-- A `StreamPull` to the host. -/
  | grant (credit : Nat)
  /-- A `StreamCancel` to the host. -/
  | cancelHost (reason : String)
  | observed (r : ReadResult)
  deriving DecidableEq, Repr

/-- One inbound streamed body: what the host sent and the sandbox has not read
yet, terminal state, and whether a sandbox read waits for data. -/
structure InBody where
  buffered : List (List UInt8)
  bufferedBytes : Nat
  ended : Option (Except String Unit)
  cancelled : Bool
  pending : Bool

def bodyStreamFailed (message : String) : String := "[iso4] body stream failed: " ++ message

/-- What a read of a drained stream observes. -/
def endResult : Except String Unit → ReadResult
  | .ok () => .eof
  | .error message => .failed (bodyStreamFailed message)

/-- `send_stream_credit`. -/
def sendStreamCredit (credit : Nat) : List InEffect := if credit = 0 then [] else [.grant credit]

namespace InBody

def new : InBody := ⟨[], 0, none, false, false⟩

/-- The bytes the runtime buffers at most: the window and one chunk of slack. -/
def bufferCap : Nat := streamCreditWindowBytes + streamChunkMaxBytes

/-- A `StreamChunk` for the stream; `none` = the credit window is violated. -/
def deliverChunk (s : InBody) (data : List UInt8) : Option (InBody × List InEffect) :=
  if s.cancelled then some (s, [])
  else if s.pending then
    some ({ s with pending := false },
      sendStreamCredit (data.length % 2 ^ 32) ++ [.observed (.chunk data)])
  else if bufferCap < s.bufferedBytes + data.length then none
  else
    some ({ s with buffered := s.buffered ++ [data]
                   bufferedBytes := s.bufferedBytes + data.length }, [])

/-- A `StreamEnd` for the stream. -/
def deliverEnd (s : InBody) (error : Option String) : InBody × List InEffect :=
  let outcome : Except String Unit := match error with
    | none => .ok ()
    | some message => .error message
  let s := { s with ended := some outcome }
  -- A read waiting on an empty buffer observes the end immediately.
  if s.buffered.isEmpty && s.pending then
    ({ s with pending := false }, [.observed (endResult outcome)])
  else (s, [])

/-- `stream_read_callback` on a known stream. -/
def read (s : InBody) : InBody × List InEffect :=
  match s.buffered with
  | data :: rest =>
    ({ s with buffered := rest, bufferedBytes := s.bufferedBytes - data.length },
      sendStreamCredit (data.length % 2 ^ 32) ++ [.observed (.chunk data)])
  | [] =>
    if s.cancelled then (s, [.observed .eof])
    else match s.ended with
      | some outcome => (s, [.observed (endResult outcome)])
      | none =>
        if s.pending then
          (s, [.observed (.refused "[iso4] a read is already pending on this stream")])
        else ({ s with pending := true }, [])

/-- `stream_cancel_callback` on a known stream. -/
def cancel (s : InBody) (reason : String) : InBody × List InEffect :=
  let live := !s.cancelled && s.ended.isNone
  let s' := if live then { s with cancelled := true, buffered := [], bufferedBytes := 0 } else s
  ({ s' with pending := false },
    (if live then [.cancelHost reason] else []) ++ if s.pending then [.observed .eof] else [])

/-- `close_run_streams` on one stream. -/
def close (s : InBody) : List InEffect :=
  if s.ended.isNone && !s.cancelled then [.cancelHost "run ended"] else []

end InBody

/-- The reads among some effects. -/
def observations (effects : List InEffect) : List ReadResult :=
  effects.filterMap fun
    | .observed r => some r
    | _ => none

@[simp] theorem observations_append (es fs : List InEffect) :
    observations (es ++ fs) = observations es ++ observations fs := List.filterMap_append

@[simp] theorem observations_credit (credit : Nat) : observations (sendStreamCredit credit) = [] := by
  unfold sendStreamCredit
  split <;> rfl

/-- The bytes of some reads, in order. -/
def readBytes (reads : List ReadResult) : List UInt8 := (reads.map ReadResult.bytes).flatten

@[simp] theorem readBytes_append (rs ts : List ReadResult) :
    readBytes (rs ++ ts) = readBytes rs ++ readBytes ts := by
  simp [readBytes]

@[simp] theorem readBytes_chunk (data : List UInt8) : readBytes [.chunk data] = data := by
  simp [readBytes, ReadResult.bytes]

theorem readBytes_endResult (outcome : Except String Unit) : readBytes [endResult outcome] = [] := by
  cases outcome <;> simp [readBytes, ReadResult.bytes, endResult]

theorem endResult_isEnd (outcome : Except String Unit) : (endResult outcome).isEnd := by
  cases outcome <;> trivial

namespace InBody

/-- The buffer's own invariant. -/
structure WellKept (s : InBody) : Prop where
  counted : s.bufferedBytes = (s.buffered.map List.length).sum
  /-- A read waits only for data that may still come. -/
  waiting : s.pending = true → s.buffered = [] ∧ s.ended = none ∧ s.cancelled = false
  emptied : s.cancelled = true → s.buffered = []

theorem wellKept_new : new.WellKept := ⟨rfl, by simp [new], fun _ => rfl⟩

theorem WellKept.deliverChunk {s s' : InBody} {data : List UInt8} {effects : List InEffect}
    (h : s.WellKept) (hd : s.deliverChunk data = some (s', effects)) : s'.WellKept := by
  unfold InBody.deliverChunk at hd
  split at hd
  · obtain ⟨rfl, rfl⟩ := by simpa using hd
    exact h
  · next hc =>
    split at hd
    · obtain ⟨rfl, rfl⟩ := by simpa using hd
      exact ⟨h.counted, by simp, h.emptied⟩
    · next hp =>
      split at hd
      · cases hd
      · obtain ⟨rfl, rfl⟩ := by simpa using hd
        refine ⟨by simp [h.counted], ?_, ?_⟩
        · intro hpend
          exact absurd hpend hp
        · intro hcan
          exact absurd hcan hc

theorem WellKept.deliverEnd {s : InBody} (h : s.WellKept) (error : Option String) :
    (s.deliverEnd error).1.WellKept := by
  unfold InBody.deliverEnd
  dsimp only
  split
  · exact ⟨h.counted, by simp, h.emptied⟩
  · next hno =>
    refine ⟨h.counted, ?_, h.emptied⟩
    intro hp
    -- A waiting read has an empty buffer, so it would have been served.
    have hb := (h.waiting hp).1
    exact absurd (show (s.buffered.isEmpty && s.pending) = true by simp [hb, show s.pending = true from hp]) hno

theorem WellKept.read {s : InBody} (h : s.WellKept) : s.read.1.WellKept := by
  unfold InBody.read
  split
  · next data rest hb =>
    refine ⟨?_, ?_, ?_⟩
    · have hc := h.counted
      rw [hb] at hc
      simp only [List.map_cons, List.sum_cons] at hc
      simp only
      omega
    · intro hp
      have := (h.waiting hp).1
      rw [hb] at this
      cases this
    · intro hc
      have := h.emptied hc
      rw [hb] at this
      cases this
  · next hb =>
    split
    · exact h
    · next hc =>
      split
      · exact h
      · next he =>
        split
        · exact h
        · exact ⟨h.counted, fun _ => ⟨hb, he, by simpa using hc⟩, h.emptied⟩

theorem WellKept.cancel {s : InBody} (h : s.WellKept) (reason : String) :
    (s.cancel reason).1.WellKept := by
  unfold InBody.cancel
  dsimp only
  split
  · exact ⟨rfl, by simp, fun _ => rfl⟩
  · exact ⟨h.counted, by simp, h.emptied⟩

/-! ### What the guest reads -/

/-- The stream after the chunks `received` and the guest's `reads`. -/
structure Faithful (s : InBody) (received : List (List UInt8)) (reads : List ReadResult) : Prop
    extends s.WellKept where
  /-- What was received was read or is buffered. -/
  whole : s.cancelled = false → received.flatten = readBytes reads ++ s.buffered.flatten
  readPrefix : readBytes reads <+: received.flatten
  /-- Every end was observed with everything read. -/
  ends : s.cancelled = false → ∀ before r after, reads = before ++ r :: after → r.isEnd →
    readBytes before = received.flatten
  drained : s.cancelled = false → (∃ r ∈ reads, r.isEnd) → s.ended.isSome ∧ s.buffered = []

theorem faithful_new : new.Faithful [] [] :=
  ⟨wellKept_new, fun _ => rfl, List.prefix_rfl, by simp, by simp⟩

/-- One more read at the end of the log. -/
theorem ends_snoc {received : List (List UInt8)} {reads : List ReadResult} {r : ReadResult}
    (h : ∀ before r after, reads = before ++ r :: after → r.isEnd →
      readBytes before = received.flatten)
    (hr : r.isEnd → readBytes reads = received.flatten) :
    ∀ before r' after, reads ++ [r] = before ++ r' :: after → r'.isEnd →
      readBytes before = received.flatten := by
  intro before r' after heq hend
  rcases List.eq_nil_or_concat after with rfl | ⟨after', last, rfl⟩
  · obtain ⟨rfl, hlast⟩ := List.append_inj' heq rfl
    obtain rfl : r = r' := by simpa using hlast
    exact hr hend
  · have heq' : reads ++ [r] = (before ++ r' :: after') ++ [last] := by simpa using heq
    obtain ⟨hreads, -⟩ := List.append_inj' heq' rfl
    exact h before r' after' hreads hend

/-- A read that observes the end of a drained stream. -/
theorem Faithful.observeEnd {s s' : InBody} {received : List (List UInt8)} {reads : List ReadResult}
    {r : ReadResult} (h : s.Faithful received reads) (hk : s'.WellKept)
    (hb : s.buffered = []) (hb' : s'.buffered = []) (hc : s'.cancelled = s.cancelled)
    (hr : readBytes [r] = []) (he : s.cancelled = false → r.isEnd → s'.ended.isSome)
    (hended : s.ended.isSome → s'.ended.isSome) : s'.Faithful received (reads ++ [r]) := by
  refine ⟨hk, ?_, ?_, ?_, ?_⟩
  · intro hcan
    rw [hc] at hcan
    simpa [hr, hb, hb'] using h.whole hcan
  · simpa [hr] using h.readPrefix
  · intro hcan
    rw [hc] at hcan
    refine ends_snoc (h.ends hcan) fun _ => ?_
    simpa [hb] using (h.whole hcan).symm
  · intro hcan
    rw [hc] at hcan
    rintro ⟨r', hr', hend⟩
    refine ⟨?_, hb'⟩
    rcases List.mem_append.mp hr' with hr' | hr'
    · exact hended (h.drained hcan ⟨r', hr', hend⟩).1
    · obtain rfl := List.mem_singleton.mp hr'
      exact he hcan hend

theorem not_chunk_isEnd {r : ReadResult} {data : List UInt8} (h : r = .chunk data) : ¬ r.isEnd := by
  subst h
  exact id

theorem Faithful.deliverChunk {s s' : InBody} {received : List (List UInt8)}
    {reads : List ReadResult} {data : List UInt8} {effects : List InEffect}
    (h : s.Faithful received reads) (hended : s.cancelled = false → s.ended = none)
    (hd : s.deliverChunk data = some (s', effects)) :
    s'.Faithful (received ++ [data]) (reads ++ observations effects) := by
  have hk := h.toWellKept.deliverChunk hd
  -- No end was observed: the host sends nothing after one.
  have noEnd : s.cancelled = false → ¬ ∃ r ∈ reads, r.isEnd := by
    intro hc he
    have := (h.drained hc he).1
    rw [hended hc] at this
    cases this
  have hgrow : (received ++ [data]).flatten = received.flatten ++ data := by simp
  unfold InBody.deliverChunk at hd
  split at hd
  · next hc =>
    obtain ⟨rfl, rfl⟩ := by simpa using hd
    refine ⟨hk, by simp [hc], ?_, by simp [hc], by simp [hc]⟩
    rw [hgrow]
    simpa [observations] using h.readPrefix.trans (List.prefix_append _ _)
  · next hc =>
    have hc : s.cancelled = false := by simpa using hc
    have hwhole := h.whole hc
    split at hd
    · next hp =>
      obtain ⟨rfl, rfl⟩ := Prod.mk.inj (Option.some.inj hd)
      have hb := (h.waiting hp).1
      have hobs : observations (sendStreamCredit (data.length % 2 ^ 32) ++ [.observed (.chunk data)]) =
          [.chunk data] := by
        rw [observations_append, observations_credit]
        rfl
      rw [hb] at hwhole
      simp only [List.flatten_nil, List.append_nil] at hwhole
      rw [hobs]
      refine ⟨hk, ?_, ?_, ?_, ?_⟩
      · intro _
        simp [hwhole, hb]
      · have hall : readBytes (reads ++ [.chunk data]) = (received ++ [data]).flatten := by
          rw [hgrow, readBytes_append, readBytes_chunk, hwhole]
        exact hall ▸ List.prefix_rfl
      · intro _ before r after heq hend
        exfalso
        rcases List.mem_append.mp (heq ▸ List.mem_append_right before List.mem_cons_self) with hr | hr
        · exact noEnd hc ⟨r, hr, hend⟩
        · exact not_chunk_isEnd (List.mem_singleton.mp hr) hend
      · rintro _ ⟨r, hr, hend⟩
        exfalso
        rcases List.mem_append.mp hr with hr | hr
        · exact noEnd hc ⟨r, hr, hend⟩
        · exact not_chunk_isEnd (List.mem_singleton.mp hr) hend
    · split at hd
      · cases hd
      · obtain ⟨rfl, rfl⟩ := by simpa using hd
        rw [show observations [] = [] from rfl, List.append_nil]
        refine ⟨hk, ?_, ?_, ?_, ?_⟩
        · intro _
          simp [hwhole]
        · rw [hgrow]
          exact h.readPrefix.trans (List.prefix_append _ _)
        · intro _ before r after heq hend
          exact absurd ⟨r, heq ▸ List.mem_append_right before List.mem_cons_self, hend⟩ (noEnd hc)
        · intro _ he
          exact absurd he (noEnd hc)

theorem Faithful.deliverEnd {s : InBody} {received : List (List UInt8)} {reads : List ReadResult}
    (h : s.Faithful received reads) (error : Option String) :
    (s.deliverEnd error).1.Faithful received (reads ++ observations (s.deliverEnd error).2) := by
  have hk := h.toWellKept.deliverEnd error
  unfold InBody.deliverEnd at hk ⊢
  dsimp only at hk ⊢
  split
  · next hp =>
    rw [if_pos hp] at hk
    simp only [Bool.and_eq_true, List.isEmpty_iff] at hp
    exact h.observeEnd hk hp.1 hp.1 rfl (readBytes_endResult _) (fun _ _ => rfl) fun _ => rfl
  · next hp =>
    rw [if_neg hp] at hk
    rw [show observations [] = [] from rfl, List.append_nil]
    exact ⟨hk, h.whole, h.readPrefix, h.ends, fun hc he => ⟨rfl, (h.drained hc he).2⟩⟩

theorem Faithful.read {s : InBody} {received : List (List UInt8)} {reads : List ReadResult}
    (h : s.Faithful received reads) :
    s.read.1.Faithful received (reads ++ observations s.read.2) := by
  have hk := h.toWellKept.read
  unfold InBody.read at hk ⊢
  split
  · next data rest hb =>
    rw [hb] at hk
    have hobs : observations (sendStreamCredit (data.length % 2 ^ 32) ++ [.observed (.chunk data)]) =
        [.chunk data] := by
      rw [observations_append, observations_credit]
      rfl
    rw [hobs]
    -- A cancelled stream has nothing buffered.
    have hc : s.cancelled = false := by
      by_contra hc
      have := h.emptied (by simpa using hc)
      rw [hb] at this
      cases this
    have hwhole := h.whole hc
    rw [hb, List.flatten_cons, ← List.append_assoc] at hwhole
    have noEnd : ¬ ∃ r ∈ reads, r.isEnd := by
      intro he
      have := (h.drained hc he).2
      rw [hb] at this
      cases this
    refine ⟨hk, ?_, ?_, ?_, ?_⟩
    · intro _
      simpa using hwhole
    · exact ⟨rest.flatten, by simpa using hwhole.symm⟩
    · intro _
      exact ends_snoc (h.ends hc) fun he => absurd he (not_chunk_isEnd rfl)
    · rintro _ ⟨r, hr, hend⟩
      exfalso
      rcases List.mem_append.mp hr with hr | hr
      · exact noEnd ⟨r, hr, hend⟩
      · exact not_chunk_isEnd (List.mem_singleton.mp hr) hend
  · next hb =>
    split
    · next hc =>
      refine h.observeEnd (r := .eof) h.toWellKept hb hb rfl rfl (fun hcan => ?_) id
      rw [hc] at hcan
      cases hcan
    · next hc =>
      split
      · next outcome he =>
        exact h.observeEnd h.toWellKept hb hb rfl (readBytes_endResult outcome)
          (fun _ _ => by rw [he]; rfl) id
      · next he =>
        split
        · refine h.observeEnd (r := .refused _) h.toWellKept hb hb rfl rfl (fun _ hend => ?_) id
          exact hend.elim
        · next hp =>
          rw [show observations [] = [] from rfl, List.append_nil]
          refine ⟨⟨h.counted, fun _ => ⟨hb, he, ?_⟩, h.emptied⟩, h.whole, h.readPrefix, h.ends, h.drained⟩
          simpa using hc

theorem Faithful.cancel {s : InBody} {received : List (List UInt8)} {reads : List ReadResult}
    (h : s.Faithful received reads) (reason : String) :
    (s.cancel reason).1.Faithful received (reads ++ observations (s.cancel reason).2) := by
  have hk := h.toWellKept.cancel reason
  have hbytes : readBytes (observations (s.cancel reason).2) = [] := by
    unfold InBody.cancel
    dsimp only
    rw [observations_append]
    split <;> split <;> rfl
  have hprefix : readBytes (reads ++ observations (s.cancel reason).2) <+: received.flatten := by
    rw [readBytes_append, hbytes, List.append_nil]
    exact h.readPrefix
  by_cases hover : (!s.cancelled && s.ended.isNone) = true
  · have hcan : (s.cancel reason).1.cancelled = true := by
      unfold InBody.cancel
      simp [hover]
    exact ⟨hk, by simp [hcan], hprefix, by simp [hcan], by simp [hcan]⟩
  · -- A stream that is over already: its buffer stays readable.
    have hp : s.pending = false := by
      by_contra hp
      obtain ⟨-, he, hc⟩ := h.waiting (by simpa using hp)
      exact hover (by simp [he, hc])
    have hs : s.cancel reason = (s, []) := by
      unfold InBody.cancel
      rw [Bool.not_eq_true] at hover
      simp only [hover, hp]
      obtain ⟨buffered, bufferedBytes, ended, cancelled, pending⟩ := s
      obtain rfl : pending = false := hp
      rfl
    rw [hs]
    simpa [observations] using h

end InBody

/-! ### A run and its streams -/

inductive InPhase where
  /-- The run's frame has not arrived. -/
  | idle
  /-- The module is suspended at top level; the arguments of the call, if there
  is one, carry these streams. -/
  | suspended (args : List Nat)
  | running
  | over
  deriving DecidableEq, Repr

/-- The stream frames of the host. -/
inductive InFrame where
  | chunk (id : Nat) (data : List UInt8)
  | ended (id : Nat) (error : Option String)
  deriving DecidableEq, Repr

def InFrame.id : InFrame → Nat
  | .chunk id _ => id
  | .ended id _ => id

/-- The streams of a run; `announced` are the streams whose descriptor arrived
in some frame, `finished` those whose `StreamEnd` did, `received` and `reads`
what arrived for each while the run was alive and what the guest read. -/
structure InRun where
  phase : InPhase
  streams : Nat → Option InBody
  announced : List Nat
  finished : List Nat
  received : Nat → List (List UInt8)
  reads : Nat → List ReadResult
  /-- The frames of streams the run did not know. -/
  dropped : List InFrame

inductive InOp where
  /-- A `Run` or `PrefixRun` frame and its start turn: the streams in the
  arguments of its call, if it has one, and whether the module suspends. -/
  | start (entry : RunEntry) (call : Option (List Nat)) (suspends : Bool)
  | moduleSettles
  /-- The answer of a bridge call, with the streams it carries. -/
  | bridgeResponse (ids : List Nat)
  | deliver (f : InFrame)
  | read (id : Nat)
  | cancel (id : Nat) (reason : String)
  | finish
  deriving DecidableEq, Repr

namespace InRun

open Function (update)

def new : InRun := ⟨.idle, fun _ => none, [], [], fun _ => [], fun _ => [], []⟩

/-- `register_hydrated_stream`, for the descriptors of one value. -/
def hydrate (s : InRun) (ids : List Nat) : InRun :=
  { s with streams := fun id => if id ∈ ids then some .new else s.streams id }

def start (s : InRun) (entry : RunEntry) (call : Option (List Nat)) (suspends : Bool) : InRun :=
  let args := call.getD []
  let s := { s with announced := s.announced ++ args }
  match entry, suspends with
  | .module, true => { s with phase := .suspended args }
  | _, _ => { s.hydrate args with phase := .running }

/-- Store a stream's new state and log what the guest observed. -/
def put (s : InRun) (id : Nat) (st : InBody) (effects : List InEffect) : InRun :=
  { s with
    streams := update s.streams id (some st)
    reads := update s.reads id (s.reads id ++ observations effects) }

/-- `deliver_stream_frame` on an armed table. -/
def deliver (s : InRun) (f : InFrame) : InRun :=
  match f with
  | .chunk id data =>
    match s.streams id with
    | none =>
      { s with dropped := s.dropped ++ [f]
               received := update s.received id (s.received id ++ [data]) }
    | some st =>
      match st.deliverChunk data with
      | some (st, effects) =>
        { s.put id st effects with received := update s.received id (s.received id ++ [data]) }
      -- The run fails: its window was violated.
      | none => { s with phase := .over }
  | .ended id error =>
    let s := { s with finished := id :: s.finished }
    match s.streams id with
    | none => { s with dropped := s.dropped ++ [f] }
    | some st => s.put id (st.deliverEnd error).1 (st.deliverEnd error).2

/-- Guest code acts on a stream it holds. -/
def onStream (s : InRun) (id : Nat) (f : InBody → InBody × List InEffect) : InRun :=
  match s.streams id with
  | none => s
  | some st => s.put id (f st).1 (f st).2

/-- The run is neither still to come nor over. -/
def Alive (s : InRun) : Prop :=
  match s.phase with
  | .suspended _ => True
  | .running => True
  | _ => False

instance (s : InRun) : Decidable s.Alive := by
  unfold Alive
  split <;> infer_instance

def step (s : InRun) : InOp → InRun
  | .start entry call suspends => if s.phase = .idle then s.start entry call suspends else s
  | .moduleSettles =>
    match s.phase with
    | .suspended args => { s.hydrate args with phase := .running }
    | _ => s
  | .bridgeResponse ids =>
    if s.Alive then { s with announced := s.announced ++ ids }.hydrate ids else s
  | .deliver f => if s.Alive then s.deliver f else s
  | .read id => if s.Alive then s.onStream id InBody.read else s
  | .cancel id reason => if s.Alive then s.onStream id (InBody.cancel · reason) else s
  | .finish => { s with phase := .over }

/-- The frames come in an order in which a host sends them: a stream is
announced once, by the frame that carries its descriptor; its own frames
follow, and its end is the last of them. -/
def HostOrder (s : InRun) : InOp → Prop
  | .start _ _ _ => s.phase = .idle
  | .bridgeResponse ids => ∀ id ∈ ids, id ∉ s.announced
  | .deliver f => f.id ∈ s.announced ∧ f.id ∉ s.finished
  | _ => True

instance (s : InRun) (op : InOp) : Decidable (s.HostOrder op) := by
  cases op <;> unfold HostOrder <;> infer_instance

/-- The frame's stream is among the arguments of a call that still waits for
the module. -/
def Waiting (s : InRun) (f : InFrame) : Prop :=
  match s.phase with
  | .suspended args => f.id ∈ args
  | _ => False

instance (s : InRun) (f : InFrame) : Decidable (s.Waiting f) := by
  unfold Waiting
  split <;> infer_instance

/-- No frame arrives for a stream in the arguments of a call that still waits
for the module. -/
def InTime (s : InRun) : InOp → Prop
  | .deliver f => ¬ s.Waiting f
  | _ => True

instance (s : InRun) (op : InOp) : Decidable (s.InTime op) := by
  cases op <;> unfold InTime <;> infer_instance

/-- What the guest got of each stream. -/
structure Delivered (s : InRun) : Prop where
  inOrder : ∀ id, readBytes (s.reads id) <+: (s.received id).flatten
  /-- Unless the guest cancelled the stream. -/
  wholeBeforeEnd : ∀ id st, s.streams id = some st → st.cancelled = false →
    ∀ before r after, s.reads id = before ++ r :: after → r.isEnd →
      readBytes before = (s.received id).flatten
  nothingDropped : s.dropped = []

/-- The invariant of runs in which every frame comes in time. -/
structure Inv (s : InRun) : Prop where
  idle : s.phase = .idle → s.announced = []
  known : s.Alive → ∀ id ∈ s.announced, (s.streams id).isSome ∨
    ∃ args, s.phase = .suspended args ∧ id ∈ args
  later : ∀ args, s.phase = .suspended args → ∀ id ∈ args, id ∈ s.announced ∧ s.streams id = none
  untouched : ∀ id, s.streams id = none → s.received id = [] ∧ s.reads id = []
  announced : ∀ id, (s.streams id).isSome → id ∈ s.announced
  faithful : ∀ id st, s.streams id = some st → st.Faithful (s.received id) (s.reads id)
  finished : ∀ id st, s.streams id = some st → st.ended.isSome → id ∈ s.finished
  nothingDropped : s.dropped = []

theorem Inv.delivered {s : InRun} (h : s.Inv) : s.Delivered := by
  refine ⟨fun id => ?_, fun id st hst hc => (h.faithful id st hst).ends hc, h.nothingDropped⟩
  cases hst : s.streams id with
  | none =>
    rw [(h.untouched id hst).2]
    exact List.nil_prefix
  | some st => exact (h.faithful id st hst).readPrefix

theorem inv_new : new.Inv := by
  refine ⟨fun _ => rfl, ?_, ?_, fun _ _ => ⟨rfl, rfl⟩, ?_, ?_, ?_, rfl⟩
  · intro h
    exact h.elim
  · intro args h
    cases h
  · intro id h
    cases h
  · intro id st h
    cases h
  · intro id st h
    cases h

/-! ### One step -/

/-- Streams nobody has touched become known. -/
theorem Inv.hydrate {s : InRun} (ids : List Nat) (phase : InPhase) (h : s.Inv)
    (hids : ∀ id ∈ ids, s.streams id = none) (hphase : phase ≠ .idle)
    (hannounced : ∀ id ∈ ids, id ∈ s.announced)
    (hknown : ∀ id ∈ s.announced, (s.streams id).isSome ∨ id ∈ ids ∨
      ∃ args, phase = .suspended args ∧ id ∈ args)
    (hlater : ∀ args, phase = .suspended args → ∀ id ∈ args,
      id ∈ s.announced ∧ s.streams id = none ∧ id ∉ ids) :
    Inv { s.hydrate ids with phase } := by
  have hsome : ∀ id st, (s.hydrate ids).streams id = some st →
      s.streams id = some st ∨ (id ∈ ids ∧ st = .new) := by
    intro id st hst
    by_cases hid : id ∈ ids
    · exact .inr ⟨hid, by simpa [InRun.hydrate, hid] using hst.symm⟩
    · exact .inl (by simpa [InRun.hydrate, hid] using hst)
  refine ⟨fun hp => absurd hp hphase, ?_, ?_, ?_, ?_, ?_, ?_, h.nothingDropped⟩
  · intro _ id hid
    rcases hknown id hid with hk | hk | hk
    · by_cases hin : id ∈ ids
      · exact .inl (by simp [InRun.hydrate, hin])
      · exact .inl (by simpa [InRun.hydrate, hin] using hk)
    · exact .inl (by simp [InRun.hydrate, hk])
    · exact .inr hk
  · intro args hp id hid
    obtain ⟨ha, hn, hnot⟩ := hlater args hp id hid
    exact ⟨ha, by simpa [InRun.hydrate, hnot] using hn⟩
  · intro id hn
    by_cases hid : id ∈ ids
    · simp [InRun.hydrate, hid] at hn
    · exact h.untouched id (by simpa [InRun.hydrate, hid] using hn)
  · intro id hs
    by_cases hid : id ∈ ids
    · exact hannounced id hid
    · exact h.announced id (by simpa [InRun.hydrate, hid] using hs)
  · intro id st hst
    rcases hsome id st hst with hst | ⟨hid, rfl⟩
    · exact h.faithful id st hst
    · obtain ⟨hr, hr'⟩ := h.untouched id (hids id hid)
      show InBody.new.Faithful (s.received id) (s.reads id)
      rw [hr, hr']
      exact InBody.faithful_new
  · intro id st hst he
    rcases hsome id st hst with hst | ⟨-, rfl⟩
    · exact h.finished id st hst he
    · cases he

/-- A known stream moves on. -/
theorem Inv.put {s : InRun} {id : Nat} {st st' : InBody} {effects : List InEffect}
    {received : Nat → List (List UInt8)} {finished : List Nat} (h : s.Inv)
    (hst : s.streams id = some st)
    (hf : st'.Faithful (received id) (s.reads id ++ observations effects))
    (hother : ∀ j, j ≠ id → received j = s.received j)
    (hfin : ∀ j ∈ s.finished, j ∈ finished) (hended : st'.ended.isSome → id ∈ finished) :
    Inv { s.put id st' effects with received, finished } := by
  have hnone : ∀ j, (s.put id st' effects).streams j = none ↔ s.streams j = none := by
    intro j
    by_cases hj : j = id
    · subst hj
      simp [InRun.put, hst]
    · simp [InRun.put, hj]
  refine ⟨h.idle, ?_, ?_, ?_, ?_, ?_, ?_, h.nothingDropped⟩
  · intro ha j hj
    rcases h.known ha j hj with hk | hk
    · refine .inl ?_
      rw [Option.isSome_iff_ne_none] at hk ⊢
      exact fun hn => hk ((hnone j).mp hn)
    · exact .inr hk
  · intro args hp j hj
    obtain ⟨ha, hn⟩ := h.later args hp j hj
    exact ⟨ha, (hnone j).mpr hn⟩
  · intro j hn
    have hn' := (hnone j).mp hn
    have hj : j ≠ id := by
      rintro rfl
      rw [hst] at hn'
      cases hn'
    obtain ⟨hr, hr'⟩ := h.untouched j hn'
    exact ⟨(hother j hj).trans hr, by simpa [InRun.put, hj] using hr'⟩
  · intro j hs
    refine h.announced j ?_
    rw [Option.isSome_iff_ne_none] at hs ⊢
    exact fun hn => hs ((hnone j).mpr hn)
  · intro j t ht
    by_cases hj : j = id
    · subst hj
      obtain rfl : st' = t := by simpa [InRun.put] using ht
      simpa [InRun.put] using hf
    · have := h.faithful j t (by simpa [InRun.put, hj] using ht)
      simpa [InRun.put, hj, hother j hj] using this
  · intro j t ht he
    by_cases hj : j = id
    · subst hj
      obtain rfl : st' = t := by simpa [InRun.put] using ht
      exact hended he
    · exact hfin j (h.finished j t (by simpa [InRun.put, hj] using ht) he)

theorem Inv.over {s : InRun} (h : s.Inv) : Inv { s with phase := .over } :=
  ⟨by simp, fun ha => ha.elim, by simp, h.untouched, h.announced, h.faithful, h.finished,
    h.nothingDropped⟩

/-- A frame in order and in time finds its stream. -/
theorem Inv.finds {s : InRun} {f : InFrame} (h : s.Inv) (ha : s.Alive)
    (ho : f.id ∈ s.announced) (ht : ¬ s.Waiting f) : ∃ st, s.streams f.id = some st := by
  rcases h.known ha f.id ho with hk | ⟨args, hp, hin⟩
  · exact Option.isSome_iff_exists.mp hk
  · refine absurd ?_ ht
    unfold Waiting
    rw [hp]
    exact hin

theorem inv_deliver {s : InRun} {f : InFrame} (h : s.Inv) (ha : s.Alive)
    (ho : f.id ∈ s.announced ∧ f.id ∉ s.finished) (ht : ¬ s.Waiting f) : (s.deliver f).Inv := by
  obtain ⟨st, hst⟩ := h.finds ha ho.1 ht
  have hf := h.faithful _ _ hst
  have hopen : st.ended = none := by
    by_contra he
    exact ho.2 (h.finished _ _ hst (Option.isSome_iff_ne_none.mpr he))
  cases f with
  | chunk id data =>
    simp only [InFrame.id] at hst hf
    simp only [InRun.deliver, hst]
    split
    · next st' effects hd =>
      refine h.put hst ?_ ?_ (fun _ hj => hj) ?_
      · simpa using hf.deliverChunk (fun _ => hopen) hd
      · intro j hj
        simp [hj]
      · intro he
        have hsame : st'.ended = st.ended := by
          unfold InBody.deliverChunk at hd
          split at hd
          · obtain ⟨rfl, -⟩ := by simpa using hd
            rfl
          · split at hd
            · obtain ⟨rfl, -⟩ := by simpa using hd
              rfl
            · split at hd
              · cases hd
              · obtain ⟨rfl, -⟩ := by simpa using hd
                rfl
        rw [hsame, hopen] at he
        cases he
    · exact h.over
  | ended id error =>
    simp only [InFrame.id] at hst hf
    simp only [InRun.deliver, hst]
    exact h.put hst (hf.deliverEnd error) (fun _ _ => rfl) (fun _ hj => List.mem_cons_of_mem _ hj)
      fun _ => List.mem_cons_self

theorem inv_onStream {s : InRun} {id : Nat} {f : InBody → InBody × List InEffect} (h : s.Inv)
    (hf : ∀ {st : InBody} {received : List (List UInt8)} {reads : List ReadResult},
      st.Faithful received reads → (f st).1.Faithful received (reads ++ observations (f st).2))
    (hended : ∀ st, (f st).1.ended = st.ended) : (s.onStream id f).Inv := by
  unfold onStream
  split
  · exact h
  · next st hst =>
    refine h.put hst (hf (h.faithful _ _ hst)) (fun _ _ => rfl) (fun _ hj => hj) ?_
    intro he
    rw [hended] at he
    exact h.finished _ _ hst he

theorem InBody.ended_read (st : InBody) : st.read.1.ended = st.ended := by
  unfold InBody.read
  split
  · rfl
  · split
    · rfl
    · split
      · rfl
      · split <;> rfl

theorem InBody.ended_cancel (st : InBody) (reason : String) : (st.cancel reason).1.ended = st.ended := by
  unfold InBody.cancel
  dsimp only
  split <;> rfl

theorem inv_start {s : InRun} (entry : RunEntry) (call : Option (List Nat)) (suspends : Bool)
    (h : s.Inv) (hidle : s.phase = .idle) : (s.start entry call suspends).Inv := by
  have hnone : ∀ id, s.streams id = none := by
    intro id
    by_contra hs
    have := h.announced id (Option.isSome_iff_ne_none.mpr hs)
    rw [h.idle hidle] at this
    cases this
  -- The frame announces the streams of the call, which are all there are.
  have h' : Inv { s with phase := .over, announced := s.announced ++ call.getD [] } :=
    ⟨by simp, fun ha => ha.elim, by simp, h.untouched,
      fun id hs => List.mem_append_left _ (h.announced id hs), h.faithful, h.finished,
      h.nothingDropped⟩
  have hargs : ∀ id ∈ s.announced ++ call.getD [], id ∈ call.getD [] := by
    rw [h.idle hidle]
    simp
  unfold start
  dsimp only
  split
  · have hh := h'.hydrate [] (.suspended (call.getD [])) (by simp) (by simp) (by simp)
      (fun id hid => .inr (.inr ⟨_, rfl, hargs id hid⟩)) (by
        intro args he id hid
        obtain rfl := InPhase.suspended.inj he
        exact ⟨List.mem_append_right _ hid, hnone id, by simp⟩)
    simpa [hydrate] using hh
  · exact h'.hydrate (call.getD []) .running (fun id _ => hnone id) (by simp)
      (fun id hid => List.mem_append_right _ hid) (fun id hid => .inr (.inl (hargs id hid))) (by simp)

theorem inv_step {s : InRun} {op : InOp} (h : s.Inv) (ho : s.HostOrder op) (ht : s.InTime op) :
    (s.step op).Inv := by
  cases op with
  | start entry call suspends =>
    simp only [step]
    split
    · next hidle => exact inv_start entry call suspends h hidle
    · exact h
  | moduleSettles =>
    simp only [step]
    split
    · next args hp =>
      refine h.hydrate args .running (fun id hid => (h.later args hp id hid).2) (by simp)
        (fun id hid => (h.later args hp id hid).1) ?_ (by simp)
      intro id hid
      rcases h.known (by unfold Alive; rw [hp]; trivial) id hid with hk | ⟨args', hp', hin⟩
      · exact .inl hk
      · rw [hp] at hp'
        exact .inr (.inl (InPhase.suspended.inj hp' ▸ hin))
    · exact h
  | bridgeResponse ids =>
    simp only [step]
    split
    · next ha =>
      have hnone : ∀ id ∈ ids, s.streams id = none := by
        intro id hid
        by_contra hs
        exact ho id hid (h.announced id (Option.isSome_iff_ne_none.mpr hs))
      have h' : Inv { s with phase := .over, announced := s.announced ++ ids } :=
        ⟨by simp, fun hover => hover.elim, by simp, h.untouched,
          fun id hs => List.mem_append_left _ (h.announced id hs), h.faithful, h.finished,
          h.nothingDropped⟩
      refine h'.hydrate ids s.phase hnone ?_ (fun id hid => List.mem_append_right _ hid) ?_ ?_
      · intro hp
        unfold Alive at ha
        rw [hp] at ha
        exact ha
      · intro id hid
        rcases List.mem_append.mp hid with hid | hid
        · rcases h.known ha id hid with hk | hk
          · exact .inl hk
          · exact .inr (.inr hk)
        · exact .inr (.inl hid)
      · intro args hp id hid
        obtain ⟨hann, hn⟩ := h.later args hp id hid
        exact ⟨List.mem_append_left _ hann, hn, fun hin => ho id hin hann⟩
    · exact h
  | deliver f =>
    simp only [step]
    split
    · next ha => exact inv_deliver h ha ho ht
    · exact h
  | read id =>
    simp only [step]
    split
    · exact inv_onStream h (fun hf => hf.read) InBody.ended_read
    · exact h
  | cancel id reason =>
    simp only [step]
    split
    · exact inv_onStream h (fun hf => hf.cancel reason) (InBody.ended_cancel · reason)
    · exact h
  | finish => exact h.over

end InRun

/-- **Inbound streams are delivered.**  In every run whose frames come in an
order in which a host sends them, and in which no frame is delivered for a
stream in the arguments of a call that still waits for the module, the guest
reads each stream in order and whole before it observes its end, and no frame
is dropped. -/
theorem inbound_delivered (ops : List InOp)
    (h : Execution.Along InRun.step (fun s op => s.HostOrder op ∧ s.InTime op) .new ops) :
    (Execution.exec InRun.step .new ops).Delivered :=
  (Execution.Along.invariant (fun _ _ hinv hop => InRun.inv_step hinv hop.1 hop.2) InRun.inv_new
    h).delivered

/-- A one-off run whose call carries stream 1 and is invoked in its start turn. -/
def streamedCall : List InOp :=
  [.start .module (some [1]) false, .deliver (.chunk 1 [104, 105]), .read 1, .read 1,
    .deliver (.ended 1 none)]

theorem inbound_delivered_streamedCall :
    Execution.Along InRun.step (fun s op => s.HostOrder op ∧ s.InTime op) .new streamedCall ∧
    (Execution.exec InRun.step .new streamedCall).Delivered ∧
    (Execution.exec InRun.step .new streamedCall).reads 1 = [.chunk [104, 105], .eof] := by
  have h : Execution.Along InRun.step (fun s op => s.HostOrder op ∧ s.InTime op) .new streamedCall := by
    decide
  exact ⟨h, inbound_delivered _ h, by decide⟩

/-- The same call to a module that suspends at top level: the chunk arrives
before the call is invoked. -/
def streamedCallSuspended : List InOp :=
  [.start .module (some [1]) true, .deliver (.chunk 1 [104, 105]), .moduleSettles, .read 1,
    .deliver (.ended 1 none)]

/-- The chunk is dropped and the guest reads an empty body. -/
theorem inbound_dropped :
    Execution.Along InRun.step InRun.HostOrder .new streamedCallSuspended ∧
    (Execution.exec InRun.step .new streamedCallSuspended).reads 1 = [.eof] ∧
    ¬ (Execution.exec InRun.step .new streamedCallSuspended).Delivered := by
  refine ⟨by decide, by decide, fun h => ?_⟩
  have := h.nothingDropped
  revert this
  decide

end Iso4
