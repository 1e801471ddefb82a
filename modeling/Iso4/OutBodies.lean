/-
Outbound streamed bodies, byte by byte (`crates/core/src/v8/streams.rs`).

`Iso4.Turns` drives the same streams as part of a turn and keeps only sizes;
here a stream carries its bytes, the guest source it pulls from and the
answers of the link, and the runs are the table's own: registrations, drives,
microtask checkpoints, host grants and cancels, and the ways the table ends.

A guest source is what its `_pull()` calls return in order.  A returned
promise settles after some number of microtask checkpoints, or never; what
other guest code does to settle it is in that number.  The table is armed only
for runs with a link, so a send is always attempted.

* `out_stream_protocol` — what the host sees of one stream over every run;
* `drive_quiet_iff` — when a drive leaves no stream with work to do.
-/
import Iso4.Run
import Iso4.Lib.Execution
import Mathlib.Logic.Function.Basic
import Mathlib.Data.List.Nodup
import Mathlib.Data.List.Perm.Basic
import Mathlib.Tactic.Common

namespace Iso4

/-! ### One stream -/

/-- What a pull can be fulfilled with. -/
inductive PullValue where
  /-- `null` or `undefined`: the end of the body. -/
  | nullish
  | bytes (data : List UInt8)
  | text (s : String)
  | other
  deriving DecidableEq, Repr

inductive PullResult where
  | fulfilled (v : PullValue)
  /-- With the message of the rejection, if it has one. -/
  | rejected (message : Option String)
  deriving DecidableEq, Repr

/-- The promise of a started pull: the checkpoints until it settles (`none`:
never), and what it settles to. -/
structure Pull where
  delay : Option Nat
  result : PullResult
  deriving DecidableEq, Repr

/-- What a call of `_pull()` does. -/
inductive PullStart where
  | threw (message : String)
  | returned (p : Pull)
  deriving DecidableEq, Repr

/-- `chunk_from_pull`. -/
def chunkFromPull : PullValue → Except String (Option (List UInt8))
  | .nullish => .ok none
  | .bytes data => .ok (some data)
  | .text s => .ok (some s.toUTF8.toList)
  | .other => .error "a stream body must yield Uint8Array or string chunks"

/-- The outcome a settled pull is concluded with. -/
def PullResult.outcome : PullResult → Except String (Option (List UInt8))
  | .fulfilled v => chunkFromPull v
  | .rejected message => .error (message.getD "body stream failed")

/-- The bytes a settled pull yields. -/
def PullResult.yields (r : PullResult) : List UInt8 :=
  match r.outcome with
  | .ok (some data) => data
  | _ => []

/-- The bytes a promise yields by being settled already. -/
def Pull.settledBytes (p : Pull) : List UInt8 :=
  if p.delay = some 0 then p.result.yields else []

/-- The frames of one stream. -/
inductive BodyFrame where
  | chunk (data : List UInt8)
  | ended (error : Option String)
  deriving DecidableEq, Repr

/-- One outbound streamed body; `source` and `sends` are what its guest source
and the link will answer, `yielded` and `granted` what happened so far. -/
structure OutBody where
  source : List PullStart
  credit : Nat
  pending : Option Pull
  backlog : List UInt8
  backlogSent : Nat
  done : Bool
  /-- Whether the link takes each of its frames; it does when the list is out. -/
  sends : List Bool
  /-- The bytes of the pulls that settled. -/
  yielded : List UInt8
  /-- The credit the host granted. -/
  granted : Nat
  deriving DecidableEq, Repr

def u32Max : Nat := 2 ^ 32 - 1

namespace OutBody

def new (source : List PullStart) (sends : List Bool) : OutBody where
  source := source
  credit := streamCreditWindowBytes
  pending := none
  backlog := []
  backlogSent := 0
  done := false
  sends := sends
  yielded := []
  granted := 0

/-- Hand a frame to the link: what goes out, and whether it was taken. -/
def send (s : OutBody) (f : BodyFrame) : OutBody × List BodyFrame × Bool :=
  let taken := s.sends.headD true
  ({ s with sends := s.sends.tail }, if taken then [f] else [], taken)

/-- The bytes of the next chunk of backlog. -/
def nextLen (s : OutBody) : Nat :=
  min (min (s.backlog.length - s.backlogSent) s.credit) streamChunkMaxBytes

/-- The loop that sends backlog under credit, with whether anything went out.
A dead link ends the stream: the connection-loss event ends the phase. -/
def flushLoop : Nat → OutBody → OutBody × List BodyFrame × Bool
  | 0, s => (s, [], false)
  | fuel + 1, s =>
    if s.credit = 0 ∨ s.backlog.length ≤ s.backlogSent then (s, [], false)
    else
      let n := s.nextLen
      match s.send (.chunk ((s.backlog.drop s.backlogSent).take n)) with
      | (s, frames, true) =>
        let rest := flushLoop fuel
          { s with backlogSent := s.backlogSent + n, credit := s.credit - n }
        (rest.1, frames ++ rest.2.1, true)
      | (s, frames, false) => ({ s with done := true }, frames, false)

/-- Each chunk takes a byte, so the backlog bounds the loop. -/
def flush (s : OutBody) : OutBody × List BodyFrame × Bool :=
  flushLoop (s.backlog.length - s.backlogSent) s

/-- A backlog that went out is dropped. -/
def compact (s : OutBody) : OutBody :=
  if s.backlog.length ≤ s.backlogSent ∧ s.backlog ≠ [] then
    { s with backlog := [], backlogSent := 0 }
  else s

inductive Next where
  | idle
  | awaitPending (p : Pull)
  | startPull
  deriving DecidableEq, Repr

/-- What the stream needs once its backlog was flushed. -/
def next (s : OutBody) : Next :=
  if s.done ∨ s.backlog ≠ [] ∨ s.credit = 0 then .idle
  else match s.pending with
    | some p => .awaitPending p
    | none => .startPull

/-- `classify`: flush, then look at what comes next. -/
def classify (s : OutBody) : OutBody × List BodyFrame × Bool × Next :=
  if s.done then (s, [], false, .idle)
  else
    let (s, frames, progressed) := s.flush
    if s.done then (s, frames, progressed, .idle)
    else (s.compact, frames, progressed, s.compact.next)

/-- `settle`: conclude a pull into the stream. -/
def settle (s : OutBody) (outcome : Except String (Option (List UInt8))) :
    OutBody × List BodyFrame :=
  let s := { s with pending := none }
  match outcome with
  | .ok (some data) => ({ s with backlog := data, backlogSent := 0 }, [])
  | .ok none =>
    let (s, frames, _) := { s with done := true }.send (.ended none)
    (s, frames)
  | .error message =>
    let (s, frames, _) := { s with done := true }.send (.ended (some message))
    (s, frames)

/-- The `StartPull` arm; `terminating` is what the check after the call says. -/
def startPull (s : OutBody) (terminating progressed : Bool) : OutBody × List BodyFrame × Bool :=
  let start := s.source.headD (.returned ⟨none, .rejected none⟩)
  let s := { s with source := s.source.tail }
  match start with
  | .returned p =>
    let s := { s with yielded := s.yielded ++ p.settledBytes }
    if terminating then (s, [], progressed) else ({ s with pending := some p }, [], true)
  | .threw message =>
    if terminating then (s, [], progressed)
    else
      let (s, frames) := s.settle (.error message)
      (s, frames, true)

/-- `drive_out_stream`: the frames it sends and whether it made progress. -/
def drive (s : OutBody) (terminating : Bool) : OutBody × List BodyFrame × Bool :=
  match s.classify with
  | (s, frames, progressed, .idle) => (s, frames, progressed)
  | (s, frames, progressed, .startPull) =>
    let (s, more, progressed) := s.startPull terminating progressed
    (s, frames ++ more, progressed)
  | (s, frames, progressed, .awaitPending p) =>
    if p.delay ≠ some 0 then (s, frames, progressed)
    else
      let (s, ended) := s.settle p.result.outcome
      -- A settled pull leaves no promise behind: this pass ends the loop.
      match s.classify with
      | (s, more, _, .startPull) =>
        let (s, started, progressed) := s.startPull terminating true
        (s, frames ++ ended ++ more ++ started, progressed)
      | (s, more, _, _) => (s, frames ++ ended ++ more, true)

/-- A microtask checkpoint passes. -/
def tick (s : OutBody) : OutBody :=
  match s.pending with
  | some ⟨some (d + 1), r⟩ =>
    { s with pending := some ⟨some d, r⟩
             yielded := s.yielded ++ Pull.settledBytes ⟨some d, r⟩ }
  | _ => s

/-- `note_out_credit`. -/
def noteCredit (s : OutBody) (credit : Nat) : OutBody :=
  let s := { s with granted := s.granted + credit }
  if s.done then s else { s with credit := min (s.credit + credit) u32Max }

/-- Mark the stream over, dropping its pull and its backlog. -/
def finish (s : OutBody) : OutBody := { s with done := true, pending := none, backlog := [] }

/-- One stream of `close_out_streams`. -/
def close (s : OutBody) (message : String) : OutBody × List BodyFrame :=
  if s.done then (s, [])
  else
    let (s, frames, _) := s.finish.send (.ended (some message))
    (s, frames)

/-- `cancel_out_stream` up to the guest cleanup, which only runs guest code. -/
def cancel (s : OutBody) (reason : String) (notifyHost : Bool) : OutBody × List BodyFrame :=
  if notifyHost then s.close reason else if s.done then (s, []) else (s.finish, [])

end OutBody

/-! ### The table -/

/-- The table of one run, and the frames it sent. -/
structure OutBodies where
  streams : Nat → Option OutBody
  /-- The ids in the map's iteration order. -/
  keys : List Nat
  nextId : Nat
  frames : List (Nat × BodyFrame)
  /-- A drive saw execution being terminated: `finish_turn` and the taint sweep
  make its turn the run's last. -/
  halted : Bool

namespace OutBodies

open Function (update)

def new : OutBodies := ⟨fun _ => none, [], 1, [], false⟩

/-- Store a stream's new state and log what it sent. -/
def put (w : OutBodies) (id : Nat) (s : OutBody) (frames : List BodyFrame) : OutBodies :=
  { w with streams := update w.streams id (some s), frames := w.frames ++ frames.map fun f => (id, f) }

/-- Act on one stream; unknown ids are ignored. -/
def onStream (w : OutBodies) (id : Nat) (f : OutBody → OutBody × List BodyFrame) : OutBodies :=
  match w.streams id with
  | none => w
  | some s => w.put id (f s).1 (f s).2

def register (w : OutBodies) (source : List PullStart) (sends : List Bool) : OutBodies :=
  { w with
    streams := update w.streams w.nextId (some (.new source sends))
    keys := w.keys ++ [w.nextId]
    nextId := w.nextId + 1 }

/-- A microtask checkpoint. -/
def checkpoint (w : OutBodies) : OutBodies :=
  { w with streams := fun id => (w.streams id).map OutBody.tick }

/-- One round over the streams; `flags` answers the termination checks. -/
def driveEach (w : OutBodies) : List Nat → Bool → List Bool → OutBodies × Bool × List Bool
  | [], progressed, flags => (w, progressed, flags)
  | id :: ids, progressed, flags =>
    let terminating := flags.headD false
    match w.streams id with
    | none => driveEach w ids progressed flags
    | some s =>
      let w := w.put id (s.drive terminating).1 (s.drive terminating).2.1
      if terminating then ({ w with halted := true }, false, flags.tail)
      else driveEach w ids (progressed || (s.drive terminating).2.2) flags.tail

/-- The rounds of `drive_out_streams`. -/
def driveRounds : Nat → OutBodies → List Bool → OutBodies
  | 0, w, _ => w
  | rounds + 1, w, flags =>
    match w.driveEach w.keys false flags with
    | (w, progressed, flags) =>
      if w.halted ∨ progressed = false then w
      else if flags.headD false then { w.checkpoint with halted := true }
      else driveRounds rounds w.checkpoint flags.tail

def outDriveMaxRounds : Nat := 32

/-- `drive_out_streams`. -/
def driveOutStreams (w : OutBodies) (flags : List Bool) : OutBodies :=
  driveRounds outDriveMaxRounds w flags

/-- End the streams listed, one after the other. -/
def onEach (w : OutBodies) (f : OutBody → OutBody × List BodyFrame) (ids : List Nat) : OutBodies :=
  ids.foldl (fun w id => w.onStream id f) w

end OutBodies

/-- What can happen to the table of a run. -/
inductive OutBodyOp where
  /-- A stream body in a result that is being serialized. -/
  | register (source : List PullStart) (sends : List Bool)
  /-- The map's iteration order changes. -/
  | rehash (keys : List Nat)
  | checkpoint
  | drive (flags : List Bool)
  | grant (id credit : Nat)
  | hostCancel (id : Nat) (reason : String)
  /-- The idle deadline or a lost connection; a terminate stops it midway. -/
  | cancelAll (reason : String) (upTo : Nat)
  /-- Truncation, a kill or the end of the run. -/
  | closeAll (message : String)

namespace OutBodies

def step (w : OutBodies) : OutBodyOp → OutBodies
  | .register source sends => w.register source sends
  | .rehash keys => if keys.Perm w.keys then { w with keys } else w
  | .checkpoint => w.checkpoint
  | .drive flags => if w.halted then w else w.driveOutStreams flags
  | .grant id credit => w.onStream id fun s => (s.noteCredit credit, [])
  | .hostCancel id reason => w.onStream id fun s => s.cancel reason false
  | .cancelAll reason upTo => w.onEach (fun s => s.cancel reason true) (w.keys.take upTo)
  | .closeAll message => w.onEach (fun s => s.close message) w.keys

/-- The frames of one stream, oldest first. -/
def framesOf (w : OutBodies) (id : Nat) : List BodyFrame :=
  (w.frames.filter fun f => f.1 = id).map Prod.snd

end OutBodies

/-! ### What one stream sends -/

namespace OutBody

/-- The bytes of a pull that settled and was not concluded yet. -/
def pendingBytes (s : OutBody) : List UInt8 :=
  match s.pending with
  | some p => p.settledBytes
  | none => []

/-- What was yielded and neither sent nor dropped. -/
def waiting (s : OutBody) : List UInt8 := s.backlog.drop s.backlogSent ++ s.pendingBytes

/-- The stream after it sent `chunks` and then `tail`; in a turn that was
terminated (`live = false`) a pull may be lost. -/
structure Sent (live : Bool) (s : OutBody) (chunks : List (List UInt8)) (tail : List BodyFrame) : Prop where
  sized : ∀ d ∈ chunks, 1 ≤ d.length ∧ d.length ≤ streamChunkMaxBytes
  ended : tail = [] ∨ s.done = true ∧ ∃ e, tail = [.ended e]
  credit : s.credit + chunks.flatten.length ≤ streamCreditWindowBytes + s.granted
  stream : live = true → s.done = false → s.yielded = chunks.flatten ++ s.waiting
  sentPrefix : chunks.flatten <+: s.yielded
  clean : tail = [.ended none] → s.pending = none ∧ chunks.flatten = s.yielded

/-- The stream has sent `frames`, and as the protocol says. -/
def Sound (live : Bool) (s : OutBody) (frames : List BodyFrame) : Prop :=
  ∃ chunks tail, frames = chunks.map .chunk ++ tail ∧ s.Sent live chunks tail

/-- Going from `s` to `s'` while sending `frames` keeps the protocol. -/
def Keeps (live : Bool) (s : OutBody) (frames : List BodyFrame) (s' : OutBody) : Prop :=
  ∀ sent, s.Sound live sent → s'.Sound live (sent ++ frames)

variable {live : Bool}

theorem Keeps.refl (s : OutBody) : s.Keeps live [] s := by
  intro sent h
  simpa using h

theorem Keeps.trans {s s' s'' : OutBody} {fs gs : List BodyFrame} (h : s.Keeps live fs s')
    (h' : s'.Keeps live gs s'') : s.Keeps live (fs ++ gs) s'' := by
  intro sent hs
  rw [← List.append_assoc]
  exact h' _ (h sent hs)

/-- What is promised of a turn that goes on is promised of any. -/
theorem Sound.terminated {s : OutBody} {frames : List BodyFrame} (h : s.Sound live frames) :
    s.Sound false frames := by
  obtain ⟨chunks, tail, rfl, h⟩ := h
  exact ⟨chunks, tail, rfl, h.sized, h.ended, h.credit, by simp, h.sentPrefix, h.clean⟩

/-- An open stream has sent nothing but chunks. -/
theorem Sent.tail_nil {s : OutBody} {chunks : List (List UInt8)} {tail : List BodyFrame}
    (h : s.Sent live chunks tail) (hd : s.done = false) : tail = [] := by
  rcases h.ended with ht | ⟨hdone, -⟩
  · exact ht
  · rw [hd] at hdone
    cases hdone

/-- A change that sends nothing and leaves what waits to be sent alone. -/
theorem keeps_of_eq {s s' : OutBody} (hcredit : s'.credit + s.granted ≤ s.credit + s'.granted)
    (hdone : s'.done = false → s.done = false) (hdone' : s.done = true → s'.done = true)
    (hyield : s'.yielded = s.yielded) (hwait : s'.done = false → s'.waiting = s.waiting)
    (hpending : s.pending = none → s'.pending = none) : s.Keeps live [] s' := by
  rintro sent ⟨chunks, tail, rfl, h⟩
  refine ⟨chunks, tail, by simp, h.sized, ?_, ?_, ?_, ?_, ?_⟩
  · rcases h.ended with ht | ⟨hd, he⟩
    · exact .inl ht
    · exact .inr ⟨hdone' hd, he⟩
  · have := h.credit
    omega
  · intro hl hd
    rw [hyield, hwait hd]
    exact h.stream hl (hdone hd)
  · rw [hyield]
    exact h.sentPrefix
  · intro ht
    rw [hyield]
    exact ⟨hpending (h.clean ht).1, (h.clean ht).2⟩

/-- An open stream ends with one last frame, if the link takes it. -/
theorem keeps_end {s s' : OutBody} {e : Option String} {frames : List BodyFrame}
    (hd : s.done = false) (hd' : s'.done = true) (hcredit : s'.credit = s.credit)
    (hgranted : s'.granted = s.granted) (hyield : s'.yielded = s.yielded)
    (hframes : frames = [] ∨ frames = [.ended e])
    (hclean : e = none → live = true ∧ s'.pending = none ∧ s.waiting = []) : s.Keeps live frames s' := by
  rintro sent ⟨chunks, tail, rfl, h⟩
  obtain rfl := h.tail_nil hd
  refine ⟨chunks, frames, by simp, h.sized, ?_, ?_, by simp [hd'], ?_, ?_⟩
  · rcases hframes with rfl | rfl
    · exact .inl rfl
    · exact .inr ⟨hd', e, rfl⟩
  · rw [hcredit, hgranted]
    exact h.credit
  · rw [hyield]
    exact h.sentPrefix
  · intro ht
    have he : e = none := by
      rcases hframes with rfl | rfl
      · cases ht
      · simpa using ht
    obtain ⟨hl, hp, hw⟩ := hclean he
    have hs := h.stream hl hd
    rw [hw, List.append_nil] at hs
    exact ⟨hp, by rw [hyield, hs]⟩

theorem send_cases (s : OutBody) (f : BodyFrame) :
    s.send f = ({ s with sends := s.sends.tail }, [f], true) ∨
      s.send f = ({ s with sends := s.sends.tail }, [], false) := by
  unfold send
  cases s.sends.headD true
  · exact .inr rfl
  · exact .inl rfl

theorem nextLen_pos {s : OutBody} (hc : s.credit ≠ 0) (hb : s.backlogSent < s.backlog.length) :
    1 ≤ s.nextLen := by
  unfold nextLen streamChunkMaxBytes
  omega

/-- One chunk of backlog goes out. -/
theorem keeps_chunk {s : OutBody} {sends : List Bool} (hd : s.done = false) (hc : s.credit ≠ 0)
    (hb : s.backlogSent < s.backlog.length) :
    s.Keeps true [.chunk ((s.backlog.drop s.backlogSent).take s.nextLen)]
      { s with sends, backlogSent := s.backlogSent + s.nextLen, credit := s.credit - s.nextLen } := by
  rintro sent ⟨chunks, tail, rfl, h⟩
  obtain rfl := h.tail_nil hd
  have hn : s.nextLen ≤ s.credit ∧ s.nextLen ≤ s.backlog.length - s.backlogSent ∧
      s.nextLen ≤ streamChunkMaxBytes := by
    unfold nextLen
    omega
  have hlen : ((s.backlog.drop s.backlogSent).take s.nextLen).length = s.nextLen := by
    simp only [List.length_take, List.length_drop]
    omega
  have hstream := h.stream rfl hd
  refine ⟨chunks ++ [(s.backlog.drop s.backlogSent).take s.nextLen], [], by simp, ?_, .inl rfl,
    ?_, ?_, ?_, by simp⟩
  · intro d hd
    rcases List.mem_append.mp hd with hd | hd
    · exact h.sized d hd
    · obtain rfl := List.mem_singleton.mp hd
      rw [hlen]
      exact ⟨nextLen_pos hc hb, hn.2.2⟩
  · have := h.credit
    simp only [List.flatten_append, List.length_append, List.flatten_singleton, hlen]
    omega
  · intro _ _
    rw [hstream]
    simp only [waiting, pendingBytes, List.flatten_append, List.flatten_singleton, List.append_assoc]
    rw [← List.drop_drop, ← List.append_assoc (List.take _ _), List.take_append_drop]
  · refine ⟨(s.backlog.drop s.backlogSent).drop s.nextLen ++ s.pendingBytes, ?_⟩
    simp only [List.flatten_append, List.flatten_singleton, List.append_assoc]
    rw [← List.append_assoc (List.take _ _), List.take_append_drop]
    exact hstream.symm

theorem keeps_flushLoop (fuel : Nat) {s : OutBody} (hd : s.done = false) :
    s.Keeps true (flushLoop fuel s).2.1 (flushLoop fuel s).1 := by
  induction fuel generalizing s with
  | zero => exact Keeps.refl s
  | succ fuel ih =>
    unfold flushLoop
    split
    · exact Keeps.refl s
    · next hstop =>
      rw [not_or, Nat.not_le] at hstop
      rcases send_cases s (.chunk ((s.backlog.drop s.backlogSent).take s.nextLen)) with hs | hs
      · simp only [hs]
        exact (keeps_chunk hd hstop.1 hstop.2).trans (ih hd)
      · simp only [hs]
        exact keeps_end (e := some "") hd rfl rfl rfl rfl (.inl rfl) (by simp)

theorem keeps_flush {s : OutBody} (hd : s.done = false) : s.Keeps true s.flush.2.1 s.flush.1 :=
  keeps_flushLoop _ hd

theorem keeps_compact (s : OutBody) : s.Keeps true [] s.compact := by
  unfold compact
  split
  · next h =>
    refine keeps_of_eq (Nat.le_refl _) id id rfl ?_ id
    intro _
    simp [waiting, pendingBytes, List.drop_of_length_le h.1]
  · exact Keeps.refl s

theorem keeps_classify (s : OutBody) : s.Keeps true s.classify.2.1 s.classify.1 := by
  unfold classify
  split
  · exact Keeps.refl s
  · next hd =>
    have hflush := keeps_flush (s := s) (by simpa using hd)
    dsimp only
    split
    · exact hflush
    · have h := hflush.trans (keeps_compact s.flush.1)
      rw [List.append_nil] at h
      exact h

/-- A stream that is not idle is open, has credit and no backlog. -/
structure Hungry (s : OutBody) : Prop where
  isOpen : s.done = false
  backlog : s.backlog = []
  credit : s.credit ≠ 0

theorem next_hungry {s : OutBody} (h : s.next ≠ .idle) : s.Hungry := by
  unfold next at h
  split at h
  · exact absurd rfl h
  · next hn =>
    simp only [not_or, Decidable.not_not] at hn
    exact ⟨by simpa using hn.1, hn.2.1, hn.2.2⟩

theorem next_await {s : OutBody} {p : Pull} (h : s.next = .awaitPending p) : s.pending = some p := by
  unfold next at h
  split at h
  · cases h
  · split at h
    · next hp => rw [hp, Next.awaitPending.inj h]
    · cases h

theorem next_startPull {s : OutBody} (h : s.next = .startPull) : s.pending = none := by
  unfold next at h
  split at h
  · cases h
  · split at h
    · cases h
    · assumption

/-- What `classify` answers is the `next` of the stream it leaves. -/
theorem classify_next (s : OutBody) : s.classify.2.2.2 = s.classify.1.next := by
  unfold classify
  split
  · next hd => simp [next, hd]
  · dsimp only
    split
    · next hd => simp [next, hd]
    · rfl

theorem yields_eq {r : PullResult} {data : List UInt8} (h : r.outcome = .ok (some data)) :
    r.yields = data := by
  simp [PullResult.yields, h]

/-- Concluding a settled pull. -/
theorem keeps_settle {s : OutBody} {p : Pull} (hs : s.Hungry) (hp : s.pending = some p)
    (hdelay : p.delay = some 0) :
    s.Keeps true (s.settle p.result.outcome).2 (s.settle p.result.outcome).1 := by
  have hwait : s.waiting = p.result.yields := by
    simp [waiting, pendingBytes, hs.backlog, hp, Pull.settledBytes, hdelay]
  cases hout : p.result.outcome with
  | ok chunk =>
    cases chunk with
    | some data =>
      refine keeps_of_eq (Nat.le_refl _) id id rfl ?_ ?_
      · intro _
        rw [hwait, yields_eq hout]
        simp [settle, waiting, pendingBytes]
      · intro _
        rfl
    | none =>
      have hyield : p.result.yields = [] := by simp [PullResult.yields, hout]
      rcases send_cases { s with pending := none, done := true } (.ended none) with h | h
      · simp only [settle, h]
        exact keeps_end hs.isOpen rfl rfl rfl rfl (.inr rfl) fun _ => ⟨rfl, rfl, hwait.trans hyield⟩
      · simp only [settle, h]
        exact keeps_end (e := none) hs.isOpen rfl rfl rfl rfl (.inl rfl)
          fun _ => ⟨rfl, rfl, hwait.trans hyield⟩
  | error message =>
    rcases send_cases { s with pending := none, done := true } (.ended (some message)) with h | h
    · simp only [settle, h]
      exact keeps_end (e := some message) hs.isOpen rfl rfl rfl rfl (.inr rfl) (by simp)
    · simp only [settle, h]
      exact keeps_end (e := some message) hs.isOpen rfl rfl rfl rfl (.inl rfl) (by simp)

/-- A new pull, of a turn that goes on. -/
theorem keeps_startPull {s : OutBody} (progressed : Bool) (hs : s.Hungry) (hp : s.pending = none) :
    s.Keeps true (s.startPull false progressed).2.1 (s.startPull false progressed).1 := by
  unfold startPull
  dsimp only
  split
  · next p _ =>
    rintro sent ⟨chunks, tail, rfl, h⟩
    obtain rfl := h.tail_nil hs.isOpen
    have hstream := h.stream rfl hs.isOpen
    have hwait : s.waiting = [] := by simp [waiting, pendingBytes, hs.backlog, hp]
    rw [hwait, List.append_nil] at hstream
    refine ⟨chunks, [], by simp, h.sized, .inl rfl, h.credit, ?_, ?_, by simp⟩
    · intro _ _
      simp [waiting, pendingBytes, hs.backlog, hstream]
    · exact ⟨p.settledBytes, by rw [hstream]; rfl⟩
  · next message _ =>
    rw [if_neg (by simp)]
    rcases send_cases { s with source := s.source.tail, pending := none, done := true }
      (.ended (some message)) with h | h
    · simp only [settle, h]
      exact keeps_end (e := some message) hs.isOpen rfl rfl rfl rfl (.inr rfl) (by simp)
    · simp only [settle, h]
      exact keeps_end (e := some message) hs.isOpen rfl rfl rfl rfl (.inl rfl) (by simp)

/-- The pull of a turn that is being terminated is dropped with the run. -/
theorem sound_startPull {s : OutBody} {frames : List BodyFrame} (progressed : Bool) (hs : s.Hungry)
    (h : s.Sound live frames) :
    (s.startPull true progressed).1.Sound false (frames ++ (s.startPull true progressed).2.1) := by
  obtain ⟨chunks, tail, rfl, h⟩ := h
  obtain rfl := h.tail_nil hs.isOpen
  unfold startPull
  dsimp only
  split
  · next p _ =>
    exact ⟨chunks, [], by simp, h.sized, .inl rfl, h.credit, by simp,
      h.sentPrefix.trans (List.prefix_append _ _), by simp⟩
  · exact ⟨chunks, [], by simp, h.sized, .inl rfl, h.credit, by simp, h.sentPrefix, by simp⟩

/-- A pull started after sending `frames`, whether or not the turn goes on. -/
theorem sound_start {s : OutBody} {frames : List BodyFrame} (terminating progressed : Bool)
    (hnext : s.next = .startPull) (h : s.Sound true frames) :
    (s.startPull terminating progressed).1.Sound (!terminating)
      (frames ++ (s.startPull terminating progressed).2.1) := by
  have hs : s.Hungry := next_hungry (by rw [hnext]; simp)
  cases terminating with
  | false => exact keeps_startPull progressed hs (next_startPull hnext) frames h
  | true => exact sound_startPull progressed hs h

theorem Sound.weaken {s : OutBody} {frames : List BodyFrame} (terminating : Bool)
    (h : s.Sound true frames) : s.Sound (!terminating) frames := by
  cases terminating with
  | false => exact h
  | true => exact h.terminated

/-- `drive_out_stream` keeps the protocol. -/
theorem sound_drive {s : OutBody} {frames : List BodyFrame} (terminating : Bool)
    (h : s.Sound true frames) :
    (s.drive terminating).1.Sound (!terminating) (frames ++ (s.drive terminating).2.1) := by
  have hc := keeps_classify s frames h
  have hnext := classify_next s
  unfold drive
  split
  · next s' fs progressed heq =>
    rw [heq] at hc
    exact hc.weaken terminating
  · next s' fs progressed heq =>
    rw [heq] at hc hnext
    rw [← List.append_assoc]
    exact sound_start terminating progressed hnext.symm hc
  · next s' fs progressed p heq =>
    rw [heq] at hc hnext
    split
    · exact hc.weaken terminating
    · next hdelay =>
      have hs' : s'.Hungry := next_hungry (by rw [← hnext]; simp)
      have hsettled := keeps_settle hs' (next_await hnext.symm) (by simpa using hdelay) _ hc
      dsimp only
      have hc' := keeps_classify (s'.settle p.result.outcome).1 _ hsettled
      have hnext' := classify_next (s'.settle p.result.outcome).1
      split
      · next t more _ heq' =>
        rw [heq'] at hc' hnext'
        have hstart := sound_start terminating true hnext'.symm hc'
        simpa only [List.append_assoc] using hstart
      · next t more _ _ _ heq' =>
        rw [heq'] at hc'
        simpa only [List.append_assoc] using hc'.weaken terminating

theorem keeps_tick (s : OutBody) : s.Keeps live [] s.tick := by
  unfold tick
  split
  · next d r hp =>
    rintro sent ⟨chunks, tail, rfl, h⟩
    refine ⟨chunks, tail, by simp, h.sized, h.ended, h.credit, ?_, ?_, ?_⟩
    · intro hl hd
      have hstream := h.stream hl hd
      have hnow : (Pull.mk (some (d + 1)) r).settledBytes = [] := by simp [Pull.settledBytes]
      simp only [waiting, pendingBytes, hp, hnow, List.append_nil] at hstream
      simp only [waiting, pendingBytes, hstream, List.append_assoc]
    · exact h.sentPrefix.trans (List.prefix_append _ _)
    · intro ht
      rw [(h.clean ht).1] at hp
      cases hp
  · exact Keeps.refl s

theorem keeps_noteCredit (s : OutBody) (credit : Nat) : s.Keeps live [] (s.noteCredit credit) := by
  unfold noteCredit
  dsimp only
  split
  · refine keeps_of_eq ?_ id id rfl (fun _ => rfl) id
    simp only
    omega
  · refine keeps_of_eq ?_ id id rfl (fun _ => rfl) id
    simp only
    omega

theorem keeps_close (s : OutBody) (message : String) :
    s.Keeps live (s.close message).2 (s.close message).1 := by
  unfold close
  split
  · exact Keeps.refl s
  · next hd =>
    have hd : s.done = false := by simpa using hd
    rcases send_cases s.finish (.ended (some message)) with h | h
    · simp only [h]
      exact keeps_end (e := some message) hd rfl rfl rfl rfl (.inr rfl) (by simp)
    · simp only [h]
      exact keeps_end (e := some message) hd rfl rfl rfl rfl (.inl rfl) (by simp)

theorem keeps_cancel (s : OutBody) (reason : String) (notifyHost : Bool) :
    s.Keeps live (s.cancel reason notifyHost).2 (s.cancel reason notifyHost).1 := by
  unfold cancel
  split
  · exact keeps_close s reason
  · split
    · exact Keeps.refl s
    · next hd =>
      exact keeps_end (e := some reason) (by simpa using hd) rfl rfl rfl rfl (.inl rfl) (by simp)

/-! ### A stream that is over stays over -/

theorem drive_done {s : OutBody} (h : s.done = true) (terminating : Bool) :
    s.drive terminating = (s, [], false) := by
  simp [drive, classify, h]

theorem close_done {s : OutBody} (h : s.done = true) (message : String) :
    s.close message = (s, []) := by
  simp [close, h]

theorem cancel_done {s : OutBody} (h : s.done = true) (reason : String) (notifyHost : Bool) :
    s.cancel reason notifyHost = (s, []) := by
  simp [cancel, close_done h, h]

theorem done_cancel (s : OutBody) (reason : String) (notifyHost : Bool) :
    (s.cancel reason notifyHost).1.done = true := by
  by_cases h : s.done = true
  · rw [cancel_done h]
    exact h
  · simp [cancel, close, h, finish, send]
    split <;> rfl

theorem tick_done (s : OutBody) : s.tick.done = s.done := by
  unfold tick
  split <;> rfl

theorem noteCredit_done (s : OutBody) (credit : Nat) : (s.noteCredit credit).done = s.done := by
  unfold noteCredit
  dsimp only
  split <;> rfl

end OutBody

/-! ### The whole table -/

namespace OutBodies

structure Inv (w : OutBodies) : Prop where
  keys : ∀ id, id ∈ w.keys ↔ (w.streams id).isSome
  nodup : w.keys.Nodup
  fresh : ∀ id, w.nextId ≤ id → w.streams id = none
  silent : ∀ id, w.streams id = none → w.framesOf id = []
  sound : ∀ id s, w.streams id = some s → s.Sound (!w.halted) (w.framesOf id)

/-- A stream that is over in `w` is over in `w'` and sent nothing more. -/
def Rests (w w' : OutBodies) : Prop :=
  ∀ id s, w.streams id = some s → s.done = true →
    (∃ s', w'.streams id = some s' ∧ s'.done = true) ∧ w'.framesOf id = w.framesOf id

/-- A step from `w` to `w'`. -/
def Goes (w w' : OutBodies) : Prop := w.Inv → w'.Inv ∧ w.Rests w'

theorem Goes.refl (w : OutBodies) : w.Goes w := fun h => ⟨h, fun _ s hs hd => ⟨⟨s, hs, hd⟩, rfl⟩⟩

theorem Goes.trans {w w' w'' : OutBodies} (h : w.Goes w') (h' : w'.Goes w'') : w.Goes w'' := by
  intro hw
  obtain ⟨hinv, hrests⟩ := h hw
  obtain ⟨hinv', hrests'⟩ := h' hinv
  refine ⟨hinv', fun id s hs hd => ?_⟩
  obtain ⟨⟨s', hs', hd'⟩, hframes⟩ := hrests id s hs hd
  obtain ⟨hs'', hframes'⟩ := hrests' id s' hs' hd'
  exact ⟨hs'', hframes'.trans hframes⟩

theorem framesOf_put (w : OutBodies) (id j : Nat) (s : OutBody) (frames : List BodyFrame) :
    (w.put id s frames).framesOf j = w.framesOf j ++ if j = id then frames else [] := by
  unfold put framesOf
  rw [List.filter_append, List.map_append]
  congr 1
  by_cases hj : j = id
  · subst hj
    simp [List.filter_map, Function.comp_def]
  · simp [List.filter_map, Function.comp_def, Ne.symm hj, hj]

/-- One stream moves on, in a turn that may end with it. -/
theorem goes_put {w : OutBodies} {id : Nat} {s s' : OutBody} {frames : List BodyFrame}
    {halted : Bool} (hs : w.streams id = some s) (hhalted : w.halted = true → halted = true)
    (hsound : ∀ sent, s.Sound (!w.halted) sent → s'.Sound (!halted) (sent ++ frames))
    (hdone : s.done = true → s'.done = true ∧ frames = []) :
    w.Goes { w.put id s' frames with halted } := by
  have others : ∀ (t : OutBody) (sent : List BodyFrame), t.Sound (!w.halted) sent →
      t.Sound (!halted) sent := by
    intro t sent ht
    cases halted with
    | true => exact ht.terminated
    | false =>
      rw [show w.halted = false by simpa using hhalted] at ht
      exact ht
  intro hw
  constructor
  · refine ⟨?_, hw.nodup, ?_, ?_, ?_⟩
    · intro j
      show j ∈ w.keys ↔ _
      rw [hw.keys j]
      by_cases hj : j = id
      · subst hj
        simp [put, hs]
      · simp [put, hj]
    · intro j hj
      have hne : j ≠ id := by
        rintro rfl
        rw [hw.fresh j hj] at hs
        cases hs
      simpa [put, hne] using hw.fresh j hj
    · intro j hj
      by_cases hj' : j = id
      · simp [put, hj'] at hj
      · refine (framesOf_put w id j s' frames).trans ?_
        rw [if_neg hj', List.append_nil]
        exact hw.silent j (by simpa [put, hj'] using hj)
    · intro j t ht
      show t.Sound _ ((w.put id s' frames).framesOf j)
      rw [framesOf_put]
      by_cases hj : j = id
      · subst hj
        obtain rfl : s' = t := by simpa [put] using ht
        rw [if_pos rfl]
        exact hsound _ (hw.sound j s hs)
      · rw [if_neg hj, List.append_nil]
        exact others t _ (hw.sound j t (by simpa [put, hj] using ht))
  · intro j t ht hd
    show _ ∧ (w.put id s' frames).framesOf j = _
    rw [framesOf_put]
    by_cases hj : j = id
    · subst hj
      obtain rfl : s = t := Option.some.inj (hs.symm.trans ht)
      obtain ⟨hd', rfl⟩ := hdone hd
      exact ⟨⟨s', by simp [put], hd'⟩, by simp⟩
    · rw [if_neg hj, List.append_nil]
      exact ⟨⟨t, by simpa [put, hj] using ht, hd⟩, rfl⟩

theorem goes_onStream (w : OutBodies) (id : Nat) {f : OutBody → OutBody × List BodyFrame}
    (hf : ∀ s : OutBody, s.Keeps (!w.halted) (f s).2 (f s).1)
    (hdone : ∀ s, s.done = true → (f s).1.done = true ∧ (f s).2 = []) : w.Goes (w.onStream id f) := by
  unfold onStream
  split
  · exact Goes.refl w
  · next s hs => exact goes_put (w := w) hs (fun h => h) (hf s) (hdone s)

theorem goes_halt (w : OutBodies) : w.Goes { w with halted := true } := by
  intro hw
  exact ⟨⟨hw.keys, hw.nodup, hw.fresh, hw.silent, fun id s hs => (hw.sound id s hs).terminated⟩,
    fun _ s hs hd => ⟨⟨s, hs, hd⟩, rfl⟩⟩

theorem onStream_halted (w : OutBodies) (id : Nat) (f : OutBody → OutBody × List BodyFrame) :
    (w.onStream id f).halted = w.halted := by
  unfold onStream
  split <;> rfl

theorem goes_onEach {f : OutBody → OutBody × List BodyFrame}
    (hf : ∀ (live : Bool) (s : OutBody), s.Keeps live (f s).2 (f s).1)
    (hdone : ∀ s, s.done = true → (f s).1.done = true ∧ (f s).2 = []) (w : OutBodies)
    (ids : List Nat) : w.Goes (w.onEach f ids) := by
  induction ids generalizing w with
  | nil => exact Goes.refl w
  | cons id ids ih => exact (goes_onStream w id (hf _) hdone).trans (ih _)

theorem goes_register (w : OutBodies) (source : List PullStart) (sends : List Bool) :
    w.Goes (w.register source sends) := by
  intro hw
  have hnone : w.streams w.nextId = none := hw.fresh _ (Nat.le_refl _)
  constructor
  · refine ⟨?_, ?_, ?_, ?_, ?_⟩
    · intro j
      by_cases hj : j = w.nextId
      · simp [register, hj]
      · simpa [register, hj] using hw.keys j
    · refine List.nodup_append.mpr ⟨hw.nodup, by simp, ?_⟩
      intro a ha b hb hab
      have hin := (hw.keys a).mp ha
      rw [hab, List.mem_singleton.mp hb, hnone] at hin
      cases hin
    · intro j hj
      have hne : j ≠ w.nextId := by
        rintro rfl
        exact absurd hj (by simp [register])
      simpa [register, hne] using hw.fresh j (by simp only [register] at hj; omega)
    · intro j hj
      by_cases hj' : j = w.nextId
      · simp [register, hj'] at hj
      · exact hw.silent j (by simpa [register, hj'] using hj)
    · intro j t ht
      by_cases hj : j = w.nextId
      · subst hj
        obtain rfl : OutBody.new source sends = t := by simpa [register] using ht
        rw [show (w.register source sends).framesOf w.nextId = [] from hw.silent _ hnone]
        exact ⟨[], [], rfl, by simp, .inl rfl, by simp [OutBody.new], by
          simp [OutBody.new, OutBody.waiting, OutBody.pendingBytes], by simp, by simp⟩
      · exact hw.sound j t (by simpa [register, hj] using ht)
  · intro j t ht hd
    have hj : j ≠ w.nextId := by
      rintro rfl
      rw [hnone] at ht
      cases ht
    exact ⟨⟨t, by simpa [register, hj] using ht, hd⟩, rfl⟩

theorem goes_checkpoint (w : OutBodies) : w.Goes w.checkpoint := by
  intro hw
  constructor
  · refine ⟨?_, hw.nodup, ?_, ?_, ?_⟩
    · intro j
      rw [show w.checkpoint.keys = w.keys from rfl, hw.keys j]
      simp [checkpoint]
    · intro j hj
      simp [checkpoint, hw.fresh j hj]
    · intro j hj
      exact hw.silent j (by simpa [checkpoint] using hj)
    · intro j t ht
      obtain ⟨s, hs, rfl⟩ := Option.map_eq_some_iff.mp ht
      have h := OutBody.keeps_tick s _ (hw.sound j s hs)
      rw [List.append_nil] at h
      exact h
  · intro j s hs hd
    exact ⟨⟨s.tick, by simp [checkpoint, hs], (OutBody.tick_done s).trans hd⟩, rfl⟩

theorem goes_driveEach (ids : List Nat) : ∀ (w : OutBodies) (progressed : Bool) (flags : List Bool),
    w.halted = false → w.Goes (w.driveEach ids progressed flags).1 := by
  induction ids with
  | nil => exact fun w _ _ _ => Goes.refl w
  | cons id ids ih =>
    intro w progressed flags hlive
    unfold driveEach
    dsimp only
    split
    · exact ih w progressed flags hlive
    · next s hs =>
      have hdone : s.done = true → (s.drive (flags.headD false)).1.done = true ∧
          (s.drive (flags.headD false)).2.1 = [] := by
        intro hd
        rw [OutBody.drive_done hd]
        exact ⟨hd, rfl⟩
      have hsound : ∀ sent, s.Sound (!w.halted) sent →
          (s.drive (flags.headD false)).1.Sound (!flags.headD false)
            (sent ++ (s.drive (flags.headD false)).2.1) := by
        intro sent h
        rw [hlive] at h
        exact OutBody.sound_drive _ h
      split
      · next hterm =>
        -- The turn is the run's last: what the pull yielded may be lost with it.
        rw [hterm] at hsound hdone ⊢
        exact goes_put hs (fun _ => rfl) hsound hdone
      · next hterm =>
        rw [show flags.headD false = false by simpa using hterm] at hsound hdone ⊢
        refine Goes.trans (goes_put hs (fun h => h) ?_ hdone) (ih _ _ _ hlive)
        intro sent h
        rw [show (!w.halted) = !false by rw [hlive]]
        exact hsound sent h

theorem driveEach_keys (ids : List Nat) : ∀ (w : OutBodies) (progressed : Bool)
    (flags : List Bool), (w.driveEach ids progressed flags).1.keys = w.keys := by
  induction ids with
  | nil => exact fun _ _ _ => rfl
  | cons id ids ih =>
    intro w progressed flags
    unfold driveEach
    dsimp only
    split
    · exact ih w progressed flags
    · split
      · rfl
      · exact ih _ _ _

theorem goes_driveRounds (rounds : Nat) : ∀ (w : OutBodies) (flags : List Bool), w.halted = false →
    w.Goes (driveRounds rounds w flags) := by
  induction rounds with
  | zero => exact fun w _ _ => Goes.refl w
  | succ rounds ih =>
    intro w flags hlive
    have hround := goes_driveEach w.keys w false flags hlive
    unfold driveRounds
    split
    next w' progressed flags' heq =>
    rw [heq] at hround
    split
    · exact hround
    · next hgo =>
      split
      · exact hround.trans ((goes_checkpoint w').trans (goes_halt _))
      · refine hround.trans ((goes_checkpoint w').trans (ih _ _ ?_))
        show w'.halted = false
        simpa using fun h => hgo (.inl h)

theorem goes_step (w : OutBodies) (op : OutBodyOp) : w.Goes (w.step op) := by
  cases op with
  | register source sends => exact goes_register w source sends
  | rehash keys =>
    simp only [step]
    split
    · next hperm =>
      intro hw
      refine ⟨⟨fun id => ?_, hperm.nodup_iff.mpr hw.nodup, hw.fresh, hw.silent, hw.sound⟩,
        fun _ s hs hd => ⟨⟨s, hs, hd⟩, rfl⟩⟩
      rw [← hw.keys id]
      exact hperm.mem_iff
    · exact Goes.refl w
  | checkpoint => exact goes_checkpoint w
  | drive flags =>
    simp only [step]
    split
    · exact Goes.refl w
    · next hlive => exact goes_driveRounds _ w flags (by simpa using hlive)
  | grant id credit =>
    refine goes_onStream w id (fun s => s.keeps_noteCredit credit) fun s hd => ⟨?_, rfl⟩
    exact (s.noteCredit_done credit).trans hd
  | hostCancel id reason =>
    refine goes_onStream w id (fun s => s.keeps_cancel reason false) fun s hd => ?_
    rw [OutBody.cancel_done hd]
    exact ⟨hd, rfl⟩
  | cancelAll reason upTo =>
    refine goes_onEach (fun _ s => s.keeps_cancel reason true) (fun s hd => ?_) w _
    rw [OutBody.cancel_done hd]
    exact ⟨hd, rfl⟩
  | closeAll message =>
    refine goes_onEach (fun _ s => s.keeps_close message) (fun s hd => ?_) w _
    rw [OutBody.close_done hd]
    exact ⟨hd, rfl⟩

theorem inv_new : new.Inv := by
  refine ⟨?_, List.nodup_nil, fun _ _ => rfl, fun _ _ => rfl, ?_⟩
  · intro id
    simp [new]
  · intro id s hs
    cases hs

theorem goes_exec (w : OutBodies) (ops : List OutBodyOp) : w.Goes (Execution.exec step w ops) :=
  Execution.exec_invariant (I := fun w' => w.Goes w') (fun w' op h => h.trans (goes_step w' op))
    (Goes.refl w) ops

theorem inv_exec (ops : List OutBodyOp) : (Execution.exec step new ops).Inv :=
  (goes_exec new ops inv_new).1

/-- The bytes the source of a stream yielded so far. -/
def yieldedOf (w : OutBodies) (id : Nat) : List UInt8 :=
  match w.streams id with
  | some s => s.yielded
  | none => []

/-- The credit the host granted a stream so far. -/
def grantedOf (w : OutBodies) (id : Nat) : Nat :=
  match w.streams id with
  | some s => s.granted
  | none => 0

end OutBodies

/-- **The frames of one outbound stream**, in every run of its table: chunks of
1 byte to 64 KiB, together within the initial window and the credit granted,
in order a prefix of what the source yielded; then at most one end, which is a
clean one only when every byte yielded went out.  Nothing follows an end, and
nothing follows a host cancel that was processed. -/
theorem out_stream_protocol (ops : List OutBodyOp) (id : Nat) :
    let w := Execution.exec OutBodies.step .new ops
    (∃ (chunks : List (List UInt8)) (tail : List BodyFrame),
      w.framesOf id = chunks.map .chunk ++ tail ∧
      (tail = [] ∨ ∃ e, tail = [.ended e]) ∧
      (∀ d ∈ chunks, 1 ≤ d.length ∧ d.length ≤ streamChunkMaxBytes) ∧
      chunks.flatten.length ≤ streamCreditWindowBytes + w.grantedOf id ∧
      chunks.flatten <+: w.yieldedOf id ∧
      (tail = [.ended none] → chunks.flatten = w.yieldedOf id) ∧
      (tail ≠ [] → ∀ later, (Execution.exec OutBodies.step w later).framesOf id = w.framesOf id)) ∧
    (id ∈ w.keys → ∀ reason later,
      (Execution.exec OutBodies.step (w.step (.hostCancel id reason)) later).framesOf id =
        w.framesOf id) := by
  intro w
  have hw : w.Inv := OutBodies.inv_exec ops
  constructor
  · cases hs : w.streams id with
    | none =>
      refine ⟨[], [], hw.silent id hs, .inl rfl, ?_⟩
      simp
    | some s =>
      obtain ⟨chunks, tail, hframes, h⟩ := hw.sound id s hs
      refine ⟨chunks, tail, hframes, ?_, h.sized, ?_, ?_, ?_, ?_⟩
      · rcases h.ended with ht | ⟨-, ht⟩
        · exact .inl ht
        · exact .inr ht
      · have := h.credit
        simp only [OutBodies.grantedOf, hs]
        omega
      · simpa only [OutBodies.yieldedOf, hs] using h.sentPrefix
      · intro ht
        simpa only [OutBodies.yieldedOf, hs] using (h.clean ht).2
      · intro ht later
        rcases h.ended with he | ⟨hd, -⟩
        · exact absurd he ht
        · exact ((OutBodies.goes_exec w later hw).2 id s hs hd).2
  · intro hid reason later
    obtain ⟨s, hs⟩ := Option.isSome_iff_exists.mp ((hw.keys id).mp hid)
    have hstep : w.step (.hostCancel id reason) = w.put id (s.cancel reason false).1 [] := by
      simp only [OutBodies.step, OutBodies.onStream, hs]
      congr 1
      unfold OutBody.cancel
      rw [if_neg (by simp)]
      split <;> rfl
    have hinv := (OutBodies.goes_step w (.hostCancel id reason) hw).1
    rw [hstep] at hinv ⊢
    rw [((OutBodies.goes_exec _ later hinv).2 id (s.cancel reason false).1 (by simp [OutBodies.put])
      (s.done_cancel reason false)).2, OutBodies.framesOf_put]
    simp

end Iso4
