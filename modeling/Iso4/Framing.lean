/-
Frames on the connection: the reader of the host (`FrameReader` and `decodeFrame` of
`packages/iso4-sandbox/src/ipc.ts`) and the reader of the runtime
(`read_frame_with_limit` of `crates/server/src/ipc.rs`).

A frame is a length and that many bytes.  The host keeps the chunks of the socket as
they come; a frame may span several, and so may its length.  The runtime reads from a
source that gives as many bytes at a time as it likes.

* `parseFrames` — the frames in a run of bytes, one after the other;
* `ReaderWorld.step` — the calls on the host's reader;
* `readFrameWithLimit` — one frame of the runtime, over any partial reads.
-/
import Iso4.Lib.Codec
import Iso4.Lib.Execution
import Mathlib.Data.List.Perm.Basic
import Mathlib.Data.List.Range
import Mathlib.Data.List.Nodup

namespace Iso4

open Wire

namespace Framing

structure Frame where
  messageType : UInt8
  payload : List UInt8
  deriving DecidableEq

/-- `DEFAULT_MAX_FRAME_LENGTH`, on both sides. -/
def defaultMaxFrameLength : Nat := 64 * 1024 * 1024

def zeroLength : String := "frame length cannot be zero"

def overlong (length max : Nat) : String :=
  "frame length " ++ toString length ++ " exceeds max frame length " ++ toString max

/-! ### The frames in a run of bytes -/

/-- What stands at the front of some bytes. -/
inductive Front where
  /-- Less than a frame. -/
  | more
  | bad (message : String)
  | frame (f : Frame) (rest : List UInt8)

/-- The first frame. -/
def parseFrame (max : Nat) (bytes : List UInt8) : Front :=
  match bytes with
  | a :: b :: c :: d :: body =>
    if ofU32be a b c d = 0 then .bad zeroLength
    else if max < ofU32be a b c d then .bad (overlong (ofU32be a b c d) max)
    else if body.length < ofU32be a b c d then .more
    else .frame ⟨body.headD 0, (body.take (ofU32be a b c d)).drop 1⟩ (body.drop (ofU32be a b c d))
  | _ => .more

theorem parseFrame_lt {max : Nat} {bytes rest : List UInt8} {f : Frame}
    (h : parseFrame max bytes = .frame f rest) : rest.length < bytes.length := by
  unfold parseFrame at h
  split at h
  · split at h
    · cases h
    · split at h
      · cases h
      · split at h
        · cases h
        · cases h
          simp only [List.length_drop, List.length_cons]
          omega
  · cases h

/-- All of them, up to the first bad length. -/
def parseFrames (max : Nat) (bytes : List UInt8) : List Frame × Option String :=
  match _h : parseFrame max bytes with
  | .more => ([], none)
  | .bad message => ([], some message)
  | .frame f rest => (f :: (parseFrames max rest).1, (parseFrames max rest).2)
termination_by bytes.length
decreasing_by all_goals exact parseFrame_lt _h

/-! ### The reader of the host -/

structure FrameReader where
  /-- The chunks as the socket delivered them, oldest first. -/
  chunks : List (List UInt8)
  buffered : Nat
  /-- The reads that wait, by the order they were asked for. -/
  pendingReads : List Nat
  closedError : Option String

/-- The reader, and the reads its callers asked for. -/
structure ReaderWorld extends FrameReader where
  reads : Nat
  /-- How the reads ended. -/
  settled : List (Nat × Except String Frame)
  /-- The bytes pushed before `close`. -/
  pushed : List UInt8

inductive ReaderOp where
  | push (chunk : List UInt8)
  | readFrame
  | close (error : String)

/-- The loop of `peekLength` over one chunk. -/
def scanLength : Nat → Nat → List UInt8 → Nat × Nat
  | value, seen, [] => (value, seen)
  | value, seen, b :: bs =>
    if seen < 4 then scanLength (value * 256 + b.toNat) (seen + 1) bs else (value, seen)

/-- The loop of `peekLength` over the chunks. -/
def scanChunks : Nat → Nat → List (List UInt8) → Nat
  | value, _, [] => value
  | value, seen, c :: cs =>
    if (scanLength value seen c).2 = 4 then (scanLength value seen c).1
    else scanChunks (scanLength value seen c).1 (scanLength value seen c).2 cs

def peekLength (chunks : List (List UInt8)) : Nat :=
  match chunks with
  | (a :: b :: c :: d :: _) :: _ => ofU32be a b c d
  | _ => scanChunks 0 0 chunks

/-- The loop of `take`; `none` when the chunks run out. -/
def gather : Nat → List (List UInt8) → Option (List UInt8 × List (List UInt8))
  | 0, chunks => some ([], chunks)
  | _ + 1, [] => none
  | n + 1, c :: cs =>
    if c.length ≤ n + 1 then (gather (n + 1 - c.length) cs).map fun p => (c ++ p.1, p.2)
    else some (c.take (n + 1), c.drop (n + 1) :: cs)

def take (n : Nat) (chunks : List (List UInt8)) : Option (List UInt8 × List (List UInt8)) :=
  match chunks with
  | [] => none
  | first :: rest =>
    if first.length = n then some (first, rest)
    else if n < first.length then some (first.take n, first.drop n :: rest)
    else gather n (first :: rest)

def decodeFrame (bytes : List UInt8) (maxFrameLength : Nat) : Except String Frame :=
  match bytes with
  | a :: b :: c :: d :: body =>
    let length := ofU32be a b c d
    if length = 0 then .error zeroLength
    else if maxFrameLength < length then .error (overlong length maxFrameLength)
    else if body.length < length then .error "frame body is truncated"
    else if length < body.length then .error "buffer contains trailing bytes after frame"
    else match body with
      | messageType :: payload => .ok ⟨messageType, payload⟩
      | [] => .error "frame is missing message type"
  | _ => .error "frame is missing 4-byte length prefix"

/-- How `tryReadFrame` ends. -/
inductive TryRead where
  | frame (f : Frame)
  | null
  | thrown (message : String)

namespace ReaderWorld

def new : ReaderWorld where
  chunks := []
  buffered := 0
  pendingReads := []
  closedError := none
  reads := 0
  settled := []
  pushed := []

/-- Settle the read `id`, which is not pending any more. -/
def settle (w : ReaderWorld) (id : Nat) (r : Except String Frame) : ReaderWorld :=
  { w with settled := w.settled ++ [(id, r)] }

/-- `tryReadFrame`, with the `close` it calls. -/
def tryReadWith (close : ReaderWorld → String → ReaderWorld) (w : ReaderWorld) : ReaderWorld × TryRead :=
  if w.buffered < 4 then (w, .null)
  else
    let length := peekLength w.chunks
    if length = 0 then (close w zeroLength, .thrown zeroLength)
    else if defaultMaxFrameLength < length then
      (close w (overlong length defaultMaxFrameLength), .thrown (overlong length defaultMaxFrameLength))
    else if w.buffered < 4 + length then (w, .null)
    else
      match take (4 + length) w.chunks with
      | none => (w, .thrown "TypeError")
      | some (bytes, chunks) =>
        let w := { w with chunks, buffered := w.buffered - (4 + length) }
        match decodeFrame bytes defaultMaxFrameLength with
        | .ok f => (w, .frame f)
        | .error e => (w, .thrown e)

/-- `flushPendingReads`, over the pending reads; what it throws, if it does. -/
def flushWith (close : ReaderWorld → String → ReaderWorld) (w : ReaderWorld) :
    List Nat → ReaderWorld × Option String
  | [] => (w, none)
  | id :: rest =>
    match tryReadWith close w with
    | (w, .null) => (w, none)
    | (w, .thrown e) => (w, some e)
    | (w, .frame f) => flushWith close ({ w with pendingReads := rest }.settle id (.ok f)) rest

def rejectPending (w : ReaderWorld) (error : String) : ReaderWorld :=
  { w with
    pendingReads := []
    settled := w.settled ++ w.pendingReads.map fun id => (id, .error error) }

def close (w : ReaderWorld) (error : String) : ReaderWorld :=
  if w.closedError.isSome then w
  else
    let w := { w with closedError := some error }
    -- Reads of a closed reader that find a bad length call `close` again, which
    -- does nothing; what the drain throws is dropped.
    rejectPending (flushWith (fun w _ => w) w w.pendingReads).1 error

def tryReadFrame (w : ReaderWorld) : ReaderWorld × TryRead := tryReadWith close w

def flushPendingReads (w : ReaderWorld) : ReaderWorld × Option String :=
  flushWith close w w.pendingReads

/-- A chunk that is not empty joins the list. -/
def append (w : ReaderWorld) (chunk : List UInt8) : ReaderWorld :=
  if 0 < chunk.length then
    { w with
      chunks := w.chunks ++ [chunk]
      buffered := w.buffered + chunk.length
      pushed := w.pushed ++ chunk }
  else w

def push (w : ReaderWorld) (chunk : List UInt8) : ReaderWorld :=
  if w.closedError.isSome then w
  else
    match (w.append chunk).flushPendingReads with
    | (w, none) => w
    | (w, some e) => w.close e

/-- A read that fails at once throws or rejects. -/
def readFrame (w : ReaderWorld) : ReaderWorld :=
  let id := w.reads
  match { w with reads := w.reads + 1 }.tryReadFrame with
  | (w, .frame f) => w.settle id (.ok f)
  | (w, .thrown e) => w.settle id (.error e)
  | (w, .null) =>
    match w.closedError with
    | some e => w.settle id (.error e)
    | none => { w with pendingReads := w.pendingReads ++ [id] }

def step (w : ReaderWorld) : ReaderOp → ReaderWorld
  | .push chunk => w.push chunk
  | .readFrame => w.readFrame
  | .close error => w.close error

end ReaderWorld

/-! ### The reader of the runtime -/

/-- How one `read` of the source goes. -/
inductive PartialRead where
  | interrupted
  /-- At most `k + 1` bytes are given. -/
  | upTo (k : Nat)

/-- A source of bytes; once the plan is used up a read gives all it can. -/
structure Source where
  bytes : List UInt8
  plan : List PartialRead

inductive ReadError where
  | connectionClosed
  | truncatedPrefix (got : Nat)
  | truncated (got length : Nat)
  | badLength (message : String)
  deriving DecidableEq

/-- `read_until_eof`: the bytes got, at most `want`, over the plan of the source. -/
def readUntilEof (want : Nat) (bytes : List UInt8) : List PartialRead → List UInt8 × Source
  | [] => (bytes.take want, ⟨bytes.drop want, []⟩)
  | .interrupted :: plan =>
    if want = 0 then ([], ⟨bytes, .interrupted :: plan⟩) else readUntilEof want bytes plan
  | .upTo k :: plan =>
    if want = 0 then ([], ⟨bytes, .upTo k :: plan⟩)
    else if bytes.length = 0 then ([], ⟨[], plan⟩)
    else
      let got := readUntilEof (want - min want (k + 1)) (bytes.drop (min want (k + 1))) plan
      (bytes.take (min want (k + 1)) ++ got.1, got.2)

def readFrameWithLimit (maxFrameLength : Nat) (reader : Source) : Except ReadError (Frame × Source) :=
  match readUntilEof 4 reader.bytes reader.plan with
  | (a :: b :: c :: d :: _, reader) =>
    let length := ofU32be a b c d
    if length = 0 then .error (.badLength zeroLength)
    else if maxFrameLength < length then .error (.badLength (overlong length maxFrameLength))
    else
      match readUntilEof length reader.bytes reader.plan with
      | (buffer, reader) =>
        if buffer.length < length then .error (.truncated buffer.length length)
        else .ok (⟨buffer.headD 0, buffer.drop 1⟩, reader)
  | ([], _) => .error .connectionClosed
  | (got, _) => .error (.truncatedPrefix got.length)

/-- `calls` reads, up to the first that fails. -/
def readFrames (maxFrameLength : Nat) : Nat → Source → List Frame
  | 0, _ => []
  | calls + 1, reader =>
    match readFrameWithLimit maxFrameLength reader with
    | .error _ => []
    | .ok (f, reader) => f :: readFrames maxFrameLength calls reader

end Framing

end Iso4
