/-
Bodies of the sandbox's `Request` and `Response` (`crates/core/src/webtypes.js`):
`bodyInit`, `Iso4BodyStream`, `teeBodyStream`, `drainStream`, `installBody` and the two
`clone` methods, as one machine that takes the guest's calls and the answers of the sources.

* `Bodies.bodyUsed` — `bodyUsed`, read off `_used` and the stream's `_disturbed`;
* `Bodies.consume`, `Bodies.clone` — the body helpers and `clone`;
* `Bodies.hand` — what becomes of a chunk that a stream yields;
* `Bodies.step` — one call, one answer, or one turn of a waiting pull.

A read, a drain and a tee's shared pull are tasks that wait for their stream.  Which of them
goes on next is an input, so a run is any interleaving of them.
-/
import Iso4.Lib.Execution
import Mathlib.Data.List.Basic

namespace Iso4

open Execution

namespace OneShot

/-- A chunk as a source gives it: a `Uint8Array`, by its identity, or a string. -/
inductive Data where
  | bytes (buffer : Nat)
  | text (value : String)
  deriving DecidableEq

/-- The buffers in it. -/
def Data.buffers : Data → List Nat
  | .bytes b => [b]
  | .text _ => []

/-- The chunks are numbered as the sources give them (not in the source). -/
structure Chunk where
  n : Nat
  data : Data
  deriving DecidableEq

/-- `_b`.  A body that is delivered whole carries a number of its own (not in the source). -/
inductive Body where
  | null
  | text (id : Nat) (value : String)
  | buffer (id : Nat) (b : Nat)
  | stream (u : Nat)
  deriving DecidableEq

/-- The class of an instance; of a `Request`, whether `_m` is in `FORBIDDEN_BODY_METHODS`. -/
inductive Kind where
  | request (bodiless : Bool)
  | response
  deriving DecidableEq

structure Instance where
  kind : Kind
  body : Body
  used : Bool
  deriving DecidableEq

/-- Who a stream's chunks go to: the guest that reads `.body`, a helper called on an instance,
or a tee. -/
inductive Consumer where
  | reader
  | helper (i : Nat)
  | tee (t : Nat)
  deriving DecidableEq

/-- `_src`: a host stream's id or an async iterable, or one side of a tee with the queue and the
flag that the tee keeps for that side. -/
inductive StreamSource where
  | host
  | iterable
  | branch (tee : Nat) (queue : List Chunk) (cancelled : Bool)
  deriving DecidableEq

def StreamSource.pushed (c : Chunk) : StreamSource → StreamSource
  | .branch t queue false => .branch t (queue ++ [c]) false
  | src => src

/-- An `Iso4BodyStream`. -/
structure BodyStream where
  src : StreamSource
  locked : Bool
  done : Bool
  disturbed : Bool
  /-- Not in the source: who the stream was given to. -/
  takenBy : Option Consumer
  deriving DecidableEq

def BodyStream.fresh (src : StreamSource) : BodyStream :=
  { src := src, locked := false, done := false, disturbed := false, takenBy := none }

/-- What the closures of `teeBodyStream` share. -/
structure Tee where
  up : Nat
  left : Nat
  right : Nat
  done : Bool
  failed : Bool
  inFlight : Bool
  deriving DecidableEq

def Tee.fresh (up left : Nat) : Tee :=
  { up := up, left := left, right := left + 1, done := false, failed := false, inFlight := false }

inductive Helper where
  | arrayBuffer | bytes | text | json
  deriving DecidableEq

/-- Who waits for a pull: a reader's `read`, a drain with the chunks it has, or the pull that the
two sides of a tee share. -/
inductive Owner where
  | reader
  | drain (i : Nat) (how : Helper) (got : List Chunk)
  | shared (tee : Nat)
  deriving DecidableEq

def Owner.consumer : Owner → Consumer
  | .reader => .reader
  | .drain i _ _ => .helper i
  | .shared t => .tee t

structure Task where
  owner : Owner
  stream : Nat
  deriving DecidableEq

/-- A chunk given to a consumer of a stream (not in the source). -/
structure Hand where
  stream : Nat
  chunk : Chunk
  taker : Consumer
  deriving DecidableEq

/-- The instances and the streams of a guest.  The last five fields are not in the source:
`held` are the buffers the guest's own code has, and the others record. -/
structure Bodies where
  heap : List (List UInt8)
  instances : List Instance
  streams : List BodyStream
  tees : List Tee
  tasks : List Task
  nextBody : Nat
  nextChunk : Nat
  held : List Nat
  /-- Every chunk handed on. -/
  log : List Hand
  /-- Every whole body delivered. -/
  wholes : List Nat
  /-- For each call of a helper or of `clone` that was not refused, `bodyUsed` at the call. -/
  accepted : List Bool
  /-- The two bodies after each `clone` of a body that is not a stream. -/
  twins : List (Body × Body)
  deriving DecidableEq

/-- The argument of a constructor's body. -/
inductive BodyArg where
  | none
  | text (value : String)
  | buffer (b : Nat)
  /-- Another instance's `.body`. -/
  | stream (u : Nat)
  | iterable
  deriving DecidableEq

/-- What a source's pull resolves to.  An iterable may yield a buffer that the guest keeps. -/
inductive Answer where
  | fresh (bytes : List UInt8)
  | held (b : Nat)
  | text (value : String)
  | eof
  | error
  deriving DecidableEq

def Answer.ofHost : Answer → Bool
  | .held _ | .text _ => false
  | _ => true

def Answer.ofIterable (held : List Nat) : Answer → Bool
  | .held b => b ∈ held
  | _ => true

namespace Bodies

def new : Bodies where
  heap := []
  instances := []
  streams := []
  tees := []
  tasks := []
  nextBody := 0
  nextChunk := 0
  held := []
  log := []
  wholes := []
  accepted := []
  twins := []

/-- The bytes of a buffer. -/
def read (s : Bodies) (b : Nat) : List UInt8 := s.heap.getD b []

/-- `this._used === true || (this._b instanceof Iso4BodyStream && this._b._disturbed === true)`. -/
def bodyUsed (s : Bodies) (inst : Instance) : Bool :=
  inst.used ||
    match inst.body with
    | .stream u => (s.streams[u]?.map BodyStream.disturbed).getD false
    | _ => false

/-! ### Construction -/

/-- A new buffer with these bytes. -/
def alloc (s : Bodies) (bytes : List UInt8) : Bodies := { s with heap := s.heap ++ [bytes] }

/-- A result that the guest gets in a buffer of its own. -/
def give (s : Bodies) (bytes : List UInt8) : Bodies :=
  { s.alloc bytes with held := s.held ++ [s.heap.length] }

def push (s : Bodies) (kind : Kind) (body : Body) : Bodies :=
  { s with instances := s.instances ++ [{ kind := kind, body := body, used := false }] }

/-- `bodyInit`, and the instance that is made of its result. -/
def bodyInit (s : Bodies) (kind : Kind) : BodyArg → Bodies
  | .none => s.push kind .null
  | .text value => { s with nextBody := s.nextBody + 1 }.push kind (.text s.nextBody value)
  | .buffer b =>
    -- copied: a later write to the caller's array is not seen
    if b ∈ s.held then
      { s.alloc (s.read b) with nextBody := s.nextBody + 1 }.push kind
        (.buffer s.nextBody s.heap.length)
    else s
  | .stream u => if u < s.streams.length then s.push kind (.stream u) else s
  | .iterable =>
    { s with streams := s.streams ++ [BodyStream.fresh .iterable] }.push kind
      (.stream s.streams.length)

/-- `new Response(body, init)`: a null-body status takes no body. -/
def response (s : Bodies) (nullBodyStatus : Bool) (arg : BodyArg) : Bodies :=
  if nullBodyStatus && arg != .none then s else s.bodyInit .response arg

/-- Whether the method of a new `Request` is one without a body: `init.method`, that of a
`Request` input, or `GET`.  A `Response` is no `Request`, and its string is no URL. -/
def methodOf (input : Option Instance) (method : Option Bool) : Option Bool :=
  match (input.map Instance.kind).getD (.request true) with
  | .response => none
  | .request inherited => some (method.getD inherited)

/-- Without `init.body`, the input's own `_b`. -/
def inheritedBody (input : Option Instance) (bodiless : Bool) : Body :=
  if bodiless then .null else (input.map Instance.body).getD .null

/-- `new Request(input, init)`. -/
def request (s : Bodies) (input : Option Instance) (method : Option Bool) (arg : BodyArg) :
    Bodies :=
  match methodOf input method with
  | none => s
  | some bodiless =>
    if arg = .none then s.push (.request bodiless) (inheritedBody input bodiless)
    else if bodiless then s
    else s.bodyInit (.request bodiless) arg

/-! ### Streams -/

def setStream (s : Bodies) (u : Nat) (f : BodyStream → BodyStream) : Bodies :=
  { s with streams := s.streams.modify u f }

def setTee (s : Bodies) (t : Nat) (f : Tee → Tee) : Bodies :=
  { s with tees := s.tees.modify t f }

/-- `stream._pull()`. -/
def pull (s : Bodies) (u : Nat) (owner : Owner) : Bodies :=
  { s.setStream u fun st => { st with disturbed := true, takenBy := some owner.consumer } with
    tasks := s.tasks ++ [{ owner := owner, stream := u }] }

/-- The end of `drainStream`: the chunks in one buffer.  A string has no `byteLength`, so the
buffer is then empty and takes nothing. -/
def join (s : Bodies) (got : List Chunk) : Option (List UInt8) :=
  if got.all fun c => c.data.buffers.isEmpty.not then
    some (got.flatMap fun c => c.data.buffers.flatMap s.read)
  else if got.all fun c =>
      match c.data with
      | .bytes b => (s.read b).isEmpty
      | .text value => value.isEmpty then some []
  else none

/-- What a helper returns of a body's bytes: a buffer, or a string or a parsed value. -/
def result (s : Bodies) (how : Helper) (bytes : List UInt8) : Bodies :=
  match how with
  | .arrayBuffer | .bytes => s.give bytes
  | .text | .json => s

def finishDrain (s : Bodies) (how : Helper) (got : List Chunk) : Bodies :=
  match s.join got with
  | some bytes => s.result how bytes
  | none => s

/-- `reader.read()`, for the guest or for a drain: a stream that is done is not pulled. -/
def readOn (s : Bodies) (u : Nat) (owner : Owner) : Bodies :=
  if (s.streams[u]?.map BodyStream.done).getD true then
    match owner with
    | .drain _ how got => s.finishDrain how got
    | _ => s
  else s.pull u owner

/-- A tee puts a chunk into the queue of a side that is not cancelled. -/
def pushChunk (s : Bodies) (u : Nat) (c : Chunk) : Bodies :=
  s.setStream u fun st => { st with src := st.src.pushed c }

/-- A stream has yielded a chunk. -/
def hand (s : Bodies) (u : Nat) (owner : Owner) (c : Chunk) : Bodies :=
  let s := { s with log := s.log ++ [{ stream := u, chunk := c, taker := owner.consumer }] }
  match owner with
  | .reader => { s with held := s.held ++ c.data.buffers }
  | .drain i how got => s.readOn u (.drain i how (got ++ [c]))
  | .shared t =>
    match s.tees[t]? with
    | none => s
    | some tee =>
      ((s.pushChunk tee.left c).pushChunk tee.right c).setTee t
        fun tee => { tee with inFlight := false }

/-- A stream has come to its end. -/
def atEnd (s : Bodies) (u : Nat) (owner : Owner) : Bodies :=
  match owner with
  | .reader => s.setStream u fun st => { st with done := true }
  | .drain _ how got => (s.setStream u fun st => { st with done := true }).finishDrain how got
  | .shared t => s.setTee t fun tee => { tee with done := true, inFlight := false }

/-- A source has failed. -/
def atError (s : Bodies) (owner : Owner) : Bodies :=
  match owner with
  | .shared t => s.setTee t fun tee => { tee with failed := true, inFlight := false }
  | _ => s

def cancelled (s : Bodies) (u : Nat) : Bool :=
  match s.streams[u]?.map BodyStream.src with
  | some (.branch _ _ flag) => flag
  | _ => true

/-- `_cancelSource`.  A side that is cancelled drops its queue, and the last one cancels what the
tee pulls from: an older stream, so `u + 1` rounds are enough. -/
def cancelSource : Nat → Bodies → Nat → Bodies
  | 0, s, _ => s
  | fuel + 1, s, u =>
    match s.streams[u]? with
    | none => s
    | some st =>
      match st.src with
      | .branch t _ _ =>
        let s := s.setStream u fun st => { st with disturbed := true, src := .branch t [] true }
        match s.tees[t]? with
        | none => s
        | some tee =>
          if s.cancelled tee.left && s.cancelled tee.right && !tee.done then
            cancelSource fuel s tee.up
          else s
      | _ => s.setStream u fun st => { st with disturbed := true }

/-- `reader.cancel` and `stream.cancel`. -/
def cancel (s : Bodies) (u : Nat) : Bodies :=
  cancelSource (u + 1) (s.setStream u fun st => { st with done := true }) u

/-! ### Helpers and `clone` -/

def accept (s : Bodies) (inst : Instance) : Bodies :=
  { s with accepted := s.accepted ++ [s.bodyUsed inst] }

/-- `text`, `json`, `bytes` and `arrayBuffer`: `consume`, then the body or a drain of it. -/
def consume (s : Bodies) (i : Nat) (inst : Instance) (how : Helper) : Bodies :=
  if inst.used then s
  else
    let rest := s.instances.set i { inst with used := true, body := .null }
    match inst.body with
    | .null => { s.accept inst with instances := rest }.result how []
    | .text id value =>
      { s.accept inst with instances := rest, wholes := s.wholes ++ [id] }.result how
        value.toUTF8.toList
    | .buffer id b =>
      let s' := { s.accept inst with instances := rest, wholes := s.wholes ++ [id] }
      match how with
      | .bytes => { s' with held := s.held ++ [b] }
      | _ => s'.result how (s.read b)
    | .stream u =>
      -- `getReader` throws on a locked stream, after the body was taken
      if (s.streams[u]?.map BodyStream.locked).getD true then { s with instances := rest }
      else
        ({ s.accept inst with instances := rest }.setStream u
          fun st => { st with locked := true }).readOn u (.drain i how [])

/-- A new tee of a stream, with a new stream for each side: the instance has the one, and its copy
the other. -/
def teeBody (s : Bodies) (i : Nat) (inst : Instance) (u : Nat) : Bodies :=
  if u < s.streams.length then
    let t := s.tees.length
    let left := s.streams.length
    let streams := s.streams.modify u fun st => { st with takenBy := some (.tee t) }
    { s with
      tees := s.tees ++ [Tee.fresh u left]
      streams := streams ++ [BodyStream.fresh (.branch t [] false),
        BodyStream.fresh (.branch t [] false)]
      instances := s.instances.set i { inst with body := .stream left } }.push inst.kind
        (.stream (left + 1))
  else s

/-- `clone`: only `_used` is looked at. -/
def clone (s : Bodies) (i : Nat) (inst : Instance) : Bodies :=
  if inst.used then s
  else
    match inst.body with
    | .null => (s.accept inst).push inst.kind .null
    | .text _ value =>
      let copy := .text s.nextBody value
      { s.accept inst with
        nextBody := s.nextBody + 1
        twins := s.twins ++ [(inst.body, copy)] }.push inst.kind copy
    | .buffer _ b =>
      let copy := .buffer s.nextBody s.heap.length
      { (s.accept inst).alloc (s.read b) with
        nextBody := s.nextBody + 1
        twins := s.twins ++ [(inst.body, copy)] }.push inst.kind copy
    | .stream u => (s.accept inst).teeBody i inst u

end Bodies

/-! ### Runs -/

inductive BodyOp where
  /-- The guest makes a buffer. -/
  | newBuffer (bytes : List UInt8)
  /-- An instance of the host's, with a streamed body. -/
  | hydrate (kind : Kind)
  | response (nullBodyStatus : Bool) (arg : BodyArg)
  | request (input : Option Nat) (method : Option Bool) (arg : BodyArg)
  | clone (i : Nat)
  | consume (i : Nat) (how : Helper)
  | getReader (u : Nat)
  | releaseLock (u : Nat)
  | read (u : Nat)
  | readerCancel (u : Nat)
  | streamCancel (u : Nat)
  /-- The source of a waiting task's stream answers. -/
  | answer (k : Nat) (a : Answer)
  /-- A task that waits at a side of a tee looks again. -/
  | resume (k : Nat)
  deriving DecidableEq

namespace Bodies

/-- The input of a new `Request`, when it is an instance. -/
def inputOf (s : Bodies) (input : Option Nat) : Option Instance :=
  input.bind fun i => s.instances[i]?

def dropTask (s : Bodies) (k : Nat) : Bodies := { s with tasks := s.tasks.eraseIdx k }

/-- A chunk of these data, with the next number. -/
def arrive (s : Bodies) (task : Task) (data : Data) : Bodies :=
  { s with nextChunk := s.nextChunk + 1 }.hand task.stream task.owner
    { n := s.nextChunk, data := data }

/-- Whether it is the source of this stream that answers, and can answer so: a host stream yields
buffers of its own, an iterable what it likes. -/
def answers (s : Bodies) (u : Nat) (a : Answer) : Bool :=
  match s.streams[u]?.map BodyStream.src with
  | some .host => a.ofHost
  | some .iterable => a.ofIterable s.held
  | _ => false

def answer (s : Bodies) (k : Nat) (task : Task) (a : Answer) : Bodies :=
  if s.answers task.stream a then
    match a with
    | .fresh bytes => ((s.dropTask k).alloc bytes).arrive task (.bytes s.heap.length)
    | .held b => (s.dropTask k).arrive task (.bytes b)
    | .text value => (s.dropTask k).arrive task (.text value)
    | .eof => (s.dropTask k).atEnd task.stream task.owner
    | .error => (s.dropTask k).atError task.owner
  else s

/-- One round of a side's `pull`. -/
def resume (s : Bodies) (k : Nat) (task : Task) : Bodies :=
  match s.streams[task.stream]?.map BodyStream.src with
  | some (.branch t queue flag) =>
    match queue with
    | c :: rest =>
      ((s.dropTask k).setStream task.stream
        fun st => { st with src := .branch t rest flag }).hand task.stream task.owner c
    | [] =>
      match s.tees[t]? with
      | none => s
      | some tee =>
        if tee.failed then (s.dropTask k).atError task.owner
        else if tee.done || flag then (s.dropTask k).atEnd task.stream task.owner
        else if tee.inFlight then s
        else (s.setTee t fun tee => { tee with inFlight := true }).pull tee.up (.shared t)
  | _ => s

def step (s : Bodies) : BodyOp → Bodies
  | .newBuffer bytes => s.give bytes
  | .hydrate kind =>
    { s with streams := s.streams ++ [BodyStream.fresh .host] }.push kind (.stream s.streams.length)
  | .response nullBodyStatus arg => s.response nullBodyStatus arg
  | .request input method arg => s.request (s.inputOf input) method arg
  | .clone i =>
    match s.instances[i]? with
    | none => s
    | some inst => s.clone i inst
  | .consume i how =>
    match s.instances[i]? with
    | none => s
    | some inst => s.consume i inst how
  | .getReader u => s.setStream u fun st => { st with locked := true }
  | .releaseLock u => s.setStream u fun st => { st with locked := false }
  | .read u => s.readOn u .reader
  | .readerCancel u => s.cancel u
  | .streamCancel u => if (s.streams[u]?.map BodyStream.locked).getD true then s else s.cancel u
  | .answer k a =>
    match s.tasks[k]? with
    | none => s
    | some task => s.answer k task a
  | .resume k =>
    match s.tasks[k]? with
    | none => s
    | some task => s.resume k task

end Bodies

end OneShot

end Iso4
