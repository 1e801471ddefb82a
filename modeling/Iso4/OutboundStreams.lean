/-
The streamed result bodies of a run on the host
(`packages/iso4-sandbox/src/web-codec.ts`, `OutboundStreamRegistry`).

The state of a stream is created by whichever comes first, a chunk, an end or the
attach of a consumer; `failAll` fails the streams whose state exists.  An attached
stream is a `ReadableStream` that pulls when its queue is empty or a read waits.  A
call runs to completion with the promise callbacks it resolves.

* `attached_settles` — no read is left pending once the run is over, in runs that
  attach each stream once and, after the run is over, only streams with an outcome;
* `attach_after_failAll` — a stream attached after `failAll` waits forever.
-/
import Iso4.InBodies

namespace Iso4

/-! ### Streams and consumers -/

abbrev Chunk := List UInt8

/-- `OutboundState`; `waiter` is the consumer whose pull waits. -/
structure OutboundState where
  buffered : List Chunk
  ended : Option (Option String)
  cancelled : Bool
  failed : Option String
  waiter : Option Nat
  deriving DecidableEq

inductive ConsumerStatus where
  | readable
  | closed
  | errored (message : String)
  deriving DecidableEq

/-- The `ReadableStream` of an attached body: what is enqueued and not read, the
reads that wait, whether a pull is waiting, and what was read. -/
structure Consumer where
  streamId : Nat
  queue : List Chunk
  reads : Nat
  status : ConsumerStatus
  pulling : Bool
  yielded : List Chunk
  deriving DecidableEq

/-- What the registry sends to the runtime. -/
inductive TransportCall where
  | pull (streamId credit : Nat)
  | cancel (streamId : Nat) (reason : String)
  deriving DecidableEq

namespace OutboundState

def new : OutboundState := ⟨[], none, false, none, none⟩

/-- The stream has an outcome: it ended or failed. -/
def settled (st : OutboundState) : Bool := st.ended.isSome || st.failed.isSome

end OutboundState

namespace Consumer

def new (streamId : Nat) : Consumer := ⟨streamId, [], 0, .readable, false, []⟩

/-- The stream asks for more: a read waits, or the queue is below its mark. -/
def wantsPull (c : Consumer) : Bool :=
  c.status = .readable && !c.pulling && (decide (0 < c.reads) || c.queue.isEmpty)

/-- `controller.enqueue`: to the first waiting read, or to the queue. -/
def enqueue (c : Consumer) (chunk : Chunk) : Consumer :=
  if 0 < c.reads then { c with reads := c.reads - 1, yielded := c.yielded ++ [chunk] }
  else { c with queue := c.queue ++ [chunk] }

/-- The stream is over: waiting reads resolve. -/
def finish (c : Consumer) (status : ConsumerStatus) : Consumer :=
  { c with status, reads := 0, queue := [] }

end Consumer

/-- `serve`, as often as the stream pulls. -/
def serve (handle : Nat) (st : OutboundState) :
    List Chunk → Consumer → List TransportCall → OutboundState × Consumer × List TransportCall
  | [], c, calls =>
    if !c.wantsPull then ({ st with buffered := [] }, c, calls)
    else match st.failed, st.ended with
      | some message, _ => ({ st with buffered := [] }, c.finish (.errored message), calls)
      | none, some (some message) =>
        ({ st with buffered := [] }, c.finish (.errored (bodyStreamFailed message)), calls)
      | none, some none => ({ st with buffered := [] }, c.finish .closed, calls)
      | none, none => ({ st with buffered := [], waiter := some handle }, { c with pulling := true }, calls)
  | chunk :: rest, c, calls =>
    if !c.wantsPull then ({ st with buffered := chunk :: rest }, c, calls)
    else serve handle st rest (c.enqueue chunk) (calls ++ [.pull c.streamId chunk.length])

/-! ### The registry -/

structure OutboundStreamRegistry where
  states : Nat → Option OutboundState
  /-- The streams in the order of their creation. -/
  order : List Nat
  consumers : Nat → Option Consumer
  nextHandle : Nat
  sent : List TransportCall
  /-- `failAll` was called. -/
  finished : Bool

inductive OutboundOp where
  | deliverChunk (id : Nat) (data : Chunk)
  | deliverEnd (id : Nat) (error : Option String)
  | failAll (error : String)
  | attach (id : Nat)
  | read (handle : Nat)
  | cancel (handle : Nat) (reason : String)
  deriving DecidableEq

namespace OutboundStreamRegistry

def new : OutboundStreamRegistry := ⟨fun _ => none, [], fun _ => none, 0, [], false⟩

/-- `state`: created on first use. -/
def ensure (r : OutboundStreamRegistry) (id : Nat) : OutboundStreamRegistry :=
  match r.states id with
  | some _ => r
  | none => { r with states := Function.update r.states id (some .new), order := r.order ++ [id] }

def setState (r : OutboundStreamRegistry) (id : Nat) (st : OutboundState) : OutboundStreamRegistry :=
  { r with states := Function.update r.states id (some st) }

def setConsumer (r : OutboundStreamRegistry) (handle : Nat) (c : Consumer) : OutboundStreamRegistry :=
  { r with consumers := Function.update r.consumers handle (some c) }

/-- Let a consumer pull as long as it wants to. -/
def pump (r : OutboundStreamRegistry) (handle : Nat) : OutboundStreamRegistry :=
  match r.consumers handle with
  | none => r
  | some c =>
    match r.states c.streamId with
    | none => r
    | some st =>
      let (st', c', calls) := serve handle st st.buffered c []
      { (r.setState c.streamId st').setConsumer handle c' with sent := r.sent ++ calls }

/-- `st.waiter?.()`: the waiting pull goes on. -/
def wake (r : OutboundStreamRegistry) (id : Nat) : OutboundStreamRegistry :=
  match r.states id with
  | none => r
  | some st =>
    match st.waiter with
    | none => r
    | some handle =>
      match r.consumers handle with
      | none => r
      | some c =>
        ((r.setState id { st with waiter := none }).setConsumer handle
          { c with pulling := false }).pump handle

/-- `failAll` on one stream. -/
def failOne (error : String) (r : OutboundStreamRegistry) (id : Nat) : OutboundStreamRegistry :=
  match r.states id with
  | none => r
  | some st =>
    if st.settled || st.cancelled then r
    else (r.setState id { st with failed := some error }).wake id

def step (r : OutboundStreamRegistry) : OutboundOp → OutboundStreamRegistry
  | .deliverChunk id data =>
    let r := r.ensure id
    match r.states id with
    | none => r
    | some st =>
      if st.cancelled then r
      else (r.setState id { st with buffered := st.buffered ++ [data] }).wake id
  | .deliverEnd id error =>
    let r := r.ensure id
    match r.states id with
    | none => r
    | some st => (r.setState id { st with ended := some error }).wake id
  | .failAll error => { r.order.foldl (failOne error) r with finished := true }
  | .attach id =>
    let r := r.ensure id
    { r.setConsumer r.nextHandle (.new id) with nextHandle := r.nextHandle + 1 }.pump r.nextHandle
  | .read handle =>
    match r.consumers handle with
    | none => r
    | some c =>
      if c.status ≠ .readable then r
      else match c.queue with
        | chunk :: queue =>
          (r.setConsumer handle { c with queue, yielded := c.yielded ++ [chunk] }).pump handle
        | [] => (r.setConsumer handle { c with reads := c.reads + 1 }).pump handle
  | .cancel handle reason =>
    match r.consumers handle with
    | none => r
    | some c =>
      if c.status ≠ .readable then r
      else match r.states c.streamId with
        | none => r
        | some st =>
          { (r.setState c.streamId { st with cancelled := true, buffered := [] }).setConsumer handle
              (c.finish .closed) with
            sent := if st.settled then r.sent else r.sent ++ [.cancel c.streamId reason] }

end OutboundStreamRegistry

/-! ### One stream and its consumer -/

/-- The chunks delivered for a stream. -/
def delivered (ops : List OutboundOp) (id : Nat) : List Chunk :=
  ops.filterMap fun
    | .deliverChunk id' data => if id' = id then some data else none
    | _ => none

/-- An error that the calls justify for a stream. -/
def ErrorSource (ops : List OutboundOp) (id : Nat) (message : String) : Prop :=
  .failAll message ∈ ops ∨ ∃ e, .deliverEnd id (some e) ∈ ops ∧ message = bodyStreamFailed e

/-- A consumer and the state of its stream, before the consumer pulls. -/
structure Linked (ops : List OutboundOp) (handle : Nat) (st : OutboundState) (c : Consumer) : Prop where
  live : c.status = .readable →
    st.cancelled = false ∧ c.yielded ++ c.queue ++ st.buffered = delivered ops c.streamId
  reading : 0 < c.reads → c.status = .readable ∧ c.queue = []
  waits : c.status = .readable → c.pulling = true →
    st.buffered = [] ∧ st.settled = false ∧ c.queue = []
  waiter : st.waiter = if c.pulling then some handle else none
  closed : c.status = .closed → st.cancelled = false →
    c.yielded = delivered ops c.streamId ∧ .deliverEnd c.streamId none ∈ ops
  errored : ∀ m, c.status = .errored m → c.yielded <+: delivered ops c.streamId ∧
    ErrorSource ops c.streamId m
  failed : ∀ m, st.failed = some m → .failAll m ∈ ops
  ended : ∀ e, st.ended = some e → .deliverEnd c.streamId e ∈ ops

/-- And it has pulled as long as it wanted to. -/
structure Cell (ops : List OutboundOp) (handle : Nat) (st : OutboundState) (c : Consumer) : Prop
    extends Linked ops handle st c where
  idle : c.wantsPull = false

/-- A readable consumer with a waiting read waits for a stream without an outcome. -/
theorem Cell.waiting {ops : List OutboundOp} {handle : Nat} {st : OutboundState} {c : Consumer}
    (h : Cell ops handle st c) (hr : 0 < c.reads) : st.settled = false ∧ st.cancelled = false := by
  have hs := (h.reading hr).1
  have hp : c.pulling = true := by
    have hidle := h.idle
    simpa [Consumer.wantsPull, hs, hr] using hidle
  exact ⟨(h.waits hs hp).2.1, (h.live hs).1⟩

/-- What `serve` leaves as it was. -/
structure Served (st st' : OutboundState) (c c' : Consumer) : Prop where
  ended : st'.ended = st.ended
  failed : st'.failed = st.failed
  cancelled : st'.cancelled = st.cancelled
  streamId : c'.streamId = c.streamId

theorem wantsPull_iff (c : Consumer) : c.wantsPull = true ↔
    c.status = .readable ∧ c.pulling = false ∧ (0 < c.reads ∨ c.queue = []) := by
  simp [Consumer.wantsPull, and_assoc]

theorem serve_served (handle : Nat) (st : OutboundState) (buffered : List Chunk) (c : Consumer)
    (calls : List TransportCall) :
    Served st (serve handle st buffered c calls).1 c (serve handle st buffered c calls).2.1 := by
  induction buffered generalizing c calls with
  | nil =>
    unfold serve
    split
    · exact ⟨rfl, rfl, rfl, rfl⟩
    · split <;> exact ⟨rfl, rfl, rfl, rfl⟩
  | cons chunk rest ih =>
    unfold serve
    split
    · exact ⟨rfl, rfl, rfl, rfl⟩
    · obtain ⟨he, hf, hc, hid⟩ := ih (c.enqueue chunk) (calls ++ [.pull c.streamId chunk.length])
      refine ⟨he, hf, hc, hid.trans ?_⟩
      unfold Consumer.enqueue
      split <;> rfl

/-- Enqueueing moves a chunk from the buffer to the consumer. -/
theorem Linked.enqueue {ops : List OutboundOp} {handle : Nat} {st : OutboundState} {c : Consumer}
    {chunk : Chunk} {rest : List Chunk} (h : Linked ops handle { st with buffered := chunk :: rest } c)
    (hw : c.wantsPull = true) : Linked ops handle { st with buffered := rest } (c.enqueue chunk) := by
  obtain ⟨hs, hp, -⟩ := (wantsPull_iff c).mp hw
  obtain ⟨hcan, hlive⟩ := h.live hs
  have hwaiter := h.waiter
  unfold Consumer.enqueue
  split
  · next hpos =>
    have hq := (h.reading hpos).2
    refine ⟨fun _ => ⟨hcan, ?_⟩, fun _ => ⟨hs, hq⟩, ?_, hwaiter, ?_, ?_, h.failed, h.ended⟩
    · simpa [hq] using hlive
    · simp [hp]
    · simp [hs]
    · simp [hs]
  · next hpos =>
    refine ⟨fun _ => ⟨hcan, ?_⟩, ?_, ?_, hwaiter, ?_, ?_, h.failed, h.ended⟩
    · simpa using hlive
    · simp [hpos]
    · simp [hp]
    · simp [hs]
    · simp [hs]

/-- A consumer that ends with an error the calls justify. -/
theorem Linked.error {ops : List OutboundOp} {handle : Nat} {st : OutboundState} {c : Consumer}
    {m : String} (h : Linked ops handle { st with buffered := [] } c) (hw : c.wantsPull = true)
    (hm : ErrorSource ops c.streamId m) :
    Cell ops handle { st with buffered := [] } (c.finish (.errored m)) := by
  obtain ⟨hs, hp, -⟩ := (wantsPull_iff c).mp hw
  have hyielded : c.yielded <+: delivered ops c.streamId := by
    rw [← (h.live hs).2, List.append_assoc]
    exact List.prefix_append _ _
  refine ⟨⟨?_, ?_, ?_, h.waiter, ?_, ?_, h.failed, h.ended⟩, ?_⟩
  · simp [Consumer.finish]
  · simp [Consumer.finish]
  · simp [Consumer.finish]
  · simp [Consumer.finish]
  · rintro m' hm'
    obtain rfl : m = m' := by simpa [Consumer.finish] using hm'
    exact ⟨hyielded, hm⟩
  · simp [Consumer.finish, Consumer.wantsPull]

/-- A consumer that closes has everything. -/
theorem Linked.close {ops : List OutboundOp} {handle : Nat} {st : OutboundState} {c : Consumer}
    (h : Linked ops handle { st with buffered := [] } c) (hw : c.wantsPull = true)
    (he : st.ended = some none) :
    Cell ops handle { st with buffered := [] } (c.finish .closed) := by
  obtain ⟨hs, hp, hpull⟩ := (wantsPull_iff c).mp hw
  have hq : c.queue = [] := hpull.elim (fun hr => (h.reading hr).2) fun hq => hq
  have hyielded : c.yielded = delivered ops c.streamId := by
    have hlive := (h.live hs).2
    rwa [hq, List.append_nil, List.append_nil] at hlive
  refine ⟨⟨?_, ?_, ?_, h.waiter, ?_, ?_, h.failed, h.ended⟩, ?_⟩
  · simp [Consumer.finish]
  · simp [Consumer.finish]
  · simp [Consumer.finish]
  · intro _ _
    exact ⟨hyielded, h.ended none he⟩
  · simp [Consumer.finish]
  · simp [Consumer.finish, Consumer.wantsPull]

/-- A consumer whose pull waits. -/
theorem Linked.wait {ops : List OutboundOp} {handle : Nat} {st : OutboundState} {c : Consumer}
    (h : Linked ops handle { st with buffered := [] } c) (hw : c.wantsPull = true)
    (hset : st.settled = false) :
    Cell ops handle { st with buffered := [], waiter := some handle } { c with pulling := true } := by
  obtain ⟨hs, hp, hpull⟩ := (wantsPull_iff c).mp hw
  have hq : c.queue = [] := hpull.elim (fun hr => (h.reading hr).2) fun hq => hq
  refine ⟨⟨h.live, h.reading, fun _ _ => ⟨rfl, hset, hq⟩, rfl, ?_, ?_, h.failed, h.ended⟩, ?_⟩
  · simp [hs]
  · simp [hs]
  · simp [Consumer.wantsPull]

/-- A pull that is woken no longer waits. -/
theorem Linked.wakes {ops : List OutboundOp} {handle : Nat} {st : OutboundState} {c : Consumer}
    (h : Linked ops handle st c) :
    Linked ops handle { st with waiter := none } { c with pulling := false } :=
  ⟨h.live, h.reading, fun _ hp => by simp at hp, rfl, h.closed, h.errored, h.failed, h.ended⟩

theorem serve_cell {ops : List OutboundOp} {handle : Nat} {st : OutboundState}
    (buffered : List Chunk) {c : Consumer} (calls : List TransportCall)
    (h : Linked ops handle { st with buffered } c) :
    Cell ops handle (serve handle st buffered c calls).1 (serve handle st buffered c calls).2.1 := by
  induction buffered generalizing c calls with
  | nil =>
    unfold serve
    split
    · next hw => exact ⟨h, by simpa using hw⟩
    · next hw =>
      have hw : c.wantsPull = true := by simpa using hw
      split
      · next m hm => exact h.error hw (.inl (h.failed m hm))
      · next m hf hm => exact h.error hw (.inr ⟨m, h.ended _ hm, rfl⟩)
      · next hf hm => exact h.close hw hm
      · next hf hm => exact h.wait hw (by simp [OutboundState.settled, hf, hm])
  | cons chunk rest ih =>
    unfold serve
    split
    · next hw => exact ⟨h, by simpa using hw⟩
    · next hw => exact ih _ (h.enqueue (by simpa using hw))

/-! ### The registry -/

/-- A stream without a consumer. -/
structure Lone (ops : List OutboundOp) (id : Nat) (st : OutboundState) : Prop where
  buffered : st.buffered = delivered ops id
  cancelled : st.cancelled = false
  waiter : st.waiter = none
  failed : ∀ m, st.failed = some m → .failAll m ∈ ops
  ended : ∀ e, st.ended = some e → .deliverEnd id e ∈ ops

/-- More calls, none of them with data for the other streams. -/
structure Later (ops ops' : List OutboundOp) (id : Nat) : Prop where
  sub : ∀ op ∈ ops, op ∈ ops'
  others : ∀ j, j ≠ id → delivered ops' j = delivered ops j

theorem Later.refl (ops : List OutboundOp) (id : Nat) : Later ops ops id :=
  ⟨fun _ h => h, fun _ _ => rfl⟩

theorem ErrorSource.mono {ops ops' : List OutboundOp} {id : Nat} {m : String}
    (hsub : ∀ op ∈ ops, op ∈ ops') (h : ErrorSource ops id m) : ErrorSource ops' id m :=
  h.imp (hsub _) fun ⟨e, he, hm⟩ => ⟨e, hsub _ he, hm⟩

theorem Linked.mono {ops ops' : List OutboundOp} {handle : Nat} {st : OutboundState} {c : Consumer}
    (hsub : ∀ op ∈ ops, op ∈ ops') (hd : delivered ops' c.streamId = delivered ops c.streamId)
    (h : Linked ops handle st c) : Linked ops' handle st c := by
  refine ⟨?_, h.reading, h.waits, h.waiter, ?_, ?_, fun m hm => hsub _ (h.failed m hm),
    fun e he => hsub _ (h.ended e he)⟩
  · rw [hd]
    exact h.live
  · rw [hd]
    exact fun hs hc => ⟨(h.closed hs hc).1, hsub _ (h.closed hs hc).2⟩
  · rw [hd]
    exact fun m hm => ⟨(h.errored m hm).1, (h.errored m hm).2.mono hsub⟩

theorem Lone.mono {ops ops' : List OutboundOp} {id : Nat} {st : OutboundState}
    (hsub : ∀ op ∈ ops, op ∈ ops') (hd : delivered ops' id = delivered ops id)
    (h : Lone ops id st) : Lone ops' id st :=
  ⟨by rw [hd]; exact h.buffered, h.cancelled, h.waiter, fun m hm => hsub _ (h.failed m hm),
    fun e he => hsub _ (h.ended e he)⟩

namespace OutboundStreamRegistry

/-- No consumer is attached to the stream. -/
def Unattached (r : OutboundStreamRegistry) (id : Nat) : Prop :=
  ∀ h c, r.consumers h = some c → c.streamId ≠ id

structure Inv (ops : List OutboundOp) (r : OutboundStreamRegistry) : Prop where
  linked : ∀ h c, r.consumers h = some c → ∃ st, r.states c.streamId = some st ∧ Cell ops h st c
  unique : ∀ h h' c c', r.consumers h = some c → r.consumers h' = some c' →
    c.streamId = c'.streamId → h = h'
  fresh : ∀ h c, r.consumers h = some c → h < r.nextHandle
  lone : ∀ id st, r.states id = some st → r.Unattached id → Lone ops id st
  untouched : ∀ id, r.states id = none → delivered ops id = []
  order : ∀ id st, r.states id = some st → id ∈ r.order
  finished : r.finished = true → ∀ h c st, r.consumers h = some c → r.states c.streamId = some st →
    st.settled = true ∨ st.cancelled = true

/-- A consumer is the only one on its stream. -/
theorem Inv.owner {ops : List OutboundOp} {r : OutboundStreamRegistry} {h : Nat} {c : Consumer}
    (hinv : Inv ops r) (hc : r.consumers h = some c) :
    ∀ h' c', r.consumers h' = some c' → (h' = h ↔ c'.streamId = c.streamId) := by
  intro h' c' hc'
  refine ⟨?_, fun heq => hinv.unique h' h c' c hc' hc heq⟩
  rintro rfl
  rw [hc] at hc'
  rw [Option.some.inj hc']

/-- A step on a stream and its consumer `h`. -/
theorem Inv.owned {ops ops' : List OutboundOp} {r r' : OutboundStreamRegistry} {h : Nat}
    {st : OutboundState} {c : Consumer} (hinv : Inv ops r) (hlater : Later ops ops' c.streamId)
    (hstates : r'.states = Function.update r.states c.streamId (some st))
    (hconsumers : r'.consumers = Function.update r.consumers h (some c))
    (howner : ∀ h' c', r.consumers h' = some c' → (h' = h ↔ c'.streamId = c.streamId))
    (hcell : Cell ops' h st c) (hfresh : h < r'.nextHandle) (hnext : r.nextHandle ≤ r'.nextHandle)
    (horder : c.streamId ∈ r'.order) (hgrows : ∀ id ∈ r.order, id ∈ r'.order)
    (hover : r'.finished = true → r.finished = true ∧ (st.settled = true ∨ st.cancelled = true)) :
    Inv ops' r' := by
  -- Another consumer is on another stream, where nothing changed.
  have hother : ∀ h' c', h' ≠ h → r'.consumers h' = some c' →
      r.consumers h' = some c' ∧ c'.streamId ≠ c.streamId := by
    intro h' c' hne hc'
    rw [hconsumers, Function.update_of_ne hne] at hc'
    exact ⟨hc', fun heq => hne ((howner h' c' hc').mpr heq)⟩
  have hself : ∀ c', r'.consumers h = some c' → c' = c := by
    intro c' hc'
    rw [hconsumers, Function.update_self] at hc'
    exact (Option.some.inj hc').symm
  have hstate : ∀ id, id ≠ c.streamId → r'.states id = r.states id := by
    intro id hne
    rw [hstates, Function.update_of_ne hne]
  have hown : r'.states c.streamId = some st := by rw [hstates, Function.update_self]
  refine ⟨?_, ?_, ?_, ?_, ?_, ?_, ?_⟩
  · intro h' c' hc'
    by_cases hne : h' = h
    · subst hne
      rw [hself c' hc']
      exact ⟨st, hown, hcell⟩
    · obtain ⟨hc, hid⟩ := hother h' c' hne hc'
      obtain ⟨st', hst', hcell'⟩ := hinv.linked h' c' hc
      rw [hstate _ hid]
      exact ⟨st', hst', hcell'.toLinked.mono hlater.sub (hlater.others _ hid), hcell'.idle⟩
  · intro h₁ h₂ c₁ c₂ hc₁ hc₂ heq
    by_cases hne₁ : h₁ = h
    · by_cases hne₂ : h₂ = h
      · rw [hne₁, hne₂]
      · rw [hne₁] at hc₁
        rw [hself c₁ hc₁] at heq
        exact absurd heq.symm (hother h₂ c₂ hne₂ hc₂).2
    · by_cases hne₂ : h₂ = h
      · rw [hne₂] at hc₂
        rw [hself c₂ hc₂] at heq
        exact absurd heq (hother h₁ c₁ hne₁ hc₁).2
      · exact hinv.unique h₁ h₂ c₁ c₂ (hother h₁ c₁ hne₁ hc₁).1 (hother h₂ c₂ hne₂ hc₂).1 heq
  · intro h' c' hc'
    by_cases hne : h' = h
    · rw [hne]
      exact hfresh
    · exact Nat.lt_of_lt_of_le (hinv.fresh h' c' (hother h' c' hne hc').1) hnext
  · intro id st' hst' hun
    have hid : id ≠ c.streamId := by
      rintro rfl
      exact hun h c (by rw [hconsumers, Function.update_self]) rfl
    rw [hstate id hid] at hst'
    refine (hinv.lone id st' hst' ?_).mono hlater.sub (hlater.others id hid)
    intro h' c' hc' heq
    by_cases hne : h' = h
    · subst hne
      exact hid (heq.symm.trans ((howner h' c' hc').mp rfl))
    · exact hun h' c' (by rw [hconsumers, Function.update_of_ne hne]; exact hc') heq
  · intro id hnone
    have hid : id ≠ c.streamId := by
      rintro rfl
      rw [hown] at hnone
      cases hnone
    rw [hlater.others id hid]
    exact hinv.untouched id (by rw [← hstate id hid]; exact hnone)
  · intro id st' hst'
    by_cases hid : id = c.streamId
    · rw [hid]
      exact horder
    · rw [hstate id hid] at hst'
      exact hgrows id (hinv.order id st' hst')
  · intro ho h' c' st' hc' hst'
    obtain ⟨hro, hdone⟩ := hover ho
    by_cases hne : h' = h
    · subst hne
      rw [hself c' hc', hown] at hst'
      obtain rfl := Option.some.inj hst'
      exact hdone
    · obtain ⟨hc, hid⟩ := hother h' c' hne hc'
      rw [hstate _ hid] at hst'
      exact hinv.finished hro h' c' st' hc hst'

/-- A step on a stream without a consumer. -/
theorem Inv.alone {ops ops' : List OutboundOp} {r r' : OutboundStreamRegistry} {id : Nat}
    {st : OutboundState} (hinv : Inv ops r) (hlater : Later ops ops' id) (hun : r.Unattached id)
    (hstates : r'.states = Function.update r.states id (some st))
    (hconsumers : r'.consumers = r.consumers) (hnext : r'.nextHandle = r.nextHandle)
    (hlone : Lone ops' id st) (horder : id ∈ r'.order) (hgrows : ∀ j ∈ r.order, j ∈ r'.order)
    (hover : r'.finished = r.finished) : Inv ops' r' := by
  have hstate : ∀ j, j ≠ id → r'.states j = r.states j := by
    intro j hne
    rw [hstates, Function.update_of_ne hne]
  have hown : r'.states id = some st := by rw [hstates, Function.update_self]
  refine ⟨?_, ?_, ?_, ?_, ?_, ?_, ?_⟩
  · intro h c hc
    rw [hconsumers] at hc
    obtain ⟨st', hst', hcell⟩ := hinv.linked h c hc
    have hid := hun h c hc
    rw [hstate _ hid]
    exact ⟨st', hst', hcell.toLinked.mono hlater.sub (hlater.others _ hid), hcell.idle⟩
  · rw [hconsumers]
    exact hinv.unique
  · rw [hconsumers, hnext]
    exact hinv.fresh
  · intro j st' hst' hun'
    by_cases hj : j = id
    · subst hj
      rw [hown] at hst'
      obtain rfl := Option.some.inj hst'
      exact hlone
    · rw [hstate j hj] at hst'
      refine (hinv.lone j st' hst' ?_).mono hlater.sub (hlater.others j hj)
      intro h c hc
      exact hun' h c (by rw [hconsumers]; exact hc)
  · intro j hnone
    have hj : j ≠ id := by
      rintro rfl
      rw [hown] at hnone
      cases hnone
    rw [hlater.others j hj]
    exact hinv.untouched j (by rw [← hstate j hj]; exact hnone)
  · intro j st' hst'
    by_cases hj : j = id
    · rw [hj]
      exact horder
    · rw [hstate j hj] at hst'
      exact hgrows j (hinv.order j st' hst')
  · intro ho h c st' hc hst'
    rw [hconsumers] at hc
    rw [hstate _ (hun h c hc)] at hst'
    exact hinv.finished (by rw [← hover]; exact ho) h c st' hc hst'

/-- A call that changes nothing and delivers nothing. -/
theorem Inv.later {ops ops' : List OutboundOp} {r : OutboundStreamRegistry} (hinv : Inv ops r)
    (hsub : ∀ op ∈ ops, op ∈ ops') (hd : ∀ id, delivered ops' id = delivered ops id) : Inv ops' r := by
  refine ⟨?_, hinv.unique, hinv.fresh, fun id st hst hun => (hinv.lone id st hst hun).mono hsub (hd id),
    fun id hnone => by rw [hd]; exact hinv.untouched id hnone, hinv.order, hinv.finished⟩
  intro h c hc
  obtain ⟨st, hst, hcell⟩ := hinv.linked h c hc
  exact ⟨st, hst, hcell.toLinked.mono hsub (hd _), hcell.idle⟩

theorem pump_eq {r : OutboundStreamRegistry} {h : Nat} {c : Consumer} {st : OutboundState}
    (hc : r.consumers h = some c) (hst : r.states c.streamId = some st) :
    r.pump h = { r with
      states := Function.update r.states c.streamId (some (serve h st st.buffered c []).1)
      consumers := Function.update r.consumers h (some (serve h st st.buffered c []).2.1)
      sent := r.sent ++ (serve h st st.buffered c []).2.2 } := by
  simp [pump, hc, hst, setState, setConsumer]

/-- Stream and consumer after `wake`. -/
def woken (h : Nat) (st : OutboundState) (c : Consumer) : OutboundState × Consumer :=
  if c.pulling then
    let t := serve h { st with waiter := none } st.buffered { c with pulling := false } []
    (t.1, t.2.1)
  else (st, c)

theorem wake_alone {r : OutboundStreamRegistry} {id : Nat} {st : OutboundState}
    (hst : r.states id = some st) (hwaiter : st.waiter = none) : r.wake id = r := by
  simp [wake, hst, hwaiter]

theorem wake_owned {r : OutboundStreamRegistry} {h : Nat} {c : Consumer} {st : OutboundState}
    (hc : r.consumers h = some c) (hst : r.states c.streamId = some st)
    (hwaiter : st.waiter = if c.pulling then some h else none) :
    ∃ sent, r.wake c.streamId = { r with
      states := Function.update r.states c.streamId (some (woken h st c).1)
      consumers := Function.update r.consumers h (some (woken h st c).2)
      sent } := by
  cases hp : c.pulling with
  | false =>
    rw [hp] at hwaiter
    refine ⟨r.sent, ?_⟩
    rw [wake_alone hst (by simpa using hwaiter)]
    simp only [woken, hp, Bool.false_eq_true, if_false]
    rw [← hst, ← hc, Function.update_eq_self, Function.update_eq_self]
  | true =>
    rw [hp] at hwaiter
    have hw : st.waiter = some h := by simpa using hwaiter
    have hwake : r.wake c.streamId = ((r.setState c.streamId { st with waiter := none }).setConsumer h
        { c with pulling := false }).pump h := by
      simp [wake, hst, hw, hc]
    have hc' : ((r.setState c.streamId { st with waiter := none }).setConsumer h
        { c with pulling := false }).consumers h = some { c with pulling := false } := by
      simp [setConsumer]
    have hst' : ((r.setState c.streamId { st with waiter := none }).setConsumer h
        { c with pulling := false }).states c.streamId = some { st with waiter := none } := by
      simp [setState, setConsumer]
    rw [hwake, pump_eq hc' hst']
    refine ⟨r.sent ++ (serve h { st with waiter := none } st.buffered
      { c with pulling := false } []).2.2, ?_⟩
    simp [woken, hp, setState, setConsumer, Function.update_idem]

theorem woken_served (h : Nat) (st : OutboundState) (c : Consumer) :
    Served st (woken h st c).1 c (woken h st c).2 := by
  unfold woken
  split
  · obtain ⟨he, hf, hc, hid⟩ :=
      serve_served h { st with waiter := none } st.buffered { c with pulling := false } []
    exact ⟨he, hf, hc, hid⟩
  · exact ⟨rfl, rfl, rfl, rfl⟩

/-- The waiting pull goes on with what arrived; a consumer that was not waiting has
nothing to do. -/
theorem woken_cell {ops : List OutboundOp} {h : Nat} {st : OutboundState} {c : Consumer}
    (hlinked : c.pulling = true → Linked ops h { st with waiter := none } { c with pulling := false })
    (hcell : c.pulling = false → Cell ops h st c) : Cell ops h (woken h st c).1 (woken h st c).2 := by
  unfold woken
  split
  · next hp => exact serve_cell st.buffered [] (hlinked hp)
  · next hp => exact hcell (by simpa using hp)

/-! ### Calls -/

/-- A change of a stream's state that wakes its consumer. -/
theorem Inv.change {ops ops' : List OutboundOp} {r : OutboundStreamRegistry} {id : Nat}
    {st : OutboundState} (f : OutboundState → OutboundState) (hinv : Inv ops r)
    (hst : r.states id = some st) (hlater : Later ops ops' id)
    (hwaiter : ∀ w, f { st with waiter := w } = { f st with waiter := w })
    (hlone : Lone ops id st → Lone ops' id (f st))
    (hlinked : ∀ h c c₀ w, r.consumers h = some c₀ → c₀.status = c.status → c₀.streamId = id →
      c.streamId = id → c.pulling = false → Linked ops h { st with waiter := w } c →
      Linked ops' h (f { st with waiter := w }) c)
    (hdone : st.settled = true ∨ st.cancelled = true →
      (f st).settled = true ∨ (f st).cancelled = true) :
    Inv ops' ((r.setState id (f st)).wake id) := by
  have hsame : f st = { f st with waiter := st.waiter } := hwaiter st.waiter
  have hset : (r.setState id (f st)).states id = some (f st) := by simp [setState]
  by_cases hun : r.Unattached id
  · have hl := hlone (hinv.lone id st hst hun)
    rw [wake_alone hset hl.waiter]
    exact hinv.alone hlater hun rfl rfl rfl hl (hinv.order id st hst) (fun _ hj => hj) rfl
  · simp only [Unattached, not_forall, not_not] at hun
    obtain ⟨h, c, hc, rfl⟩ := hun
    obtain ⟨st', hst', hcell⟩ := hinv.linked h c hc
    obtain rfl : st' = st := Option.some.inj (hst'.symm.trans hst)
    obtain ⟨sent, hwake⟩ := wake_owned (r := r.setState c.streamId (f st')) hc hset
      (by rw [hsame]; exact hcell.waiter)
    have hserved := woken_served h (f st') c
    have hid : (woken h (f st') c).2.streamId = c.streamId := hserved.streamId
    have hnew : Cell ops' h (woken h (f st') c).1 (woken h (f st') c).2 := by
      refine woken_cell ?_ ?_
      · intro hp
        rw [← hwaiter none]
        exact hlinked h _ c none hc rfl rfl rfl rfl hcell.toLinked.wakes
      · intro hp
        refine ⟨?_, hcell.idle⟩
        rw [hsame, ← hwaiter]
        exact hlinked h c c _ hc rfl rfl rfl hp hcell.toLinked
    rw [hwake]
    refine hinv.owned (by rw [hid]; exact hlater) ?_ rfl ?_ hnew (hinv.fresh h c hc) (Nat.le_refl _)
      ?_ (fun _ hj => hj) ?_
    · rw [hid]
      simp [setState, Function.update_idem]
    · rw [hid]
      exact hinv.owner hc
    · rw [hid]
      exact hinv.order c.streamId st' hst
    · intro ho
      refine ⟨ho, ?_⟩
      have hold := hdone (hinv.finished ho h c st' hc hst)
      rw [OutboundState.settled, hserved.ended, hserved.failed, hserved.cancelled]
      exact hold

theorem Inv.ensure {ops : List OutboundOp} {r : OutboundStreamRegistry} (hinv : Inv ops r) (id : Nat) :
    Inv ops (r.ensure id) ∧ ∃ st, (r.ensure id).states id = some st := by
  unfold OutboundStreamRegistry.ensure
  split
  · next st hst => exact ⟨hinv, st, hst⟩
  · next hnone =>
    have hun : r.Unattached id := by
      rintro h c hc rfl
      obtain ⟨st, hst, -⟩ := hinv.linked h c hc
      rw [hnone] at hst
      cases hst
    have hlone : Lone ops id .new := by
      refine ⟨?_, rfl, rfl, ?_, ?_⟩
      · rw [hinv.untouched id hnone]
        rfl
      · simp [OutboundState.new]
      · simp [OutboundState.new]
    exact ⟨hinv.alone (.refl _ _) hun rfl rfl rfl hlone (by simp)
      (fun j hj => List.mem_append_left _ hj) rfl, .new, by simp⟩

theorem ensure_consumers (r : OutboundStreamRegistry) (id : Nat) :
    (r.ensure id).consumers = r.consumers ∧ (r.ensure id).finished = r.finished ∧
      (r.ensure id).nextHandle = r.nextHandle := by
  unfold ensure
  split <;> exact ⟨rfl, rfl, rfl⟩

theorem ensure_states {r : OutboundStreamRegistry} {id : Nat} {st : OutboundState}
    (h : r.states id = some st) : (r.ensure id).states id = some st := by
  unfold ensure
  rw [h]
  exact h

/-- The condition on a call: a stream is attached once, and after `failAll` only with
an outcome; no chunk follows the close of its consumer. -/
def Orderly (r : OutboundStreamRegistry) : OutboundOp → Prop
  | .attach id =>
    r.Unattached id ∧ (r.finished = true → ∃ st, r.states id = some st ∧ st.settled = true)
  | .deliverChunk id _ => ∀ h c st, r.consumers h = some c → c.streamId = id →
    r.states id = some st → c.status = .closed → st.cancelled = true
  | _ => True

theorem delivered_append_chunk (ops : List OutboundOp) (id j : Nat) (data : Chunk) :
    delivered (ops ++ [.deliverChunk id data]) j = delivered ops j ++ if id = j then [data] else [] := by
  unfold delivered
  rw [List.filterMap_append]
  by_cases h : id = j <;> simp [h]

theorem later_chunk (ops : List OutboundOp) (id : Nat) (data : Chunk) :
    Later ops (ops ++ [.deliverChunk id data]) id := by
  refine ⟨fun op hop => List.mem_append_left _ hop, fun j hj => ?_⟩
  rw [delivered_append_chunk, if_neg (Ne.symm hj), List.append_nil]

theorem inv_deliverChunk {ops : List OutboundOp} {r : OutboundStreamRegistry} (hinv : Inv ops r)
    (id : Nat) (data : Chunk) (ho : r.Orderly (.deliverChunk id data)) :
    Inv (ops ++ [.deliverChunk id data]) (r.step (.deliverChunk id data)) := by
  obtain ⟨hinv', st, hst⟩ := hinv.ensure id
  obtain ⟨hcons, -, -⟩ := ensure_consumers r id
  have hsub : ∀ op ∈ ops, op ∈ ops ++ [OutboundOp.deliverChunk id data] :=
    fun op hop => List.mem_append_left _ hop
  have hdel : delivered (ops ++ [.deliverChunk id data]) id = delivered ops id ++ [data] := by
    rw [delivered_append_chunk, if_pos rfl]
  simp only [step, hst]
  split
  · next hcan =>
    -- A cancelled stream drops the chunk; its consumer is not readable.
    obtain ⟨h, c, hc, rfl⟩ : ∃ h c, (r.ensure id).consumers h = some c ∧ c.streamId = id := by
      by_contra hno
      have hun : (r.ensure id).Unattached id := fun h c hc hid => hno ⟨h, c, hc, hid⟩
      rw [(hinv'.lone id st hst hun).cancelled] at hcan
      cases hcan
    obtain ⟨st', hst', hcell⟩ := hinv'.linked h c hc
    obtain rfl : st' = st := Option.some.inj (hst'.symm.trans hst)
    refine hinv'.owned (later_chunk ops c.streamId data) (c := c) ?_ ?_ (hinv'.owner hc) ?_
      (hinv'.fresh h c hc) (Nat.le_refl _) (hinv'.order _ _ hst) (fun _ hj => hj) fun ho => ⟨ho, .inr hcan⟩
    · rw [← hst, Function.update_eq_self]
    · rw [← hc, Function.update_eq_self]
    · refine ⟨⟨?_, hcell.reading, hcell.waits, hcell.waiter, ?_, ?_,
        fun m hm => hsub _ (hcell.failed m hm), fun e he => hsub _ (hcell.ended e he)⟩, hcell.idle⟩
      · intro hr
        rw [(hcell.live hr).1] at hcan
        cases hcan
      · intro _ hno
        rw [hno] at hcan
        cases hcan
      · intro m hm
        obtain ⟨hpre, hj⟩ := hcell.errored m hm
        refine ⟨?_, hj.mono hsub⟩
        rw [hdel]
        exact hpre.trans (List.prefix_append _ _)
  · next hcan =>
    have hcan : st.cancelled = false := by simpa using hcan
    refine hinv'.change (fun st => { st with buffered := st.buffered ++ [data] }) hst
      (later_chunk ops id data) (fun _ => rfl) ?_ ?_ (fun h => h)
    · intro hl
      refine ⟨?_, hl.cancelled, hl.waiter, fun m hm => hsub _ (hl.failed m hm),
        fun e he => hsub _ (hl.ended e he)⟩
      rw [hdel, ← hl.buffered]
    · rintro h c c₀ w hc hs hid rfl hp hl
      have hopen : c.status ≠ .closed := by
        intro hclosed
        rw [hcons] at hc
        obtain ⟨st₀, hst₀, -⟩ := hinv.linked h c₀ hc
        rw [hid] at hst₀
        obtain rfl : st₀ = st := Option.some.inj ((ensure_states hst₀).symm.trans hst)
        rw [ho h c₀ st₀ hc hid hst₀ (hs.trans hclosed)] at hcan
        cases hcan
      refine ⟨?_, hl.reading, fun _ hp' => ?_, hl.waiter, ?_, ?_, fun m hm => hsub _ (hl.failed m hm),
        fun e he => hsub _ (hl.ended e he)⟩
      · intro hr
        obtain ⟨hc', hlive⟩ := hl.live hr
        refine ⟨hc', ?_⟩
        rw [hdel, ← hlive]
        simp
      · rw [hp] at hp'
        cases hp'
      · exact fun hclosed => absurd hclosed hopen
      · intro m hm
        obtain ⟨hpre, hj⟩ := hl.errored m hm
        refine ⟨?_, hj.mono hsub⟩
        rw [hdel]
        exact hpre.trans (List.prefix_append _ _)

/-- Calls that deliver no data. -/
theorem delivered_append_other {ops : List OutboundOp} {op : OutboundOp}
    (hop : ∀ id data, op ≠ .deliverChunk id data) (j : Nat) :
    delivered (ops ++ [op]) j = delivered ops j := by
  unfold delivered
  rw [List.filterMap_append]
  cases op with
  | deliverChunk id data => exact absurd rfl (hop id data)
  | _ => simp

theorem later_other (ops : List OutboundOp) {op : OutboundOp}
    (hop : ∀ id data, op ≠ .deliverChunk id data) (id : Nat) : Later ops (ops ++ [op]) id :=
  ⟨fun _ h => List.mem_append_left _ h, fun j _ => delivered_append_other hop j⟩

theorem inv_deliverEnd {ops : List OutboundOp} {r : OutboundStreamRegistry} (hinv : Inv ops r)
    (id : Nat) (error : Option String) :
    Inv (ops ++ [.deliverEnd id error]) (r.step (.deliverEnd id error)) := by
  obtain ⟨hinv', st, hst⟩ := hinv.ensure id
  have hlater : ∀ j, Later ops (ops ++ [.deliverEnd id error]) j := later_other ops (by simp)
  have hdel : ∀ j, delivered (ops ++ [.deliverEnd id error]) j = delivered ops j :=
    delivered_append_other (by simp)
  have hended : ∀ e, some error = some e → OutboundOp.deliverEnd id e ∈ ops ++ [.deliverEnd id error] := by
    rintro e ⟨⟩
    simp
  simp only [step, hst]
  refine hinv'.change (fun st => { st with ended := some error }) hst (hlater id) (fun _ => rfl) ?_ ?_ ?_
  · intro hl
    exact ⟨(hl.mono (hlater id).sub (hdel id)).buffered, hl.cancelled, hl.waiter,
      fun m hm => (hlater id).sub _ (hl.failed m hm), hended⟩
  · rintro h c c₀ w hc hs hid rfl hp hl
    have hl' := hl.mono (hlater c.streamId).sub (hdel _)
    refine ⟨hl'.live, hl'.reading, fun _ hp' => ?_, hl'.waiter, hl'.closed, hl'.errored, hl'.failed, hended⟩
    rw [hp] at hp'
    cases hp'
  · intro _
    exact .inl rfl

/-! ### `failAll` -/

/-- Failing a stream that waits for its outcome. -/
theorem inv_failOne {ops : List OutboundOp} {r : OutboundStreamRegistry} {error : String}
    (hinv : Inv ops r) (hop : .failAll error ∈ ops) (id : Nat) : Inv ops (r.failOne error id) := by
  unfold failOne
  split
  · exact hinv
  · next st hst =>
    split
    · exact hinv
    · have hfailed : ∀ m, some error = some m → OutboundOp.failAll m ∈ ops := by
        rintro m ⟨⟩
        exact hop
      refine hinv.change (fun st => { st with failed := some error }) hst (.refl _ _)
        (fun _ => rfl) ?_ ?_ ?_
      · intro hl
        exact ⟨hl.buffered, hl.cancelled, hl.waiter, hfailed, hl.ended⟩
      · rintro h c c₀ w hc hs hid rfl hp hl
        refine ⟨hl.live, hl.reading, fun _ hp' => ?_, hl.waiter, hl.closed, hl.errored, hfailed, hl.ended⟩
        rw [hp] at hp'
        cases hp'
      · intro _
        exact .inl (by simp [OutboundState.settled])

/-- The stream, if there is one, has an outcome or was cancelled. -/
def Done (r : OutboundStreamRegistry) (id : Nat) : Prop :=
  ∀ st, r.states id = some st → st.settled = true ∨ st.cancelled = true

theorem Done.pump {r : OutboundStreamRegistry} {id : Nat} (hd : r.Done id) (h : Nat) :
    (r.pump h).Done id ∧ (r.pump h).order = r.order := by
  unfold OutboundStreamRegistry.pump
  split
  · exact ⟨hd, rfl⟩
  · next c hc =>
    split
    · exact ⟨hd, rfl⟩
    · next st hst =>
      obtain ⟨he, hf, hcan, -⟩ := serve_served h st st.buffered c []
      refine ⟨fun st' hst' => ?_, rfl⟩
      by_cases hid : id = c.streamId
      · subst hid
        obtain rfl : (serve h st st.buffered c []).1 = st' := by simpa [setState, setConsumer] using hst'
        rw [OutboundState.settled, he, hf, hcan]
        exact hd st hst
      · exact hd st' (by simpa [setState, setConsumer, hid] using hst')

theorem Done.wake {r : OutboundStreamRegistry} {id : Nat} (hd : r.Done id) (j : Nat) :
    (r.wake j).Done id ∧ (r.wake j).order = r.order := by
  unfold OutboundStreamRegistry.wake
  split
  · exact ⟨hd, rfl⟩
  · next st hst =>
    split
    · exact ⟨hd, rfl⟩
    · split
      · exact ⟨hd, rfl⟩
      · refine Done.pump (fun st' hst' => ?_) _
        by_cases hid : id = j
        · subst hid
          obtain rfl : { st with waiter := none } = st' := by simpa [setState, setConsumer] using hst'
          exact hd st hst
        · exact hd st' (by simpa [setState, setConsumer, hid] using hst')

theorem Done.failOne {r : OutboundStreamRegistry} (error : String) {id : Nat} (j : Nat)
    (hd : id ≠ j → r.Done id) :
    (r.failOne error j).Done id ∧ (r.failOne error j).order = r.order := by
  unfold OutboundStreamRegistry.failOne
  split
  · next hnone =>
    refine ⟨fun st hst => ?_, rfl⟩
    by_cases hid : id = j
    · rw [hid, hnone] at hst
      cases hst
    · exact hd hid st hst
  · next st hst =>
    split
    · next hdone =>
      refine ⟨fun st' hst' => ?_, rfl⟩
      by_cases hid : id = j
      · rw [hid, hst] at hst'
        obtain rfl := Option.some.inj hst'
        simpa using hdone
      · exact hd hid st' hst'
    · refine Done.wake (fun st' hst' => ?_) _
      by_cases hid : id = j
      · subst hid
        obtain rfl : { st with failed := some error } = st' := by simpa [setState] using hst'
        exact .inl (by simp [OutboundState.settled])
      · exact hd hid st' (by simpa [setState, hid] using hst')

/-- After `failAll` has gone over `ids`, each of them has an outcome. -/
theorem inv_failEach {ops : List OutboundOp} {error : String} (hop : .failAll error ∈ ops)
    (ids : List Nat) {r : OutboundStreamRegistry} (hinv : Inv ops r) :
    Inv ops (ids.foldl (failOne error) r) ∧ (ids.foldl (failOne error) r).order = r.order ∧
      ∀ id, (id ∈ ids ∨ r.Done id) → (ids.foldl (failOne error) r).Done id := by
  induction ids generalizing r with
  | nil => exact ⟨hinv, rfl, fun id h => h.elim (fun h => by cases h) fun h => h⟩
  | cons j ids ih =>
    obtain ⟨h₁, h₂, h₃⟩ := ih (inv_failOne hinv hop j)
    have horder : (r.failOne error j).order = r.order :=
      (Done.failOne error j fun h => absurd rfl h).2
    refine ⟨h₁, h₂.trans horder, fun id h => h₃ id ?_⟩
    by_cases hid : id = j
    · exact .inr (Done.failOne error j fun hne => absurd hid hne).1
    · rcases h with hmem | hdone
      · exact .inl ((List.mem_cons.mp hmem).resolve_left hid)
      · exact .inr (Done.failOne error j fun _ => hdone).1

theorem inv_failAll {ops : List OutboundOp} {r : OutboundStreamRegistry} (hinv : Inv ops r)
    (error : String) : Inv (ops ++ [.failAll error]) (r.step (.failAll error)) := by
  have hinv' : Inv (ops ++ [.failAll error]) r :=
    hinv.later (fun _ h => List.mem_append_left _ h) (delivered_append_other (by simp))
  have hop : OutboundOp.failAll error ∈ ops ++ [.failAll error] := by simp
  obtain ⟨hfold, horder, hdone⟩ := inv_failEach hop r.order hinv'
  refine ⟨hfold.linked, hfold.unique, hfold.fresh, hfold.lone, hfold.untouched, hfold.order, ?_⟩
  intro _ h c st hc hst
  refine hdone c.streamId (.inl ?_) st hst
  rw [← horder]
  exact hfold.order c.streamId st hst

/-! ### The consumers' calls -/

/-- A consumer on its stream that pulls as long as it wants to. -/
theorem Inv.pump {ops ops' : List OutboundOp} {r r' : OutboundStreamRegistry} {h : Nat}
    {st : OutboundState} {c : Consumer} (hinv : Inv ops r) (hlater : Later ops ops' c.streamId)
    (hst : r.states c.streamId = some st) (hstates : r'.states = r.states)
    (hconsumers : r'.consumers = Function.update r.consumers h (some c))
    (howner : ∀ h' c', r.consumers h' = some c' → (h' = h ↔ c'.streamId = c.streamId))
    (hlinked : Linked ops' h st c) (hfresh : h < r'.nextHandle) (hnext : r.nextHandle ≤ r'.nextHandle)
    (horder : r'.order = r.order)
    (hover : r'.finished = true → r.finished = true ∧ (st.settled = true ∨ st.cancelled = true)) :
    Inv ops' (r'.pump h) := by
  have hc : r'.consumers h = some c := by rw [hconsumers, Function.update_self]
  have hcell : Cell ops' h (serve h st st.buffered c []).1 (serve h st st.buffered c []).2.1 :=
    serve_cell st.buffered [] hlinked
  obtain ⟨he, hf, hcan, hid⟩ := serve_served h st st.buffered c []
  rw [pump_eq hc (by rw [hstates]; exact hst)]
  refine hinv.owned (by rw [hid]; exact hlater) ?_ ?_ (by rw [hid]; exact howner) hcell hfresh hnext
    ?_ ?_ ?_
  · rw [hid, ← hstates]
  · simp [hconsumers, Function.update_idem]
  · rw [hid]
    exact horder ▸ hinv.order _ st hst
  · exact fun j hj => horder ▸ hj
  · rw [OutboundState.settled, he, hf, hcan]
    exact hover

theorem inv_attach {ops : List OutboundOp} {r : OutboundStreamRegistry} (hinv : Inv ops r) (id : Nat)
    (ho : r.Orderly (.attach id)) : Inv (ops ++ [.attach id]) (r.step (.attach id)) := by
  obtain ⟨hinv', st, hst⟩ := hinv.ensure id
  obtain ⟨hcons, hover, hnext⟩ := ensure_consumers r id
  obtain ⟨hun, hsettled⟩ := ho
  have hun' : (r.ensure id).Unattached id := by
    intro h c hc
    exact hun h c (by rw [← hcons]; exact hc)
  have hlater : Later ops (ops ++ [.attach id]) id := later_other ops (by simp) id
  have hlone := (hinv'.lone id st hst hun').mono hlater.sub (delivered_append_other (by simp) id)
  have hlinked : Linked (ops ++ [.attach id]) (r.ensure id).nextHandle st (.new id) := by
    refine ⟨fun _ => ⟨hlone.cancelled, hlone.buffered⟩, ?_, ?_, hlone.waiter, ?_, ?_, hlone.failed,
      hlone.ended⟩
    · simp [Consumer.new]
    · simp [Consumer.new]
    · simp [Consumer.new]
    · simp [Consumer.new]
  refine hinv'.pump hlater hst rfl rfl ?_ hlinked (Nat.lt_succ_self _)
    (Nat.le_succ _) rfl ?_
  · intro h c hc
    refine ⟨?_, fun heq => absurd heq (hun' h c hc)⟩
    rintro rfl
    exact absurd (hinv'.fresh _ c hc) (Nat.lt_irrefl _)
  · intro hov
    refine ⟨hov, .inl ?_⟩
    obtain ⟨st', hst', hs⟩ := hsettled (by rw [← hover]; exact hov)
    obtain rfl : st' = st := Option.some.inj ((ensure_states hst').symm.trans hst)
    exact hs

theorem inv_read {ops : List OutboundOp} {r : OutboundStreamRegistry} (hinv : Inv ops r) (h : Nat) :
    Inv (ops ++ [.read h]) (r.step (.read h)) := by
  have hsame : Inv (ops ++ [.read h]) r :=
    hinv.later (fun _ hop => List.mem_append_left _ hop) (delivered_append_other (by simp))
  simp only [step]
  split
  · exact hsame
  · next c hc =>
    split
    · exact hsame
    · next hopen =>
      have hopen : c.status = .readable := by simpa using hopen
      obtain ⟨st, hst, hcell⟩ := hsame.linked h c hc
      have howner := hsame.owner hc
      have hover := fun ho => And.intro ho (hsame.finished ho h c st hc hst)
      have hl := hcell.toLinked
      split
      · next chunk queue hq =>
        have hidle : c.pulling = false := by
          cases hp : c.pulling with
          | false => rfl
          | true =>
            rw [(hl.waits hopen hp).2.2] at hq
            cases hq
        have hnone : c.reads = 0 := by
          by_contra hne
          rw [(hl.reading (Nat.pos_of_ne_zero hne)).2] at hq
          cases hq
        refine hsame.pump (c := { c with queue, yielded := c.yielded ++ [chunk] })
          (.refl _ _) hst rfl rfl howner ?_ (hsame.fresh h c hc) (Nat.le_refl _) rfl hover
        refine ⟨fun _ => ⟨(hl.live hopen).1, ?_⟩, ?_, ?_, hl.waiter, ?_, ?_, hl.failed, hl.ended⟩
        · rw [← (hl.live hopen).2, hq]
          simp
        · simp [hnone]
        · simp [hidle]
        · simp [hopen]
        · simp [hopen]
      · next hq =>
        refine hsame.pump (c := { c with reads := c.reads + 1 }) (.refl _ _) hst rfl
          rfl howner ?_ (hsame.fresh h c hc) (Nat.le_refl _) rfl hover
        exact ⟨hl.live, fun _ => ⟨hopen, hq⟩, hl.waits, hl.waiter, hl.closed, hl.errored, hl.failed,
          hl.ended⟩

theorem inv_cancel {ops : List OutboundOp} {r : OutboundStreamRegistry} (hinv : Inv ops r) (h : Nat)
    (reason : String) : Inv (ops ++ [.cancel h reason]) (r.step (.cancel h reason)) := by
  have hsame : Inv (ops ++ [.cancel h reason]) r :=
    hinv.later (fun _ hop => List.mem_append_left _ hop) (delivered_append_other (by simp))
  simp only [step]
  split
  · exact hsame
  · next c hc =>
    split
    · exact hsame
    · next hopen =>
      split
      · exact hsame
      · next st hst =>
        obtain ⟨st', hst', hcell⟩ := hsame.linked h c hc
        obtain rfl : st' = st := Option.some.inj (hst'.symm.trans hst)
        have hl := hcell.toLinked
        have howner := hsame.owner hc
        refine hsame.owned (c := c.finish .closed) (.refl _ _) rfl rfl howner ?_
          (hsame.fresh h c hc) (Nat.le_refl _) (hsame.order _ _ hst) (fun _ hj => hj)
          (fun ho => ⟨ho, .inr rfl⟩)
        refine ⟨⟨?_, ?_, ?_, hl.waiter, ?_, ?_, hl.failed, hl.ended⟩, ?_⟩
        · simp [Consumer.finish]
        · simp [Consumer.finish]
        · simp [Consumer.finish]
        · simp [Consumer.finish]
        · simp [Consumer.finish]
        · simp [Consumer.finish, Consumer.wantsPull]

/-! ### Runs -/

open Execution

theorem inv_new : Inv [] new := by
  refine ⟨?_, ?_, ?_, ?_, fun _ _ => rfl, ?_, ?_⟩
  · intro h c hc
    cases hc
  · intro h h' c c' hc
    cases hc
  · intro h c hc
    cases hc
  · intro id st hst
    cases hst
  · intro id st hst
    cases hst
  · intro ho
    cases ho

theorem inv_step {ops : List OutboundOp} {r : OutboundStreamRegistry} (hinv : Inv ops r)
    (op : OutboundOp) (ho : r.Orderly op) : Inv (ops ++ [op]) (r.step op) := by
  cases op with
  | deliverChunk id data => exact inv_deliverChunk hinv id data ho
  | deliverEnd id error => exact inv_deliverEnd hinv id error
  | failAll error => exact inv_failAll hinv error
  | attach id => exact inv_attach hinv id ho
  | read h => exact inv_read hinv h
  | cancel h reason => exact inv_cancel hinv h reason

theorem inv_exec {before : List OutboundOp} {r : OutboundStreamRegistry} (hinv : Inv before r)
    {ops : List OutboundOp} (ho : Along step Orderly r ops) : Inv (before ++ ops) (exec step r ops) := by
  induction ops generalizing before r with
  | nil =>
    rw [List.append_nil]
    exact hinv
  | cons op ops ih =>
    rw [← List.singleton_append, ← List.append_assoc]
    exact ih (inv_step hinv op ho.1) ho.2

/-- A readable consumer of a stream with an outcome has a chunk to yield. -/
theorem Inv.ready {ops : List OutboundOp} {r : OutboundStreamRegistry} {h : Nat} {c : Consumer}
    (hinv : Inv ops r) (hover : r.finished = true) (hc : r.consumers h = some c) :
    c.reads = 0 ∧ (c.status = .readable → c.queue ≠ []) := by
  obtain ⟨st, hst, hcell⟩ := hinv.linked h c hc
  have hdone := hinv.finished hover h c st hc hst
  have hreads : c.reads = 0 := by
    by_contra hne
    obtain ⟨hset, hcan⟩ := hcell.waiting (Nat.pos_of_ne_zero hne)
    simp [hset, hcan] at hdone
  refine ⟨hreads, fun hs hq => ?_⟩
  have hp : c.pulling = true := by
    have hidle := hcell.idle
    simpa [Consumer.wantsPull, hs, hq] using hidle
  simp [(hcell.waits hs hp).2.1, (hcell.live hs).1] at hdone

theorem serve_yielded (handle : Nat) (st : OutboundState) (buffered : List Chunk) (c : Consumer)
    (calls : List TransportCall) :
    c.yielded.length ≤ (serve handle st buffered c calls).2.1.yielded.length := by
  induction buffered generalizing c calls with
  | nil =>
    unfold serve
    split
    · exact Nat.le_refl _
    · split <;> exact Nat.le_refl _
  | cons chunk rest ih =>
    unfold serve
    split
    · exact Nat.le_refl _
    · refine Nat.le_trans ?_ (ih (c.enqueue chunk) _)
      unfold Consumer.enqueue
      split
      · simp
      · exact Nat.le_refl _

theorem step_over {r : OutboundStreamRegistry} (hover : r.finished = true) (h : Nat) :
    (r.step (.read h)).finished = true := by
  have hpump : ∀ r' : OutboundStreamRegistry, (r'.pump h).finished = r'.finished := by
    intro r'
    unfold pump
    split
    · rfl
    · split <;> rfl
  simp only [step]
  split
  · exact hover
  · split
    · exact hover
    · split <;> rw [hpump] <;> exact hover

/-- A read of a readable consumer with a queue yields. -/
theorem read_yields {ops : List OutboundOp} {r : OutboundStreamRegistry} {h : Nat} {c : Consumer}
    (hinv : Inv ops r) (hover : r.finished = true) (hc : r.consumers h = some c) :
    ∃ c', (r.step (.read h)).consumers h = some c' ∧ c'.streamId = c.streamId ∧
      (c.status ≠ .readable → c' = c) ∧
      (c.status = .readable → c.yielded.length + 1 ≤ c'.yielded.length) := by
  by_cases hs : c.status = .readable
  · obtain ⟨st, hst, -⟩ := hinv.linked h c hc
    have hq := (hinv.ready hover hc).2 hs
    cases hqueue : c.queue with
    | nil => exact absurd hqueue hq
    | cons chunk queue =>
      have hc' : (r.setConsumer h { c with queue, yielded := c.yielded ++ [chunk] }).consumers h =
          some { c with queue, yielded := c.yielded ++ [chunk] } := by
        simp [setConsumer]
      have hstep : r.step (.read h) =
          (r.setConsumer h { c with queue, yielded := c.yielded ++ [chunk] }).pump h := by
        simp [step, hc, hs, hqueue]
      rw [hstep, pump_eq hc' hst]
      refine ⟨_, Function.update_self .., (serve_served ..).streamId, fun hne => absurd hs hne, fun _ => ?_⟩
      refine Nat.le_trans ?_ (serve_yielded ..)
      simp
  · refine ⟨c, ?_, rfl, fun _ => rfl, fun h => absurd h hs⟩
    simp [step, hc, hs]

/-- Reading on ends the consumer, or yields a chunk each time. -/
theorem reads_yield {ops : List OutboundOp} {r : OutboundStreamRegistry} {h : Nat} {c : Consumer}
    (hinv : Inv ops r) (hover : r.finished = true) (hc : r.consumers h = some c) (k : Nat) :
    ∃ ops' c', Inv ops' (exec step r (List.replicate k (.read h))) ∧
      (exec step r (List.replicate k (.read h))).finished = true ∧
      (exec step r (List.replicate k (.read h))).consumers h = some c' ∧ c'.streamId = c.streamId ∧
      delivered ops' c.streamId = delivered ops c.streamId ∧
      (c'.status = .readable → c.status = .readable ∧ c.yielded.length + k ≤ c'.yielded.length) := by
  induction k generalizing ops r c with
  | zero => exact ⟨ops, c, hinv, hover, hc, rfl, rfl, fun hs => ⟨hs, Nat.le_refl _⟩⟩
  | succ k ih =>
    obtain ⟨c₁, hc₁, hid₁, hsame, hyield⟩ := read_yields hinv hover hc
    obtain ⟨ops', c', hinv', hover', hc', hid', hdel, hgrow⟩ :=
      ih (inv_read hinv h) (step_over hover h) hc₁
    rw [hid₁, delivered_append_other (by simp)] at hdel
    refine ⟨ops', c', hinv', hover', hc', hid'.trans hid₁, hdel, fun hs => ?_⟩
    obtain ⟨hs₁, hlen⟩ := hgrow hs
    have hs₀ : c.status = .readable := by
      by_contra hne
      rw [hsame hne] at hs₁
      exact hne hs₁
    have hone := hyield hs₀
    exact ⟨hs₀, by omega⟩

/-- What a consumer can rely on. -/
structure Settles (ops : List OutboundOp) (r : OutboundStreamRegistry) (h : Nat) (c : Consumer)
    (st : OutboundState) : Prop where
  /-- Once the run is over no read waits, and the next one yields. -/
  reads : r.finished = true → c.reads = 0 ∧ (c.status = .readable → c.queue ≠ [])
  /-- Reading on ends the stream. -/
  drains : r.finished = true → ∃ c',
    (exec step r (List.replicate (delivered ops c.streamId).length (.read h))).consumers h = some c' ∧
      c'.status ≠ .readable
  live : c.status = .readable → c.yielded ++ c.queue ++ st.buffered = delivered ops c.streamId
  closed : c.status = .closed → st.cancelled = false →
    c.yielded = delivered ops c.streamId ∧ .deliverEnd c.streamId none ∈ ops
  errored : ∀ m, c.status = .errored m →
    c.yielded <+: delivered ops c.streamId ∧ ErrorSource ops c.streamId m

theorem Inv.drains {ops : List OutboundOp} {r : OutboundStreamRegistry} {h : Nat} {c : Consumer}
    (hinv : Inv ops r) (hover : r.finished = true) (hc : r.consumers h = some c) : ∃ c',
    (exec step r (List.replicate (delivered ops c.streamId).length (.read h))).consumers h = some c' ∧
      c'.status ≠ .readable := by
  obtain ⟨ops', c', hinv', hover', hc', hid, hdel, hgrow⟩ :=
    reads_yield hinv hover hc (delivered ops c.streamId).length
  refine ⟨c', hc', fun hs => ?_⟩
  -- A readable consumer would have yielded everything and still have a queue.
  obtain ⟨st, -, hcell⟩ := hinv'.linked h c' hc'
  have hlive := congrArg List.length (hcell.live hs).2
  rw [hid, hdel] at hlive
  simp only [List.length_append] at hlive
  have hpos := List.length_pos_of_ne_nil ((hinv'.ready hover' hc').2 hs)
  have hlen := (hgrow hs).2
  omega

/-- In every orderly run each attached stream yields what was delivered for it, in
order, then closes or fails with its own error or that of `failAll`; once the run is
over no read is left pending. -/
theorem attached_settles {ops : List OutboundOp} (ho : Along step Orderly new ops) {h : Nat}
    {c : Consumer} {st : OutboundState} (hc : (exec step new ops).consumers h = some c)
    (hst : (exec step new ops).states c.streamId = some st) :
    Settles ops (exec step new ops) h c st := by
  have hinv : Inv ops (exec step new ops) := inv_exec inv_new ho
  obtain ⟨st', hst', hcell⟩ := hinv.linked h c hc
  obtain rfl : st' = st := Option.some.inj (hst'.symm.trans hst)
  exact ⟨fun hover => hinv.ready hover hc, fun hover => hinv.drains hover hc,
    fun hs => (hcell.live hs).2, hcell.closed, hcell.errored⟩

/-- A body whose state exists when the run ends without it. -/
def failedBody : List OutboundOp := [.attach 1, .deliverChunk 1 [7], .failAll "closed", .read 0, .read 0]

theorem failedBody_orderly : Along step Orderly new failedBody := by
  refine ⟨⟨?_, ?_⟩, ?_, trivial, trivial, trivial, trivial⟩
  · intro h c hc
    cases hc
  · intro hov
    cases hov
  · intro h c st hc _ _ hclosed
    have h0 : h = 0 := by
      by_contra hne
      have hnone : (step new (.attach 1)).consumers h = none := by
        simp [step, ensure, pump, serve, setState, setConsumer, new, Consumer.new, Consumer.wantsPull,
          OutboundState.new, hne]
      rw [hnone] at hc
      cases hc
    subst h0
    obtain rfl : _ = c := Option.some.inj hc
    cases hclosed

theorem failedBody_settles : ∃ c st, (exec step new failedBody).consumers 0 = some c ∧
    (exec step new failedBody).states c.streamId = some st ∧
    c.status = .errored "closed" ∧ c.yielded = [[7]] ∧
    Settles failedBody (exec step new failedBody) 0 c st :=
  ⟨_, _, rfl, rfl, rfl, rfl, attached_settles failedBody_orderly rfl rfl⟩

/-- A stream first heard of by an attach after `failAll`: the read waits forever. -/
theorem attach_after_failAll : ¬ ∀ ops h c st, (exec step new ops).consumers h = some c →
    (exec step new ops).states c.streamId = some st → Settles ops (exec step new ops) h c st := by
  intro hall
  have hsettles := hall [.failAll "closed", .attach 1, .read 0] 0 _ _ rfl rfl
  have hpending : 1 = 0 := (hsettles.reads rfl).1
  cases hpending

end OutboundStreamRegistry

end Iso4
