/-
The credit of one inbound stream over both processes
(`packages/iso4-sandbox/src/client.ts`, `crates/core/src/v8/streams.rs`).

The host pumps a body source: it sends probed chunks first and then what the
reader gives, split at the credit left and at the chunk cap, and suspends at
every read and every write.  Chunks are in flight to the runtime, grants and
cancels are in flight to the host, and the runtime buffers what the guest has
not read (`Iso4.InBodies`).  The stream is followed from its activation, with
its descriptor rehydrated and the connection up.

* `credit_conserved` — the window over every interleaving;
* `grant_after_end` — once the source has ended at the host, grants are
  discarded there.
-/
import Iso4.InBodies
import Mathlib.Algebra.Order.BigOperators.Group.List
import Mathlib.Algebra.Order.Group.Nat

namespace Iso4

/-! ### The host's pump -/

/-- Where the pump of a source stands. -/
inductive PumpPc where
  | idle
  /-- Awaiting the reader. -/
  | reading
  /-- Awaiting the write of a chunk. -/
  | writing
  deriving DecidableEq, Repr

/-- One registered body source.  `probed` are the chunks to send before the
reader is pulled again (`prefix` in the source), `registered` says that the
run's registry still holds it. -/
structure HostSource where
  probed : List (List UInt8)
  credit : Nat
  pump : PumpPc
  done : Bool
  registered : Bool
  deriving DecidableEq, Repr

/-- A frame to the runtime. -/
inductive ToRuntime where
  | chunk (data : List UInt8)
  | ended (error : Option String)
  deriving DecidableEq, Repr

/-- A frame to the host. -/
inductive ToHost where
  | pull (credit : Nat)
  | cancel (reason : String)
  deriving DecidableEq, Repr

/-- What the reader of the source answers. -/
inductive ReaderResult where
  | value (data : List UInt8)
  | done
  | failed (message : String)
  deriving DecidableEq, Repr

namespace HostSource

/-- Send a chunk, as far as credit and cap allow; the rest goes back to the
front. -/
def sendChunk (s : HostSource) (chunk : List UInt8) : HostSource × List ToRuntime :=
  let limit := min streamChunkMaxBytes s.credit
  let probed := if limit < chunk.length then chunk.drop limit :: s.probed else s.probed
  let chunk := if limit < chunk.length then chunk.take limit else chunk
  ({ s with probed, credit := s.credit - chunk.length, pump := .writing }, [.chunk chunk])

/-- The loop of `pumpStream` from its head. -/
def loop (s : HostSource) : HostSource × List ToRuntime :=
  if s.credit = 0 ∨ s.done = true then ({ s with pump := .idle }, [])
  else match s.probed with
    | chunk :: probed => { s with probed }.sendChunk chunk
    | [] => ({ s with pump := .reading }, [])

/-- `pumpStream`: one pump at a time. -/
def pumpStream (s : HostSource) : HostSource × List ToRuntime :=
  if s.registered = false ∨ s.pump ≠ .idle ∨ s.done = true then (s, []) else s.loop

/-- The source is over: nothing pumps or credits it any more. -/
def finish (s : HostSource) : HostSource :=
  { s with done := true, registered := false, pump := .idle }

/-- The reader answers. -/
def readResolves (s : HostSource) : ReaderResult → HostSource × List ToRuntime
  | .value data => s.sendChunk data
  | .done => (s.finish, [.ended none])
  | .failed message => (s.finish, [.ended (some message)])

/-- A frame of the runtime arrives. -/
def receive (s : HostSource) : ToHost → HostSource × List ToRuntime
  | .pull credit =>
    if s.registered then { s with credit := s.credit + credit }.pumpStream else (s, [])
  | .cancel _ => if s.registered then ({ s with done := true, registered := false }, []) else (s, [])

/-- `releaseAll`, on one source. -/
def release (s : HostSource) : HostSource :=
  if s.registered then { s with done := true, registered := false } else s

end HostSource

/-! ### Both ends -/

structure CreditWorld where
  host : HostSource
  toRuntime : List ToRuntime
  body : InBody
  toHost : List ToHost
  /-- The run failed with "stream credit window violated by the host". -/
  violated : Bool

inductive CreditOp where
  | readResolves (r : ReaderResult)
  | writeResolves
  /-- The runtime takes the next frame. -/
  | deliver
  | read
  | cancel (reason : String)
  /-- The host takes the next frame. -/
  | receive
  /-- The host's run is over. -/
  | release
  deriving DecidableEq, Repr

namespace CreditWorld

/-- `activateStreams`: the initial window, and the first pump. -/
def activated (probed : List (List UInt8)) : CreditWorld :=
  let source : HostSource := ⟨probed, streamCreditWindowBytes, .idle, false, true⟩
  ⟨source.pumpStream.1, source.pumpStream.2, .new, [], false⟩

def onHost (w : CreditWorld) (f : HostSource → HostSource × List ToRuntime) : CreditWorld :=
  { w with host := (f w.host).1, toRuntime := w.toRuntime ++ (f w.host).2 }

/-- The frames to the host among the effects of a stream operation. -/
def replies (effects : List InEffect) : List ToHost :=
  effects.filterMap fun
    | .grant credit => some (.pull credit)
    | .cancelHost reason => some (.cancel reason)
    | .observed _ => none

def onBody (w : CreditWorld) (body : InBody) (effects : List InEffect) : CreditWorld :=
  { w with body, toHost := w.toHost ++ replies effects }

def step (w : CreditWorld) : CreditOp → CreditWorld
  | .readResolves r => if w.host.pump = .reading then w.onHost (·.readResolves r) else w
  | .writeResolves => if w.host.pump = .writing then w.onHost (·.loop) else w
  | .deliver =>
    match w.toRuntime with
    | [] => w
    | .chunk data :: rest =>
      let w := { w with toRuntime := rest }
      match w.body.deliverChunk data with
      | some (body, effects) => w.onBody body effects
      | none => { w with violated := true }
    | .ended error :: rest =>
      { w with toRuntime := rest }.onBody (w.body.deliverEnd error).1 (w.body.deliverEnd error).2
  | .read => w.onBody w.body.read.1 w.body.read.2
  | .cancel reason => w.onBody (w.body.cancel reason).1 (w.body.cancel reason).2
  | .receive =>
    match w.toHost with
    | [] => w
    | m :: rest => { w with toHost := rest }.onHost (·.receive m)
  | .release => { w with host := w.host.release }

/-- The bytes of the chunks in flight. -/
def chunkBytes (frames : List ToRuntime) : Nat :=
  (frames.map fun
    | .chunk data => data.length
    | .ended _ => 0).sum

/-- The credit of the grants in flight. -/
def grantBytes (frames : List ToHost) : Nat :=
  (frames.map fun
    | .pull credit => credit
    | .cancel _ => 0).sum

/-- Host credit, chunks in flight, buffered bytes and grants in flight. -/
def ledger (w : CreditWorld) : Nat :=
  w.host.credit + chunkBytes w.toRuntime + w.body.bufferedBytes + grantBytes w.toHost

end CreditWorld

/-! ### What each party does to the ledger -/

open CreditWorld (chunkBytes grantBytes replies)

@[simp] theorem chunkBytes_append (fs gs : List ToRuntime) :
    chunkBytes (fs ++ gs) = chunkBytes fs + chunkBytes gs := by
  simp [chunkBytes]

@[simp] theorem grantBytes_append (fs gs : List ToHost) :
    grantBytes (fs ++ gs) = grantBytes fs + grantBytes gs := by
  simp [grantBytes]

theorem replies_append (es fs : List InEffect) : replies (es ++ fs) = replies es ++ replies fs :=
  List.filterMap_append

/-- The host pays for what it sends out of its credit, and sends no chunk
above the cap. -/
structure HostSource.Pays (s : HostSource) (income : Nat) (t : HostSource × List ToRuntime) : Prop where
  credit : t.1.credit + chunkBytes t.2 = s.credit + income
  registered : t.1.registered = true → s.registered = true
  sized : ∀ data, .chunk data ∈ t.2 → data.length ≤ streamChunkMaxBytes

namespace HostSource

theorem pays_nothing {s t : HostSource} (hc : t.credit = s.credit)
    (hr : t.registered = true → s.registered = true) : s.Pays 0 (t, []) :=
  ⟨by simp [hc, chunkBytes], hr, by simp⟩

theorem pays_sendChunk (s : HostSource) (chunk : List UInt8) : s.Pays 0 (s.sendChunk chunk) := by
  have hlen : (if min streamChunkMaxBytes s.credit < chunk.length then
      chunk.take (min streamChunkMaxBytes s.credit) else chunk).length ≤
      min streamChunkMaxBytes s.credit := by
    split
    · simp
    · omega
  have hchunk : s.sendChunk chunk = ({ s with
      probed := if min streamChunkMaxBytes s.credit < chunk.length then
        chunk.drop (min streamChunkMaxBytes s.credit) :: s.probed else s.probed
      credit := s.credit - (if min streamChunkMaxBytes s.credit < chunk.length then
        chunk.take (min streamChunkMaxBytes s.credit) else chunk).length
      pump := .writing }, [.chunk (if min streamChunkMaxBytes s.credit < chunk.length then
        chunk.take (min streamChunkMaxBytes s.credit) else chunk)]) := rfl
  rw [hchunk]
  generalize (if min streamChunkMaxBytes s.credit < chunk.length then
    chunk.take (min streamChunkMaxBytes s.credit) else chunk) = sent at hlen ⊢
  refine ⟨?_, id, ?_⟩
  · simp only [chunkBytes, List.map_cons, List.map_nil, List.sum_cons, List.sum_nil]
    omega
  · intro data hd
    obtain rfl : data = sent := ToRuntime.chunk.inj (List.mem_singleton.mp hd)
    omega

theorem pays_loop (s : HostSource) : s.Pays 0 s.loop := by
  unfold loop
  split
  · exact pays_nothing rfl id
  · split
    · next chunk probed _ =>
      have h := pays_sendChunk { s with probed } chunk
      exact ⟨h.credit, h.registered, h.sized⟩
    · exact pays_nothing rfl id

theorem pays_pumpStream (s : HostSource) : s.Pays 0 s.pumpStream := by
  unfold pumpStream
  split
  · exact pays_nothing rfl id
  · exact pays_loop s

theorem pays_readResolves (s : HostSource) (r : ReaderResult) : s.Pays 0 (s.readResolves r) := by
  cases r with
  | value data => exact pays_sendChunk s data
  | done => exact ⟨by simp [readResolves, finish, chunkBytes], by simp [readResolves, finish],
      by simp [readResolves]⟩
  | failed message => exact ⟨by simp [readResolves, finish, chunkBytes],
      by simp [readResolves, finish], by simp [readResolves]⟩

/-- A registered source takes a grant in. -/
theorem pays_receive_pull {s : HostSource} (credit : Nat) (hr : s.registered = true) :
    s.Pays credit (s.receive (.pull credit)) := by
  have heq : s.receive (.pull credit) = { s with credit := s.credit + credit }.pumpStream := by
    simp [receive, hr]
  rw [heq]
  have h := pays_pumpStream { s with credit := s.credit + credit }
  exact ⟨h.credit, h.registered, h.sized⟩

/-- Whatever arrives at a source that is no longer registered is discarded. -/
theorem receive_unregistered {s : HostSource} (m : ToHost) (hr : s.registered = false) :
    s.receive m = (s, []) := by
  cases m <;> simp [receive, hr]

end HostSource

namespace InBody

/-- A stream operation that takes `taken` bytes in turns them into buffered
bytes and grants, unless it cancels the stream. -/
structure Accounts (s : InBody) (taken : Nat) (t : InBody × List InEffect) : Prop where
  cancelled : t.1.cancelled = false → s.cancelled = false
  conserved : t.1.cancelled = false →
    t.1.bufferedBytes + grantBytes (replies t.2) = s.bufferedBytes + taken
  sized : ∀ data ∈ t.1.buffered, data ∈ s.buffered ∨ data.length = taken

theorem grantBytes_credit {n : Nat} (h : n ≤ streamChunkMaxBytes) :
    grantBytes (replies (sendStreamCredit (n % 2 ^ 32))) = n := by
  have hmod : n % 2 ^ 32 = n := Nat.mod_eq_of_lt (by unfold streamChunkMaxBytes at h; omega)
  rw [hmod]
  unfold sendStreamCredit
  split
  · next hz => simp [hz, replies, grantBytes]
  · simp [replies, grantBytes]

/-- Handing out a chunk grants its length. -/
theorem grantBytes_chunk {data : List UInt8} (h : data.length ≤ streamChunkMaxBytes) :
    grantBytes (replies (sendStreamCredit (data.length % 2 ^ 32) ++ [.observed (.chunk data)])) =
      data.length := by
  rw [replies_append, grantBytes_append, grantBytes_credit h]
  rfl

theorem accounts_deliverChunk {s : InBody} {data : List UInt8} {t : InBody × List InEffect}
    (hlen : data.length ≤ streamChunkMaxBytes) (h : s.deliverChunk data = some t) :
    s.Accounts data.length t := by
  unfold deliverChunk at h
  split at h
  · next hc =>
    obtain rfl := Option.some.inj h
    exact ⟨id, by simp [hc], fun _ hd => .inl hd⟩
  · split at h
    · obtain rfl := Option.some.inj h
      refine ⟨id, fun _ => ?_, fun _ hd => .inl hd⟩
      show s.bufferedBytes + _ = _
      rw [grantBytes_chunk hlen]
    · split at h
      · cases h
      · obtain rfl := Option.some.inj h
        refine ⟨id, fun _ => rfl, ?_⟩
        intro d hd
        rcases List.mem_append.mp hd with hd | hd
        · exact .inl hd
        · exact .inr (by rw [List.mem_singleton.mp hd])

theorem accounts_deliverEnd (s : InBody) (error : Option String) :
    s.Accounts 0 (s.deliverEnd error) := by
  unfold deliverEnd
  dsimp only
  split <;> exact ⟨id, fun _ => rfl, fun _ hd => .inl hd⟩

theorem accounts_read {s : InBody} (h : s.WellKept)
    (hlen : ∀ data ∈ s.buffered, data.length ≤ streamChunkMaxBytes) : s.Accounts 0 s.read := by
  unfold read
  split
  · next data rest hb =>
    rw [hb] at hlen
    refine ⟨id, fun _ => ?_, fun d hd => .inl (by rw [hb]; exact List.mem_cons_of_mem _ hd)⟩
    rw [grantBytes_chunk (hlen data List.mem_cons_self)]
    have hc := h.counted
    rw [hb] at hc
    simp only [List.map_cons, List.sum_cons] at hc
    simp only
    omega
  · split
    · exact ⟨id, fun _ => rfl, fun _ hd => .inl hd⟩
    · split
      · exact ⟨id, fun _ => rfl, fun _ hd => .inl hd⟩
      · split <;> exact ⟨id, fun _ => rfl, fun _ hd => .inl hd⟩

theorem accounts_cancel (s : InBody) (reason : String) : s.Accounts 0 (s.cancel reason) := by
  unfold cancel
  dsimp only
  split
  · exact ⟨by simp, by simp, by simp⟩
  · refine ⟨id, fun _ => ?_, fun _ hd => .inl hd⟩
    rw [List.nil_append]
    split <;> rfl

end InBody

/-! ### Every interleaving -/

namespace CreditWorld

structure Inv (w : CreditWorld) : Prop where
  kept : w.body.WellKept
  chunks : ∀ data, .chunk data ∈ w.toRuntime → data.length ≤ streamChunkMaxBytes
  buffered : ∀ data ∈ w.body.buffered, data.length ≤ streamChunkMaxBytes
  conserved : w.body.cancelled = false → w.host.registered = true →
    w.ledger = streamCreditWindowBytes
  bounded : w.body.cancelled = false → w.ledger ≤ streamCreditWindowBytes
  safe : w.violated = false

/-- The host acts; what it discards (`lost`) it discards unregistered. -/
theorem Inv.host {w w' : CreditWorld} {f : HostSource → HostSource × List ToRuntime}
    {income : Nat} (lost : Nat) (h : w.Inv) (hf : w.host.Pays income (f w.host))
    (hw : w' = { w with host := (f w.host).1
                        toRuntime := w.toRuntime ++ (f w.host).2
                        toHost := w'.toHost })
    (hsum : grantBytes w'.toHost + income + lost = grantBytes w.toHost)
    (hlost : w.host.registered = true → lost = 0) : w'.Inv := by
  have hledger : w'.ledger + lost = w.ledger := by
    have hc := hf.credit
    rw [hw]
    simp only [ledger, chunkBytes_append]
    omega
  have hbody : w'.body = w.body := by rw [hw]
  have hreg : w'.host.registered = true → w.host.registered = true := by
    rw [hw]
    exact hf.registered
  refine ⟨by rw [hbody]; exact h.kept, ?_, by rw [hbody]; exact h.buffered, ?_, ?_, ?_⟩
  · intro data hd
    rw [hw] at hd
    rcases List.mem_append.mp hd with hd | hd
    · exact h.chunks data hd
    · exact hf.sized data hd
  · intro hc hr
    rw [hbody] at hc
    have := h.conserved hc (hreg hr)
    have := hlost (hreg hr)
    omega
  · intro hc
    rw [hbody] at hc
    have := h.bounded hc
    omega
  · rw [hw]
    exact h.safe

/-- The runtime acts on what it took off the link. -/
theorem Inv.body {w : CreditWorld} {t : InBody × List InEffect} {rest : List ToRuntime}
    {taken : Nat} (h : w.Inv) (hk : t.1.WellKept) (ht : w.body.Accounts taken t)
    (hrest : ∀ f ∈ rest, f ∈ w.toRuntime) (hsum : chunkBytes rest + taken = chunkBytes w.toRuntime)
    (htaken : taken ≤ streamChunkMaxBytes) :
    Inv ({ w with toRuntime := rest }.onBody t.1 t.2) := by
  have hledger : t.1.cancelled = false →
      ({ w with toRuntime := rest }.onBody t.1 t.2).ledger = w.ledger := by
    intro hc
    have := ht.conserved hc
    simp only [ledger, onBody, grantBytes_append]
    omega
  refine ⟨hk, fun data hd => h.chunks data (hrest _ hd), ?_, ?_, ?_, h.safe⟩
  · intro data hd
    rcases ht.sized data hd with hd | hd
    · exact h.buffered data hd
    · omega
  · intro hc hr
    rw [hledger hc]
    exact h.conserved (ht.cancelled hc) hr
  · intro hc
    rw [hledger hc]
    exact h.bounded (ht.cancelled hc)

theorem inv_activated (probed : List (List UInt8)) : (activated probed).Inv := by
  have hpays := HostSource.pays_pumpStream ⟨probed, streamCreditWindowBytes, .idle, false, true⟩
  have hledger : (activated probed).ledger = streamCreditWindowBytes := by
    have := hpays.credit
    simp only [activated, ledger, InBody.new, grantBytes, List.map_nil, List.sum_nil]
    omega
  exact ⟨InBody.wellKept_new, hpays.sized, by simp [activated, InBody.new], fun _ _ => hledger,
    fun _ => Nat.le_of_eq hledger, rfl⟩

theorem inv_deliver {w : CreditWorld} (h : w.Inv) : (w.step .deliver).Inv := by
  simp only [step]
  split
  · exact h
  · next data rest hq =>
    have hlen : data.length ≤ streamChunkMaxBytes := h.chunks data (by rw [hq]; exact List.mem_cons_self)
    have hsum : chunkBytes rest + data.length = chunkBytes w.toRuntime := by
      rw [hq]
      simp [chunkBytes, Nat.add_comm]
    split
    · next body effects hd =>
      exact h.body (h.kept.deliverChunk hd) (InBody.accounts_deliverChunk hlen hd)
        (fun f hf => by rw [hq]; exact List.mem_cons_of_mem _ hf) hsum hlen
    · next hd =>
      -- A chunk within the window fits: the refusal cannot happen.
      exfalso
      unfold InBody.deliverChunk at hd
      split at hd
      · cases hd
      · next hc =>
        split at hd
        · cases hd
        · split at hd
          · next hcap =>
            have hb := h.bounded (by simpa using hc)
            simp only [InBody.bufferCap] at hcap
            simp only [ledger] at hb
            omega
          · cases hd
  · next error rest hq =>
    refine h.body (h.kept.deliverEnd error) (InBody.accounts_deliverEnd w.body error)
      (fun f hf => by rw [hq]; exact List.mem_cons_of_mem _ hf) ?_ (Nat.zero_le _)
    rw [hq]
    simp [chunkBytes]

theorem inv_receive {w : CreditWorld} (h : w.Inv) : (w.step .receive).Inv := by
  simp only [step]
  split
  · exact h
  · next m rest hq =>
    cases hr : w.host.registered with
    | true =>
      cases m with
      | pull credit =>
        refine h.host (f := (·.receive (.pull credit))) 0 (HostSource.pays_receive_pull credit hr) rfl ?_ (fun _ => rfl)
        rw [hq]
        simp [onHost, grantBytes, Nat.add_comm]
      | cancel reason =>
        refine h.host (f := (·.receive (.cancel reason))) 0 (?_ : HostSource.Pays _ 0 _) rfl ?_
          (fun _ => rfl)
        · simp only [HostSource.receive, hr, if_true]
          exact HostSource.pays_nothing rfl (by simp)
        · rw [hq]
          simp [onHost, grantBytes]
    | false =>
      refine h.host (f := (·.receive m)) (grantBytes [m]) (?_ : HostSource.Pays _ 0 _) rfl ?_ ?_
      · rw [HostSource.receive_unregistered m hr]
        exact HostSource.pays_nothing rfl id
      · rw [hq]
        simp only [onHost, grantBytes, List.map_cons, List.map_nil, List.sum_cons, List.sum_nil]
        omega
      · rw [hr]
        simp

theorem inv_step {w : CreditWorld} (op : CreditOp) (h : w.Inv) : (w.step op).Inv := by
  cases op with
  | readResolves r =>
    simp only [step]
    split
    · exact h.host (f := (·.readResolves r)) 0 (w.host.pays_readResolves r) rfl rfl
        fun _ => rfl
    · exact h
  | writeResolves =>
    simp only [step]
    split
    · exact h.host (f := (·.loop)) 0 w.host.pays_loop rfl rfl fun _ => rfl
    · exact h
  | deliver => exact inv_deliver h
  | read =>
    exact h.body h.kept.read (InBody.accounts_read h.kept h.buffered) (fun _ hf => hf) rfl
      (Nat.zero_le _)
  | cancel reason =>
    exact h.body (h.kept.cancel reason) (InBody.accounts_cancel w.body reason) (fun _ hf => hf) rfl
      (Nat.zero_le _)
  | receive => exact inv_receive h
  | release =>
    refine h.host (f := fun s => (s.release, [])) 0 (?_ : HostSource.Pays _ 0 _) ?_ rfl fun _ => rfl
    · unfold HostSource.release
      split
      · exact HostSource.pays_nothing rfl (by simp)
      · exact HostSource.pays_nothing rfl id
    · simp [step]

open Execution

theorem inv_exec (probed : List (List UInt8)) (ops : List CreditOp) :
    (exec step (activated probed) ops).Inv :=
  exec_invariant (I := Inv) (fun _ op h => inv_step op h) (inv_activated probed) ops

/-- Along every interleaving of the pump, the links and the guest: the window is
conserved while the stream is not cancelled and its source still registered at
the host, it is never exceeded, the host never violates it, and the buffer and
the pending read of the runtime are kept. -/
theorem credit_conserved (probed : List (List UInt8)) (ops : List CreditOp) :
    let w := exec step (activated probed) ops
    (w.body.cancelled = false → w.host.registered = true →
      w.host.credit + chunkBytes w.toRuntime + w.body.bufferedBytes + grantBytes w.toHost =
        streamCreditWindowBytes) ∧
    (w.body.cancelled = false →
      w.host.credit + chunkBytes w.toRuntime + w.body.bufferedBytes + grantBytes w.toHost ≤
        streamCreditWindowBytes) ∧
    w.violated = false ∧
    w.body.bufferedBytes = (w.body.buffered.map List.length).sum ∧
    (∀ data ∈ w.body.buffered, data.length ≤ w.body.bufferedBytes) ∧
    (w.body.pending = true →
      w.body.buffered = [] ∧ w.body.ended = none ∧ w.body.cancelled = false) := by
  intro w
  have h : w.Inv := inv_exec probed ops
  refine ⟨h.conserved, h.bounded, h.safe, h.kept.counted, ?_, h.kept.waiting⟩
  intro data hd
  rw [h.kept.counted]
  exact List.le_sum_of_mem (List.mem_map_of_mem hd)

/-- A one-byte body whose source ends before the grant for the byte arrives: the
host discards the grant, though nobody cancelled the stream. -/
theorem grant_after_end : ¬ ∀ (probed : List (List UInt8)) (ops : List CreditOp),
    let w := exec step (activated probed) ops
    w.body.cancelled = false →
      w.host.credit + chunkBytes w.toRuntime + w.body.bufferedBytes + grantBytes w.toHost =
        streamCreditWindowBytes := by
  intro h
  have := h [[7]] [.deliver, .read, .writeResolves, .readResolves .done, .receive]
  revert this
  decide

end CreditWorld

end Iso4
