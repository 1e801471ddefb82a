/-
The streamed bodies of one run, from the guest source to the consumer on the host.

`OutBodies` is the table of the run (`crates/core/src/v8/streams.rs`) and
`OutboundStreamRegistry` that of the host (`packages/iso4-sandbox/src/web-codec.ts`).  The frames
of the first and the calls of the second are on their way in order, each at its own pace: how many
were read is all there is to the two channels.

* `body_credit_conserved` — the window of a stream is shared out between its source, the channels
  and the host, over every interleaving;
* `body_delivered` — the consumer reads what the guest source yielded.
-/
import Iso4.BodyCredit
import Mathlib.Data.List.Infix

namespace Iso4

open Execution

/-! ### The two ends and what is between them -/

/-- `given` are the calls that were made on the registry. -/
structure FlowWorld where
  guest : OutBodies
  host : OutboundStreamRegistry
  given : List OutboundOp
  framesRead : Nat
  callsRead : Nat

inductive FlowOp where
  | guest (op : OutBodyOp)
  | host (op : OutboundOp)
  /-- The router reads the next frame. -/
  | frame
  /-- The run takes the next `StreamPull` or `StreamCancel`. -/
  | call

/-- What the router does with a frame: `deliverChunk` or `deliverEnd`. -/
def BodyFrame.op (id : Nat) : BodyFrame → OutboundOp
  | .chunk data => .deliverChunk id data
  | .ended error => .deliverEnd id error

def TransportCall.op : TransportCall → OutBodyOp
  | .pull id credit => .grant id credit
  | .cancel id reason => .hostCancel id reason

/-- What the run does of its own; grants and cancels come from the host. -/
def OutBodyOp.own : OutBodyOp → Bool
  | .grant .. => false
  | .hostCancel .. => false
  | _ => true

/-- What the host does of its own; chunks and ends come from the run. -/
def OutboundOp.own : OutboundOp → Bool
  | .deliverChunk .. => false
  | .deliverEnd .. => false
  | _ => true

namespace FlowWorld

def new : FlowWorld := ⟨.new, .new, [], 0, 0⟩

/-- A call on the registry. -/
def hear (w : FlowWorld) (op : OutboundOp) : FlowWorld :=
  { w with host := w.host.step op, given := w.given ++ [op] }

def step (w : FlowWorld) : FlowOp → FlowWorld
  | .guest op => if op.own then { w with guest := w.guest.step op } else w
  | .host op => if op.own then w.hear op else w
  | .frame =>
    match w.guest.frames[w.framesRead]? with
    | none => w
    | some (id, f) =>
      -- `failAll` goes with the run's entry in the routing table: what comes later is discarded.
      if w.host.finished then { w with framesRead := w.framesRead + 1 }
      else { w.hear (f.op id) with framesRead := w.framesRead + 1 }
  | .call =>
    match w.host.sent[w.callsRead]? with
    | none => w
    | some c => { w with guest := w.guest.step c.op, callsRead := w.callsRead + 1 }

end FlowWorld

/-! ### The window over every interleaving -/

/-- In the frames of a stream nothing follows an end. -/
theorem not_mem_of_sent {fs gs tail : List BodyFrame} {f : BodyFrame} (htail : tail = [] ∨ ∃ e, tail = [.ended e])
    (chunks : List Chunk) (h : fs ++ f :: gs = chunks.map .chunk ++ tail) (e : Option String) :
    .ended e ∉ fs := by
  induction chunks generalizing fs with
  | nil =>
    have hlen := congrArg List.length h
    have hfs : fs = [] := by
      rcases htail with rfl | ⟨e', rfl⟩ <;> simp at hlen
      exact List.eq_nil_of_length_eq_zero (by omega)
    simp [hfs]
  | cons d ds ih =>
    cases fs with
    | nil => simp
    | cons f' fs =>
      obtain ⟨rfl, hrest⟩ := List.cons.inj h
      simpa using ih hrest

namespace FlowWorld

/-- The bytes of a stream in frames that the host has not read. -/
def inFlight (w : FlowWorld) (id : Nat) : Nat := frameBytes (framesFor id (w.guest.frames.drop w.framesRead))

/-- The credit of a stream in calls that the run has not taken. -/
def granting (w : FlowWorld) (id : Nat) : Nat := creditFor id (w.host.sent.drop w.callsRead)

structure Flows (w : FlowWorld) : Prop where
  inv : w.guest.Inv
  booked : w.host.Booked w.given
  read : w.framesRead ≤ w.guest.frames.length
  taken : w.callsRead ≤ w.host.sent.length
  /-- What the host has was read from frames; it is all of it until `failAll`. -/
  most : ∀ id, delivered w.given id <+: chunksIn (framesFor id (w.guest.frames.take w.framesRead))
  all : w.host.finished = false → ∀ id,
    delivered w.given id = chunksIn (framesFor id (w.guest.frames.take w.framesRead))
  ended : ∀ id e, .deliverEnd id e ∈ w.given →
    .ended e ∈ framesFor id (w.guest.frames.take w.framesRead) ∧
    delivered w.given id = chunksIn (framesFor id (w.guest.frames.take w.framesRead))
  granted : ∀ id s, w.guest.streams id = some s → s.granted = creditFor id (w.host.sent.take w.callsRead)
  paid : ∀ id s, w.guest.streams id = some s → s.done = false →
    s.credit + frameBytes (w.guest.framesOf id) = streamCreditWindowBytes + s.granted

variable {w : FlowWorld}

theorem creditFor_split (w : FlowWorld) (id : Nat) :
    creditFor id (w.host.sent.take w.callsRead) + w.granting id = creditFor id w.host.sent := by
  rw [granting, ← creditFor_append, List.take_append_drop]

theorem frameBytes_split (w : FlowWorld) (id : Nat) :
    frameBytes (framesFor id (w.guest.frames.take w.framesRead)) + w.inFlight id =
      frameBytes (w.guest.framesOf id) := by
  rw [inFlight, ← frameBytes_append, ← framesFor_append, List.take_append_drop]
  rfl

/-- What the host granted it has taken from what the run sent. -/
theorem Flows.credit_le (h : w.Flows) (id : Nat) :
    creditFor id w.host.sent + w.host.bufferedOf id + w.inFlight id ≤ frameBytes (w.guest.framesOf id) := by
  have hmost := h.booked.most id
  have hread := dataBytes_le (h.most id)
  have hsplit := frameBytes_split w id
  rw [dataBytes_chunksIn] at hread
  unfold OutboundStreamRegistry.booked at hmost
  omega

theorem new_flows : Flows new := by
  refine ⟨OutBodies.inv_new, ⟨fun _ => Nat.le_refl _, fun _ _ => rfl⟩, Nat.le_refl _, Nat.le_refl _,
    fun _ => List.prefix_rfl, fun _ _ => rfl, ?_, ?_, ?_⟩
  · intro id e hmem
    cases hmem
  · intro id s hs
    cases hs
  · intro id s hs
    cases hs

theorem take_eq_of_isPrefix_le {α : Type*} {l l' : List α} (h : l <+: l') {n : Nat} (hn : n ≤ l.length) :
    l'.take n = l.take n := by
  obtain ⟨m, rfl⟩ := h
  exact List.take_append_of_le_length hn

/-- The run goes on, and takes no grant. -/
theorem Flows.spend (h : w.Flows) {guest : OutBodies} (hinv : guest.Inv) (hspends : w.guest.Spends guest) :
    Flows { w with guest } := by
  have htake := take_eq_of_isPrefix_le hspends.frames h.read
  refine ⟨hinv, h.booked, h.read.trans hspends.frames.length_le, h.taken, ?_, ?_, ?_, ?_, ?_⟩
  · rw [htake]
    exact h.most
  · rw [htake]
    exact h.all
  · rw [htake]
    exact h.ended
  · intro id s' hs'
    obtain ⟨s, fs, hs, hspend, -⟩ := hspends.streams id s' hs'
    exact hspend.granted.trans (h.granted id s hs)
  · intro id s' hs' hd
    obtain ⟨s, fs, hs, hspend, hframes⟩ := hspends.streams id s' hs'
    obtain ⟨hd', hcredit⟩ := hspend.credit hd
    have hpaid := h.paid id s hs hd'
    rw [hframes, frameBytes_append, hspend.granted]
    omega

/-- A new stream: no frame and no call is about it yet. -/
theorem Flows.register (h : w.Flows) (source : List PullStart) (sends : List Bool) :
    Flows { w with guest := w.guest.register source sends } := by
  have hnone : w.guest.framesOf w.guest.nextId = [] := h.inv.silent _ (h.inv.fresh _ (Nat.le_refl _))
  refine ⟨(OutBodies.goes_register w.guest source sends h.inv).1, h.booked, h.read, h.taken, h.most, h.all,
    h.ended, ?_, ?_⟩
  · intro id s hs
    by_cases hid : id = w.guest.nextId
    · subst hid
      obtain rfl : OutBody.new source sends = s := by simpa [OutBodies.register] using hs
      have hcredit := h.credit_le w.guest.nextId
      have hsplit := creditFor_split w w.guest.nextId
      rw [hnone, frameBytes_nil] at hcredit
      show 0 = creditFor w.guest.nextId (w.host.sent.take w.callsRead)
      omega
    · exact h.granted id s (by simpa [OutBodies.register, hid] using hs)
  · intro id s hs hd
    by_cases hid : id = w.guest.nextId
    · subst hid
      obtain rfl : OutBody.new source sends = s := by simpa [OutBodies.register] using hs
      show _ + frameBytes (w.guest.framesOf w.guest.nextId) = _
      simp [hnone, OutBody.new]
    · exact h.paid id s (by simpa [OutBodies.register, hid] using hs) hd

theorem guest_flows (h : w.Flows) {op : OutBodyOp} (hgrant : ∀ id credit, op ≠ .grant id credit) :
    Flows { w with guest := w.guest.step op } := by
  by_cases hop : ∃ source sends, op = .register source sends
  · obtain ⟨source, sends, rfl⟩ := hop
    exact h.register source sends
  · exact h.spend (OutBodies.goes_step w.guest op h.inv).1
      (OutBodies.step_spends w.guest (fun source sends heq => hop ⟨source, sends, heq⟩) hgrant)

theorem credit_take_succ {id credit : Nat} (hcall : w.host.sent[w.callsRead]? = some (.pull id credit)) (j : Nat) :
    creditFor j (w.host.sent.take (w.callsRead + 1)) =
      creditFor j (w.host.sent.take w.callsRead) + if id = j then credit else 0 := by
  rw [List.take_add_one, hcall, Option.toList_some, creditFor_append, creditFor_singleton]
  rfl

/-- No grant saturates a counter: the window is there once. -/
theorem Flows.fits (h : w.Flows) {id credit : Nat} (hcall : w.host.sent[w.callsRead]? = some (.pull id credit))
    {s : OutBody} (hs : w.guest.streams id = some s) (hd : s.done = false) : s.credit + credit ≤ u32Max := by
  have hpaid := h.paid id s hs hd
  have hgranted := h.granted id s hs
  have hcredit := h.credit_le id
  have hmore := congrArg (creditFor id) (List.take_append_drop (w.callsRead + 1) w.host.sent)
  rw [creditFor_append, credit_take_succ hcall, if_pos rfl] at hmore
  have hwindow : streamCreditWindowBytes ≤ u32Max := by decide
  omega

/-- The run takes a grant. -/
theorem Flows.grant (h : w.Flows) {id credit : Nat} (hcall : w.host.sent[w.callsRead]? = some (.pull id credit)) :
    Flows { w with guest := w.guest.step (.grant id credit), callsRead := w.callsRead + 1 } := by
  have hframes := w.guest.grant_frames id credit
  have hframesOf : ∀ j, (w.guest.step (.grant id credit)).framesOf j = w.guest.framesOf j := by
    intro j
    unfold OutBodies.framesOf
    rw [hframes]
  refine ⟨(OutBodies.goes_step w.guest (.grant id credit) h.inv).1, h.booked, hframes ▸ h.read,
    (List.getElem?_eq_some_iff.mp hcall).1, hframes ▸ h.most, hframes ▸ h.all, hframes ▸ h.ended, ?_, ?_⟩
  · intro j s' hs'
    obtain ⟨s, hs, rfl⟩ := OutBodies.grant_streams hs'
    rw [credit_take_succ hcall, ← h.granted j s hs]
    by_cases hj : j = id
    · rw [if_pos hj, if_pos hj.symm, s.noteCredit_granted]
    · rw [if_neg hj, if_neg (Ne.symm hj)]
      rfl
  · intro j s' hs' hd
    obtain ⟨s, hs, rfl⟩ := OutBodies.grant_streams hs'
    rw [hframesOf]
    by_cases hj : j = id
    · subst hj
      rw [if_pos rfl] at hd ⊢
      rw [OutBody.noteCredit_done] at hd
      have hpaid := h.paid j s hs hd
      rw [OutBody.noteCredit_credit hd (h.fits hcall hs hd), s.noteCredit_granted]
      omega
    · rw [if_neg hj] at hd ⊢
      exact h.paid j s hs hd

/-- A call on the registry that the host makes of its own. -/
theorem Flows.hear (h : w.Flows) {op : OutboundOp} (hop : op.own = true) : Flows (w.hear op) := by
  have hgrows := w.host.step_grows op
  have hdelivered : ∀ id, delivered (w.given ++ [op]) id = delivered w.given id := by
    refine OutboundStreamRegistry.delivered_append_other fun id data heq => ?_
    rw [heq] at hop
    cases hop
  refine ⟨h.inv, OutboundStreamRegistry.step_booked h.booked op, h.read, h.taken.trans hgrows.sent.length_le,
    ?_, ?_, ?_, ?_, h.paid⟩
  · intro id
    rw [FlowWorld.hear, hdelivered]
    exact h.most id
  · intro hf id
    rw [FlowWorld.hear, hdelivered]
    exact h.all (hgrows.finished hf) id
  · intro id e hmem
    rcases List.mem_append.mp hmem with hold | hnew
    · rw [FlowWorld.hear, hdelivered]
      exact h.ended id e hold
    · rw [← List.mem_singleton.mp hnew] at hop
      cases hop
  · intro id s hs
    show _ = creditFor id ((w.host.step op).sent.take w.callsRead)
    rw [take_eq_of_isPrefix_le hgrows.sent h.taken]
    exact h.granted id s hs

theorem framesFor_take_succ {id : Nat} {f : BodyFrame} (hframe : w.guest.frames[w.framesRead]? = some (id, f))
    (j : Nat) : framesFor j (w.guest.frames.take (w.framesRead + 1)) =
      framesFor j (w.guest.frames.take w.framesRead) ++ if id = j then [f] else [] := by
  rw [List.take_add_one, hframe, Option.toList_some, framesFor_append]
  congr 1
  by_cases hj : id = j <;> simp [framesFor, hj]

/-- Once the host has read the end of a stream, all its frames are read. -/
theorem all_read (hinv : w.guest.Inv) {id : Nat} {e : Option String}
    (hmem : .ended e ∈ framesFor id (w.guest.frames.take w.framesRead)) :
    framesFor id (w.guest.frames.drop w.framesRead) = [] := by
  cases hdrop : framesFor id (w.guest.frames.drop w.framesRead) with
  | nil => rfl
  | cons f gs =>
    have hsplit : framesFor id (w.guest.frames.take w.framesRead) ++ f :: gs = w.guest.framesOf id := by
      rw [← hdrop, ← framesFor_append, List.take_append_drop]
      rfl
    cases hs : w.guest.streams id with
    | none =>
      rw [hinv.silent id hs] at hsplit
      simp at hsplit
    | some s =>
      obtain ⟨chunks, tail, heq, hsent⟩ := hinv.sound id s hs
      exact absurd hmem (not_mem_of_sent (hsent.ended.imp_right And.right) chunks (hsplit.trans heq) e)

theorem no_end_before (hinv : w.guest.Inv) {id : Nat} {f : BodyFrame}
    (hframe : w.guest.frames[w.framesRead]? = some (id, f)) (e : Option String) :
    .ended e ∉ framesFor id (w.guest.frames.take w.framesRead) := by
  intro hmem
  have hnone := all_read hinv hmem
  obtain ⟨hlt, heq⟩ := List.getElem?_eq_some_iff.mp hframe
  rw [List.drop_eq_getElem_cons hlt, heq] at hnone
  simp [framesFor] at hnone

theorem delivered_op (given : List OutboundOp) (id : Nat) (f : BodyFrame) (j : Nat) :
    delivered (given ++ [f.op id]) j = delivered given j ++ chunksIn (if id = j then [f] else []) := by
  cases f with
  | chunk data =>
    rw [BodyFrame.op, OutboundStreamRegistry.delivered_append_chunk]
    split <;> rfl
  | ended error =>
    rw [BodyFrame.op, OutboundStreamRegistry.delivered_append_other (by simp)]
    split <;> simp [chunksIn]

/-- The router reads a frame. -/
theorem Flows.frame (h : w.Flows) {id : Nat} {f : BodyFrame}
    (hframe : w.guest.frames[w.framesRead]? = some (id, f)) (hlive : w.host.finished = false) :
    Flows { w.hear (f.op id) with framesRead := w.framesRead + 1 } := by
  have hgrows := w.host.step_grows (f.op id)
  have hall : ∀ j, delivered (w.given ++ [f.op id]) j =
      chunksIn (framesFor j (w.guest.frames.take (w.framesRead + 1))) := by
    intro j
    rw [delivered_op, framesFor_take_succ hframe, chunksIn_append, h.all hlive]
  refine ⟨h.inv, OutboundStreamRegistry.step_booked h.booked (f.op id),
    (List.getElem?_eq_some_iff.mp hframe).1, h.taken.trans hgrows.sent.length_le,
    fun j => (hall j).symm ▸ List.prefix_rfl, fun _ => hall, ?_, ?_, h.paid⟩
  · intro j e hmem
    refine ⟨?_, hall j⟩
    show _ ∈ framesFor j (w.guest.frames.take (w.framesRead + 1))
    rw [framesFor_take_succ hframe]
    rcases List.mem_append.mp hmem with hold | hnew
    · exact List.mem_append_left _ (h.ended j e hold).1
    · have heq := List.mem_singleton.mp hnew
      cases f with
      | chunk data => cases heq
      | ended error =>
        obtain ⟨rfl, rfl⟩ := OutboundOp.deliverEnd.inj heq
        simp
  · intro j s hs
    show _ = creditFor j ((w.host.step (f.op id)).sent.take w.callsRead)
    rw [take_eq_of_isPrefix_le hgrows.sent h.taken]
    exact h.granted j s hs

theorem Flows.discard (h : w.Flows) {id : Nat} {f : BodyFrame}
    (hframe : w.guest.frames[w.framesRead]? = some (id, f)) (hover : w.host.finished = true) :
    Flows { w with framesRead := w.framesRead + 1 } := by
  refine ⟨h.inv, h.booked, (List.getElem?_eq_some_iff.mp hframe).1, h.taken, ?_, ?_, ?_, h.granted, h.paid⟩
  · intro j
    rw [framesFor_take_succ hframe, chunksIn_append]
    exact (h.most j).trans (List.prefix_append _ _)
  · intro hf
    rw [hover] at hf
    cases hf
  · intro j e hmem
    -- The frame is of another stream: this one has read its end.
    have hne : id ≠ j := by
      rintro rfl
      exact no_end_before h.inv hframe e (h.ended id e hmem).1
    rw [framesFor_take_succ hframe, if_neg hne, List.append_nil]
    exact h.ended j e hmem

theorem step_flows (h : w.Flows) (op : FlowOp) : Flows (w.step op) := by
  cases op with
  | guest op =>
    simp only [step]
    split
    · next hown =>
      refine guest_flows h ?_
      rintro id credit rfl
      cases hown
    · exact h
  | host op =>
    simp only [step]
    split
    · next hown => exact h.hear hown
    · exact h
  | frame =>
    simp only [step]
    split
    · exact h
    · next id f hframe =>
      split
      · next hover => exact h.discard hframe hover
      · next hlive => exact h.frame hframe (by simpa using hlive)
  | call =>
    simp only [step]
    split
    · exact h
    · next c hcall =>
      cases c with
      | pull id credit => exact h.grant hcall
      | cancel id reason =>
        have hcancel : Flows { w with guest := w.guest.step (.hostCancel id reason) } := guest_flows h (by simp)
        refine ⟨hcancel.inv, h.booked, hcancel.read, (List.getElem?_eq_some_iff.mp hcall).1, hcancel.most,
          hcancel.all, hcancel.ended, ?_, hcancel.paid⟩
        intro j s hs
        show _ = creditFor j (w.host.sent.take (w.callsRead + 1))
        rw [List.take_add_one, hcall, Option.toList_some, creditFor_append, creditFor_singleton]
        exact hcancel.granted j s hs

theorem exec_flows (ops : List FlowOp) : Flows (exec step new ops) :=
  exec_invariant (I := Flows) (fun _ op h => step_flows h op) new_flows ops

end FlowWorld

/-- Whatever the order of the steps, a stream has at most one window of bytes and grants between
its source and its consumer.  While it is open, and neither cancelled nor cut off from the host, the
rest of the window is the credit of the source: when the host has taken all there is and no grant
is on its way, the source may send a window. -/
theorem body_credit_conserved (ops : List FlowOp) (id : Nat) :
    let w := exec FlowWorld.step .new ops
    w.inFlight id + w.host.bufferedOf id + w.granting id ≤ streamCreditWindowBytes ∧
    ∀ s, w.guest.streams id = some s → s.done = false → w.host.finished = false → ¬ w.host.Cancelled id →
      s.credit + w.inFlight id + w.host.bufferedOf id + w.granting id = streamCreditWindowBytes := by
  intro w
  have h : w.Flows := FlowWorld.exec_flows ops
  have hframes := FlowWorld.frameBytes_split w id
  have hcalls := FlowWorld.creditFor_split w id
  have hle := h.credit_le id
  constructor
  · cases hs : w.guest.streams id with
    | none =>
      have hsilent := h.inv.silent id hs
      rw [hsilent, frameBytes_nil] at hle
      omega
    | some s =>
      obtain ⟨chunks, tail, heq, hsent⟩ := h.inv.sound id s hs
      have hgranted := h.granted id s hs
      have hcredit := hsent.credit
      have htail : frameBytes tail = 0 := by
        rcases hsent.ended with rfl | ⟨-, e, rfl⟩
        · rfl
        · rfl
      have hbytes : frameBytes (w.guest.framesOf id) = chunks.flatten.length := by
        rw [heq, frameBytes_append, frameBytes_chunks, htail, Nat.add_zero]
      omega
  · intro s hs hd hlive hcan
    have hpaid := h.paid id s hs hd
    have hgranted := h.granted id s hs
    have hall := congrArg dataBytes (h.all hlive id)
    have hbooked := h.booked.all id hcan
    rw [dataBytes_chunksIn] at hall
    unfold OutboundStreamRegistry.booked at hbooked
    omega

/-! ### What the consumer reads -/

namespace FlowWorld

/-- The condition on a run: each body is attached once, and after `failAll` only if it has an
outcome. -/
def Orderly (w : FlowWorld) : FlowOp → Prop
  | .host (.attach id) => w.host.Orderly (.attach id)
  | _ => True

variable {w : FlowWorld}

/-- No chunk comes for a consumer that closed, unless it cancelled. -/
theorem frame_orderly (h : w.Flows) (hinv : w.host.Inv w.given) {id : Nat} {f : BodyFrame}
    (hframe : w.guest.frames[w.framesRead]? = some (id, f)) : w.host.Orderly (f.op id) := by
  cases f with
  | ended error => trivial
  | chunk data =>
    rintro handle c st hc rfl hst hclosed
    obtain ⟨st', hst', hcell⟩ := hinv.linked handle c hc
    obtain rfl : st' = st := Option.some.inj (hst'.symm.trans hst)
    by_contra hcan
    -- It closed on an end, which was read before this chunk.
    have hend := (hcell.closed hclosed (by simpa using hcan)).2
    exact no_end_before h.inv hframe none (h.ended _ _ hend).1

theorem step_inv (h : w.Flows) (hinv : w.host.Inv w.given) (op : FlowOp) (ho : w.Orderly op) :
    (w.step op).host.Inv (w.step op).given := by
  cases op with
  | guest op =>
    simp only [step]
    split
    · exact hinv
    · exact hinv
  | host op =>
    simp only [step]
    split
    · next hown =>
      refine OutboundStreamRegistry.inv_step hinv op ?_
      cases op with
      | attach id => exact ho
      | deliverChunk id data => cases hown
      | _ => trivial
    · exact hinv
  | frame =>
    simp only [step]
    split
    · exact hinv
    · next id f hframe =>
      split
      · exact hinv
      · exact OutboundStreamRegistry.inv_step hinv (f.op id) (frame_orderly h hinv hframe)
  | call =>
    simp only [step]
    split
    · exact hinv
    · exact hinv

theorem exec_inv {ops : List FlowOp} (ho : Along step Orderly new ops) :
    (exec step new ops).Flows ∧ (exec step new ops).host.Inv (exec step new ops).given :=
  ho.invariant (I := fun w : FlowWorld => w.Flows ∧ w.host.Inv w.given)
    (fun _ op h hop => ⟨step_flows h.1 op, step_inv h.1 h.2 op hop⟩)
    ⟨new_flows, OutboundStreamRegistry.inv_new⟩

/-- The data of a stream in frames that the host has not read. -/
def flying (w : FlowWorld) (id : Nat) : List Chunk :=
  chunksIn (framesFor id (w.guest.frames.drop w.framesRead))

/-- The data of a stream that no consumer took. -/
def unread (w : FlowWorld) (id : Nat) : List Chunk :=
  match w.host.states id with
  | some st => st.buffered
  | none => []

/-- What the consumer of a body has of it. -/
structure Reads (w : FlowWorld) (c : Consumer) (s : OutBody) : Prop where
  /-- In order, and nothing twice. -/
  order : c.yielded.flatten <+: s.yielded
  /-- It closes on the end of the source, with everything. -/
  closed : c.status = .closed → s.done = true ∧ s.pending = none ∧ c.yielded.flatten = s.yielded
  /-- Nothing is lost on the way. -/
  whole : c.status = .readable → s.done = false → w.host.finished = false → w.guest.halted = false →
    (c.yielded ++ c.queue ++ w.unread c.streamId ++ w.flying c.streamId).flatten ++ s.waiting = s.yielded

end FlowWorld

/-- Whatever the order of the steps, the consumer of a body that it has not cancelled reads what the
source yielded, in order, and closes only when it has all of it; nothing is lost between the two
while the stream is open. -/
theorem body_delivered {ops : List FlowOp} (ho : Along FlowWorld.step FlowWorld.Orderly .new ops)
    {handle : Nat} {c : Consumer} (hc : (exec FlowWorld.step .new ops).host.consumers handle = some c)
    (hcan : ¬ (exec FlowWorld.step .new ops).host.Cancelled c.streamId) {s : OutBody}
    (hs : (exec FlowWorld.step .new ops).guest.streams c.streamId = some s) :
    (exec FlowWorld.step .new ops).Reads c s := by
  obtain ⟨h, hinv⟩ := FlowWorld.exec_inv ho
  revert hc hcan hs h hinv
  generalize exec FlowWorld.step .new ops = w
  intro hc hcan hs h hinv
  obtain ⟨st, hst, hcell⟩ := hinv.linked handle c hc
  have hopen : st.cancelled = false := by
    by_contra hno
    exact hcan ⟨st, hst, by simpa using hno⟩
  obtain ⟨chunks, tail, hframes, hsent⟩ := h.inv.sound _ s hs
  have htail : chunksIn tail = [] := by
    rcases hsent.ended with rfl | ⟨-, e, rfl⟩ <;> rfl
  have hchunks : chunksIn (framesFor c.streamId (w.guest.frames.take w.framesRead)) ++ w.flying c.streamId =
      chunks := by
    rw [FlowWorld.flying, ← chunksIn_append, ← framesFor_append, List.take_append_drop]
    change chunksIn (w.guest.framesOf c.streamId) = chunks
    rw [hframes, chunksIn_append, chunksIn_chunks, htail, List.append_nil]
  have hread : delivered w.given c.streamId <+: chunks := by
    rw [← hchunks]
    exact (h.most _).trans (List.prefix_append _ _)
  have hpre : c.yielded <+: delivered w.given c.streamId := by
    cases hstatus : c.status with
    | readable =>
      rw [← (hcell.live hstatus).2, List.append_assoc]
      exact List.prefix_append _ _
    | closed => rw [(hcell.closed hstatus hopen).1]
    | errored m => exact (hcell.errored m hstatus).1
  refine ⟨?_, ?_, ?_⟩
  · exact (hpre.trans hread).flatten.trans hsent.sentPrefix
  · intro hclosed
    obtain ⟨hall, hend⟩ := hcell.closed hclosed hopen
    obtain ⟨hmem, hdelivered⟩ := h.ended _ _ hend
    have hflying : w.flying c.streamId = [] := by
      rw [FlowWorld.flying, FlowWorld.all_read h.inv hmem]
      rfl
    have hframe : BodyFrame.ended none ∈ chunks.map .chunk ++ tail := by
      rw [← hframes]
      change _ ∈ framesFor c.streamId w.guest.frames
      rw [← List.take_append_drop w.framesRead w.guest.frames, framesFor_append]
      exact List.mem_append_left _ hmem
    have hlast : s.done = true ∧ tail = [.ended none] := by
      rcases hsent.ended with rfl | ⟨hd, e, rfl⟩
      · simp at hframe
      · exact ⟨hd, by simpa [eq_comm] using hframe⟩
    obtain ⟨hpending, hyielded⟩ := hsent.clean hlast.2
    rw [hflying, List.append_nil, ← hdelivered, ← hall] at hchunks
    exact ⟨hlast.1, hpending, hchunks ▸ hyielded⟩
  · intro hreadable hd hlive hhalted
    have hstream := hsent.stream (by simp [hhalted]) hd
    have hlinked := (hcell.live hreadable).2
    have hunread : w.unread c.streamId = st.buffered := by simp [FlowWorld.unread, hst]
    rw [hunread, hlinked, h.all hlive, hchunks, hstream]

/-- A body of one byte, read to its end. -/
def shortBody : List FlowOp :=
  [.guest (.register [.returned ⟨some 0, .fulfilled (.bytes [7])⟩, .returned ⟨some 0, .fulfilled .nullish⟩] []),
    .host (.attach 1), .guest (.drive []), .frame, .frame, .host (.read 0), .host (.read 0)]

theorem shortBody_delivered : (exec FlowWorld.step .new shortBody).Reads
    ⟨1, [], 0, .closed, false, [[7]]⟩ ⟨[], 262143, none, [], 0, true, [], [7], 0⟩ := by
  have ho : Along FlowWorld.step FlowWorld.Orderly .new shortBody := by
    refine ⟨trivial, ⟨?_, ?_⟩, trivial, trivial, trivial, trivial, trivial, trivial⟩
    · intro h c hc
      cases hc
    · intro hov
      cases hov
  have hc : (exec FlowWorld.step .new shortBody).host.consumers 0 = some ⟨1, [], 0, .closed, false, [[7]]⟩ := rfl
  refine body_delivered ho hc ?_ rfl
  rintro ⟨st, hst, hcan⟩
  obtain rfl := Option.some.inj hst
  cases hcan

end Iso4
