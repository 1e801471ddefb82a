/-
The frames of a connection from the runtime to the host, end to end: the outbox of
`crates/server/src/ipc.rs`, the socket, and the `FrameReader` of
`packages/iso4-sandbox/src/ipc.ts`.

The outbox keeps its bytes in the order in which it accepted the frames, and the reader finds
the frames in whatever chunks the socket gives it.  Between them is only that an accepted
frame is one the reader takes: its length passed the ceiling check, which is the reader's own.

* `parseFrames_prefix` — the frames in the first bytes of some frames;
* `LinkWorld.step` — the parties of the outbox, the socket and the reads of the host;
* `link_delivery` — the reads get the accepted frames, in order, and no others.
-/
import Iso4.FrameAgreement
import Iso4.Outbox

namespace Iso4

open Execution Framing

/-! ### Frames cut short -/

namespace Framing

theorem Frame.length_bytes (f : Frame) : f.bytes.length = 4 + (f.payload.length + 1) := by
  rw [Frame.bytes, List.length_append, List.length_cons]
  rfl

/-- A bad length is bad whatever comes after it. -/
theorem parseFrame_bad {max : Nat} {bytes : List UInt8} {message : String}
    (h : parseFrame max bytes = .bad message) (rest : List UInt8) : parseFrame max (bytes ++ rest) = .bad message := by
  rcases front_cases bytes with hshort | ⟨a, b, c, d, body, rfl⟩
  · rw [parseFrame_short hshort] at h
    cases h
  · unfold parseFrame at h ⊢
    dsimp only [List.cons_append] at h ⊢
    split at h
    next hzero =>
      rw [if_pos hzero]
      exact h
    next hzero =>
      rw [if_neg hzero]
      split at h
      next hlong =>
        rw [if_pos hlong]
        exact h
      · split at h <;> cases h

/-- The first bytes of a frame are less than a frame. -/
theorem parseFrame_cut {max : Nat} {f : Frame} (h : f.Fits max) (hmax : max < 2 ^ 32) {bytes : List UInt8}
    (hbefore : bytes <+: f.bytes) (hshort : bytes.length < f.bytes.length) : parseFrame max bytes = .more := by
  cases hfront : parseFrame max bytes with
  | more => rfl
  | bad message =>
    exfalso
    obtain ⟨rest, hrest⟩ := hbefore
    have hwhole := parseFrame_bytes h hmax []
    rw [List.append_nil, ← hrest, parseFrame_bad hfront] at hwhole
    cases hwhole
  | frame g rest =>
    exfalso
    obtain ⟨hbytes, hfits⟩ := parseFrame_ok hfront
    obtain ⟨more, hmore⟩ := hbefore
    have hwhole := parseFrame_bytes h hmax []
    rw [List.append_nil, ← hmore, hbytes, List.append_assoc, parseFrame_bytes hfits hmax] at hwhole
    injection hwhole with hframe hnil
    rw [hbytes, hframe, List.length_append] at hshort
    omega

/-- The first bytes of some frames hold the first of them, and no bad length. -/
theorem parseFrames_prefix {max : Nat} (hmax : max < 2 ^ 32) {fs : List Frame} (hfits : ∀ f ∈ fs, f.Fits max)
    {bytes : List UInt8} (hbefore : bytes <+: fs.flatMap Frame.bytes) :
    ∃ gs, gs <+: fs ∧ parseFrames max bytes = (gs, none) := by
  induction fs generalizing bytes with
  | nil =>
    have hnil : bytes = [] := List.prefix_nil.mp hbefore
    refine ⟨[], List.prefix_rfl, parseFrames_more ?_⟩
    rw [hnil]
    rfl
  | cons f fs ih =>
    have hf := hfits f List.mem_cons_self
    rw [List.flatMap_cons] at hbefore
    rcases lt_or_ge bytes.length f.bytes.length with hlt | hge
    · have hcut : bytes <+: f.bytes := by
        refine List.prefix_of_prefix_length_le hbefore (List.prefix_append _ _) (Nat.le_of_lt hlt)
      exact ⟨[], List.nil_prefix, parseFrames_more (parseFrame_cut hf hmax hcut hlt)⟩
    · obtain ⟨rest, rfl⟩ := List.prefix_of_prefix_length_le (List.prefix_append f.bytes _) hbefore hge
      have hrest : rest <+: fs.flatMap Frame.bytes := (List.prefix_append_right_inj _).mp hbefore
      obtain ⟨gs, hgs, hparse⟩ := ih (fun g hg => hfits g (List.mem_cons_of_mem f hg)) hrest
      refine ⟨f :: gs, List.cons_prefix_cons.mpr ⟨rfl, hgs⟩, ?_⟩
      rw [parseFrames_frame (parseFrame_bytes hf hmax rest), hparse]

end Framing

/-! ### The frames the outbox accepts -/

/-- The frame as the reader has it. -/
def OutMsg.frame (m : OutMsg) : Frame := ⟨m.messageType.byte, m.head ++ m.tail⟩

theorem OutMsg.encode_eq (m : OutMsg) : m.encode = m.frame.bytes := by
  have hlen : (m.head ++ m.tail).length = m.len := List.length_append
  rw [encode, envelope, Frame.bytes, frame, hlen, List.append_assoc]
  rfl

theorem payloadLen_fits {m : OutMsg} {n : Nat} (h : payloadLen m = .ok n) :
    m.frame.Fits Framing.defaultMaxFrameLength := by
  have hlen : (m.head ++ m.tail).length = m.len := List.length_append
  have hn := payloadLen_eq h
  unfold payloadLen at h
  split at h
  · cases h
  · split at h
    · cases h
    next hmax =>
      cases h
      have hceiling : n ≤ Iso4.defaultMaxFrameLength := Nat.not_lt.mp hmax
      show (m.head ++ m.tail).length + 1 ≤ Iso4.defaultMaxFrameLength
      rw [hlen]
      omega

namespace Outbox

variable {s : Outbox}

/-- Each frame passed the ceiling check, and the bytes of the socket are only added to. -/
structure Extends (s s' : Outbox) : Prop where
  accepted : ∀ m ∈ s'.accepted, m ∈ s.accepted ∨ ∃ n, payloadLen m = .ok n
  sent : s.sent <+: s'.sent

theorem Extends.same {s' : Outbox} (haccepted : s'.accepted = s.accepted) (hsent : s'.sent = s.sent) :
    s.Extends s' :=
  ⟨fun _ hm => Or.inl (haccepted ▸ hm), hsent ▸ List.prefix_rfl⟩

theorem Extends.put {s' : Outbox} {put : List UInt8} (haccepted : s'.accepted = s.accepted)
    (hsent : s'.sent = s.sent ++ put) : s.Extends s' :=
  ⟨fun _ hm => Or.inl (haccepted ▸ hm), hsent ▸ List.prefix_append _ _⟩

theorem Extends.accept {s' : Outbox} (c : SendCall) (haccepted : s'.accepted = s.accepted ++ [c.msg])
    (hsent : s'.sent = s.sent) : s.Extends s' := by
  refine ⟨fun m hm => ?_, hsent ▸ List.prefix_rfl⟩
  rw [haccepted] at hm
  refine (List.mem_append.mp hm).imp_right fun hm => ?_
  rw [List.mem_singleton.mp hm]
  exact ⟨c.payloadLen, c.admitted⟩

theorem enter_extends (s : Outbox) (p : Nat) (c : SendCall) (now : Nat) : s.Extends (s.enter p c now) := by
  unfold enter
  split
  · exact .same rfl rfl
  · split
    · exact .accept c rfl rfl
    · split
      · exact .accept c rfl rfl
      · exact .same rfl rfl

theorem step_extends (s : Outbox) (op : OutboxOp) : s.Extends (s.step op) := by
  have hsame : s.Extends s := .same rfl rfl
  cases op with
  | clone => exact .same rfl rfl
  | dropHandle => exact .same rfl rfl
  | sendFrame p m =>
    dsimp only [step]
    split
    · split <;> exact .same rfl rfl
    · exact hsame
  | enter p now =>
    dsimp only [step]
    split
    · exact enter_extends s p _ now
    · exact hsame
  | wake p timedOut now =>
    dsimp only [step]
    split
    · unfold wake
      split
      · exact .same rfl rfl
      · exact enter_extends s p _ now
    · exact hsame
  | attempt p now r =>
    dsimp only [step]
    split
    · unfold attempt
      split <;> exact .put rfl rfl
    · exact hsame
  | conclude p =>
    dsimp only [step]
    split
    · unfold conclude
      dsimp only
      split <;> exact .same rfl rfl
    · exact hsame
  | look now =>
    dsimp only [step]
    split
    · unfold look
      split
      · exact .same rfl rfl
      · split
        · exact hsame
        · split
          · exact .same rfl rfl
          · split <;> exact .same rfl rfl
    · exact hsame
  | writerAttempt now r =>
    dsimp only [step]
    split
    · unfold writerAttempt
      split <;> exact .put rfl rfl
    · exact hsame
  | writerConclude =>
    dsimp only [step]
    split
    · unfold writerConclude
      split <;> exact .same rfl rfl
    · exact hsame

end Outbox

/-! ### What the reader was given -/

namespace Framing

namespace ReaderWorld

variable {w : ReaderWorld} {again : ReaderWorld → String → ReaderWorld}

theorem tryRead_pushed (hagain : ∀ w e, (again w e).pushed = w.pushed) (w : ReaderWorld) :
    (w.tryReadWith again).1.pushed = w.pushed := by
  unfold tryReadWith
  dsimp only
  split
  · rfl
  · split
    · exact hagain w _
    · split
      · exact hagain w _
      · split
        · rfl
        · split
          · rfl
          · split <;> rfl

theorem flush_pushed (hagain : ∀ w e, (again w e).pushed = w.pushed) (ids : List Nat) (w : ReaderWorld) :
    (flushWith again w ids).1.pushed = w.pushed := by
  induction ids generalizing w with
  | nil => rfl
  | cons id ids ih =>
    have htry := tryRead_pushed hagain w
    unfold flushWith
    generalize w.tryReadWith again = r at htry ⊢
    obtain ⟨w', t⟩ := r
    cases t with
    | null => exact htry
    | thrown e => exact htry
    | frame f => exact (ih _).trans htry

theorem close_pushed (w : ReaderWorld) (e : String) : (w.close e).pushed = w.pushed := by
  unfold close
  split
  · rfl
  · exact flush_pushed (fun _ _ => rfl) w.pendingReads { w with closedError := some e }

theorem push_pushed (w : ReaderWorld) (chunk : List UInt8) :
    (w.push chunk).pushed = if w.closedError.isSome then w.pushed else w.pushed ++ chunk := by
  unfold push
  split
  · rfl
  · have happend : (w.append chunk).pushed = w.pushed ++ chunk := by
      unfold append
      split
      · rfl
      next hempty =>
        rw [List.eq_nil_of_length_eq_zero (Nat.eq_zero_of_not_pos hempty), List.append_nil]
    have hflush := flush_pushed close_pushed (w.append chunk).pendingReads (w.append chunk)
    unfold flushPendingReads
    generalize flushWith close (w.append chunk) (w.append chunk).pendingReads = r at hflush ⊢
    obtain ⟨w', o⟩ := r
    cases o with
    | none => exact hflush.trans happend
    | some e => exact (close_pushed w' e).trans (hflush.trans happend)

theorem readFrame_pushed (w : ReaderWorld) : w.readFrame.pushed = w.pushed := by
  have htry := tryRead_pushed close_pushed { w with reads := w.reads + 1 }
  unfold readFrame tryReadFrame
  generalize tryReadWith close { w with reads := w.reads + 1 } = r at htry ⊢
  obtain ⟨w', t⟩ := r
  cases t with
  | frame f => exact htry
  | thrown e => exact htry
  | null =>
    dsimp only
    split <;> exact htry

/-- A reader that finds no bad length closes by nobody's doing but its owner's. -/
theorem push_open {D : List Frame} {E : List String} (h : w.Reading D E) (hopen : w.closedError = none)
    (chunk : List UInt8) (hgood : (parseFrames defaultMaxFrameLength (w.pushed ++ chunk)).2 = none) :
    (w.push chunk).closedError = none := by
  have hpushed := push_pushed w chunk
  rw [if_neg (by rw [hopen]; exact Bool.false_ne_true)] at hpushed
  unfold push at hpushed ⊢
  rw [if_neg (by rw [hopen]; exact Bool.false_ne_true)] at hpushed ⊢
  obtain ⟨happend, hstill⟩ := h.append hopen chunk
  obtain ⟨D', w', h', hopen', ⟨heq, -⟩ | ⟨e, hbad, heq⟩⟩ := happend.flush hstill rfl
  · unfold flushPendingReads
    rw [heq]
    exact hopen'
  · exfalso
    have hbytes : w'.pushed = w.pushed ++ chunk := by
      unfold flushPendingReads at hpushed
      rw [heq] at hpushed
      rw [← hpushed]
      exact ((close_pushed _ e).trans (close_pushed w' e)).symm
    have hparsed := h'.parsed
    rw [hbytes, parseFrames_bad hbad] at hparsed
    rw [hparsed] at hgood
    cases hgood

/-- A reader that is closed stays so. -/
theorem readFrame_closed (hclosed : w.closedError ≠ none) : w.readFrame.closedError ≠ none := by
  have hclose : ∀ e, close { w with reads := w.reads + 1 } e = { w with reads := w.reads + 1 } := fun e =>
    if_pos (Option.isSome_iff_ne_none.mpr hclosed)
  have htry : (tryReadWith close { w with reads := w.reads + 1 }).1.closedError = w.closedError := by
    unfold tryReadWith
    dsimp only
    rw [hclose, hclose]
    split
    · rfl
    · split
      · rfl
      · split
        · rfl
        · split
          · rfl
          · split
            · rfl
            · split <;> rfl
  unfold readFrame tryReadFrame
  generalize tryReadWith close { w with reads := w.reads + 1 } = r at htry ⊢
  obtain ⟨w', t⟩ := r
  change w'.closedError = w.closedError at htry
  cases t with
  | frame f => exact htry ▸ hclosed
  | thrown e => exact htry ▸ hclosed
  | null =>
    dsimp only
    split
    · exact htry ▸ hclosed
    next hnone => exact absurd (htry.symm.trans hnone) hclosed

theorem readFrame_open {D : List Frame} {E : List String} (h : w.Reading D E) (hopen : w.closedError = none)
    (hgood : (parseFrames defaultMaxFrameLength w.pushed).2 = none) : w.readFrame.closedError = none := by
  have htry : TryReads ReaderWorld.close { w with reads := w.reads + 1 } w.front _ :=
    tryRead_spec h.count ⟨rfl, h.full⟩
  unfold readFrame tryReadFrame
  generalize hr : tryReadWith close { w with reads := w.reads + 1 } = r at htry
  change TryReads _ _ w.front r at htry
  generalize hfront : w.front = front at htry
  cases htry with
  | more =>
    dsimp only
    rw [hopen]
  | bad e =>
    exfalso
    have hparsed := h.parsed
    rw [parseFrames_bad hfront] at hparsed
    rw [hparsed] at hgood
    cases hgood
  | frame hrest => exact hopen

end ReaderWorld

end Framing

/-! ### The link -/

/-- `taken` are the bytes the socket has given to the reader, of those it took from the outbox;
`closed` is whether the host has closed the reader. -/
structure LinkWorld where
  outbox : Outbox
  taken : Nat
  reader : ReaderWorld
  closed : Bool

inductive LinkOp where
  | outbox (op : OutboxOp)
  /-- The socket has a chunk of at most `n` bytes for the host. -/
  | deliver (n : Nat)
  | readFrame
  | close (error : String)

namespace LinkWorld

variable {w : LinkWorld}

def new : LinkWorld := ⟨.spawn, 0, .new, false⟩

def chunk (w : LinkWorld) (n : Nat) : List UInt8 := (w.outbox.sent.drop w.taken).take n

def step (w : LinkWorld) : LinkOp → LinkWorld
  | .outbox op => { w with outbox := w.outbox.step op }
  | .deliver n => { w with taken := w.taken + (w.chunk n).length, reader := w.reader.push (w.chunk n) }
  | .readFrame => { w with reader := w.reader.readFrame }
  | .close error => { w with reader := w.reader.close error, closed := true }

structure Linked (w : LinkWorld) : Prop where
  held : ∃ h, w.outbox.Held h
  admitted : ∀ m ∈ w.outbox.accepted, m.frame.Fits Framing.defaultMaxFrameLength
  reading : ∃ D E, w.reader.Reading D E ∧ w.reader.Waiting
  pushed : w.reader.pushed <+: w.outbox.sent
  taken : w.taken ≤ w.outbox.sent.length
  /-- While the reader is open it has all the bytes the socket gave it. -/
  given : w.reader.closedError = none → w.reader.pushed = w.outbox.sent.take w.taken
  stands : w.closed = false → w.reader.closedError = none

theorem Linked.new : Linked .new where
  held := ⟨none, Outbox.held_spawn⟩
  admitted := fun _ hm => absurd hm List.not_mem_nil
  reading := ⟨[], [], .new, fun hne => absurd rfl hne⟩
  pushed := List.prefix_rfl
  taken := Nat.le_refl 0
  given := fun _ => rfl
  stands := fun _ => rfl

theorem acceptedBytes_eq (s : Outbox) :
    s.acceptedBytes = (s.accepted.map OutMsg.frame).flatMap Frame.bytes := by
  rw [Outbox.acceptedBytes, List.flatMap_map, List.flatMap_def]
  exact congrArg List.flatten (List.map_congr_left fun m _ => m.encode_eq)

theorem Linked.fits (h : w.Linked) :
    ∀ f ∈ w.outbox.accepted.map OutMsg.frame, f.Fits Framing.defaultMaxFrameLength := by
  intro f hf
  obtain ⟨m, hm, rfl⟩ := List.mem_map.mp hf
  exact h.admitted m hm

/-- The first bytes of the socket hold accepted frames, in order, and no bad length. -/
theorem Linked.frames (h : w.Linked) {bytes : List UInt8} (hbefore : bytes <+: w.outbox.sent) :
    ∃ gs, gs <+: w.outbox.accepted.map OutMsg.frame ∧
      parseFrames Framing.defaultMaxFrameLength bytes = (gs, none) := by
  obtain ⟨holder, hheld⟩ := h.held
  exact parseFrames_prefix defaultMax_lt h.fits (acceptedBytes_eq w.outbox ▸ hbefore.trans hheld.sentPrefix)

theorem outbox_linked (h : w.Linked) (op : OutboxOp) : Linked (w.step (.outbox op)) := by
  have hextends := w.outbox.step_extends op
  obtain ⟨more, hmore⟩ := hextends.sent
  refine ⟨Outbox.held_step op h.held, fun m hm => ?_, h.reading, h.pushed.trans hextends.sent, ?_, fun hopen => ?_,
    h.stands⟩
  · obtain hold | ⟨n, hn⟩ := hextends.accepted m hm
    · exact h.admitted m hold
    · exact payloadLen_fits hn
  · exact h.taken.trans hextends.sent.length_le
  · show w.reader.pushed = (w.outbox.step op).sent.take w.taken
    rw [← hmore, List.take_append_of_le_length h.taken]
    exact h.given hopen

theorem take_chunk (w : LinkWorld) (n : Nat) :
    w.outbox.sent.take w.taken ++ w.chunk n = w.outbox.sent.take (w.taken + (w.chunk n).length) := by
  rw [List.take_add, chunk, List.length_take, ← List.take_eq_take_min]

theorem deliver_linked (h : w.Linked) (n : Nat) : Linked (w.step (.deliver n)) := by
  obtain ⟨D, E, hreading, hwait⟩ := h.reading
  have htaken : w.taken + (w.chunk n).length ≤ w.outbox.sent.length := by
    have hle := h.taken
    rw [chunk, List.length_take, List.length_drop]
    omega
  have hpushed := w.reader.push_pushed (w.chunk n)
  by_cases hopen : w.reader.closedError = none
  · rw [if_neg (by rw [hopen]; exact Bool.false_ne_true), h.given hopen, take_chunk] at hpushed
    have hbefore : (w.reader.push (w.chunk n)).pushed <+: w.outbox.sent := hpushed ▸ List.take_prefix _ _
    obtain ⟨gs, -, hparse⟩ := h.frames hbefore
    refine ⟨h.held, h.admitted, hreading.push hwait _, hbefore, htaken, fun _ => hpushed, fun _ => ?_⟩
    refine ReaderWorld.push_open hreading hopen (w.chunk n) ?_
    rw [h.given hopen, take_chunk, ← hpushed, hparse]
  · have hsame : w.reader.push (w.chunk n) = w.reader := if_pos (Option.isSome_iff_ne_none.mpr hopen)
    have hstep : w.step (.deliver n) = { w with taken := w.taken + (w.chunk n).length } := by rw [step, hsame]
    rw [hstep]
    exact ⟨h.held, h.admitted, ⟨D, E, hreading, hwait⟩, h.pushed, htaken, fun hnone => absurd hnone hopen, h.stands⟩

theorem readFrame_linked (h : w.Linked) : Linked (w.step .readFrame) := by
  obtain ⟨D, E, hreading, hwait⟩ := h.reading
  have hpushed := w.reader.readFrame_pushed
  have hopen : w.reader.closedError = none → w.reader.readFrame.closedError = none := by
    intro hnone
    obtain ⟨gs, -, hparse⟩ := h.frames h.pushed
    refine ReaderWorld.readFrame_open hreading hnone ?_
    rw [hparse]
  refine ⟨h.held, h.admitted, hreading.readFrame hwait, hpushed ▸ h.pushed, h.taken, fun hnone => ?_, fun hclosed => ?_⟩
  · refine hpushed.trans (h.given ?_)
    by_contra hsome
    exact ReaderWorld.readFrame_closed hsome hnone
  · exact hopen (h.stands hclosed)

theorem close_linked (h : w.Linked) (error : String) : Linked (w.step (.close error)) := by
  have hpushed := w.reader.close_pushed error
  refine ⟨h.held, h.admitted, ReaderWorld.step_reading (.close error) h.reading, hpushed ▸ h.pushed, h.taken,
    fun hnone => ?_, fun hopen => by cases hopen⟩
  refine hpushed.trans (h.given ?_)
  by_contra hsome
  have hsame : w.reader.close error = w.reader := if_pos (Option.isSome_iff_ne_none.mpr hsome)
  change (w.reader.close error).closedError = none at hnone
  rw [hsame] at hnone
  exact hsome hnone

theorem step_linked (h : w.Linked) (op : LinkOp) : Linked (w.step op) := by
  cases op with
  | outbox op => exact outbox_linked h op
  | deliver n => exact deliver_linked h n
  | readFrame => exact readFrame_linked h
  | close error => exact close_linked h error

end LinkWorld

/-- Whatever the producers, the writer thread, the socket and the host do, and in whatever
chunks the bytes come: the reads of the host get frames that the outbox accepted, from the
first on, in order, each as it was handed in; a read fails only after the host closed the
reader.  While it has not, and once the outbox is empty and the socket has given all its
bytes, the reads have got as many of the accepted frames as there are reads. -/
theorem link_delivery (ops : List LinkOp) :
    let w := exec LinkWorld.step .new ops
    ∃ (got : List Frame) (errors : List String),
      w.reader.settled.map Prod.snd = got.map .ok ++ errors.map .error ∧
      w.reader.settled.map Prod.fst ++ w.reader.pendingReads = List.range w.reader.reads ∧
      got <+: w.outbox.accepted.map OutMsg.frame ∧
      (errors ≠ [] → w.closed = true) ∧
      (w.closed = false → w.outbox.writing = false → w.outbox.dead = none → w.outbox.queue = [] →
        w.taken = w.outbox.sent.length → got = (w.outbox.accepted.map OutMsg.frame).take w.reader.reads) := by
  have hlinked : LinkWorld.Linked (exec LinkWorld.step .new ops) :=
    exec_invariant (I := LinkWorld.Linked) (fun _ op h => LinkWorld.step_linked h op) .new ops
  intro w
  change w.Linked at hlinked
  obtain ⟨got, errors, hreading, hwait⟩ := hlinked.reading
  have hgot := hreading.delivered hwait
  refine ⟨got, errors, hreading.results, hreading.order, ?_, fun hne => ?_, fun hopen hfree hdead hempty htaken => ?_⟩
  · obtain ⟨gs, hgs, hparse⟩ := hlinked.frames hlinked.pushed
    rw [← hgot, hparse]
    exact (List.take_prefix _ _).trans hgs
  · by_contra hopen
    exact (hreading.failed hne).1 (hlinked.stands (eq_false_of_ne_true hopen))
  · obtain ⟨holder, hheld⟩ := hlinked.held
    have hnone : holder = none := by
      have htoken := hheld.token
      rw [hfree] at htoken
      exact Option.not_isSome_iff_eq_none.mp (by rw [← htoken]; exact Bool.false_ne_true)
    have hall := hheld.between hnone hdead
    rw [Outbox.queued, hempty, List.map_nil, List.flatten_nil, List.append_nil, LinkWorld.acceptedBytes_eq] at hall
    have hpushed := hlinked.given (hlinked.stands hopen)
    rw [htaken, List.take_length, hall] at hpushed
    have hnil : parseFrames Framing.defaultMaxFrameLength [] = ([], none) := parseFrames_more rfl
    have hparse := parseFrames_append hlinked.fits defaultMax_lt []
    rw [List.append_nil, ← hpushed, hnil] at hparse
    rw [← hgot, hparse]
    exact congrArg (List.take w.reader.reads) (List.append_nil _)

end Iso4
