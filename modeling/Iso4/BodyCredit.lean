/-
The two ledgers of a streamed body: what its source spends of the credit it was granted
(`crates/core/src/v8/streams.rs`), and what the registry of the host grants again for the chunks
that consumers take (`packages/iso4-sandbox/src/web-codec.ts`).

* `OutBodies.step_spends` — an open stream pays for every byte it sends;
* `OutboundStreamRegistry.step_booked` — every byte that came is granted again, buffered, or was
  dropped by a cancel.
-/
import Iso4.OutBodies
import Iso4.OutboundStreams

namespace Iso4

/-! ### Bytes and credit -/

def BodyFrame.size : BodyFrame → Nat
  | .chunk data => data.length
  | .ended _ => 0

/-- The bytes of the chunks in the frames of one stream. -/
def frameBytes (frames : List BodyFrame) : Nat := (frames.map BodyFrame.size).sum

/-- The chunks in the frames of one stream. -/
def chunksIn (frames : List BodyFrame) : List Chunk :=
  frames.filterMap fun
    | .chunk data => some data
    | .ended _ => none

/-- The frames of one stream in those of a run. -/
def framesFor (id : Nat) (frames : List (Nat × BodyFrame)) : List BodyFrame :=
  (frames.filter fun f => f.1 = id).map Prod.snd

def TransportCall.creditFor (id : Nat) : TransportCall → Nat
  | .pull id' credit => if id' = id then credit else 0
  | .cancel .. => 0

/-- The credit that calls grant one stream. -/
def creditFor (id : Nat) (calls : List TransportCall) : Nat :=
  (calls.map (TransportCall.creditFor id)).sum

/-- The bytes of a list of chunks. -/
def dataBytes (chunks : List Chunk) : Nat := (chunks.map List.length).sum

@[simp] theorem frameBytes_nil : frameBytes [] = 0 := rfl

@[simp] theorem frameBytes_cons (f : BodyFrame) (fs : List BodyFrame) :
    frameBytes (f :: fs) = f.size + frameBytes fs := by
  simp [frameBytes]

@[simp] theorem frameBytes_append (fs gs : List BodyFrame) :
    frameBytes (fs ++ gs) = frameBytes fs + frameBytes gs := by
  simp [frameBytes]

@[simp] theorem framesFor_append (id : Nat) (fs gs : List (Nat × BodyFrame)) :
    framesFor id (fs ++ gs) = framesFor id fs ++ framesFor id gs := by
  simp [framesFor]

@[simp] theorem creditFor_nil (id : Nat) : creditFor id [] = 0 := rfl

@[simp] theorem creditFor_append (id : Nat) (cs ds : List TransportCall) :
    creditFor id (cs ++ ds) = creditFor id cs + creditFor id ds := by
  simp [creditFor]

@[simp] theorem creditFor_singleton (id : Nat) (c : TransportCall) :
    creditFor id [c] = c.creditFor id := by
  simp [creditFor]

@[simp] theorem dataBytes_nil : dataBytes [] = 0 := rfl

@[simp] theorem dataBytes_cons (d : Chunk) (ds : List Chunk) :
    dataBytes (d :: ds) = d.length + dataBytes ds := by
  simp [dataBytes]

@[simp] theorem dataBytes_append (ds es : List Chunk) :
    dataBytes (ds ++ es) = dataBytes ds + dataBytes es := by
  simp [dataBytes]

@[simp] theorem chunksIn_append (fs gs : List BodyFrame) : chunksIn (fs ++ gs) = chunksIn fs ++ chunksIn gs := by
  simp [chunksIn]

theorem chunksIn_chunks (chunks : List Chunk) : chunksIn (chunks.map .chunk) = chunks := by
  induction chunks with
  | nil => rfl
  | cons d ds ih => exact congrArg (d :: ·) ih

theorem dataBytes_chunksIn (frames : List BodyFrame) : dataBytes (chunksIn frames) = frameBytes frames := by
  induction frames with
  | nil => rfl
  | cons f fs ih =>
    rw [frameBytes_cons, ← ih]
    cases f with
    | chunk data => exact dataBytes_cons data (chunksIn fs)
    | ended error => exact (Nat.zero_add _).symm

theorem dataBytes_le {ds es : List Chunk} (h : ds <+: es) : dataBytes ds ≤ dataBytes es := by
  obtain ⟨fs, rfl⟩ := h
  simp

theorem frameBytes_chunks (chunks : List (List UInt8)) :
    frameBytes (chunks.map .chunk) = chunks.flatten.length := by
  induction chunks with
  | nil => rfl
  | cons d ds ih => simp [BodyFrame.size, ih]

/-! ### What the source spends -/

namespace OutBody

/-- From `s` to `s'`, sending `frames` and granted nothing: as long as the stream is open its credit
goes down by what it sends. -/
structure Spends (s : OutBody) (frames : List BodyFrame) (s' : OutBody) : Prop where
  granted : s'.granted = s.granted
  credit : s'.done = false → s.done = false ∧ s'.credit + frameBytes frames = s.credit

theorem Spends.refl (s : OutBody) : s.Spends [] s := ⟨rfl, fun hd => ⟨hd, rfl⟩⟩

theorem Spends.trans {s s' s'' : OutBody} {fs gs : List BodyFrame} (h : s.Spends fs s')
    (h' : s'.Spends gs s'') : s.Spends (fs ++ gs) s'' := by
  refine ⟨h'.granted.trans h.granted, fun hd => ?_⟩
  obtain ⟨hd', hsum'⟩ := h'.credit hd
  obtain ⟨hd'', hsum⟩ := h.credit hd'
  refine ⟨hd'', ?_⟩
  rw [frameBytes_append]
  omega

theorem spends_of_eq {s s' : OutBody} (hdone : s'.done = s.done) (hcredit : s'.credit = s.credit)
    (hgranted : s'.granted = s.granted) : s.Spends [] s' :=
  ⟨hgranted, fun hd => ⟨hdone.symm.trans hd, hcredit⟩⟩

theorem spends_of_done {s s' : OutBody} {frames : List BodyFrame} (hdone : s'.done = true)
    (hgranted : s'.granted = s.granted) : s.Spends frames s' := by
  refine ⟨hgranted, fun hd => ?_⟩
  rw [hdone] at hd
  cases hd

theorem nextLen_le_credit (s : OutBody) : s.nextLen ≤ s.credit := by
  unfold nextLen
  omega

theorem spends_flushLoop (fuel : Nat) (s : OutBody) :
    s.Spends (s.flushLoop fuel).2.1 (s.flushLoop fuel).1 := by
  induction fuel generalizing s with
  | zero => exact Spends.refl s
  | succ fuel ih =>
    unfold flushLoop
    split
    · exact Spends.refl s
    · rcases send_cases s (.chunk ((s.backlog.drop s.backlogSent).take s.nextLen)) with hs | hs
      · simp only [hs]
        have hcredit := s.nextLen_le_credit
        have hlen : ((s.backlog.drop s.backlogSent).take s.nextLen).length = s.nextLen := by
          rw [List.length_take, List.length_drop]
          unfold nextLen
          omega
        have hsent : s.Spends [.chunk ((s.backlog.drop s.backlogSent).take s.nextLen)]
            { s with
              backlogSent := s.backlogSent + s.nextLen
              credit := s.credit - s.nextLen
              sends := s.sends.tail } := by
          refine ⟨rfl, fun hd => ⟨hd, ?_⟩⟩
          simp only [frameBytes_cons, frameBytes_nil, BodyFrame.size, hlen]
          omega
        exact hsent.trans (ih _)
      · simp only [hs]
        exact spends_of_done rfl rfl

theorem spends_compact (s : OutBody) : s.Spends [] s.compact := by
  unfold compact
  split
  · exact spends_of_eq rfl rfl rfl
  · exact Spends.refl s

theorem spends_classify (s : OutBody) : s.Spends s.classify.2.1 s.classify.1 := by
  unfold classify
  split
  · exact Spends.refl s
  · have hflush : s.Spends s.flush.2.1 s.flush.1 := spends_flushLoop _ s
    dsimp only
    split
    · exact hflush
    · simpa using hflush.trans (spends_compact s.flush.1)

theorem spends_settle (s : OutBody) (outcome : Except String (Option (List UInt8))) :
    s.Spends (s.settle outcome).2 (s.settle outcome).1 := by
  unfold settle
  dsimp only
  split
  · exact spends_of_eq rfl rfl rfl
  · exact spends_of_done rfl rfl
  · exact spends_of_done rfl rfl

theorem spends_startPull (s : OutBody) (terminating progressed : Bool) :
    s.Spends (s.startPull terminating progressed).2.1 (s.startPull terminating progressed).1 := by
  unfold startPull
  dsimp only
  split
  · split <;> exact spends_of_eq rfl rfl rfl
  · split
    · exact spends_of_eq rfl rfl rfl
    · exact spends_of_done rfl rfl

theorem spends_drive (s : OutBody) (terminating : Bool) :
    s.Spends (s.drive terminating).2.1 (s.drive terminating).1 := by
  have hc := s.spends_classify
  unfold drive
  split
  · next s' fs progressed heq =>
    rw [heq] at hc
    exact hc
  · next s' fs progressed heq =>
    rw [heq] at hc
    exact hc.trans (s'.spends_startPull terminating progressed)
  · next s' fs progressed p heq =>
    rw [heq] at hc
    split
    · exact hc
    · have hsettled := hc.trans (s'.spends_settle p.result.outcome)
      have hc' := (s'.settle p.result.outcome).1.spends_classify
      dsimp only
      split
      · next t more _ heq' =>
        rw [heq'] at hc'
        exact (hsettled.trans hc').trans (t.spends_startPull terminating true)
      · next t more _ _ _ heq' =>
        rw [heq'] at hc'
        exact hsettled.trans hc'

theorem spends_tick (s : OutBody) : s.Spends [] s.tick := by
  unfold tick
  split
  · exact spends_of_eq rfl rfl rfl
  · exact Spends.refl s

theorem noteCredit_granted (s : OutBody) (credit : Nat) : (s.noteCredit credit).granted = s.granted + credit := by
  unfold noteCredit
  dsimp only
  split <;> rfl

theorem noteCredit_credit {s : OutBody} {credit : Nat} (hd : s.done = false) (hfits : s.credit + credit ≤ u32Max) :
    (s.noteCredit credit).credit = s.credit + credit := by
  simp [noteCredit, hd, hfits]

theorem spends_close (s : OutBody) (message : String) :
    s.Spends (s.close message).2 (s.close message).1 := by
  unfold close
  split
  · exact Spends.refl s
  · exact spends_of_done rfl rfl

theorem spends_cancel (s : OutBody) (reason : String) (notifyHost : Bool) :
    s.Spends (s.cancel reason notifyHost).2 (s.cancel reason notifyHost).1 := by
  unfold cancel
  split
  · exact s.spends_close reason
  · split
    · exact Spends.refl s
    · exact spends_of_done rfl rfl

end OutBody

namespace OutBodies

/-- What the streams of `w` do until `w'`, in which they are granted nothing. -/
structure Spends (w w' : OutBodies) : Prop where
  frames : w.frames <+: w'.frames
  streams : ∀ id s', w'.streams id = some s' → ∃ s fs, w.streams id = some s ∧ s.Spends fs s' ∧
    w'.framesOf id = w.framesOf id ++ fs

theorem Spends.refl (w : OutBodies) : w.Spends w :=
  ⟨List.prefix_rfl, fun _ s hs => ⟨s, [], hs, OutBody.Spends.refl s, by simp⟩⟩

theorem Spends.trans {w w' w'' : OutBodies} (h : w.Spends w') (h' : w'.Spends w'') : w.Spends w'' := by
  refine ⟨h.frames.trans h'.frames, fun id s'' hs'' => ?_⟩
  obtain ⟨s', gs, hs', hspends', hframes'⟩ := h'.streams id s'' hs''
  obtain ⟨s, fs, hs, hspends, hframes⟩ := h.streams id s' hs'
  exact ⟨s, fs ++ gs, hs, hspends.trans hspends', by rw [hframes', hframes, List.append_assoc]⟩

theorem spends_put {w : OutBodies} {id : Nat} {s s' : OutBody} {frames : List BodyFrame}
    (hs : w.streams id = some s) (hspends : s.Spends frames s') : w.Spends (w.put id s' frames) := by
  refine ⟨List.prefix_append _ _, fun j t ht => ?_⟩
  rw [framesOf_put]
  by_cases hj : j = id
  · subst hj
    obtain rfl : s' = t := by simpa [put] using ht
    exact ⟨s, frames, hs, hspends, by rw [if_pos rfl]⟩
  · exact ⟨t, [], by simpa [put, hj] using ht, OutBody.Spends.refl t, by rw [if_neg hj]⟩

theorem spends_onStream (w : OutBodies) (id : Nat) {f : OutBody → OutBody × List BodyFrame}
    (hf : ∀ s : OutBody, s.Spends (f s).2 (f s).1) : w.Spends (w.onStream id f) := by
  unfold onStream
  split
  · exact Spends.refl w
  · next s hs => exact spends_put hs (hf s)

theorem spends_onEach {f : OutBody → OutBody × List BodyFrame} (hf : ∀ s : OutBody, s.Spends (f s).2 (f s).1)
    (w : OutBodies) (ids : List Nat) : w.Spends (w.onEach f ids) := by
  induction ids generalizing w with
  | nil => exact Spends.refl w
  | cons id ids ih => exact (spends_onStream w id hf).trans (ih _)

theorem spends_checkpoint (w : OutBodies) : w.Spends w.checkpoint := by
  refine ⟨List.prefix_rfl, fun id t ht => ?_⟩
  obtain ⟨s, hs, rfl⟩ := Option.map_eq_some_iff.mp ht
  exact ⟨s, [], hs, s.spends_tick, by simp [framesOf, checkpoint]⟩

theorem spends_halt (w : OutBodies) : w.Spends { w with halted := true } :=
  ⟨List.prefix_rfl, (Spends.refl w).streams⟩

theorem spends_driveEach (ids : List Nat) : ∀ (w : OutBodies) (progressed : Bool) (flags : List Bool),
    w.Spends (w.driveEach ids progressed flags).1 := by
  induction ids with
  | nil => exact fun w _ _ => Spends.refl w
  | cons id ids ih =>
    intro w progressed flags
    unfold driveEach
    dsimp only
    split
    · exact ih w progressed flags
    · next s hs =>
      have hput := spends_put hs (s.spends_drive (flags.headD false))
      split
      · exact hput.trans (spends_halt _)
      · exact hput.trans (ih _ _ _)

theorem spends_driveRounds (rounds : Nat) : ∀ (w : OutBodies) (flags : List Bool),
    w.Spends (driveRounds rounds w flags) := by
  induction rounds with
  | zero => exact fun w _ => Spends.refl w
  | succ rounds ih =>
    intro w flags
    have hround := spends_driveEach w.keys w false flags
    unfold driveRounds
    split
    next w' progressed flags' heq =>
    rw [heq] at hround
    split
    · exact hround
    · split
      · exact hround.trans ((spends_checkpoint w').trans (spends_halt _))
      · exact hround.trans ((spends_checkpoint w').trans (ih _ _))

theorem grant_frames (w : OutBodies) (id credit : Nat) : (w.step (.grant id credit)).frames = w.frames := by
  simp only [step, onStream]
  split
  · rfl
  · simp [put]

theorem grant_streams {w : OutBodies} {id credit j : Nat} {s' : OutBody}
    (hs' : (w.step (.grant id credit)).streams j = some s') :
    ∃ s, w.streams j = some s ∧ s' = if j = id then s.noteCredit credit else s := by
  simp only [step, onStream] at hs'
  split at hs'
  · next hnone =>
    refine ⟨s', hs', ?_⟩
    rw [if_neg]
    rintro rfl
    rw [hnone] at hs'
    cases hs'
  · next s hs =>
    by_cases hj : j = id
    · subst hj
      exact ⟨s, hs, by simpa [put] using hs'.symm⟩
    · exact ⟨s', by simpa [put, hj] using hs', by rw [if_neg hj]⟩

/-- Every step but a registration and a grant. -/
theorem step_spends (w : OutBodies) {op : OutBodyOp} (hregister : ∀ source sends, op ≠ .register source sends)
    (hgrant : ∀ id credit, op ≠ .grant id credit) : w.Spends (w.step op) := by
  cases op with
  | register source sends => exact absurd rfl (hregister source sends)
  | grant id credit => exact absurd rfl (hgrant id credit)
  | rehash keys =>
    simp only [step]
    split
    · exact ⟨List.prefix_rfl, (Spends.refl w).streams⟩
    · exact Spends.refl w
  | checkpoint => exact spends_checkpoint w
  | drive flags =>
    simp only [step]
    split
    · exact Spends.refl w
    · exact spends_driveRounds _ w flags
  | hostCancel id reason => exact spends_onStream w id fun s => s.spends_cancel reason false
  | cancelAll reason upTo => exact spends_onEach (fun s => s.spends_cancel reason true) w _
  | closeAll message => exact spends_onEach (fun s => s.spends_close message) w _

end OutBodies

/-! ### What the host gives back -/

namespace OutboundStreamRegistry

/-- The bytes of a stream that no consumer took. -/
def bufferedOf (r : OutboundStreamRegistry) (id : Nat) : Nat :=
  match r.states id with
  | some st => dataBytes st.buffered
  | none => 0

/-- The consumer of the stream cancelled it. -/
def Cancelled (r : OutboundStreamRegistry) (id : Nat) : Prop :=
  ∃ st, r.states id = some st ∧ st.cancelled = true

/-- The bytes of a stream that came, and were not dropped: granted again, or buffered. -/
def booked (r : OutboundStreamRegistry) (id : Nat) : Nat := creditFor id r.sent + r.bufferedOf id

/-- Nothing comes and nothing is dropped. -/
structure SameBooks (r r' : OutboundStreamRegistry) : Prop where
  booked : ∀ id, r'.booked id = r.booked id
  cancelled : ∀ id, r'.Cancelled id ↔ r.Cancelled id

theorem SameBooks.refl (r : OutboundStreamRegistry) : r.SameBooks r := ⟨fun _ => rfl, fun _ => .rfl⟩

theorem SameBooks.trans {r r' r'' : OutboundStreamRegistry} (h : r.SameBooks r') (h' : r'.SameBooks r'') :
    r.SameBooks r'' :=
  ⟨fun id => (h'.booked id).trans (h.booked id), fun id => (h'.cancelled id).trans (h.cancelled id)⟩

/-- Each chunk that a consumer takes is granted again. -/
theorem serve_booked (handle : Nat) (st : OutboundState) (buffered : List Chunk) (c : Consumer)
    (calls : List TransportCall) (id : Nat) :
    creditFor id (serve handle st buffered c calls).2.2 +
        (if id = c.streamId then dataBytes (serve handle st buffered c calls).1.buffered else 0) =
      creditFor id calls + if id = c.streamId then dataBytes buffered else 0 := by
  induction buffered generalizing c calls with
  | nil =>
    unfold serve
    split
    · rfl
    · split <;> rfl
  | cons chunk rest ih =>
    unfold serve
    split
    · rfl
    · have hid : (c.enqueue chunk).streamId = c.streamId := by
        unfold Consumer.enqueue
        split <;> rfl
      have hrest := ih (c.enqueue chunk) (calls ++ [.pull c.streamId chunk.length])
      rw [hid] at hrest
      rw [hrest, creditFor_append, creditFor_singleton]
      by_cases h : id = c.streamId
      · simp [h, TransportCall.creditFor]
        omega
      · simp [h, Ne.symm h, TransportCall.creditFor]

/-- One stream's state changes. -/
theorem bufferedOf_update {r r' : OutboundStreamRegistry} {id : Nat} {st : OutboundState}
    (h : r'.states = Function.update r.states id (some st)) (j : Nat) :
    r'.bufferedOf j = if j = id then dataBytes st.buffered else r.bufferedOf j := by
  unfold bufferedOf
  rw [h]
  by_cases hj : j = id
  · subst hj
    simp
  · simp [hj]

theorem cancelled_update {r r' : OutboundStreamRegistry} {id : Nat} {st : OutboundState}
    (h : r'.states = Function.update r.states id (some st)) (j : Nat) :
    r'.Cancelled j ↔ if j = id then st.cancelled = true else r.Cancelled j := by
  unfold Cancelled
  rw [h]
  by_cases hj : j = id
  · subst hj
    simp
  · simp [hj]

/-- A stream's state changes, but for what it buffers and whether it is cancelled. -/
theorem sameBooks_state {r r' : OutboundStreamRegistry} {id : Nat} {st st' : OutboundState}
    (hst : r.states id = some st) (hstates : r'.states = Function.update r.states id (some st'))
    (hbuffered : st'.buffered = st.buffered) (hcancelled : st'.cancelled = st.cancelled)
    (hsent : r'.sent = r.sent) : r.SameBooks r' := by
  constructor
  · intro j
    rw [booked, booked, hsent, bufferedOf_update hstates]
    split
    · next hj => rw [hbuffered, hj, bufferedOf, hst]
    · rfl
  · intro j
    rw [cancelled_update hstates]
    split
    · next hj => simp [hcancelled, hj, Cancelled, hst]
    · rfl

theorem sameBooks_consumers (r : OutboundStreamRegistry) (h : Nat) (c : Consumer) :
    r.SameBooks (r.setConsumer h c) := ⟨fun _ => rfl, fun _ => .rfl⟩

theorem pump_books (r : OutboundStreamRegistry) (h : Nat) : r.SameBooks (r.pump h) := by
  cases hc : r.consumers h with
  | none => simpa [pump, hc] using SameBooks.refl r
  | some c =>
    cases hst : r.states c.streamId with
    | none => simpa [pump, hc, hst] using SameBooks.refl r
    | some st =>
      rw [pump_eq hc hst]
      constructor
      · intro j
        have hserve := serve_booked h st st.buffered c [] j
        simp only [booked, creditFor_append]
        rw [bufferedOf_update rfl]
        by_cases hj : j = c.streamId
        · subst hj
          simp only [if_true, creditFor_nil] at hserve ⊢
          simp only [bufferedOf, hst]
          omega
        · simp only [hj, if_false, creditFor_nil] at hserve ⊢
          omega
      · intro j
        rw [cancelled_update rfl]
        split
        · next hj => simp [(serve_served h st st.buffered c []).cancelled, hj, Cancelled, hst]
        · rfl

theorem wake_books (r : OutboundStreamRegistry) (id : Nat) : r.SameBooks (r.wake id) := by
  unfold wake
  split
  · exact SameBooks.refl r
  · next st hst =>
    split
    · exact SameBooks.refl r
    · next handle _ =>
      split
      · exact SameBooks.refl r
      · have hstate : r.SameBooks (r.setState id { st with waiter := none }) :=
          sameBooks_state hst rfl rfl rfl rfl
        exact (hstate.trans (sameBooks_consumers _ handle _)).trans (pump_books _ handle)

theorem failOne_books (error : String) (r : OutboundStreamRegistry) (id : Nat) :
    r.SameBooks (r.failOne error id) := by
  unfold failOne
  split
  · exact SameBooks.refl r
  · next st hst =>
    split
    · exact SameBooks.refl r
    · have hstate : r.SameBooks (r.setState id { st with failed := some error }) :=
        sameBooks_state hst rfl rfl rfl rfl
      exact hstate.trans (wake_books _ id)

theorem failEach_books (error : String) (ids : List Nat) (r : OutboundStreamRegistry) :
    r.SameBooks (ids.foldl (failOne error) r) := by
  induction ids generalizing r with
  | nil => exact SameBooks.refl r
  | cons id ids ih => exact (failOne_books error r id).trans (ih _)

theorem ensure_books (r : OutboundStreamRegistry) (id : Nat) : r.SameBooks (r.ensure id) := by
  cases hst : r.states id with
  | some st => simpa [ensure, hst] using SameBooks.refl r
  | none =>
    have hensure : r.ensure id = { r with
        states := Function.update r.states id (some .new)
        order := r.order ++ [id] } := by
      simp [ensure, hst]
    rw [hensure]
    constructor
    · intro j
      simp only [booked]
      rw [bufferedOf_update rfl]
      by_cases hj : j = id
      · simp [hj, bufferedOf, hst, OutboundState.new]
      · simp [hj]
    · intro j
      rw [cancelled_update rfl]
      split
      · next hj => simp [hj, Cancelled, hst, OutboundState.new]
      · rfl

/-- The chunks delivered for a stream are booked, unless it is cancelled. -/
structure Booked (r : OutboundStreamRegistry) (given : List OutboundOp) : Prop where
  most : ∀ id, r.booked id ≤ dataBytes (delivered given id)
  all : ∀ id, ¬ r.Cancelled id → r.booked id = dataBytes (delivered given id)

theorem Booked.same {r r' : OutboundStreamRegistry} {given given' : List OutboundOp} (h : r.Booked given)
    (hbooks : r.SameBooks r') (hgiven : ∀ id, delivered given' id = delivered given id) :
    r'.Booked given' := by
  constructor
  · intro id
    rw [hbooks.booked, hgiven]
    exact h.most id
  · intro id hcan
    rw [hbooks.booked, hgiven]
    exact h.all id fun hc => hcan ((hbooks.cancelled id).mpr hc)

theorem Booked.deliverChunk {r : OutboundStreamRegistry} {given : List OutboundOp} (h : r.Booked given)
    (id : Nat) (data : Chunk) :
    (r.step (.deliverChunk id data)).Booked (given ++ [.deliverChunk id data]) := by
  have hensure := h.same (ensure_books r id) fun _ => rfl
  have hdelivered : ∀ j, dataBytes (delivered (given ++ [.deliverChunk id data]) j) =
      dataBytes (delivered given j) + if id = j then data.length else 0 := by
    intro j
    rw [delivered_append_chunk, dataBytes_append]
    split <;> simp
  simp only [step]
  split
  · next hnone =>
    obtain ⟨st, hst⟩ : ∃ st, (r.ensure id).states id = some st := by
      unfold ensure
      split
      · next st hst => exact ⟨st, hst⟩
      · exact ⟨.new, by simp⟩
    rw [hst] at hnone
    cases hnone
  · next st hst =>
    split
    · next hcan =>
      -- A cancelled stream drops the chunk.
      refine ⟨fun j => ?_, fun j hj => ?_⟩
      · have := hensure.most j
        rw [hdelivered]
        omega
      · have hne : id ≠ j := by
          rintro rfl
          exact hj ⟨st, hst, hcan⟩
        rw [hdelivered, if_neg hne]
        exact hensure.all j hj
    · next hcan =>
      have hset : ∀ j, ((r.ensure id).setState id { st with buffered := st.buffered ++ [data] }).booked j =
          (r.ensure id).booked j + if id = j then data.length else 0 := by
        intro j
        rw [booked, booked, bufferedOf_update rfl]
        by_cases hj : j = id
        · subst hj
          simp [bufferedOf, hst, setState, Nat.add_assoc]
        · simp [hj, Ne.symm hj, setState]
      have hkept : Booked ((r.ensure id).setState id { st with buffered := st.buffered ++ [data] })
          (given ++ [.deliverChunk id data]) := by
        refine ⟨fun j => ?_, fun j hj => ?_⟩
        · have := hensure.most j
          rw [hset, hdelivered]
          omega
        · have hold : ¬ (r.ensure id).Cancelled j := by
            rw [cancelled_update rfl] at hj
            by_cases hji : j = id
            · subst hji
              simpa [Cancelled, hst] using hcan
            · simpa [hji] using hj
          rw [hset, hdelivered, hensure.all j hold]
      exact hkept.same (wake_books _ id) fun _ => rfl

theorem step_booked {r : OutboundStreamRegistry} {given : List OutboundOp} (h : r.Booked given)
    (op : OutboundOp) : (r.step op).Booked (given ++ [op]) := by
  cases op with
  | deliverChunk id data => exact h.deliverChunk id data
  | deliverEnd id error =>
    have hensure : (r.ensure id).Booked (given ++ [.deliverEnd id error]) :=
      h.same (ensure_books r id) (delivered_append_other (by simp))
    simp only [step]
    split
    · exact hensure
    · next st hst =>
      have hstate : (r.ensure id).SameBooks ((r.ensure id).setState id { st with ended := some error }) :=
        sameBooks_state hst rfl rfl rfl rfl
      exact hensure.same (hstate.trans (wake_books _ id)) fun _ => rfl
  | failAll error =>
    have hfold : (r.order.foldl (failOne error) r).Booked (given ++ [.failAll error]) :=
      h.same (failEach_books error r.order r) (delivered_append_other (by simp))
    exact ⟨hfold.most, hfold.all⟩
  | attach id =>
    have hensure : (r.ensure id).Booked (given ++ [.attach id]) :=
      h.same (ensure_books r id) (delivered_append_other (by simp))
    have hnew : (r.ensure id).SameBooks { (r.ensure id).setConsumer (r.ensure id).nextHandle (.new id) with
        nextHandle := (r.ensure id).nextHandle + 1 } := ⟨fun _ => rfl, fun _ => .rfl⟩
    exact hensure.same (hnew.trans (pump_books _ _)) fun _ => rfl
  | read handle =>
    have hsame : r.Booked (given ++ [.read handle]) :=
      h.same (SameBooks.refl r) (delivered_append_other (by simp))
    simp only [step]
    split
    · exact hsame
    · split
      · exact hsame
      · split
        · exact hsame.same ((sameBooks_consumers r handle _).trans (pump_books _ _)) fun _ => rfl
        · exact hsame.same ((sameBooks_consumers r handle _).trans (pump_books _ _)) fun _ => rfl
  | cancel handle reason =>
    have hsame : r.Booked (given ++ [.cancel handle reason]) :=
      h.same (SameBooks.refl r) (delivered_append_other (by simp))
    simp only [step]
    split
    · exact hsame
    · next c _ =>
      split
      · exact hsame
      · split
        · exact hsame
        · next st hst =>
          -- What was buffered is dropped.
          have hsent : ∀ j, creditFor j (if st.settled then r.sent else r.sent ++ [.cancel c.streamId reason]) =
              creditFor j r.sent := by
            intro j
            split
            · rfl
            · simp [TransportCall.creditFor]
          refine ⟨fun j => ?_, fun j hj => ?_⟩
          · have hmost := hsame.most j
            simp only [booked, hsent] at hmost ⊢
            rw [bufferedOf_update rfl]
            split
            · rw [dataBytes_nil]
              omega
            · exact hmost
          · rw [cancelled_update rfl] at hj
            by_cases hji : j = c.streamId
            · simp [hji] at hj
            · rw [if_neg hji] at hj
              have hall := hsame.all j hj
              simp only [booked, hsent] at hall ⊢
              rw [bufferedOf_update rfl, if_neg hji]
              exact hall

/-- Calls are sent one after another, and an entry that ended stays so. -/
structure Grows (r r' : OutboundStreamRegistry) : Prop where
  sent : r.sent <+: r'.sent
  finished : r'.finished = false → r.finished = false

theorem Grows.trans {r r' r'' : OutboundStreamRegistry} (h : r.Grows r') (h' : r'.Grows r'') : r.Grows r'' :=
  ⟨h.sent.trans h'.sent, fun hf => h.finished (h'.finished hf)⟩

theorem grows_of_eq {r r' : OutboundStreamRegistry} (hsent : r'.sent = r.sent)
    (hfinished : r'.finished = r.finished) : r.Grows r' :=
  ⟨hsent ▸ List.prefix_rfl, fun hf => hfinished.symm.trans hf⟩

theorem Grows.refl (r : OutboundStreamRegistry) : r.Grows r := grows_of_eq rfl rfl

theorem Grows.setState {r r' : OutboundStreamRegistry} (h : r.Grows r') (id : Nat) (st : OutboundState) :
    r.Grows (r'.setState id st) := ⟨h.sent, h.finished⟩

theorem Grows.setConsumer {r r' : OutboundStreamRegistry} (h : r.Grows r') (handle : Nat) (c : Consumer) :
    r.Grows (r'.setConsumer handle c) := ⟨h.sent, h.finished⟩

theorem Grows.pump {r r' : OutboundStreamRegistry} (h : r.Grows r') (handle : Nat) : r.Grows (r'.pump handle) := by
  unfold OutboundStreamRegistry.pump
  split
  · exact h
  · split
    · exact h
    · exact h.trans ⟨List.prefix_append _ _, fun hf => hf⟩

theorem Grows.wake {r r' : OutboundStreamRegistry} (h : r.Grows r') (id : Nat) : r.Grows (r'.wake id) := by
  unfold OutboundStreamRegistry.wake
  split
  · exact h
  · split
    · exact h
    · split
      · exact h
      · exact ((h.setState _ _).setConsumer _ _).pump _

theorem failEach_grows (error : String) (ids : List Nat) (r : OutboundStreamRegistry) :
    r.Grows (ids.foldl (failOne error) r) := by
  induction ids generalizing r with
  | nil => exact Grows.refl r
  | cons id ids ih =>
    refine Grows.trans ?_ (ih _)
    unfold failOne
    split
    · exact Grows.refl r
    · split
      · exact Grows.refl r
      · exact ((Grows.refl r).setState _ _).wake id

theorem ensure_grows (r : OutboundStreamRegistry) (id : Nat) : r.Grows (r.ensure id) := by
  unfold ensure
  split
  · exact Grows.refl r
  · exact grows_of_eq rfl rfl

theorem step_grows (r : OutboundStreamRegistry) (op : OutboundOp) : r.Grows (r.step op) := by
  cases op with
  | deliverChunk id data =>
    simp only [step]
    split
    · exact ensure_grows r id
    · split
      · exact ensure_grows r id
      · exact ((ensure_grows r id).setState _ _).wake id
  | deliverEnd id error =>
    simp only [step]
    split
    · exact ensure_grows r id
    · exact ((ensure_grows r id).setState _ _).wake id
  | failAll error => exact ⟨(failEach_grows error r.order r).sent, fun hf => by cases hf⟩
  | attach id =>
    have hnew : r.Grows { (r.ensure id).setConsumer (r.ensure id).nextHandle (.new id) with
        nextHandle := (r.ensure id).nextHandle + 1 } :=
      (ensure_grows r id).trans (grows_of_eq rfl rfl)
    exact hnew.pump _
  | read handle =>
    simp only [step]
    split
    · exact Grows.refl r
    · split
      · exact Grows.refl r
      · split
        · exact ((Grows.refl r).setConsumer _ _).pump _
        · exact ((Grows.refl r).setConsumer _ _).pump _
  | cancel handle reason =>
    simp only [step]
    split
    · exact Grows.refl r
    · split
      · exact Grows.refl r
      · split
        · exact Grows.refl r
        · refine ⟨?_, fun hf => hf⟩
          dsimp only
          split
          · exact List.prefix_rfl
          · exact List.prefix_append _ _

end OutboundStreamRegistry

end Iso4
