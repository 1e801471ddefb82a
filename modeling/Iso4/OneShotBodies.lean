/-
One-shot bodies (`crates/core/src/webtypes.js`): what a guest can do with any number of
`Request` and `Response` instances and their streams.

* `RefusesUsed`, `Delivered`, `Unaliased` — a used body is refused, what a body holds is
  delivered once, and a buffer is in one place;
* `one_shot_bodies` — the runs in which each of them holds;
* `one_shot_fails` — a run without it, for each.
-/
import Iso4.BodyStreams
import Iso4.BodyBuffers

namespace Iso4

open Execution Tally

namespace OneShot

namespace Bodies

/-- A whole body is delivered once, and after a `clone` there are two alike.  Of a stream each
chunk is delivered once, all to one consumer.  A side of a tee that is not cancelled has yielded,
or has in its queue, all that the stream of the tee has yielded. -/
structure Delivered (s : Bodies) : Prop where
  wholes : s.wholes.Nodup
  twins : ∀ x ∈ s.twins, s.SameBytes x.1 x.2
  chunks : (s.log.map fun h => (h.stream, h.chunk.n)).Nodup
  consumer : ∀ x ∈ s.log, ∀ y ∈ s.log, x.stream = y.stream → x.taker = y.taker
  sides : ∀ {u t : Nat} {queue : List Chunk}, s.srcOf u = some (.branch t queue false) →
    ∃ up left right, s.endsOf t = some (up, left, right) ∧ s.out u ++ queue = s.out up

/-- The buffers of all bodies, queues and drains. -/
def keptBuffers (s : Bodies) : List Nat :=
  s.instances.flatMap Instance.buffers ++ s.streams.flatMap BodyStream.buffers ++
    s.tasks.flatMap Task.buffers

/-- No buffer is in two places, or in one of them and with the guest's own code. -/
structure Unaliased (s : Bodies) : Prop where
  once : s.keptBuffers.Nodup
  own : ∀ b ∈ s.keptBuffers, b ∉ s.held

theorem count_keptBuffers (s : Bodies) (b : Nat) : s.keptBuffers.count b = s.keeps b := by
  simp [keptBuffers, keeps, tally, Nat.add_assoc]

theorem Owned.unaliased {s : Bodies} (h : s.Owned) : s.Unaliased where
  once := by
    rw [List.nodup_iff_count_le_one]
    intro b
    rw [count_keptBuffers]
    exact h.once b
  own := by
    intro b hb hheld
    have hpos := List.count_pos_iff.mpr hb
    rw [count_keptBuffers, h.own b hheld] at hpos
    omega

theorem delivered_of {s : Bodies} (hw : s.Whole) (hp : s.Piped) : s.Delivered where
  wholes := by
    rw [List.nodup_iff_count_le_one]
    intro id
    have := hw.once id
    omega
  twins := hw.twins
  chunks := hp.once
  consumer := by
    intro x hx y hy hxy
    have hxt := hp.taken x hx
    have hyt := hp.taken y hy
    rw [hxy, hyt] at hxt
    exact (Option.some.inj hxt).symm
  sides := by
    intro u t queue hu
    obtain ⟨up, left, right, he, -, -, hall⟩ := hp.sides hu
    exact ⟨up, left, right, he, hall rfl⟩

/-- A helper that is refused delivers nothing. -/
theorem consume_refused (s : Bodies) (i : Nat) {inst : Instance} (h : s.refuses inst = true)
    (how : Helper) :
    (s.consume i inst how).log = s.log ∧ (s.consume i inst how).wholes = s.wholes ∧
      (s.consume i inst how).held = s.held ∧ (s.consume i inst how).tasks = s.tasks := by
  unfold consume
  split
  · exact ⟨rfl, rfl, rfl, rfl⟩
  · next hused =>
    cases hbody : inst.body with
    | stream u =>
      have hlocked : (s.streams[u]?.map BodyStream.locked).getD true = true := by
        simpa [refuses, hbody, hused] using h
      simp [hlocked]
    | _ => simp [refuses, hbody, hused] at h

/-! ### Runs -/

instance Unspent.decidable (s : Bodies) : ∀ op : BodyOp, Decidable (s.Unspent op)
  | .clone i =>
    inferInstanceAs (Decidable
      (∀ inst ∈ s.instances[i]?, inst.used = false → s.bodyUsed inst = false))
  | .consume i _ =>
    inferInstanceAs (Decidable
      (∀ inst ∈ s.instances[i]?, s.refuses inst = false → s.bodyUsed inst = false))
  | .newBuffer _ | .hydrate _ | .response _ _ | .request _ _ _ | .getReader _ | .releaseLock _
  | .read _ | .readerCancel _ | .streamCancel _ | .answer _ _ | .resume _ =>
    inferInstanceAs (Decidable True)

instance OneConsumer.decidable (s : Bodies) : ∀ op : BodyOp, Decidable (s.OneConsumer op)
  | .request input method arg =>
    inferInstanceAs (Decidable (arg = .none → ∀ bodiless ∈ methodOf (s.inputOf input) method,
      (inheritedBody (s.inputOf input) bodiless).ids = []))
  | .read u =>
    inferInstanceAs (Decidable
      (s.doneOf u = false → s.takenOf u = none ∨ s.takenOf u = some .reader))
  | .consume i _ =>
    inferInstanceAs (Decidable (∀ inst ∈ s.instances[i]?, s.refuses inst = false →
      ∀ u ∈ inst.body.streamOf, s.doneOf u = false → s.takenOf u = none))
  | .clone i =>
    inferInstanceAs (Decidable (∀ inst ∈ s.instances[i]?, inst.used = false →
      ∀ u ∈ inst.body.streamOf, s.takenOf u = none))
  | .newBuffer _ | .hydrate _ | .response _ _ | .getReader _ | .releaseLock _
  | .readerCancel _ | .streamCancel _ | .answer _ _ | .resume _ => inferInstanceAs (Decidable True)

instance MayHand.decidable (s : Bodies) :
    ∀ (owner : Owner) (data : Data), Decidable (s.MayHand owner data)
  | .reader, _ => inferInstanceAs (Decidable True)
  | .drain _ _ _, data => inferInstanceAs (Decidable (∀ b ∈ data.buffers, b ∉ s.held))
  | .shared t, data =>
    inferInstanceAs (Decidable (∀ b ∈ data.buffers, b ∉ s.held ∧
      ∀ tee ∈ s.tees[t]?, s.cancelled tee.left = true ∨ s.cancelled tee.right = true))

instance Unshared.decidable (s : Bodies) : ∀ op : BodyOp, Decidable (s.Unshared op)
  | .request input method arg =>
    inferInstanceAs (Decidable (arg = .none → ∀ bodiless ∈ methodOf (s.inputOf input) method,
      (inheritedBody (s.inputOf input) bodiless).buffers = []))
  | .answer k a =>
    inferInstanceAs (Decidable
      (∀ task ∈ s.tasks[k]?, ∀ data ∈ s.dataOf a, s.MayHand task.owner data))
  | .resume k =>
    inferInstanceAs (Decidable (∀ task ∈ s.tasks[k]?, ∀ st ∈ s.streams[task.stream]?,
      ∀ c ∈ st.src.head, s.MayHand task.owner c.data))
  | .newBuffer _ | .hydrate _ | .response _ _ | .clone _ | .consume _ _ | .getReader _
  | .releaseLock _ | .read _ | .readerCancel _ | .streamCancel _ => inferInstanceAs (Decidable True)

/-- Over every run.  A used body is refused throughout just when no step takes a stream that was
read or cancelled through a helper or `clone`, and what is refused delivers nothing.  What a body
holds is delivered once, and in full to both sides of a `clone`, if no step gives it to a second
consumer.  And no buffer is shared, if no step puts one in a second place. -/
theorem one_shot_bodies (ops : List BodyOp) :
    let s := exec step new ops
    (s.RefusesUsed ↔ Along step Unspent new ops) ∧
      (∀ i inst how, s.refuses inst = true →
        (s.consume i inst how).log = s.log ∧ (s.consume i inst how).wholes = s.wholes ∧
          (s.consume i inst how).held = s.held ∧ (s.consume i inst how).tasks = s.tasks) ∧
      (∀ i inst, inst.used = true → s.clone i inst = s) ∧
      (Along step OneConsumer new ops → s.Delivered) ∧
      (Along step Unshared new ops → s.Unaliased) := by
  intro s
  refine ⟨?_, ?_, ?_, ?_, ?_⟩
  · have hiff := new.accepted_iff ops
    have hnew : new.RefusesUsed := by simp [RefusesUsed, new]
    simpa only [hnew, true_and] using hiff
  · intro i inst how hrefuses
    exact s.consume_refused i hrefuses how
  · intro i inst hused
    simp [clone, hused]
  · intro hops
    obtain ⟨hwhole, hpiped⟩ := Along.invariant (I := fun s : Bodies => s.Whole ∧ s.Piped)
      (fun s op h hop => ⟨whole_step s op h.1 hop, piped_step s op h.2 hop⟩)
      ⟨new_whole, new_piped⟩ hops
    exact delivered_of hwhole hpiped
  · intro hops
    exact (Along.invariant (I := Owned) owned_step new_owned hops).unaliased

/-- A buffer and its copy, a stream that is read to its end, and one that is cloned and drained on
both sides. -/
def onceEach : List BodyOp :=
  [.newBuffer [1, 2], .response false (.buffer 0), .clone 0, .consume 0 .bytes, .consume 1 .text,
    .hydrate .response, .getReader 0, .read 0, .answer 0 (.fresh [3]), .read 0, .answer 0 .eof,
    .request none (some false) .iterable, .clone 3, .consume 3 .json, .consume 4 .text, .resume 0,
    .answer 2 (.text "4"), .resume 0, .resume 0]

theorem one_shot_each :
    (exec step new onceEach).RefusesUsed ∧ (exec step new onceEach).Delivered ∧
      (exec step new onceEach).Unaliased ∧ (exec step new onceEach).log.length = 4 := by
  obtain ⟨hrefuses, -, -, hdelivered, hunaliased⟩ := one_shot_bodies onceEach
  have hunspent : Along step Unspent new onceEach := by decide +kernel
  have hone : Along step OneConsumer new onceEach := by decide +kernel
  have hunshared : Along step Unshared new onceEach := by decide +kernel
  exact ⟨hrefuses.mpr hunspent, hdelivered hone, hunaliased hunshared, by decide +kernel⟩

/-! ### Runs that do more -/

/-- A chunk is read through `.body`, and then `text` is called. -/
def partialRead : List BodyOp :=
  [.response false .iterable, .getReader 0, .read 0, .answer 0 (.text "a"), .releaseLock 0,
    .consume 0 .text]

/-- `text` of a `Request`, and of one made of it. -/
def inherited : List BodyOp :=
  [.request none (some false) (.text "a"), .request (some 0) none .none, .consume 0 .text,
    .consume 1 .text]

/-- One side of a cloned stream pulls a chunk: it is in both queues. -/
def clonedChunk : List BodyOp :=
  [.hydrate .response, .clone 0, .consume 0 .bytes, .resume 0, .answer 1 (.fresh [1])]

theorem one_shot_fails :
    ¬ (∀ ops, (exec step new ops).RefusesUsed) ∧ ¬ (∀ ops, (exec step new ops).Delivered) ∧
      ¬ ∀ ops, (exec step new ops).Unaliased := by
  refine ⟨?_, ?_, ?_⟩
  · intro hall
    have hused : true ∈ (exec step new partialRead).accepted := by decide
    exact absurd (hall partialRead true hused) (by decide)
  · intro hall
    have htwice : ¬ (exec step new inherited).wholes.Nodup := by decide
    exact htwice (hall inherited).wholes
  · intro hall
    have htwice : ¬ (exec step new clonedChunk).keptBuffers.Nodup := by decide
    exact htwice (hall clonedChunk).once

end Bodies

end OneShot

end Iso4
