/-
When a used body is taken (`crates/core/src/webtypes.js`).

`bodyUsed` looks at `_used` and at the stream's `_disturbed`; the helpers and `clone` look at
`_used`, and a helper's drain at the stream's `_locked`.

* `Beneath` — what streams, tasks and answers leave alone;
* `Unspent` — a call that does not meet a body whose stream was read or cancelled;
* `accepted_iff` — a run refuses every call on a used body just when its calls are `Unspent`.
-/
import Iso4.WebBodies
import Mathlib.Tactic.Common

namespace Iso4

open Execution

namespace OneShot

namespace Bodies

/-! ### What the streams leave alone -/

/-- Nothing but streams, tasks and new buffers has changed. -/
structure Beneath (s s' : Bodies) : Prop where
  instances : s'.instances = s.instances
  nextBody : s'.nextBody = s.nextBody
  wholes : s'.wholes = s.wholes
  accepted : s'.accepted = s.accepted
  twins : s'.twins = s.twins
  heap : s.heap <+: s'.heap

theorem Beneath.refl (s : Bodies) : s.Beneath s := ⟨rfl, rfl, rfl, rfl, rfl, List.prefix_refl _⟩

theorem Beneath.trans {s s' s'' : Bodies} (h : s.Beneath s') (h' : s'.Beneath s'') :
    s.Beneath s'' where
  instances := h'.instances.trans h.instances
  nextBody := h'.nextBody.trans h.nextBody
  wholes := h'.wholes.trans h.wholes
  accepted := h'.accepted.trans h.accepted
  twins := h'.twins.trans h.twins
  heap := h.heap.trans h'.heap

theorem beneath_setStream (s : Bodies) (u : Nat) (f : BodyStream → BodyStream) :
    s.Beneath (s.setStream u f) := ⟨rfl, rfl, rfl, rfl, rfl, List.prefix_refl _⟩

theorem beneath_setTee (s : Bodies) (t : Nat) (f : Tee → Tee) : s.Beneath (s.setTee t f) :=
  ⟨rfl, rfl, rfl, rfl, rfl, List.prefix_refl _⟩

theorem beneath_give (s : Bodies) (bytes : List UInt8) : s.Beneath (s.give bytes) :=
  ⟨rfl, rfl, rfl, rfl, rfl, List.prefix_append _ _⟩

theorem beneath_result (s : Bodies) (how : Helper) (bytes : List UInt8) :
    s.Beneath (s.result how bytes) := by
  cases how with
  | arrayBuffer => exact s.beneath_give bytes
  | bytes => exact s.beneath_give bytes
  | text => exact Beneath.refl s
  | json => exact Beneath.refl s

theorem beneath_finishDrain (s : Bodies) (how : Helper) (got : List Chunk) :
    s.Beneath (s.finishDrain how got) := by
  unfold finishDrain
  split
  · exact s.beneath_result how _
  · exact Beneath.refl s

theorem beneath_pull (s : Bodies) (u : Nat) (owner : Owner) : s.Beneath (s.pull u owner) :=
  ⟨rfl, rfl, rfl, rfl, rfl, List.prefix_refl _⟩

theorem beneath_readOn (s : Bodies) (u : Nat) (owner : Owner) :
    s.Beneath (s.readOn u owner) := by
  unfold readOn
  split
  · cases owner with
    | reader => exact Beneath.refl s
    | drain i how got => exact s.beneath_finishDrain how got
    | shared t => exact Beneath.refl s
  · exact s.beneath_pull u owner

theorem beneath_hand (s : Bodies) (u : Nat) (owner : Owner) (c : Chunk) :
    s.Beneath (s.hand u owner c) := by
  cases owner with
  | reader => exact ⟨rfl, rfl, rfl, rfl, rfl, List.prefix_refl _⟩
  | drain i how got =>
    refine Beneath.trans ?_ (beneath_readOn _ u _)
    exact ⟨rfl, rfl, rfl, rfl, rfl, List.prefix_refl _⟩
  | shared t =>
    simp only [hand]
    split <;> exact ⟨rfl, rfl, rfl, rfl, rfl, List.prefix_refl _⟩

theorem beneath_atEnd (s : Bodies) (u : Nat) (owner : Owner) : s.Beneath (s.atEnd u owner) := by
  cases owner with
  | reader => exact s.beneath_setStream u _
  | drain i how got => exact (s.beneath_setStream u _).trans (beneath_finishDrain _ how got)
  | shared t => exact s.beneath_setTee t _

theorem beneath_atError (s : Bodies) (owner : Owner) : s.Beneath (s.atError owner) := by
  cases owner with
  | reader => exact Beneath.refl s
  | drain i how got => exact Beneath.refl s
  | shared t => exact s.beneath_setTee t _

theorem beneath_cancelSource (fuel : Nat) (s : Bodies) (u : Nat) :
    s.Beneath (cancelSource fuel s u) := by
  induction fuel generalizing s u with
  | zero => exact Beneath.refl s
  | succ fuel ih =>
    simp only [cancelSource]
    split
    · exact Beneath.refl s
    · split
      · split
        · exact s.beneath_setStream u _
        · split
          · exact (s.beneath_setStream u _).trans (ih _ _)
          · exact s.beneath_setStream u _
      · exact s.beneath_setStream u _

theorem beneath_cancel (s : Bodies) (u : Nat) : s.Beneath (s.cancel u) :=
  (s.beneath_setStream u _).trans (beneath_cancelSource (u + 1) _ u)

theorem beneath_dropTask (s : Bodies) (k : Nat) : s.Beneath (s.dropTask k) :=
  ⟨rfl, rfl, rfl, rfl, rfl, List.prefix_refl _⟩

theorem beneath_alloc (s : Bodies) (bytes : List UInt8) : s.Beneath (s.alloc bytes) :=
  ⟨rfl, rfl, rfl, rfl, rfl, List.prefix_append _ _⟩

theorem beneath_arrive (s : Bodies) (task : Task) (data : Data) :
    s.Beneath (s.arrive task data) := by
  refine Beneath.trans ?_ (beneath_hand _ task.stream task.owner _)
  exact ⟨rfl, rfl, rfl, rfl, rfl, List.prefix_refl _⟩

theorem beneath_answer (s : Bodies) (k : Nat) (task : Task) (a : Answer) :
    s.Beneath (s.answer k task a) := by
  have hdrop := s.beneath_dropTask k
  unfold answer
  split
  · cases a with
    | fresh bytes => exact (hdrop.trans (beneath_alloc _ bytes)).trans (beneath_arrive _ task _)
    | held b => exact hdrop.trans (beneath_arrive _ task _)
    | text value => exact hdrop.trans (beneath_arrive _ task _)
    | eof => exact hdrop.trans (beneath_atEnd _ task.stream task.owner)
    | error => exact hdrop.trans (beneath_atError _ task.owner)
  · exact Beneath.refl s

theorem beneath_resume (s : Bodies) (k : Nat) (task : Task) : s.Beneath (s.resume k task) := by
  have hdrop := s.beneath_dropTask k
  simp only [resume]
  split
  · split
    · exact (hdrop.trans (beneath_setStream _ _ _)).trans (beneath_hand _ _ _ _)
    · split
      · exact Beneath.refl s
      · split
        · exact hdrop.trans (beneath_atError _ _)
        · split
          · exact hdrop.trans (beneath_atEnd _ _ _)
          · split
            · exact Beneath.refl s
            · exact (s.beneath_setTee _ _).trans (beneath_pull _ _ _)
  · exact Beneath.refl s

/-- The calls that neither make an instance nor take its body. -/
def onStreams : BodyOp → Bool
  | .hydrate _ | .response _ _ | .request _ _ _ | .clone _ | .consume _ _ => false
  | _ => true

theorem beneath_step (s : Bodies) {op : BodyOp} (hop : onStreams op = true) :
    s.Beneath (s.step op) := by
  cases op with
  | newBuffer bytes => exact s.beneath_give bytes
  | getReader u => exact s.beneath_setStream u _
  | releaseLock u => exact s.beneath_setStream u _
  | read u => exact s.beneath_readOn u .reader
  | readerCancel u => exact s.beneath_cancel u
  | streamCancel u =>
    simp only [step]
    split
    · exact Beneath.refl s
    · exact s.beneath_cancel u
  | answer k a =>
    simp only [step]
    split
    · exact Beneath.refl s
    · exact s.beneath_answer k _ a
  | resume k =>
    simp only [step]
    split
    · exact Beneath.refl s
    · exact s.beneath_resume k _
  | hydrate kind => simp [onStreams] at hop
  | response nullBodyStatus arg => simp [onStreams] at hop
  | request input method arg => simp [onStreams] at hop
  | clone i => simp [onStreams] at hop
  | consume i how => simp [onStreams] at hop

/-! ### Used bodies -/

/-- A helper is refused on a body that was consumed, and on a stream that is locked. -/
def refuses (s : Bodies) (inst : Instance) : Bool :=
  inst.used ||
    match inst.body with
    | .stream u => (s.streams[u]?.map BodyStream.locked).getD true
    | _ => false

/-- A helper or `clone` is not called on a body that `bodyUsed` tells of and the code does not:
one whose stream was read or cancelled. -/
def Unspent (s : Bodies) : BodyOp → Prop
  | .clone i => ∀ inst ∈ s.instances[i]?, inst.used = false → s.bodyUsed inst = false
  | .consume i _ => ∀ inst ∈ s.instances[i]?, s.refuses inst = false → s.bodyUsed inst = false
  | _ => True

/-- No call that was not refused was on a used body. -/
def RefusesUsed (s : Bodies) : Prop := ∀ used ∈ s.accepted, used = false

theorem refusesUsed_concat {s s' : Bodies} {used : Bool} (h : s'.accepted = s.accepted ++ [used]) :
    s'.RefusesUsed ↔ s.RefusesUsed ∧ used = false := by
  simp [RefusesUsed, h, or_imp, forall_and]

theorem refusesUsed_same {s s' : Bodies} (h : s'.accepted = s.accepted) :
    s'.RefusesUsed ↔ s.RefusesUsed := by
  simp [RefusesUsed, h]

theorem accepted_clone (s : Bodies) (i : Nat) (inst : Instance) :
    (s.clone i inst).accepted =
      if inst.used then s.accepted else s.accepted ++ [s.bodyUsed inst] := by
  unfold clone
  split
  · rfl
  · split
    · rfl
    · rfl
    · rfl
    · unfold teeBody
      split <;> rfl

theorem accepted_consume (s : Bodies) (i : Nat) (inst : Instance) (how : Helper) :
    (s.consume i inst how).accepted =
      if s.refuses inst then s.accepted else s.accepted ++ [s.bodyUsed inst] := by
  unfold consume refuses
  cases hused : inst.used with
  | true => simp
  | false =>
    cases hbody : inst.body with
    | null =>
      simp only [Bool.false_eq_true, if_false, Bool.or_self]
      exact (beneath_result _ how _).accepted
    | text id value =>
      simp only [Bool.false_eq_true, if_false, Bool.or_self]
      exact (beneath_result _ how _).accepted
    | buffer id b =>
      simp only [Bool.false_eq_true, if_false, Bool.or_self]
      cases how with
      | bytes => rfl
      | arrayBuffer => exact (beneath_result _ .arrayBuffer _).accepted
      | text => exact (beneath_result _ .text _).accepted
      | json => exact (beneath_result _ .json _).accepted
    | stream u =>
      simp only [Bool.false_eq_true, if_false, Bool.false_or]
      split
      · rfl
      · exact (beneath_readOn _ u _).accepted

theorem accepted_bodyInit (s : Bodies) (kind : Kind) (arg : BodyArg) :
    (s.bodyInit kind arg).accepted = s.accepted := by
  cases arg with
  | none => rfl
  | text value => rfl
  | buffer b =>
    simp only [bodyInit]
    split <;> rfl
  | stream u =>
    simp only [bodyInit]
    split <;> rfl
  | iterable => rfl

theorem accepted_response (s : Bodies) (nullBodyStatus : Bool) (arg : BodyArg) :
    (s.response nullBodyStatus arg).accepted = s.accepted := by
  unfold response
  split
  · rfl
  · exact s.accepted_bodyInit _ arg

theorem accepted_request (s : Bodies) (input : Option Instance) (method : Option Bool)
    (arg : BodyArg) : (s.request input method arg).accepted = s.accepted := by
  unfold request
  split
  · rfl
  · split
    · rfl
    · split
      · rfl
      · exact s.accepted_bodyInit _ arg

/-- Only a helper and `clone` are recorded. -/
theorem accepted_other (s : Bodies) {op : BodyOp} (hclone : ∀ i, op ≠ .clone i)
    (hconsume : ∀ i how, op ≠ .consume i how) : (s.step op).accepted = s.accepted := by
  cases hop : onStreams op with
  | true => exact (s.beneath_step hop).accepted
  | false =>
    cases op with
    | hydrate kind => rfl
    | response nullBodyStatus arg => exact s.accepted_response nullBodyStatus arg
    | request input method arg => exact s.accepted_request _ method arg
    | clone i => exact absurd rfl (hclone i)
    | consume i how => exact absurd rfl (hconsume i how)
    | _ => simp [onStreams] at hop

/-- One call: it is refused, or the body is not used. -/
theorem refusesUsed_step (s : Bodies) (op : BodyOp) :
    (s.step op).RefusesUsed ↔ s.RefusesUsed ∧ s.Unspent op := by
  cases op with
  | clone i =>
    cases hi : s.instances[i]? with
    | none => simp [step, Unspent, hi]
    | some inst =>
      cases hused : inst.used with
      | true =>
        rw [refusesUsed_same (s := s) (by simp [step, hi, accepted_clone, hused])]
        simp [Unspent, hi, hused]
      | false =>
        rw [@refusesUsed_concat s _ (s.bodyUsed inst) (by simp [step, hi, accepted_clone, hused])]
        simp [Unspent, hi, hused]
  | consume i how =>
    cases hi : s.instances[i]? with
    | none => simp [step, Unspent, hi]
    | some inst =>
      cases hrefuses : s.refuses inst with
      | true =>
        rw [refusesUsed_same (s := s) (by simp [step, hi, accepted_consume, hrefuses])]
        simp [Unspent, hi, hrefuses]
      | false =>
        rw [@refusesUsed_concat s _ (s.bodyUsed inst)
          (by simp [step, hi, accepted_consume, hrefuses])]
        simp [Unspent, hi, hrefuses]
  | _ =>
    rw [refusesUsed_same (s.accepted_other (by simp) (by simp))]
    simp [Unspent]

/-- Over a run: the calls that were not refused were on bodies not used just when no step of the
run takes a body that was read or cancelled. -/
theorem accepted_iff (s : Bodies) (ops : List BodyOp) :
    (exec step s ops).RefusesUsed ↔ s.RefusesUsed ∧ Along step Unspent s ops := by
  induction ops generalizing s with
  | nil => simp [Along]
  | cons op ops ih => rw [exec_cons, ih, refusesUsed_step, Along, and_assoc]

end Bodies

end OneShot

end Iso4
