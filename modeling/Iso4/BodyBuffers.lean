/-
Who has a buffer (`crates/core/src/webtypes.js`).

* `kept` — the buffers of the instances' bodies, of the queues of a tee's sides, and of the
  drains;
* `Unshared` — a step that gives a buffer to one place only;
* `Owned` — a buffer is kept in one place, and the guest's own code does not have it;
* `owned_step` — one step keeps it.
-/
import Iso4.WebBodies
import Iso4.Lib.Tally
import Mathlib.Tactic.Common

namespace Iso4

open Execution Tally

namespace OneShot

/-- The buffer that is a body. -/
def Body.buffers : Body → List Nat
  | .buffer _ b => [b]
  | _ => []

def Instance.buffers (inst : Instance) : List Nat := inst.body.buffers

def Chunk.buffers (c : Chunk) : List Nat := c.data.buffers

def StreamSource.buffers : StreamSource → List Nat
  | .branch _ queue _ => queue.flatMap Chunk.buffers
  | _ => []

/-- The chunk that a side's queue gives next. -/
def StreamSource.head : StreamSource → Option Chunk
  | .branch _ queue _ => queue.head?
  | _ => none

/-- The buffers in the queue that a tee keeps for a side. -/
def BodyStream.buffers (st : BodyStream) : List Nat := st.src.buffers

/-- The buffers that a drain has been given. -/
def Owner.buffers : Owner → List Nat
  | .drain _ _ got => got.flatMap Chunk.buffers
  | _ => []

def Task.buffers (task : Task) : List Nat := task.owner.buffers

namespace Bodies

/-- How often a buffer is kept. -/
def keeps (s : Bodies) (b : Nat) : Nat :=
  tally Instance.buffers s.instances b + tally BodyStream.buffers s.streams b +
    tally Task.buffers s.tasks b

/-- Whether a chunk may be given to this consumer: a tee keeps it for one side only, and the guest
has no buffer that a drain or a tee keeps. -/
def MayHand (s : Bodies) (owner : Owner) (data : Data) : Prop :=
  match owner with
  | .reader => True
  | .drain _ _ _ => ∀ b ∈ data.buffers, b ∉ s.held
  | .shared t =>
    ∀ b ∈ data.buffers, b ∉ s.held ∧
      ∀ tee ∈ s.tees[t]?, s.cancelled tee.left = true ∨ s.cancelled tee.right = true

/-- The data of an answer. -/
def dataOf (s : Bodies) : Answer → Option Data
  | .fresh _ => some (.bytes s.heap.length)
  | .held b => some (.bytes b)
  | .text value => some (.text value)
  | .eof | .error => none

/-- No instance inherits a buffer; what an iterable yields is not kept while the guest has it; and
no buffer is pulled by a tee both of whose sides take it. -/
def Unshared (s : Bodies) : BodyOp → Prop
  | .request input method arg =>
    arg = .none → ∀ bodiless ∈ methodOf (s.inputOf input) method,
      (inheritedBody (s.inputOf input) bodiless).buffers = []
  | .answer k a =>
    ∀ task ∈ s.tasks[k]?, ∀ data ∈ s.dataOf a, s.MayHand task.owner data
  | .resume k =>
    ∀ task ∈ s.tasks[k]?, ∀ st ∈ s.streams[task.stream]?, ∀ c ∈ st.src.head,
      s.MayHand task.owner c.data
  | _ => True

/-- A buffer is kept once at most, and not if the guest has it; and it exists. -/
structure Owned (s : Bodies) : Prop where
  once : ∀ b, s.keeps b ≤ 1
  own : ∀ b ∈ s.held, s.keeps b = 0
  inHeap : ∀ b, s.heap.length ≤ b → s.keeps b = 0 ∧ b ∉ s.held

theorem new_owned : new.Owned where
  once := by simp [new, keeps]
  own := by simp [new]
  inHeap := by simp [new, keeps]

/-- From `s` to `s'` the buffers `new` are kept once more, and the guest gets none that existed. -/
structure Keeps (s s' : Bodies) (new : List Nat) : Prop where
  keeps : ∀ b, s'.keeps b ≤ s.keeps b + new.count b
  held : ∀ b ∈ s'.held, b ∈ s.held ∨ (s.heap.length ≤ b ∧ b < s'.heap.length)
  heap : s.heap.length ≤ s'.heap.length

theorem Keeps.refl (s : Bodies) : s.Keeps s [] :=
  ⟨fun _ => Nat.le_add_right _ _, fun _ h => Or.inl h, Nat.le_refl _⟩

theorem Keeps.trans {s s' s'' : Bodies} {l m : List Nat} (h : s.Keeps s' l) (h' : s'.Keeps s'' m) :
    s.Keeps s'' (l ++ m) where
  keeps := by
    intro b
    have hb := h.keeps b
    have hb' := h'.keeps b
    rw [List.count_append]
    omega
  held := by
    intro b hb
    have hheap := h.heap
    have hheap' := h'.heap
    obtain hb | hb := h'.held b hb
    · obtain hb | hb := h.held b hb
      · exact Or.inl hb
      · exact Or.inr (by omega)
    · exact Or.inr (by omega)
  heap := Nat.le_trans h.heap h'.heap

theorem Keeps.mono {s s' : Bodies} {l m : List Nat} (h : s.Keeps s' l)
    (hlm : ∀ b, l.count b ≤ m.count b) : s.Keeps s' m where
  keeps := fun b => Nat.le_trans (h.keeps b) (Nat.add_le_add_left (hlm b) _)
  held := h.held
  heap := h.heap

/-- Buffers that go, and results in new ones, change nothing. -/
theorem Owned.keeps {s s' : Bodies} (h : s.Owned) (hk : s.Keeps s' []) : s'.Owned where
  once := by
    intro b
    have hb := hk.keeps b
    have := h.once b
    simp only [List.count_nil] at hb
    omega
  own := by
    intro b hb
    have hkeeps := hk.keeps b
    simp only [List.count_nil] at hkeeps
    obtain hb | ⟨hb, -⟩ := hk.held b hb
    · have := h.own b hb
      omega
    · have := (h.inHeap b hb).1
      omega
  inHeap := by
    intro b hb
    have hkeeps := hk.keeps b
    simp only [List.count_nil] at hkeeps
    obtain ⟨hzero, hout⟩ := h.inHeap b (Nat.le_trans hk.heap hb)
    refine ⟨by omega, ?_⟩
    intro hheld
    obtain hheld | hheld := hk.held b hheld
    · exact hout hheld
    · omega

/-- A buffer that did not exist is kept. -/
theorem Owned.keepNew {s s' : Bodies} (h : s.Owned) {b : Nat} (hb : s.heap.length ≤ b)
    (hlt : b < s'.heap.length) (hk : ∀ c, s'.keeps c ≤ s.keeps c + [b].count c)
    (hheld : ∀ c ∈ s'.held, c ∈ s.held ∨ (b < c ∧ c < s'.heap.length)) : s'.Owned where
  once := by
    intro c
    have hc := hk c
    have hone := h.once c
    rw [List.count_singleton] at hc
    by_cases hcb : b = c
    · subst hcb
      have hzero := (h.inHeap b hb).1
      simp at hc
      omega
    · simp [hcb] at hc
      omega
  own := by
    intro c hc
    have hkc := hk c
    rw [List.count_singleton] at hkc
    have hne : b ≠ c := by
      rintro rfl
      obtain hc | hc := hheld b hc
      · exact (h.inHeap b hb).2 hc
      · omega
    simp [hne] at hkc
    obtain hc | hc := hheld c hc
    · have := h.own c hc
      omega
    · have := (h.inHeap c (by omega)).1
      omega
  inHeap := by
    intro c hc
    have hkc := hk c
    have hne : b ≠ c := by omega
    rw [List.count_singleton] at hkc
    simp [hne] at hkc
    obtain ⟨hzero, hout⟩ := h.inHeap c (by omega)
    refine ⟨by omega, ?_⟩
    intro hin
    obtain hin | hin := hheld c hin
    · exact hout hin
    · omega

/-! ### What each part keeps -/

theorem keep_setStream (s : Bodies) (u : Nat) {f : BodyStream → BodyStream}
    (hf : ∀ st ∈ s.streams[u]?, ∀ b, (f st).buffers.count b ≤ st.buffers.count b) :
    s.Keeps (s.setStream u f) [] where
  keeps := by
    intro b
    simp only [Bodies.keeps, setStream, List.count_nil]
    cases hu : s.streams[u]? with
    | none => rw [tally_modify_none hu]
              omega
    | some st =>
      have hmodify := tally_modify (f := BodyStream.buffers) hu f b
      have hle := hf st hu b
      omega
  held := fun _ h => Or.inl h
  heap := Nat.le_refl _

theorem keep_flags (s : Bodies) (u : Nat) {f : BodyStream → BodyStream}
    (hf : ∀ st, (f st).src = st.src) : s.Keeps (s.setStream u f) [] :=
  s.keep_setStream u fun st _ b => by simp [BodyStream.buffers, hf]

theorem keep_setTee (s : Bodies) (t : Nat) (f : Tee → Tee) : s.Keeps (s.setTee t f) [] :=
  ⟨fun _ => Nat.le_add_right _ _, fun _ h => Or.inl h, Nat.le_refl _⟩

theorem keep_give (s : Bodies) (bytes : List UInt8) : s.Keeps (s.give bytes) [] where
  keeps := fun _ => Nat.le_add_right _ _
  held := by
    intro b hb
    obtain hb | hb := List.mem_append.mp hb
    · exact Or.inl hb
    · obtain rfl := List.mem_singleton.mp hb
      refine Or.inr ⟨Nat.le_refl _, ?_⟩
      simp [give, alloc]
  heap := by simp [give, alloc]

theorem keep_result (s : Bodies) (how : Helper) (bytes : List UInt8) :
    s.Keeps (s.result how bytes) [] := by
  cases how with
  | arrayBuffer => exact s.keep_give bytes
  | bytes => exact s.keep_give bytes
  | text => exact Keeps.refl s
  | json => exact Keeps.refl s

theorem keep_finishDrain (s : Bodies) (how : Helper) (got : List Chunk) :
    s.Keeps (s.finishDrain how got) [] := by
  unfold finishDrain
  split
  · exact s.keep_result how _
  · exact Keeps.refl s

/-- The task keeps what its drain was given. -/
theorem keep_pull (s : Bodies) (u : Nat) (owner : Owner) :
    s.Keeps (s.pull u owner) owner.buffers := by
  have hflags := s.keep_flags u
    (f := fun st => { st with disturbed := true, takenBy := some owner.consumer }) fun _ => rfl
  exact
    { keeps := by
        intro b
        have hb := hflags.keeps b
        simp only [Bodies.keeps, List.count_nil] at hb
        simp only [Bodies.keeps, pull, tally_append, tally_cons, tally_nil, Task.buffers]
        simp only [setStream] at hb ⊢
        omega
      held := fun _ h => Or.inl h
      heap := Nat.le_refl _ }

theorem keep_readOn (s : Bodies) (u : Nat) (owner : Owner) :
    s.Keeps (s.readOn u owner) owner.buffers := by
  unfold readOn
  split
  · cases owner with
    | reader => exact Keeps.refl s
    | drain i how got => exact (s.keep_finishDrain how got).mono (by simp)
    | shared t => exact Keeps.refl s
  · exact s.keep_pull u owner

theorem keep_atEnd (s : Bodies) (u : Nat) (owner : Owner) : s.Keeps (s.atEnd u owner) [] := by
  have hdone := s.keep_flags u (f := fun st => { st with done := true }) fun _ => rfl
  cases owner with
  | reader => exact hdone
  | drain i how got => exact hdone.trans (keep_finishDrain _ how got)
  | shared t => exact s.keep_setTee t _

theorem keep_atError (s : Bodies) (owner : Owner) : s.Keeps (s.atError owner) [] := by
  cases owner with
  | reader => exact Keeps.refl s
  | drain i how got => exact Keeps.refl s
  | shared t => exact s.keep_setTee t _

theorem keep_cancelSource (fuel : Nat) (s : Bodies) (u : Nat) :
    s.Keeps (cancelSource fuel s u) [] := by
  induction fuel generalizing s u with
  | zero => exact Keeps.refl s
  | succ fuel ih =>
    simp only [cancelSource]
    split
    · exact Keeps.refl s
    · split
      · next t queue flag hsrc =>
        have hside := s.keep_setStream u (f := fun st =>
          { st with disturbed := true, src := .branch t [] true }) fun st _ b => by
            simp [BodyStream.buffers, StreamSource.buffers]
        split
        · exact hside
        · split
          · exact hside.trans (ih _ _)
          · exact hside
      · exact s.keep_flags u fun _ => rfl

theorem keep_cancel (s : Bodies) (u : Nat) : s.Keeps (s.cancel u) [] :=
  (s.keep_flags u (f := fun st => { st with done := true }) fun _ => rfl).trans
    (keep_cancelSource (u + 1) _ u)

/-- Into the queue of one side. -/
theorem keep_pushChunk (s : Bodies) (u : Nat) (c : Chunk) :
    s.Keeps (s.pushChunk u c) c.buffers where
  keeps := by
    intro b
    simp only [Bodies.keeps, pushChunk, setStream]
    cases hu : s.streams[u]? with
    | none => rw [tally_modify_none hu]
              omega
    | some st =>
      have hmodify := tally_modify (f := BodyStream.buffers) hu
        (fun st => { st with src := st.src.pushed c }) b
      have hle : (st.src.pushed c).buffers.count b ≤
          st.src.buffers.count b + c.buffers.count b := by
        cases st.src with
        | branch t queue flag =>
          cases flag with
          | true => simp [StreamSource.pushed]
          | false => simp [StreamSource.pushed, StreamSource.buffers]
        | _ => simp [StreamSource.pushed]
      simp only [BodyStream.buffers] at hmodify ⊢
      omega
  held := fun _ h => Or.inl h
  heap := Nat.le_refl _

/-- A side that is cancelled takes nothing. -/
theorem pushChunk_cancelled {s : Bodies} {u : Nat} (h : s.cancelled u = true) (c : Chunk) :
    s.Keeps (s.pushChunk u c) [] := by
  refine s.keep_setStream u ?_
  intro st hst b
  have hst : s.streams[u]? = some st := hst
  simp only [cancelled, hst, Option.map_some] at h
  cases hsrc : st.src with
  | branch t queue flag =>
    simp only [hsrc] at h
    subst h
    simp [BodyStream.buffers, hsrc, StreamSource.pushed]
  | _ => simp [BodyStream.buffers, hsrc, StreamSource.pushed]

theorem cancelled_pushChunk (s : Bodies) (v : Nat) (c : Chunk) {u : Nat}
    (h : s.cancelled u = true) : (s.pushChunk v c).cancelled u = true := by
  simp only [cancelled, pushChunk, setStream, List.getElem?_modify] at h ⊢
  cases hu : s.streams[u]? with
  | none => rfl
  | some st =>
    simp only [hu, Option.map_some] at h
    by_cases hv : v = u
    · cases hsrc : st.src with
      | branch t queue flag =>
        simp only [hsrc] at h
        subst h
        simp [hv, hsrc, StreamSource.pushed]
      | _ => simp [hv, hsrc, StreamSource.pushed]
    · simpa [hv] using h

/-- A drain keeps the chunk it is given, and a tee keeps it for the side that is not cancelled. -/
theorem keep_hand (s : Bodies) (u : Nat) {owner : Owner} (c : Chunk) (howner : owner ≠ .reader)
    (hsides : ∀ t, owner = .shared t → c.buffers ≠ [] → ∀ tee ∈ s.tees[t]?,
      s.cancelled tee.left = true ∨ s.cancelled tee.right = true) :
    s.Keeps (s.hand u owner c) (owner.buffers ++ c.buffers) := by
  have hlog : s.Keeps { s with
      log := s.log ++ [{ stream := u, chunk := c, taker := owner.consumer }] } [] :=
    ⟨fun _ => Nat.le_add_right _ _, fun _ h => Or.inl h, Nat.le_refl _⟩
  cases owner with
  | reader => exact absurd rfl howner
  | drain i how got =>
    refine (hlog.trans (keep_readOn _ u (.drain i how (got ++ [c])))).mono ?_
    intro b
    simp [Owner.buffers]
  | shared t =>
    simp only [hand]
    have hcancelled : ∀ v, Bodies.cancelled { s with
        log := s.log ++ [{ stream := u, chunk := c, taker := .tee t }] } v = s.cancelled v :=
      fun _ => rfl
    split
    · exact hlog.mono (by simp)
    · next tee htee =>
      by_cases hbuffers : c.buffers = []
      · refine (((hlog.trans (keep_pushChunk _ tee.left c)).trans
          (keep_pushChunk _ tee.right c)).trans (keep_setTee _ t _)).mono ?_
        simp [hbuffers]
      · obtain hleft | hright := hsides t rfl hbuffers tee htee
        · have hleft := (hcancelled tee.left).trans hleft
          refine (((hlog.trans (pushChunk_cancelled hleft c)).trans
            (keep_pushChunk _ tee.right c)).trans (keep_setTee _ t _)).mono ?_
          simp [Owner.buffers]
        · have hright := (hcancelled tee.right).trans hright
          refine (((hlog.trans (keep_pushChunk _ tee.left c)).trans
            (pushChunk_cancelled (cancelled_pushChunk _ _ c hright) c)).trans
            (keep_setTee _ t _)).mono ?_
          simp [Owner.buffers]

/-! ### Steps -/

theorem Owned.lt {s : Bodies} (h : s.Owned) {b : Nat} (hb : 0 < s.keeps b) : b < s.heap.length := by
  by_contra hle
  have := (h.inHeap b (by omega)).1
  omega

theorem Owned.lt_of_held {s : Bodies} (h : s.Owned) {b : Nat} (hb : b ∈ s.held) :
    b < s.heap.length := by
  by_contra hle
  exact (h.inHeap b (by omega)).2 hb

/-- A reader is given a chunk that nothing keeps any longer. -/
theorem Owned.handReader {s m : Bodies} (h : s.Owned) (u : Nat) (c : Chunk)
    (hkeeps : ∀ b, m.keeps b ≤ s.keeps b) (hheld : m.held = s.held)
    (hheap : s.heap.length ≤ m.heap.length)
    (hc : ∀ b ∈ c.buffers, m.keeps b = 0 ∧ b < m.heap.length) : (m.hand u .reader c).Owned where
  once := fun b => Nat.le_trans (hkeeps b) (h.once b)
  own := by
    intro b hb
    have hle := hkeeps b
    show m.keeps b = 0
    obtain hb | hb := List.mem_append.mp hb
    · rw [hheld] at hb
      have := h.own b hb
      omega
    · exact (hc b hb).1
  inHeap := by
    intro b hb
    have hb : m.heap.length ≤ b := hb
    have hle := hkeeps b
    obtain ⟨hzero, hout⟩ := h.inHeap b (by omega)
    refine ⟨show m.keeps b = 0 by omega, ?_⟩
    intro hin
    obtain hin | hin := List.mem_append.mp hin
    · rw [hheld] at hin
      exact hout hin
    · have := (hc b hin).2
      omega

/-- What was kept until then pays for what is kept after. -/
theorem Keeps.of_drop {s m s' : Bodies} {l r : List Nat} (h : m.Keeps s' (l ++ r))
    (hm : ∀ b, m.keeps b + l.count b ≤ s.keeps b) (hheld : m.held = s.held)
    (hheap : s.heap.length ≤ m.heap.length) : s.Keeps s' r where
  keeps := by
    intro b
    have hb := h.keeps b
    have hmb := hm b
    rw [List.count_append] at hb
    omega
  held := by
    intro b hb
    obtain hb | hb := h.held b hb
    · exact Or.inl (hheld ▸ hb)
    · exact Or.inr (by omega)
  heap := Nat.le_trans hheap h.heap

theorem keeps_dropTask (s : Bodies) {k : Nat} {task : Task} (hk : s.tasks[k]? = some task)
    (b : Nat) : (s.dropTask k).keeps b + task.owner.buffers.count b = s.keeps b := by
  have herase := tally_eraseIdx (f := Task.buffers) hk b
  simp only [Task.buffers] at herase
  simp only [keeps, dropTask]
  omega

theorem keep_dropTask (s : Bodies) (k : Nat) {task : Task} (hk : s.tasks[k]? = some task) :
    s.Keeps (s.dropTask k) [] := by
  refine Keeps.of_drop (l := []) (Keeps.refl _) ?_ rfl (Nat.le_refl _)
  intro b
  have := s.keeps_dropTask hk b
  simp only [List.count_nil]
  omega

theorem MayHand.not_held {s : Bodies} {owner : Owner} {data : Data} (h : s.MayHand owner data)
    (howner : owner ≠ .reader) : ∀ b ∈ data.buffers, b ∉ s.held := by
  cases owner with
  | reader => exact absurd rfl howner
  | drain i how got => exact h
  | shared t => exact fun b hb => (h b hb).1

theorem MayHand.sides {s : Bodies} {owner : Owner} {data : Data} (h : s.MayHand owner data) :
    ∀ t, owner = .shared t → data.buffers ≠ [] → ∀ tee ∈ s.tees[t]?,
      s.cancelled tee.left = true ∨ s.cancelled tee.right = true := by
  rintro t rfl hne tee htee
  obtain ⟨b, hb⟩ := List.exists_mem_of_ne_nil _ hne
  exact (h b hb).2 tee htee

/-- The data of an answer reach the task's owner: a buffer of the guest's a reader only, and any
other is new. -/
theorem Owned.arrive {s m : Bodies} (h : s.Owned) {k : Nat} {task : Task}
    (hk : s.tasks[k]? = some task) (hm : ∀ b, m.keeps b = (s.dropTask k).keeps b)
    (hheld : m.held = s.held) (htees : m.tees = s.tees) (hstreams : m.streams = s.streams)
    (hheap : s.heap.length ≤ m.heap.length) {data : Data}
    (hdata : ∀ b ∈ data.buffers, b < m.heap.length ∧
      (b ∈ s.held ∨ b = s.heap.length ∧ m.heap.length = s.heap.length + 1))
    (hmay : s.MayHand task.owner data) : (m.arrive task data).Owned := by
  have hdrop := s.keeps_dropTask hk
  by_cases howner : task.owner = .reader
  · have hzero : ∀ b ∈ data.buffers, s.keeps b = 0 := by
      intro b hb
      obtain hin | ⟨rfl, -⟩ := (hdata b hb).2
      · exact h.own b hin
      · exact (h.inHeap _ (Nat.le_refl _)).1
    simp only [Bodies.arrive, howner]
    refine h.handReader _ _ ?_ hheld hheap ?_
    · intro b
      have := hdrop b
      show m.keeps b ≤ s.keeps b
      rw [hm]
      omega
    · intro b hb
      have := hdrop b
      have hb0 := hzero b hb
      refine ⟨?_, (hdata b hb).1⟩
      show m.keeps b = 0
      rw [hm]
      omega
  · have hnot := hmay.not_held howner
    have hcancelled : ∀ v, m.cancelled v = s.cancelled v := by
      intro v
      simp only [cancelled, hstreams]
    have hhand := keep_hand { m with nextChunk := m.nextChunk + 1 } task.stream
      { n := m.nextChunk, data := data } howner (by
        intro t ht hne tee htee
        have htee : tee ∈ s.tees[t]? := htees ▸ htee
        have hsides := hmay.sides t ht hne tee htee
        rw [← hcancelled, ← hcancelled] at hsides
        exact hsides)
    have hkeeps : s.Keeps (m.arrive task data) data.buffers := by
      refine Keeps.of_drop hhand ?_ hheld hheap
      intro b
      have := hdrop b
      rw [← hm] at this
      exact Nat.le_of_eq this
    cases data with
    | text value => exact h.keeps hkeeps
    | bytes b =>
      obtain ⟨hlt, hin | ⟨rfl, hlen⟩⟩ := hdata b (by simp [Data.buffers])
      · exact absurd hin (hnot b (by simp [Data.buffers]))
      · have hgrows : m.heap.length ≤ (m.arrive task (.bytes s.heap.length)).heap.length :=
          hhand.heap
        refine h.keepNew (Nat.le_refl _) (by omega) hkeeps.keeps ?_
        intro c hc
        obtain hc | ⟨hle, hcl⟩ := hhand.held c hc
        · exact Or.inl (hheld ▸ hc)
        · have hle : m.heap.length ≤ c := hle
          exact Or.inr ⟨by omega, hcl⟩

theorem Owned.answer {s : Bodies} (h : s.Owned) {k : Nat} {task : Task}
    (hk : s.tasks[k]? = some task) {a : Answer} (hop : s.Unshared (.answer k a)) :
    (s.answer k task a).Owned := by
  have hdrop := s.keep_dropTask k hk
  have hmay := hop task hk
  unfold Bodies.answer
  split
  · next hanswers =>
    cases a with
    | fresh bytes =>
      refine h.arrive (m := (s.dropTask k).alloc bytes) hk (fun _ => rfl) rfl rfl rfl
        (by simp [alloc, dropTask]) ?_ (hmay _ rfl)
      simp [Data.buffers, alloc, dropTask]
    | held b =>
      have hb : b ∈ s.held := by
        unfold answers at hanswers
        split at hanswers
        · simp [Answer.ofHost] at hanswers
        · simpa [Answer.ofIterable] using hanswers
        · simp at hanswers
      refine h.arrive hk (fun _ => rfl) rfl rfl rfl (Nat.le_refl _) ?_ (hmay _ rfl)
      intro c hc
      obtain rfl : c = b := by simpa [Data.buffers] using hc
      exact ⟨h.lt_of_held hb, Or.inl hb⟩
    | text value =>
      exact h.arrive hk (fun _ => rfl) rfl rfl rfl (Nat.le_refl _) (by simp [Data.buffers])
        (hmay _ rfl)
    | eof => exact h.keeps (hdrop.trans (keep_atEnd _ _ _))
    | error => exact h.keeps (hdrop.trans (keep_atError _ _))
  · exact h

/-- The head of a side's queue reaches the task's owner. -/
theorem Owned.handHead {s : Bodies} (h : s.Owned) {k : Nat} {task : Task}
    (hk : s.tasks[k]? = some task) {st : BodyStream} (hst : s.streams[task.stream]? = some st)
    {t : Nat} {c : Chunk} {rest : List Chunk} {flag : Bool}
    (hsrc : st.src = .branch t (c :: rest) flag) (hmay : s.MayHand task.owner c.data) :
    (((s.dropTask k).setStream task.stream
      fun st => { st with src := .branch t rest flag }).hand task.stream task.owner c).Owned := by
  obtain ⟨m, hm⟩ : ∃ m, m = (s.dropTask k).setStream task.stream
      fun st => { st with src := .branch t rest flag } := ⟨_, rfl⟩
  rw [← hm]
  have hlost : ∀ b, m.keeps b + (task.owner.buffers ++ c.buffers).count b = s.keeps b := by
    intro b
    have hdrop := s.keeps_dropTask hk b
    have hmodify := tally_modify (f := BodyStream.buffers) hst
      (fun st => { st with src := .branch t rest flag }) b
    simp only [BodyStream.buffers, hsrc, StreamSource.buffers, List.flatMap_cons,
      List.count_append] at hmodify
    rw [hm, List.count_append]
    simp only [Bodies.keeps, dropTask] at hdrop
    simp only [Bodies.keeps, setStream, dropTask]
    omega
  have hheld : m.held = s.held := by rw [hm]; rfl
  have hheap : m.heap = s.heap := by rw [hm]; rfl
  have htees : m.tees = s.tees := by rw [hm]; rfl
  have hcancelled : ∀ v, m.cancelled v = s.cancelled v := by
    intro v
    rw [hm]
    simp only [cancelled, setStream, dropTask, List.getElem?_modify]
    by_cases hv : task.stream = v
    · subst hv
      simp [hst, hsrc]
    · simp [hv]
  by_cases howner : task.owner = .reader
  · rw [howner] at hlost ⊢
    refine h.handReader _ _ ?_ hheld (Nat.le_of_eq (by rw [hheap])) ?_
    · intro b
      have := hlost b
      omega
    · intro b hb
      have hcount := hlost b
      have hpos : 0 < c.buffers.count b := List.count_pos_iff.mpr hb
      have hone := h.once b
      rw [List.count_append] at hcount
      rw [hheap]
      exact ⟨by omega, h.lt (by omega)⟩
  · have hhand := m.keep_hand task.stream c howner (by
      intro t' ht hne tee htee
      have hsides := hmay.sides t' ht hne tee (htees ▸ htee)
      rw [← hcancelled, ← hcancelled] at hsides
      exact hsides)
    refine h.keeps (Keeps.of_drop (r := []) ?_ (fun b => Nat.le_of_eq (hlost b)) hheld
      (Nat.le_of_eq (by rw [hheap])))
    simpa using hhand

theorem Owned.resume {s : Bodies} (h : s.Owned) {k : Nat} {task : Task}
    (hk : s.tasks[k]? = some task) (hop : s.Unshared (.resume k)) : (s.resume k task).Owned := by
  have hdrop := s.keep_dropTask k hk
  unfold Bodies.resume
  split
  · next t queue flag hsrc =>
    obtain ⟨st, hst, hbranch⟩ := Option.map_eq_some_iff.mp hsrc
    split
    · next c rest =>
      exact h.handHead hk hst hbranch (hop task hk st hst c (by rw [hbranch]; rfl))
    · split
      · exact h
      · split
        · exact h.keeps (hdrop.trans (keep_atError _ _))
        · split
          · exact h.keeps (hdrop.trans (keep_atEnd _ _ _))
          · split
            · exact h
            · exact h.keeps ((s.keep_setTee t _).trans (keep_pull _ _ (.shared t)))
  · exact h

theorem keep_push (s : Bodies) (kind : Kind) (body : Body)
    (hbody : body.buffers = []) : s.Keeps (s.push kind body) [] where
  keeps := by
    intro b
    simp only [Bodies.keeps, push, tally_append, tally_cons, tally_nil, Instance.buffers, hbody,
      List.count_nil]
    omega
  held := fun _ h => Or.inl h
  heap := Nat.le_refl _

theorem keep_newStream (s : Bodies) (src : StreamSource)
    (hsrc : ∀ t queue flag, src ≠ .branch t queue flag) :
    s.Keeps { s with streams := s.streams ++ [BodyStream.fresh src] } [] where
  keeps := by
    intro b
    have hnone : (BodyStream.fresh src).buffers = [] := by
      cases src with
      | branch t queue flag => exact absurd rfl (hsrc t queue flag)
      | _ => rfl
    simp only [Bodies.keeps, tally_append, tally_cons, tally_nil, hnone, List.count_nil]
    omega
  held := fun _ h => Or.inl h
  heap := Nat.le_refl _

/-- An instance with a buffer of its own. -/
theorem Owned.pushNew {s m : Bodies} (h : s.Owned) (hm : ∀ b, m.keeps b = s.keeps b)
    (hheld : m.held = s.held) (hheap : m.heap.length = s.heap.length + 1) (kind : Kind) (id : Nat) :
    (m.push kind (.buffer id s.heap.length)).Owned := by
  refine h.keepNew (Nat.le_refl _) ?_ ?_ ?_
  · show s.heap.length < m.heap.length
    omega
  · intro b
    rw [← hm]
    simp only [Bodies.keeps, push, tally_append, tally_cons, tally_nil, Instance.buffers,
      Body.buffers]
    omega
  · intro b hb
    exact Or.inl (hheld ▸ hb)

theorem Owned.bodyInit {s : Bodies} (h : s.Owned) (kind : Kind) (arg : BodyArg) :
    (s.bodyInit kind arg).Owned := by
  cases arg with
  | none => exact h.keeps (s.keep_push kind .null rfl)
  | text value =>
    refine h.keeps (Keeps.trans (l := []) ?_ (keep_push _ kind (.text s.nextBody value) rfl))
    exact ⟨fun _ => Nat.le_add_right _ _, fun _ h => Or.inl h, Nat.le_refl _⟩
  | buffer b =>
    simp only [Bodies.bodyInit]
    split
    · exact h.pushNew (m := { s.alloc (s.read b) with nextBody := s.nextBody + 1 })
        (fun _ => rfl) rfl (by simp [alloc]) kind s.nextBody
    · exact h
  | stream u =>
    simp only [Bodies.bodyInit]
    split
    · exact h.keeps (s.keep_push kind _ rfl)
    · exact h
  | iterable =>
    have hnew : s.Keeps { s with streams := s.streams ++ [BodyStream.fresh .iterable] } [] :=
      s.keep_newStream .iterable (by simp)
    exact h.keeps (hnew.trans (keep_push _ kind _ rfl))

theorem keep_accept (s : Bodies) (inst : Instance) : s.Keeps (s.accept inst) [] :=
  ⟨fun _ => Nat.le_add_right _ _, fun _ h => Or.inl h, Nat.le_refl _⟩

/-- The body that a helper takes is no longer kept. -/
theorem keeps_take (s : Bodies) {i : Nat} {inst : Instance} (hi : s.instances[i]? = some inst)
    (b : Nat) :
    tally Instance.buffers (s.instances.set i { inst with used := true, body := .null }) b +
      inst.buffers.count b = tally Instance.buffers s.instances b := by
  have hset := tally_set (f := Instance.buffers) hi { inst with used := true, body := .null } b
  simpa [Instance.buffers, Body.buffers] using hset

theorem keep_take (s : Bodies) {i : Nat} {inst : Instance} (hi : s.instances[i]? = some inst)
    (accepted : List Bool) (wholes : List Nat) :
    s.Keeps { s with
      accepted := accepted
      instances := s.instances.set i { inst with used := true, body := .null }
      wholes := wholes } [] where
  keeps := by
    intro b
    have htake := s.keeps_take hi b
    simp only [Bodies.keeps]
    omega
  held := fun _ h => Or.inl h
  heap := Nat.le_refl _

/-- A buffer that a helper returns is the instance's no more. -/
theorem Owned.handOver {s s' : Bodies} (h : s.Owned) {i : Nat} {inst : Instance}
    (hi : s.instances[i]? = some inst) {id b : Nat} (hbody : inst.body = .buffer id b)
    (hinstances : s'.instances = s.instances.set i { inst with used := true, body := .null })
    (hstreams : s'.streams = s.streams) (htasks : s'.tasks = s.tasks)
    (hheld : s'.held = s.held ++ [b]) (hheap : s'.heap = s.heap) : s'.Owned := by
  have hkeeps : ∀ c, s'.keeps c + [b].count c = s.keeps c := by
    intro c
    have htake := s.keeps_take hi c
    have hbuffers : inst.buffers = [b] := by simp [Instance.buffers, Body.buffers, hbody]
    rw [hbuffers] at htake
    simp only [Bodies.keeps, hinstances, hstreams, htasks]
    omega
  have hzero : s'.keeps b = 0 ∧ b < s.heap.length := by
    have hb := hkeeps b
    have hone := h.once b
    rw [List.count_singleton_self] at hb
    exact ⟨by omega, h.lt (by omega)⟩
  exact
    { once := by
        intro c
        have hc := hkeeps c
        have hone := h.once c
        omega
      own := by
        intro c hc
        rw [hheld] at hc
        have hck := hkeeps c
        obtain hc | hc := List.mem_append.mp hc
        · have := h.own c hc
          omega
        · obtain rfl := List.mem_singleton.mp hc
          exact hzero.1
      inHeap := by
        intro c hc
        rw [hheap] at hc
        have hck := hkeeps c
        obtain ⟨hkept, hout⟩ := h.inHeap c hc
        refine ⟨by omega, ?_⟩
        rw [hheld]
        intro hin
        obtain hin | hin := List.mem_append.mp hin
        · exact hout hin
        · obtain rfl := List.mem_singleton.mp hin
          omega }

theorem Owned.consume {s : Bodies} (h : s.Owned) {i : Nat} {inst : Instance}
    (hi : s.instances[i]? = some inst) (how : Helper) : (s.consume i inst how).Owned := by
  unfold Bodies.consume
  split
  · exact h
  · cases hbody : inst.body with
    | null => exact h.keeps ((s.keep_take hi _ _).trans (keep_result _ how _))
    | text id value => exact h.keeps ((s.keep_take hi _ _).trans (keep_result _ how _))
    | buffer id b =>
      cases how with
      | bytes => exact h.handOver hi hbody rfl rfl rfl rfl rfl
      | arrayBuffer =>
        exact h.keeps ((s.keep_take hi _ _).trans (keep_result _ .arrayBuffer _))
      | text => exact h.keeps (s.keep_take hi _ _)
      | json => exact h.keeps (s.keep_take hi _ _)
    | stream u =>
      simp only
      split
      · exact h.keeps (s.keep_take hi _ _)
      · refine h.keeps (((s.keep_take hi _ _).trans
          (keep_flags _ u (f := fun st => { st with locked := true }) fun _ => rfl)).trans
          (keep_readOn _ u _))

theorem Owned.clone {s : Bodies} (h : s.Owned) {i : Nat} {inst : Instance}
    (hi : s.instances[i]? = some inst) : (s.clone i inst).Owned := by
  unfold Bodies.clone
  split
  · exact h
  · cases hbody : inst.body with
    | null => exact h.keeps ((s.keep_accept inst).trans (keep_push _ inst.kind _ rfl))
    | text id value =>
      refine h.keeps (Keeps.trans (l := []) ?_ (keep_push _ inst.kind _ rfl))
      exact ⟨fun _ => Nat.le_add_right _ _, fun _ h => Or.inl h, Nat.le_refl _⟩
    | buffer id b =>
      exact h.pushNew (m := { (s.accept inst).alloc (s.read b) with
        nextBody := s.nextBody + 1
        twins := s.twins ++ [(.buffer id b, .buffer s.nextBody s.heap.length)] })
        (fun _ => rfl) rfl (by simp [alloc, accept]) inst.kind s.nextBody
    | stream u =>
      simp only [teeBody]
      split
      · refine h.keeps (Keeps.trans (l := []) ?_ (keep_push _ inst.kind _ rfl))
        have hset := tally_set (f := Instance.buffers) hi
          { inst with body := .stream s.streams.length }
        have hflags := s.keep_flags u
          (f := fun st => { st with takenBy := some (.tee s.tees.length) }) fun _ => rfl
        exact
          { keeps := by
              intro b
              have hb := hset b
              have hfb := hflags.keeps b
              simp only [Instance.buffers, Body.buffers, hbody, List.count_nil] at hb
              simp only [Bodies.keeps, setStream, List.count_nil] at hfb
              simp only [Bodies.keeps, accept, tally_append, tally_cons, tally_nil,
                BodyStream.buffers, BodyStream.fresh, StreamSource.buffers, List.flatMap_nil,
                List.count_nil]
              omega
            held := fun _ h => Or.inl h
            heap := Nat.le_refl _ }
      · exact h.keeps (s.keep_accept inst)

/-- One step keeps each buffer in one place, when it gives none to a second. -/
theorem owned_step (s : Bodies) (op : BodyOp) (h : s.Owned) (hop : s.Unshared op) :
    (s.step op).Owned := by
  cases op with
  | newBuffer bytes => exact h.keeps (s.keep_give bytes)
  | hydrate kind =>
    exact h.keeps ((s.keep_newStream .host (by simp)).trans (keep_push _ kind _ rfl))
  | response nullBodyStatus arg =>
    simp only [step, response]
    split
    · exact h
    · exact h.bodyInit .response arg
  | request input method arg =>
    simp only [step, request]
    split
    · exact h
    · next bodiless hmethod =>
      split
      · next harg => exact h.keeps (s.keep_push _ _ (hop harg bodiless hmethod))
      · split
        · exact h
        · exact h.bodyInit _ arg
  | clone i =>
    simp only [step]
    split
    · exact h
    · next inst hi => exact h.clone hi
  | consume i how =>
    simp only [step]
    split
    · exact h
    · next inst hi => exact h.consume hi how
  | getReader u => exact h.keeps (s.keep_flags u fun _ => rfl)
  | releaseLock u => exact h.keeps (s.keep_flags u fun _ => rfl)
  | read u => exact h.keeps (s.keep_readOn u .reader)
  | readerCancel u => exact h.keeps (s.keep_cancel u)
  | streamCancel u =>
    simp only [step]
    split
    · exact h
    · exact h.keeps (s.keep_cancel u)
  | answer k a =>
    simp only [step]
    split
    · exact h
    · next task hk => exact h.answer hk hop
  | resume k =>
    simp only [step]
    split
    · exact h
    · next task hk => exact h.resume hk hop

end Bodies

end OneShot

end Iso4
