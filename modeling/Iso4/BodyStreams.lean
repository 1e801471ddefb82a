/-
Who the chunks of a stream go to (`crates/core/src/webtypes.js`).

* `Piped` — a stream's chunks go to one consumer, and a side of a tee has had, or has in its
  queue, every chunk that the tee has pulled;
* `Piped.pull`, `Piped.handed` — a pull and a chunk keep it;
* `piped_step` — one step keeps it, when it gives no stream to a second consumer.
-/
import Iso4.BodyDelivery

namespace Iso4

open Execution

namespace OneShot

namespace Bodies

/-! ### Streams -/

def srcOf (s : Bodies) (u : Nat) : Option StreamSource := s.streams[u]?.map BodyStream.src

/-- The stream a tee pulls, and its two sides. -/
def endsOf (s : Bodies) (t : Nat) : Option (Nat × Nat × Nat) :=
  s.tees[t]?.map fun tee => (tee.up, tee.left, tee.right)

/-- The chunks that a stream has yielded. -/
def out (s : Bodies) (u : Nat) : List Chunk := (s.log.filter fun h => h.stream == u).map Hand.chunk

/-- What holds of the streams: each has one consumer, and of what a tee has pulled a side that is
not cancelled has yielded all but its queue. -/
structure Piped (s : Bodies) : Prop where
  ends : ∀ {t up left right : Nat}, s.endsOf t = some (up, left, right) →
    up < left ∧ left < right ∧ s.takenOf up = some (.tee t) ∧
      (∃ queue flag, s.srcOf left = some (.branch t queue flag)) ∧
      ∃ queue flag, s.srcOf right = some (.branch t queue flag)
  sides : ∀ {u t : Nat} {queue : List Chunk} {flag : Bool},
    s.srcOf u = some (.branch t queue flag) →
      ∃ up left right, s.endsOf t = some (up, left, right) ∧ (u = left ∨ u = right) ∧
        (s.out u ++ queue).Sublist (s.out up) ∧ (flag = false → s.out u ++ queue = s.out up)
  teed : ∀ {u t : Nat}, s.takenOf u = some (.tee t) →
    ∃ left right, s.endsOf t = some (u, left, right)
  taken : ∀ h ∈ s.log, s.takenOf h.stream = some h.taker
  waiting : ∀ task ∈ s.tasks, s.takenOf task.stream = some task.owner.consumer
  numbered : ∀ h ∈ s.log, h.chunk.n < s.nextChunk
  once : (s.log.map fun h => (h.stream, h.chunk.n)).Nodup

/-- Nothing that `Piped` looks at has changed, but tasks that are gone. -/
structure Still (s s' : Bodies) : Prop where
  src : ∀ u, s'.srcOf u = s.srcOf u
  taken : ∀ u, s'.takenOf u = s.takenOf u
  ends : ∀ t, s'.endsOf t = s.endsOf t
  tasks : ∀ task ∈ s'.tasks, task ∈ s.tasks
  log : s'.log = s.log
  nextChunk : s'.nextChunk = s.nextChunk

/-- Only instances, buffers and results changed. -/
theorem Still.of_streams {s s' : Bodies} (hstreams : s'.streams = s.streams)
    (htees : s'.tees = s.tees) (htasks : s'.tasks = s.tasks) (hlog : s'.log = s.log)
    (hnext : s'.nextChunk = s.nextChunk) : s.Still s' where
  src := fun u => by simp only [srcOf, hstreams]
  taken := fun u => by simp only [takenOf, hstreams]
  ends := fun t => by simp only [endsOf, htees]
  tasks := fun task htask => by rwa [htasks] at htask
  log := hlog
  nextChunk := hnext

theorem Still.refl (s : Bodies) : s.Still s := .of_streams rfl rfl rfl rfl rfl

theorem Still.trans {s s' s'' : Bodies} (h : s.Still s') (h' : s'.Still s'') : s.Still s'' where
  src := fun u => (h'.src u).trans (h.src u)
  taken := fun u => (h'.taken u).trans (h.taken u)
  ends := fun t => (h'.ends t).trans (h.ends t)
  tasks := fun task htask => h.tasks task (h'.tasks task htask)
  log := h'.log.trans h.log
  nextChunk := h'.nextChunk.trans h.nextChunk

theorem Still.out {s s' : Bodies} (h : s.Still s') (u : Nat) : s'.out u = s.out u := by
  simp only [Bodies.out, h.log]

theorem Piped.still {s s' : Bodies} (h : s.Piped) (hs : s.Still s') : s'.Piped where
  ends := by
    intro t up left right he
    rw [hs.ends] at he
    simpa only [hs.taken, hs.src] using h.ends he
  sides := by
    intro u t queue flag hu
    rw [hs.src] at hu
    simpa only [hs.ends, hs.out] using h.sides hu
  teed := by
    intro u t hu
    rw [hs.taken] at hu
    simpa only [hs.ends] using h.teed hu
  taken := by
    intro x hx
    rw [hs.log] at hx
    rw [hs.taken]
    exact h.taken x hx
  waiting := by
    intro task htask
    rw [hs.taken]
    exact h.waiting task (hs.tasks task htask)
  numbered := by simpa only [hs.log, hs.nextChunk] using h.numbered
  once := by simpa only [hs.log] using h.once

theorem srcOf_setStream (s : Bodies) (v : Nat) (f : BodyStream → BodyStream) (u : Nat) :
    (s.setStream v f).srcOf u =
      if v = u then s.streams[u]?.map fun st => (f st).src else s.srcOf u := by
  simp only [srcOf, setStream, List.getElem?_modify]
  split <;> simp [Function.comp_def]

theorem takenOf_setStream (s : Bodies) (v : Nat) (f : BodyStream → BodyStream) (u : Nat) :
    (s.setStream v f).takenOf u =
      if v = u then s.streams[u]?.bind fun st => (f st).takenBy else s.takenOf u := by
  simp only [takenOf, setStream, List.getElem?_modify]
  split <;> cases s.streams[u]? <;> rfl

/-- A stream's flags are not looked at. -/
theorem still_setStream (s : Bodies) (v : Nat) {f : BodyStream → BodyStream}
    (hsrc : ∀ st, (f st).src = st.src) (htaken : ∀ st, (f st).takenBy = st.takenBy) :
    s.Still (s.setStream v f) where
  src := by
    intro u
    rw [srcOf_setStream]
    split
    · simp [srcOf, hsrc]
    · rfl
  taken := by
    intro u
    rw [takenOf_setStream]
    split
    · simp [takenOf, htaken]
    · rfl
  ends := fun _ => rfl
  tasks := fun _ h => h
  log := rfl
  nextChunk := rfl

theorem endsOf_setTee (s : Bodies) (v : Nat) {f : Tee → Tee} (hup : ∀ tee, (f tee).up = tee.up)
    (hleft : ∀ tee, (f tee).left = tee.left) (hright : ∀ tee, (f tee).right = tee.right)
    (t : Nat) : (s.setTee v f).endsOf t = s.endsOf t := by
  simp only [endsOf, setTee, List.getElem?_modify]
  split
  · cases s.tees[t]? with
    | none => rfl
    | some tee => simp [hup, hleft, hright]
  · simp

/-- Nor are a tee's. -/
theorem still_setTee (s : Bodies) (v : Nat) {f : Tee → Tee} (hup : ∀ tee, (f tee).up = tee.up)
    (hleft : ∀ tee, (f tee).left = tee.left) (hright : ∀ tee, (f tee).right = tee.right) :
    s.Still (s.setTee v f) where
  src := fun _ => rfl
  taken := fun _ => rfl
  ends := s.endsOf_setTee v hup hleft hright
  tasks := fun _ h => h
  log := rfl
  nextChunk := rfl

theorem still_dropTask (s : Bodies) (k : Nat) : s.Still (s.dropTask k) where
  src := fun _ => rfl
  taken := fun _ => rfl
  ends := fun _ => rfl
  tasks := fun _ h => List.mem_of_mem_eraseIdx h
  log := rfl
  nextChunk := rfl

theorem still_result (s : Bodies) (how : Helper) (bytes : List UInt8) :
    s.Still (s.result how bytes) := by
  cases how <;> exact .of_streams rfl rfl rfl rfl rfl

theorem still_finishDrain (s : Bodies) (how : Helper) (got : List Chunk) :
    s.Still (s.finishDrain how got) := by
  unfold finishDrain
  split
  · exact s.still_result how _
  · exact Still.refl s

theorem still_atEnd (s : Bodies) (u : Nat) (owner : Owner) : s.Still (s.atEnd u owner) := by
  have hdone := s.still_setStream u (f := fun st => { st with done := true }) (fun _ => rfl)
    fun _ => rfl
  cases owner with
  | reader => exact hdone
  | drain i how got => exact hdone.trans (still_finishDrain _ how got)
  | shared t => exact s.still_setTee t (fun _ => rfl) (fun _ => rfl) fun _ => rfl

theorem still_atError (s : Bodies) (owner : Owner) : s.Still (s.atError owner) := by
  cases owner with
  | reader => exact Still.refl s
  | drain i how got => exact Still.refl s
  | shared t => exact s.still_setTee t (fun _ => rfl) (fun _ => rfl) fun _ => rfl

theorem out_nodup {s : Bodies} (h : s.Piped) (u : Nat) : ((s.out u).map Chunk.n).Nodup := by
  have hfilter := (h.once.sublist (List.Sublist.map _ List.filter_sublist) :
    ((s.log.filter fun x => x.stream == u).map fun x => (x.stream, x.chunk.n)).Nodup)
  have hsame : (s.log.filter fun x => x.stream == u).map (fun x => (x.stream, x.chunk.n)) =
      ((s.out u).map Chunk.n).map fun n => (u, n) := by
    simp only [Bodies.out, List.map_map]
    refine List.map_congr_left ?_
    intro x hx
    have hstream := (List.mem_filter.mp hx).2
    simp only [beq_iff_eq] at hstream
    simp [hstream]
  rw [hsame] at hfilter
  exact hfilter.of_map _

theorem takenOf_pull (s : Bodies) (u : Nat) (owner : Owner) (v : Nat) :
    (s.pull u owner).takenOf v =
      if u = v then s.streams[v]?.bind fun _ => some owner.consumer else s.takenOf v :=
  s.takenOf_setStream u _ v

theorem srcOf_pull (s : Bodies) (u : Nat) (owner : Owner) (v : Nat) :
    (s.pull u owner).srcOf v = s.srcOf v := by
  have hset := s.srcOf_setStream u
    (fun st => { st with disturbed := true, takenBy := some owner.consumer }) v
  refine hset.trans ?_
  split <;> rfl

/-- A pull by the consumer that the stream was given to, or by its first. -/
theorem Piped.pull {s : Bodies} (h : s.Piped) {u : Nat} (hu : u < s.streams.length)
    {owner : Owner} (hfree : s.takenOf u = none ∨ s.takenOf u = some owner.consumer)
    (hshared : ∀ t, owner.consumer = .tee t → s.takenOf u = some (.tee t)) :
    (s.pull u owner).Piped := by
  have hself : (s.pull u owner).takenOf u = some owner.consumer := by
    rw [takenOf_pull, if_pos rfl, List.getElem?_eq_getElem hu]
    rfl
  have hkeep : ∀ {v : Nat} {c : Consumer}, s.takenOf v = some c →
      (s.pull u owner).takenOf v = some c := by
    intro v c hv
    by_cases huv : u = v
    · subst huv
      obtain hnone | hsome := hfree
      · rw [hnone] at hv
        simp at hv
      · rw [hself, ← hsome, hv]
    · rw [takenOf_pull, if_neg huv, hv]
  exact
    { ends := by
        intro t up left right he
        obtain ⟨hul, hlr, hup, hleft, hright⟩ := h.ends he
        simp only [srcOf_pull]
        exact ⟨hul, hlr, hkeep hup, hleft, hright⟩
      sides := by
        intro v t queue flag hv
        rw [srcOf_pull] at hv
        exact h.sides hv
      teed := by
        intro v t hv
        by_cases huv : u = v
        · subst huv
          rw [hself] at hv
          exact h.teed (hshared t (Option.some.inj hv))
        · rw [takenOf_pull, if_neg huv] at hv
          exact h.teed hv
      taken := fun x hx => hkeep (h.taken x hx)
      waiting := by
        intro task htask
        obtain htask | htask := List.mem_append.mp htask
        · exact hkeep (h.waiting task htask)
        · obtain rfl := List.mem_singleton.mp htask
          exact hself
      numbered := h.numbered
      once := h.once }

theorem lt_of_doneOf {s : Bodies} {u : Nat} (h : s.doneOf u = false) : u < s.streams.length := by
  by_contra hu
  have hnone : s.streams[u]? = none := List.getElem?_eq_none (by omega)
  simp [doneOf, hnone] at h

/-- A read by a reader or by a drain. -/
theorem Piped.readOn {s : Bodies} (h : s.Piped) {u : Nat} {owner : Owner}
    (hfree : s.doneOf u = false → s.takenOf u = none ∨ s.takenOf u = some owner.consumer)
    (howner : ∀ t, owner ≠ .shared t) : (s.readOn u owner).Piped := by
  unfold Bodies.readOn
  split
  · cases owner with
    | reader => exact h
    | drain i how got => exact h.still (s.still_finishDrain how got)
    | shared t => exact h
  · next hdone =>
    have hdone : s.doneOf u = false := by simpa [doneOf] using hdone
    refine h.pull (lt_of_doneOf hdone) (hfree hdone) ?_
    intro t ht
    cases owner with
    | reader => simp [Owner.consumer] at ht
    | drain i how got => simp [Owner.consumer] at ht
    | shared t' => exact absurd rfl (howner t')

/-! ### Chunks -/

theorem out_concat {s s' : Bodies} {x : Hand} (h : s'.log = s.log ++ [x]) (v : Nat) :
    s'.out v = if x.stream = v then s.out v ++ [x.chunk] else s.out v := by
  simp only [out, h, List.filter_append, List.map_append]
  split
  · next hv => simp [hv]
  · next hv => simp [hv]

/-- A chunk in a side's queue has not been yielded by it. -/
theorem Piped.head_new {s : Bodies} (h : s.Piped) {u t : Nat} {c : Chunk} {rest : List Chunk}
    {flag : Bool} (hu : s.srcOf u = some (.branch t (c :: rest) flag)) :
    (∀ x ∈ s.log, x.stream = u → x.chunk.n ≠ c.n) ∧ c.n < s.nextChunk := by
  obtain ⟨up, left, right, -, -, hsub, -⟩ := h.sides hu
  have hnodup := (out_nodup h up).sublist (hsub.map Chunk.n)
  rw [List.map_append, List.map_cons, List.nodup_append] at hnodup
  constructor
  · intro x hx hxu heq
    refine hnodup.2.2 x.chunk.n ?_ c.n (by simp) heq
    exact List.mem_map_of_mem (List.mem_map_of_mem (List.mem_filter.mpr ⟨hx, by simp [hxu]⟩))
  · have hmem : c ∈ s.out up := hsub.subset (by simp)
    obtain ⟨x, hx, rfl⟩ := List.mem_map.mp hmem
    exact h.numbered x (List.mem_filter.mp hx).1

/-- A chunk goes from a stream to its consumer.  Out of a side it is the head of the queue; into
a tee it goes to the queue of each side that is not cancelled. -/
theorem Piped.handed {s s' : Bodies} (h : s.Piped) {u : Nat} {c : Chunk} {k : Consumer}
    (hk : s.takenOf u = some k)
    (hnew : ∀ x ∈ s.log, x.stream = u → x.chunk.n ≠ c.n) (hlt : c.n < s'.nextChunk)
    (hnext : s.nextChunk ≤ s'.nextChunk)
    (hlog : s'.log = s.log ++ [{ stream := u, chunk := c, taker := k }])
    (htaken : ∀ v, s'.takenOf v = s.takenOf v) (hends : ∀ t, s'.endsOf t = s.endsOf t)
    (htasks : ∀ task ∈ s'.tasks, s.takenOf task.stream = some task.owner.consumer)
    (hkeep : ∀ {v t : Nat} {queue : List Chunk} {flag : Bool},
      s.srcOf v = some (.branch t queue flag) →
        ∃ queue', s'.srcOf v = some (.branch t queue' flag))
    (hsrc : ∀ {v t : Nat} {queue : List Chunk} {flag : Bool},
      s'.srcOf v = some (.branch t queue flag) →
        ∃ before, s.srcOf v = some (.branch t before flag) ∧
          (v = u → before = c :: queue) ∧
          (v ≠ u → queue = if k = .tee t ∧ flag = false then before ++ [c] else before)) :
    s'.Piped where
  ends := by
    intro t up left right he
    rw [hends] at he
    obtain ⟨hul, hlr, hup, ⟨queueL, flagL, hleft⟩, queueR, flagR, hright⟩ := h.ends he
    obtain ⟨queueL', hleft'⟩ := hkeep hleft
    obtain ⟨queueR', hright'⟩ := hkeep hright
    rw [htaken]
    exact ⟨hul, hlr, hup, ⟨queueL', flagL, hleft'⟩, queueR', flagR, hright'⟩
  sides := by
    intro v t queue flag hv
    obtain ⟨before, hbefore, hself, hother⟩ := hsrc hv
    obtain ⟨up, left, right, he, hlr, hsub, hall⟩ := h.sides hbefore
    have hup := (h.ends he).2.2.1
    have hvup : v ≠ up := by
      have := h.ends he
      omega
    refine ⟨up, left, right, (hends t).trans he, hlr, ?_⟩
    rw [out_concat hlog, out_concat hlog]
    simp only
    by_cases hvu : v = u
    · -- the head of the queue is yielded: together they are what they were
      subst hvu
      obtain rfl := hself rfl
      rw [if_pos rfl, if_neg hvup]
      simpa using ⟨hsub, hall⟩
    · have hqueue := hother hvu
      rw [if_neg (fun h => hvu h.symm)]
      by_cases huup : u = up
      · -- the tee has pulled it
        subst huup
        have hkt : k = .tee t := by
          rw [hk] at hup
          exact Option.some.inj hup
        rw [if_pos rfl]
        cases flag with
        | true =>
          rw [if_neg (by simp)] at hqueue
          subst hqueue
          exact ⟨hsub.trans (List.sublist_append_left _ _), by simp⟩
        | false =>
          rw [if_pos ⟨hkt, rfl⟩] at hqueue
          subst hqueue
          rw [← List.append_assoc]
          exact ⟨hsub.append (List.Sublist.refl _), fun _ => by rw [hall rfl]⟩
      · -- another stream's chunk is not this tee's
        have hkt : k ≠ .tee t := by
          rintro rfl
          obtain ⟨left', right', he'⟩ := h.teed hk
          rw [he] at he'
          simp only [Option.some.injEq, Prod.mk.injEq] at he'
          exact huup he'.1.symm
        rw [if_neg (by simp [hkt])] at hqueue
        subst hqueue
        rw [if_neg huup]
        exact ⟨hsub, hall⟩
  teed := by
    intro v t hv
    rw [htaken] at hv
    simpa only [hends] using h.teed hv
  taken := by
    intro x hx
    rw [hlog] at hx
    rw [htaken]
    obtain hx | hx := List.mem_append.mp hx
    · exact h.taken x hx
    · obtain rfl := List.mem_singleton.mp hx
      exact hk
  waiting := by
    intro task htask
    rw [htaken]
    exact htasks task htask
  numbered := by
    intro x hx
    rw [hlog] at hx
    obtain hx | hx := List.mem_append.mp hx
    · exact Nat.lt_of_lt_of_le (h.numbered x hx) hnext
    · obtain rfl := List.mem_singleton.mp hx
      exact hlt
  once := by
    rw [hlog, List.map_append, List.map_singleton]
    refine h.once.append (List.nodup_singleton _) ?_
    intro pair hpair hnewPair
    obtain ⟨x, hx, rfl⟩ := List.mem_map.mp hpair
    simp only [List.mem_singleton, Prod.mk.injEq] at hnewPair
    exact hnew x hx hnewPair.1 hnewPair.2

theorem srcOf_pushChunk (s : Bodies) (v : Nat) (c : Chunk) (u : Nat) :
    (s.pushChunk v c).srcOf u =
      if v = u then (s.srcOf u).map (StreamSource.pushed c) else s.srcOf u := by
  rw [pushChunk, srcOf_setStream]
  split
  · simp [srcOf, Function.comp_def]
  · rfl

theorem takenOf_pushChunk (s : Bodies) (v : Nat) (c : Chunk) (u : Nat) :
    (s.pushChunk v c).takenOf u = s.takenOf u := by
  rw [pushChunk, takenOf_setStream]
  split <;> rfl

theorem pushed_branch {c : Chunk} {src : StreamSource} {t : Nat} {queue : List Chunk}
    {flag : Bool} (h : src.pushed c = .branch t queue flag) :
    ∃ before, src = .branch t before flag ∧
      queue = if flag = false then before ++ [c] else before := by
  cases src with
  | host => simp [StreamSource.pushed] at h
  | iterable => simp [StreamSource.pushed] at h
  | branch t' before flag' =>
    cases flag' with
    | true =>
      simp only [StreamSource.pushed, StreamSource.branch.injEq] at h
      obtain ⟨rfl, rfl, rfl⟩ := h
      exact ⟨before, rfl, by simp⟩
    | false =>
      simp only [StreamSource.pushed, StreamSource.branch.injEq] at h
      obtain ⟨rfl, rfl, rfl⟩ := h
      exact ⟨before, rfl, by simp⟩

theorem pushed_isBranch (c : Chunk) (t : Nat) (queue : List Chunk) (flag : Bool) :
    ∃ queue', (StreamSource.branch t queue flag).pushed c = .branch t queue' flag := by
  cases flag with
  | true => exact ⟨queue, rfl⟩
  | false => exact ⟨queue ++ [c], rfl⟩

/-- From `s` to `m`, the chunk that is about to be handed on leaves its stream: nothing else has
changed that `Piped` looks at. -/
structure Yields (s m : Bodies) (u : Nat) (c : Chunk) : Prop where
  new : ∀ x ∈ s.log, x.stream = u → x.chunk.n ≠ c.n
  lt : c.n < m.nextChunk
  next : s.nextChunk ≤ m.nextChunk
  log : m.log = s.log
  taken : ∀ v, m.takenOf v = s.takenOf v
  ends : ∀ t, m.endsOf t = s.endsOf t
  tasks : ∀ task ∈ m.tasks, task ∈ s.tasks
  keep : ∀ {v t : Nat} {queue : List Chunk} {flag : Bool},
    s.srcOf v = some (.branch t queue flag) → ∃ queue', m.srcOf v = some (.branch t queue' flag)
  src : ∀ {v t : Nat} {queue : List Chunk} {flag : Bool},
    m.srcOf v = some (.branch t queue flag) →
      ∃ before, s.srcOf v = some (.branch t before flag) ∧ (v = u → before = c :: queue) ∧
        (v ≠ u → queue = before)

theorem Piped.hand {s m : Bodies} (h : s.Piped) {u : Nat} {c : Chunk} {owner : Owner}
    (hy : s.Yields m u c) (hk : s.takenOf u = some owner.consumer) :
    (m.hand u owner c).Piped := by
  have hwaiting : ∀ task ∈ m.tasks, s.takenOf task.stream = some task.owner.consumer :=
    fun task htask => h.waiting task (hy.tasks task htask)
  -- a chunk that goes to no tee changes no queue but its own stream's
  have hplain : (∀ t, owner.consumer ≠ .tee t) → ∀ s' : Bodies,
      s'.log = m.log ++ [{ stream := u, chunk := c, taker := owner.consumer }] →
      s'.nextChunk = m.nextChunk → (∀ v, s'.takenOf v = m.takenOf v) →
      (∀ t, s'.endsOf t = m.endsOf t) → (∀ v, s'.srcOf v = m.srcOf v) →
      (∀ task ∈ s'.tasks, s.takenOf task.stream = some task.owner.consumer) → s'.Piped := by
    intro hnot s' hlog hnext htaken hends hsrc htasks
    refine h.handed hk hy.new (by rw [hnext]; exact hy.lt) (by rw [hnext]; exact hy.next)
      (by rw [hlog, hy.log]) (fun v => (htaken v).trans (hy.taken v))
      (fun t => (hends t).trans (hy.ends t)) htasks ?_ ?_
    · intro v t queue flag hv
      rw [hsrc]
      exact hy.keep hv
    · intro v t queue flag hv
      rw [hsrc] at hv
      obtain ⟨before, hbefore, hself, hother⟩ := hy.src hv
      refine ⟨before, hbefore, hself, ?_⟩
      intro hvu
      rw [if_neg (by simp [hnot t])]
      exact hother hvu
  cases owner with
  | reader =>
    exact hplain (by simp [Owner.consumer]) _ rfl rfl (fun _ => rfl) (fun _ => rfl)
      (fun _ => rfl) hwaiting
  | drain i how got =>
    have hlogged := hplain (by simp [Owner.consumer])
      { m with log := m.log ++ [{ stream := u, chunk := c, taker := .helper i }] } rfl rfl
      (fun _ => rfl) (fun _ => rfl) (fun _ => rfl) hwaiting
    refine hlogged.readOn (fun _ => Or.inr ?_) (by simp)
    exact (hy.taken u).trans hk
  | shared t =>
    obtain ⟨left, right, he⟩ := h.teed hk
    obtain ⟨hul, hlr, -, ⟨queueL, flagL, hleft⟩, queueR, flagR, hright⟩ := h.ends he
    have hem : m.endsOf t = some (u, left, right) := (hy.ends t).trans he
    obtain ⟨tee, htee, heq⟩ := Option.map_eq_some_iff.mp hem
    simp only [Prod.mk.injEq] at heq
    obtain ⟨rfl, rfl, rfl⟩ := heq
    simp only [Bodies.hand, htee]
    have hsides : ∀ {v t' : Nat} {queue : List Chunk} {flag : Bool},
        s.srcOf v = some (.branch t' queue flag) →
          (t' = t ↔ v = tee.left ∨ v = tee.right) := by
      intro v t' queue flag hv
      constructor
      · rintro rfl
        obtain ⟨up, left, right, he', hlr', -⟩ := h.sides hv
        rw [he] at he'
        simp only [Option.some.injEq, Prod.mk.injEq] at he'
        obtain ⟨-, rfl, rfl⟩ := he'
        exact hlr'
      · rintro (rfl | rfl)
        · rw [hleft] at hv
          simp only [Option.some.injEq, StreamSource.branch.injEq] at hv
          exact hv.1.symm
        · rw [hright] at hv
          simp only [Option.some.injEq, StreamSource.branch.injEq] at hv
          exact hv.1.symm
    have hsrc : ∀ v, (((m.pushChunk tee.left c).pushChunk tee.right c)).srcOf v =
        if v = tee.left ∨ v = tee.right then (m.srcOf v).map (StreamSource.pushed c)
        else m.srcOf v := by
      intro v
      rw [srcOf_pushChunk, srcOf_pushChunk]
      by_cases hvl : tee.left = v
      · subst hvl
        rw [if_neg (by omega), if_pos rfl, if_pos (Or.inl rfl)]
      · by_cases hvr : tee.right = v
        · subst hvr
          rw [if_pos rfl, if_neg hvl, if_pos (Or.inr rfl)]
        · rw [if_neg hvr, if_neg hvl, if_neg (by omega)]
    refine h.handed hk hy.new hy.lt hy.next ?_ ?_ ?_ hwaiting ?_ ?_
    · show m.log ++ _ = _
      rw [hy.log]
    · intro v
      refine Eq.trans ?_ (hy.taken v)
      exact (takenOf_pushChunk _ _ _ _).trans (takenOf_pushChunk _ _ _ _)
    · intro t'
      refine Eq.trans ?_ (hy.ends t')
      exact endsOf_setTee _ t (f := fun tee => { tee with inFlight := false }) (fun _ => rfl)
        (fun _ => rfl) (fun _ => rfl) t'
    · intro v t' queue flag hv
      obtain ⟨queue', hv'⟩ := hy.keep hv
      show ∃ queue', ((m.pushChunk tee.left c).pushChunk tee.right c).srcOf v = _
      rw [hsrc]
      split
      · obtain ⟨queue'', hpushed⟩ := pushed_isBranch c t' queue' flag
        exact ⟨queue'', by rw [hv', Option.map_some, hpushed]⟩
      · exact ⟨queue', hv'⟩
    · intro v t' queue flag hv
      have hv : ((m.pushChunk tee.left c).pushChunk tee.right c).srcOf v =
        some (.branch t' queue flag) := hv
      rw [hsrc] at hv
      split at hv
      · next hside =>
        obtain ⟨src, hsrcv, hpushed⟩ := Option.map_eq_some_iff.mp hv
        obtain ⟨before, rfl, hqueue⟩ := pushed_branch hpushed
        obtain ⟨before', hbefore, -, hother⟩ := hy.src hsrcv
        have hvu : v ≠ tee.up := by omega
        have hbb := hother hvu
        subst hbb
        have hteq := (hsides hbefore).mpr hside
        subst hteq
        refine ⟨before, hbefore, fun heq => absurd heq hvu, fun _ => ?_⟩
        rw [hqueue]
        simp [Owner.consumer]
      · next hside =>
        obtain ⟨before, hbefore, hself, hother⟩ := hy.src hv
        have hne : t' ≠ t := fun heq => hside ((hsides hbefore).mp heq)
        refine ⟨before, hbefore, hself, fun hvu => ?_⟩
        rw [hother hvu, if_neg]
        rintro ⟨hkt, -⟩
        exact hne (Consumer.tee.inj hkt).symm

theorem Piped.arrive {s m : Bodies} (h : s.Piped) (hm : s.Still m) {task : Task}
    (htask : task ∈ s.tasks)
    (hsrc : ∀ t queue flag, s.srcOf task.stream ≠ some (.branch t queue flag))
    (data : Data) : (m.arrive task data).Piped := by
  refine h.hand ?_ (h.waiting task htask)
  exact
    { new := by
        intro x hx _
        have hlt := h.numbered x hx
        rw [← hm.nextChunk] at hlt
        exact Nat.ne_of_lt hlt
      lt := Nat.lt_succ_self _
      next := by
        rw [← hm.nextChunk]
        exact Nat.le_succ _
      log := hm.log
      taken := hm.taken
      ends := hm.ends
      tasks := hm.tasks
      keep := by
        intro v t queue flag hv
        exact ⟨queue, (hm.src v).trans hv⟩
      src := by
        intro v t queue flag hv
        have hv : s.srcOf v = some (.branch t queue flag) := (hm.src v).symm.trans hv
        refine ⟨queue, hv, ?_, fun _ => rfl⟩
        rintro rfl
        exact absurd hv (hsrc t queue flag) }

theorem Piped.answer {s : Bodies} (h : s.Piped) {k : Nat} {task : Task}
    (hk : s.tasks[k]? = some task) (a : Answer) : (s.answer k task a).Piped := by
  have hdrop := s.still_dropTask k
  have htask := List.mem_of_getElem? hk
  unfold Bodies.answer
  split
  · next hanswers =>
    -- a side of a tee is answered by its tee
    have hsrc : ∀ t queue flag, s.srcOf task.stream ≠ some (.branch t queue flag) := by
      intro t queue flag hbranch
      simp only [srcOf] at hbranch
      simp [answers, hbranch] at hanswers
    cases a with
    | fresh bytes =>
      refine h.arrive (hdrop.trans ?_) htask hsrc _
      exact .of_streams rfl rfl rfl rfl rfl
    | held b => exact h.arrive hdrop htask hsrc _
    | text value => exact h.arrive hdrop htask hsrc _
    | eof => exact h.still (hdrop.trans (still_atEnd _ _ _))
    | error => exact h.still (hdrop.trans (still_atError _ _))
  · exact h

theorem lt_of_takenOf {s : Bodies} {u : Nat} {c : Consumer} (h : s.takenOf u = some c) :
    u < s.streams.length := by
  by_contra hu
  have hnone : s.streams[u]? = none := List.getElem?_eq_none (by omega)
  simp [takenOf, hnone] at h

/-- The head of a side's queue leaves it. -/
theorem Piped.yields_head {s : Bodies} (h : s.Piped) {u t : Nat} {c : Chunk} {rest : List Chunk}
    {flag : Bool} (hu : s.srcOf u = some (.branch t (c :: rest) flag)) (k : Nat) :
    s.Yields ((s.dropTask k).setStream u fun st => { st with src := .branch t rest flag }) u c := by
  obtain ⟨hnew, hlt⟩ := h.head_new hu
  have hsrc : ∀ v, ((s.dropTask k).setStream u
      fun st => { st with src := .branch t rest flag }).srcOf v =
        if u = v then some (.branch t rest flag) else s.srcOf v := by
    intro v
    rw [srcOf_setStream]
    split
    · next huv =>
      subst huv
      obtain ⟨st, hst, -⟩ := Option.map_eq_some_iff.mp hu
      show (s.streams[u]?).map _ = _
      rw [hst]
      rfl
    · rfl
  exact
    { new := hnew
      lt := hlt
      next := Nat.le_refl _
      log := rfl
      taken := by
        intro v
        rw [takenOf_setStream]
        split <;> rfl
      ends := fun _ => rfl
      tasks := fun _ htask => List.mem_of_mem_eraseIdx htask
      keep := by
        intro v t' queue flag' hv
        rw [hsrc]
        split
        · next huv =>
          subst huv
          rw [hu] at hv
          simp only [Option.some.injEq, StreamSource.branch.injEq] at hv
          obtain ⟨rfl, -, rfl⟩ := hv
          exact ⟨rest, rfl⟩
        · exact ⟨queue, hv⟩
      src := by
        intro v t' queue flag' hv
        rw [hsrc] at hv
        split at hv
        · next huv =>
          subst huv
          simp only [Option.some.injEq, StreamSource.branch.injEq] at hv
          obtain ⟨rfl, rfl, rfl⟩ := hv
          exact ⟨c :: rest, hu, fun _ => rfl, fun hne => absurd rfl hne⟩
        · next huv => exact ⟨queue, hv, fun heq => absurd heq.symm huv, fun _ => rfl⟩ }

theorem Piped.resume {s : Bodies} (h : s.Piped) {k : Nat} {task : Task}
    (hk : s.tasks[k]? = some task) : (s.resume k task).Piped := by
  have hdrop := s.still_dropTask k
  have hwaiting := h.waiting task (List.mem_of_getElem? hk)
  unfold Bodies.resume
  split
  · next t queue flag hsrc =>
    split
    · exact h.hand (h.yields_head hsrc k) hwaiting
    · split
      · exact h
      · next tee htee =>
        split
        · exact h.still (hdrop.trans (still_atError _ _))
        · split
          · exact h.still (hdrop.trans (still_atEnd _ _ _))
          · split
            · exact h
            · have he : s.endsOf t = some (tee.up, tee.left, tee.right) := by simp [endsOf, htee]
              have hup := (h.ends he).2.2.1
              have hset := s.still_setTee t (f := fun tee => { tee with inFlight := true })
                (fun _ => rfl) (fun _ => rfl) fun _ => rfl
              refine (h.still hset).pull ?_ (Or.inr ?_) ?_
              · exact lt_of_takenOf hup
              · exact (hset.taken tee.up).trans hup
              · intro t' ht'
                obtain rfl := Consumer.tee.inj ht'
                exact (hset.taken tee.up).trans hup
  · exact h

/-- A side that is cancelled drops its queue. -/
theorem Piped.cancelSide {s : Bodies} (h : s.Piped) {u t : Nat} {queue : List Chunk} {flag : Bool}
    (hu : s.srcOf u = some (.branch t queue flag)) :
    (s.setStream u fun st => { st with disturbed := true, src := .branch t [] true }).Piped := by
  have hsrc : ∀ v, (s.setStream u
      fun st => { st with disturbed := true, src := .branch t [] true }).srcOf v =
        if u = v then some (.branch t [] true) else s.srcOf v := by
    intro v
    rw [srcOf_setStream]
    split
    · next huv =>
      subst huv
      obtain ⟨st, hst, -⟩ := Option.map_eq_some_iff.mp hu
      rw [hst]
      rfl
    · rfl
  have htaken : ∀ v, (s.setStream u
      fun st => { st with disturbed := true, src := .branch t [] true }).takenOf v =
        s.takenOf v := by
    intro v
    rw [takenOf_setStream]
    split <;> rfl
  have hside : ∀ {v t' : Nat} {q : List Chunk} {f : Bool}, s.srcOf v = some (.branch t' q f) →
      ∃ q' f', (s.setStream u
        fun st => { st with disturbed := true, src := .branch t [] true }).srcOf v =
          some (.branch t' q' f') := by
    intro v t' q f hv
    rw [hsrc]
    split
    · next huv =>
      subst huv
      rw [hu] at hv
      simp only [Option.some.injEq, StreamSource.branch.injEq] at hv
      obtain ⟨rfl, -, -⟩ := hv
      exact ⟨[], true, rfl⟩
    · exact ⟨q, f, hv⟩
  exact
    { ends := by
        intro t' up left right he
        obtain ⟨hul, hlr, hup, ⟨queueL, flagL, hleft⟩, queueR, flagR, hright⟩ := h.ends he
        rw [htaken]
        exact ⟨hul, hlr, hup, hside hleft, hside hright⟩
      sides := by
        intro v t' q f hv
        rw [hsrc] at hv
        split at hv
        · next huv =>
          subst huv
          simp only [Option.some.injEq, StreamSource.branch.injEq] at hv
          obtain ⟨rfl, rfl, rfl⟩ := hv
          obtain ⟨up, left, right, he, hlr, hsub, -⟩ := h.sides hu
          refine ⟨up, left, right, he, hlr, ?_, by simp⟩
          exact ((List.Sublist.refl _).append (List.nil_sublist queue)).trans hsub
        · exact h.sides hv
      teed := by
        intro v t' hv
        rw [htaken] at hv
        exact h.teed hv
      taken := by
        intro x hx
        rw [htaken]
        exact h.taken x hx
      waiting := by
        intro task htask
        rw [htaken]
        exact h.waiting task htask
      numbered := h.numbered
      once := h.once }

theorem Piped.cancelSource {s : Bodies} (h : s.Piped) (fuel u : Nat) :
    (cancelSource fuel s u).Piped := by
  induction fuel generalizing s u with
  | zero => exact h
  | succ fuel ih =>
    simp only [Bodies.cancelSource]
    split
    · exact h
    · next st hst =>
      split
      · next t queue flag hsrc =>
        have hu : s.srcOf u = some (.branch t queue flag) := by simp [srcOf, hst, hsrc]
        have hside := h.cancelSide hu
        split
        · exact hside
        · split
          · exact ih hside _
          · exact hside
      · exact h.still (s.still_setStream u (fun _ => rfl) fun _ => rfl)

theorem Piped.cancel {s : Bodies} (h : s.Piped) (u : Nat) : (s.cancel u).Piped :=
  (h.still (s.still_setStream u (f := fun st => { st with done := true }) (fun _ => rfl)
    fun _ => rfl)).cancelSource (u + 1) u

/-! ### Calls -/

/-- A new stream of a source. -/
theorem Piped.newStream {s s' : Bodies} (h : s.Piped) {src : StreamSource}
    (hsrc : ∀ t queue flag, src ≠ .branch t queue flag)
    (hstreams : s'.streams = s.streams ++ [BodyStream.fresh src]) (htees : s'.tees = s.tees)
    (htasks : s'.tasks = s.tasks) (hlog : s'.log = s.log) (hnext : s'.nextChunk = s.nextChunk) :
    s'.Piped := by
  have htaken : ∀ u, s'.takenOf u = s.takenOf u := by
    intro u
    simp only [takenOf, hstreams, List.getElem?_append]
    split
    · rfl
    · rw [List.getElem?_eq_none (l := s.streams) (by omega)]
      cases u - s.streams.length with
      | zero => rfl
      | succ n => rfl
  have hbranch : ∀ {u t : Nat} {queue : List Chunk} {flag : Bool},
      s'.srcOf u = some (.branch t queue flag) ↔ s.srcOf u = some (.branch t queue flag) := by
    intro u t queue flag
    simp only [srcOf, hstreams, List.getElem?_append]
    split
    · rfl
    · rw [List.getElem?_eq_none (l := s.streams) (by omega)]
      cases u - s.streams.length with
      | zero => simp [BodyStream.fresh, hsrc]
      | succ n => simp
  have hends : ∀ t, s'.endsOf t = s.endsOf t := by
    intro t
    simp only [endsOf, htees]
  have hout : ∀ u, s'.out u = s.out u := by
    intro u
    simp only [out, hlog]
  exact
    { ends := by
        intro t up left right he
        rw [hends] at he
        simpa only [htaken, hbranch] using h.ends he
      sides := by
        intro u t queue flag hu
        simpa only [hends, hout] using h.sides (hbranch.mp hu)
      teed := by
        intro u t hu
        rw [htaken] at hu
        simpa only [hends] using h.teed hu
      taken := by
        intro x hx
        rw [hlog] at hx
        rw [htaken]
        exact h.taken x hx
      waiting := by
        intro task htask
        rw [htasks] at htask
        rw [htaken]
        exact h.waiting task htask
      numbered := by simpa only [hlog, hnext] using h.numbered
      once := by simpa only [hlog] using h.once }

theorem still_push (s : Bodies) (kind : Kind) (body : Body) : s.Still (s.push kind body) :=
  .of_streams rfl rfl rfl rfl rfl

theorem Piped.bodyInit {s : Bodies} (h : s.Piped) (kind : Kind) (arg : BodyArg) :
    (s.bodyInit kind arg).Piped := by
  cases arg with
  | none => exact h.still (s.still_push kind _)
  | text value => exact h.still (.of_streams rfl rfl rfl rfl rfl)
  | buffer b =>
    simp only [Bodies.bodyInit]
    split
    · exact h.still (.of_streams rfl rfl rfl rfl rfl)
    · exact h
  | stream u =>
    simp only [Bodies.bodyInit]
    split
    · exact h.still (s.still_push kind _)
    · exact h
  | iterable => exact @Piped.newStream _ _ h .iterable (by simp) rfl rfl rfl rfl rfl

theorem lt_of_srcOf {s : Bodies} {u : Nat} {src : StreamSource} (h : s.srcOf u = some src) :
    u < s.streams.length := by
  by_contra hu
  have hnone : s.streams[u]? = none := List.getElem?_eq_none (by omega)
  simp [srcOf, hnone] at h

theorem ne_of_endsOf {s : Bodies} {t : Nat} {x : Nat × Nat × Nat} (h : s.endsOf t = some x) :
    t ≠ s.tees.length := by
  rintro rfl
  simp [endsOf] at h

theorem Piped.out_untaken {s : Bodies} (h : s.Piped) {u : Nat} (hu : s.takenOf u = none) :
    s.out u = [] := by
  simp only [Bodies.out, List.map_eq_nil_iff, List.filter_eq_nil_iff]
  intro x hx hxu
  have htaken := h.taken x hx
  obtain rfl : x.stream = u := by simpa using hxu
  rw [hu] at htaken
  simp at htaken

/-- A new tee of a stream that no one has had. -/
theorem Piped.newTee {s s' : Bodies} (h : s.Piped) {u : Nat} (hu : u < s.streams.length)
    (hfree : s.takenOf u = none)
    (hsrc : ∀ v, s'.srcOf v =
      if v < s.streams.length then s.srcOf v
      else if v = s.streams.length ∨ v = s.streams.length + 1 then
        some (.branch s.tees.length [] false)
      else none)
    (htaken : ∀ v, s'.takenOf v = if u = v then some (.tee s.tees.length) else s.takenOf v)
    (hends : ∀ t, s'.endsOf t =
      if t = s.tees.length then some (u, s.streams.length, s.streams.length + 1)
      else s.endsOf t)
    (hlog : s'.log = s.log) (htasks : s'.tasks = s.tasks) (hnext : s'.nextChunk = s.nextChunk) :
    s'.Piped := by
  have hout : ∀ v, s'.out v = s.out v := by
    intro v
    simp only [out, hlog]
  have hother : ∀ {v : Nat} {c : Consumer}, s.takenOf v = some c → s'.takenOf v = some c := by
    intro v c hv
    rw [htaken, if_neg, hv]
    rintro rfl
    rw [hfree] at hv
    simp at hv
  exact
    { ends := by
        intro t up left right he
        rw [hends] at he
        split at he
        · next ht =>
          subst ht
          simp only [Option.some.injEq, Prod.mk.injEq] at he
          obtain ⟨rfl, rfl, rfl⟩ := he
          refine ⟨hu, Nat.lt_succ_self _, ?_, ⟨[], false, ?_⟩, [], false, ?_⟩
          · rw [htaken, if_pos rfl]
          · rw [hsrc, if_neg (by omega), if_pos (Or.inl rfl)]
          · rw [hsrc, if_neg (by omega), if_pos (Or.inr rfl)]
        · obtain ⟨hul, hlr, hup, ⟨queueL, flagL, hleft⟩, queueR, flagR, hright⟩ := h.ends he
          refine ⟨hul, hlr, hother hup, ⟨queueL, flagL, ?_⟩, queueR, flagR, ?_⟩
          · rw [hsrc, if_pos (lt_of_srcOf hleft), hleft]
          · rw [hsrc, if_pos (lt_of_srcOf hright), hright]
      sides := by
        intro v t queue flag hv
        rw [hsrc] at hv
        split at hv
        · obtain ⟨up, left, right, he, hlr, hrest⟩ := h.sides hv
          refine ⟨up, left, right, ?_, hlr, ?_⟩
          · rw [hends, if_neg (ne_of_endsOf he), he]
          · rw [hout, hout]
            exact hrest
        · next hvlen =>
          split at hv
          · next hside =>
            simp only [Option.some.injEq, StreamSource.branch.injEq] at hv
            obtain ⟨rfl, rfl, rfl⟩ := hv
            have hnone : s.takenOf v = none := by
              cases hv : s.takenOf v with
              | none => rfl
              | some c => exact absurd (lt_of_takenOf hv) hvlen
            refine ⟨u, _, _, ?_, hside, ?_⟩
            · rw [hends, if_pos rfl]
            · rw [hout, hout, h.out_untaken hfree, h.out_untaken hnone]
              exact ⟨List.Sublist.refl _, fun _ => rfl⟩
          · simp at hv
      teed := by
        intro v t hv
        rw [htaken] at hv
        split at hv
        · next huv =>
          subst huv
          obtain rfl := Consumer.tee.inj (Option.some.inj hv)
          exact ⟨_, _, by rw [hends, if_pos rfl]⟩
        · obtain ⟨left, right, he⟩ := h.teed hv
          exact ⟨left, right, by rw [hends, if_neg (ne_of_endsOf he), he]⟩
      taken := by
        intro x hx
        rw [hlog] at hx
        exact hother (h.taken x hx)
      waiting := by
        intro task htask
        rw [htasks] at htask
        exact hother (h.waiting task htask)
      numbered := by simpa only [hlog, hnext] using h.numbered
      once := by simpa only [hlog] using h.once }

theorem Piped.teeBody {s : Bodies} (h : s.Piped) (i : Nat) (inst : Instance) {u : Nat}
    (hfree : s.takenOf u = none) : (s.teeBody i inst u).Piped := by
  unfold Bodies.teeBody
  split
  · next hu =>
    refine h.newTee hu hfree ?_ ?_ ?_ rfl rfl rfl
    · intro v
      simp only [srcOf, push, List.getElem?_append, List.length_modify, List.getElem?_modify]
      split
      · cases s.streams[v]? with
        | none => rfl
        | some st => by_cases huv : u = v <;> simp [huv]
      · next hv =>
        obtain ⟨n, hn⟩ : ∃ n, v = s.streams.length + n := ⟨v - s.streams.length, by omega⟩
        subst hn
        rw [Nat.add_sub_cancel_left]
        cases n with
        | zero => simp [BodyStream.fresh]
        | succ n =>
          cases n with
          | zero => simp [BodyStream.fresh]
          | succ n => simp
    · intro v
      simp only [takenOf, push, List.getElem?_append, List.length_modify, List.getElem?_modify]
      split
      · next hv =>
        rw [List.getElem?_eq_getElem hv]
        by_cases huv : u = v <;> simp [huv]
      · next hv =>
        rw [if_neg (by omega), List.getElem?_eq_none (l := s.streams) (by omega)]
        obtain ⟨n, hn⟩ : ∃ n, v = s.streams.length + n := ⟨v - s.streams.length, by omega⟩
        subst hn
        rw [Nat.add_sub_cancel_left]
        cases n with
        | zero => rfl
        | succ n =>
          cases n with
          | zero => rfl
          | succ n => rfl
    · intro t
      simp only [endsOf, push, List.getElem?_append]
      split
      · rw [if_neg (by omega)]
      · next ht =>
        split
        · next heq =>
          subst heq
          simp [Tee.fresh]
        · next hne =>
          rw [List.getElem?_eq_none (l := s.tees) (by omega)]
          obtain ⟨n, hn⟩ : ∃ n, t = s.tees.length + (n + 1) :=
            ⟨t - s.tees.length - 1, by omega⟩
          subst hn
          rw [Nat.add_sub_cancel_left]
          simp
  · exact h

theorem still_accept (s : Bodies) (inst : Instance) : s.Still (s.accept inst) :=
  .of_streams rfl rfl rfl rfl rfl

theorem Piped.clone {s : Bodies} (h : s.Piped) (i : Nat) {inst : Instance}
    (hfree : inst.used = false → ∀ u ∈ inst.body.streamOf, s.takenOf u = none) :
    (s.clone i inst).Piped := by
  unfold Bodies.clone
  split
  · exact h
  · next hused =>
    cases hbody : inst.body with
    | stream u =>
      have hu := hfree (by simpa using hused) u (by rw [hbody]; rfl)
      exact (h.still (s.still_accept inst)).teeBody i inst hu
    | _ => exact h.still (.of_streams rfl rfl rfl rfl rfl)

theorem Piped.consume {s : Bodies} (h : s.Piped) (i : Nat) {inst : Instance} (how : Helper)
    (hfree : s.refuses inst = false → ∀ u ∈ inst.body.streamOf, s.doneOf u = false →
      s.takenOf u = none) : (s.consume i inst how).Piped := by
  unfold Bodies.consume
  split
  · exact h
  · next hused =>
    cases hbody : inst.body with
    | null =>
      refine h.still (Still.trans ?_ (still_result _ how _))
      exact .of_streams rfl rfl rfl rfl rfl
    | text id value =>
      refine h.still (Still.trans ?_ (still_result _ how _))
      exact .of_streams rfl rfl rfl rfl rfl
    | buffer id b =>
      cases how with
      | _ => exact h.still (.of_streams rfl rfl rfl rfl rfl)
    | stream u =>
      simp only
      split
      · exact h.still (.of_streams rfl rfl rfl rfl rfl)
      · next hlocked =>
        have hset := still_setStream
          { s.accept inst with
            instances := s.instances.set i { inst with used := true, body := .null } } u
          (f := fun st => { st with locked := true }) (fun _ => rfl) fun _ => rfl
        have hstill : s.Still ({ s.accept inst with
            instances := s.instances.set i { inst with used := true, body := .null } }.setStream u
              fun st => { st with locked := true }) := by
          refine Still.trans ?_ hset
          exact .of_streams rfl rfl rfl rfl rfl
        refine (h.still hstill).readOn ?_ (by simp)
        intro hdone
        refine Or.inl ((hstill.taken u).trans (hfree ?_ u (by rw [hbody]; rfl) ?_))
        · simpa [refuses, hbody, hused] using hlocked
        · simpa [doneOf, setStream, accept, List.getElem?_modify, Function.comp_def] using hdone

/-- One step gives each chunk to the one consumer of its stream. -/
theorem piped_step (s : Bodies) (op : BodyOp) (h : s.Piped) (hop : s.OneConsumer op) :
    (s.step op).Piped := by
  cases op with
  | newBuffer bytes => exact h.still (.of_streams rfl rfl rfl rfl rfl)
  | hydrate kind => exact @Piped.newStream _ _ h .host (by simp) rfl rfl rfl rfl rfl
  | response nullBodyStatus arg =>
    simp only [step, response]
    split
    · exact h
    · exact h.bodyInit .response arg
  | request input method arg =>
    simp only [step, request]
    split
    · exact h
    · split
      · exact h.still (s.still_push _ _)
      · split
        · exact h
        · exact h.bodyInit _ arg
  | clone i =>
    simp only [step]
    split
    · exact h
    · next inst hi => exact h.clone i (hop inst hi)
  | consume i how =>
    simp only [step]
    split
    · exact h
    · next inst hi => exact h.consume i how (hop inst hi)
  | getReader u => exact h.still (s.still_setStream u (fun _ => rfl) fun _ => rfl)
  | releaseLock u => exact h.still (s.still_setStream u (fun _ => rfl) fun _ => rfl)
  | read u => exact h.readOn hop (by simp)
  | readerCancel u => exact h.cancel u
  | streamCancel u =>
    simp only [step]
    split
    · exact h
    · exact h.cancel u
  | answer k a =>
    simp only [step]
    split
    · exact h
    · next task hk => exact h.answer hk a
  | resume k =>
    simp only [step]
    split
    · exact h
    · next task hk => exact h.resume hk

theorem new_piped : new.Piped where
  ends := by simp [new, endsOf]
  sides := by simp [new, srcOf]
  teed := by simp [new, takenOf]
  taken := by simp [new]
  waiting := by simp [new]
  numbered := by simp [new]
  once := by simp [new]

end Bodies

end OneShot

end Iso4
