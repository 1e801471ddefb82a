/-
Who a body goes to (`crates/core/src/webtypes.js`).

* `OneConsumer` — a step that does not give a body to a second consumer: a stream goes to the
  readers of `.body`, to one helper or to one `clone`, and a whole body is not inherited;
* `Whole` — a body that is delivered whole is delivered once, and a copy of it is the same;
* `whole_step` — one step keeps it.
-/
import Iso4.BodyUse
import Iso4.Lib.Tally
import Mathlib.Data.List.Nodup

namespace Iso4

open Execution Tally

namespace OneShot

/-- The number of a body that is delivered whole. -/
def Body.ids : Body → List Nat
  | .text id _ => [id]
  | .buffer id _ => [id]
  | .null | .stream _ => []

def Body.streamOf : Body → Option Nat
  | .stream u => some u
  | _ => none

namespace Bodies

/-- Who a stream was given to. -/
def takenOf (s : Bodies) (u : Nat) : Option Consumer := s.streams[u]?.bind BodyStream.takenBy

def doneOf (s : Bodies) (u : Nat) : Bool := (s.streams[u]?.map BodyStream.done).getD true

/-- The readers of a stream are not used once a helper or `clone` has it, these do not take one
that anyone has, and no instance inherits a body that is delivered whole. -/
def OneConsumer (s : Bodies) : BodyOp → Prop
  | .request input method arg =>
    arg = .none → ∀ bodiless ∈ methodOf (s.inputOf input) method,
      (inheritedBody (s.inputOf input) bodiless).ids = []
  | .read u => s.doneOf u = false → s.takenOf u = none ∨ s.takenOf u = some .reader
  | .consume i _ =>
    ∀ inst ∈ s.instances[i]?, s.refuses inst = false →
      ∀ u ∈ inst.body.streamOf, s.doneOf u = false → s.takenOf u = none
  | .clone i =>
    ∀ inst ∈ s.instances[i]?, inst.used = false → ∀ u ∈ inst.body.streamOf, s.takenOf u = none
  | _ => True

/-! ### Bodies that are whole -/

/-- The two bodies of a `clone` have the same bytes. -/
def SameBytes (s : Bodies) : Body → Body → Prop
  | .text _ v, .text _ w => v = w
  | .buffer _ b, .buffer _ c => b < s.heap.length ∧ c < s.heap.length ∧ s.read b = s.read c
  | _, _ => False

def Instance.ids (inst : Instance) : List Nat := inst.body.ids

/-- A whole body is in one instance, or delivered, and its number is one that was given out. -/
structure Whole (s : Bodies) : Prop where
  once : ∀ id, tally Instance.ids s.instances id + s.wholes.count id ≤ 1
  numbered : ∀ id, s.nextBody ≤ id → tally Instance.ids s.instances id + s.wholes.count id = 0
  inHeap : ∀ inst ∈ s.instances, ∀ id b, inst.body = .buffer id b → b < s.heap.length
  twins : ∀ x ∈ s.twins, s.SameBytes x.1 x.2

theorem read_of_heap {s s' : Bodies} (h : s.heap <+: s'.heap) {b : Nat}
    (hb : b < s.heap.length) : s'.read b = s.read b := by
  obtain ⟨l, hl⟩ := h
  simp only [read, ← hl, List.getD_eq_getElem?_getD, List.getElem?_append_left hb]

theorem SameBytes.mono {s s' : Bodies} (h : s.heap <+: s'.heap) {x y : Body}
    (hxy : s.SameBytes x y) : s'.SameBytes x y := by
  cases x with
  | buffer id b =>
    cases y with
    | buffer id' c =>
      obtain ⟨hb, hc, hread⟩ := hxy
      refine ⟨Nat.lt_of_lt_of_le hb h.length_le, Nat.lt_of_lt_of_le hc h.length_le, ?_⟩
      rw [read_of_heap h hb, read_of_heap h hc, hread]
    | _ => exact hxy
  | text id v => cases y <;> exact hxy
  | _ => exact hxy

theorem new_whole : new.Whole where
  once := by simp [new]
  numbered := by simp [new]
  inHeap := by simp [new]
  twins := by simp [new]

theorem Whole.beneath {s s' : Bodies} (h : s.Whole) (hs : s.Beneath s') : s'.Whole where
  once := by simpa only [hs.instances, hs.wholes] using h.once
  numbered := by simpa only [hs.instances, hs.wholes, hs.nextBody] using h.numbered
  inHeap := by
    intro inst hinst id b hb
    rw [hs.instances] at hinst
    exact Nat.lt_of_lt_of_le (h.inHeap inst hinst id b hb) hs.heap.length_le
  twins := by
    intro x hx
    rw [hs.twins] at hx
    exact (h.twins x hx).mono hs.heap

/-- A new instance whose body is a stream, or nothing. -/
theorem Whole.push {s : Bodies} (h : s.Whole) (kind : Kind) {body : Body}
    (hbody : body.ids = []) : (s.push kind body).Whole where
  once := by
    intro id
    have hid := h.once id
    simp only [Bodies.push, tally_append, tally_cons, tally_nil, Instance.ids, hbody]
    simpa using hid
  numbered := by
    intro id hle
    have hid := h.numbered id hle
    simp only [Bodies.push, tally_append, tally_cons, tally_nil, Instance.ids, hbody]
    simpa using hid
  inHeap := by
    intro inst hinst id b hb
    obtain hinst | hinst := List.mem_append.mp hinst
    · exact h.inHeap inst hinst id b hb
    · obtain rfl := List.mem_singleton.mp hinst
      obtain rfl : body = .buffer id b := hb
      simp [Body.ids] at hbody
  twins := h.twins

/-- A new instance whose body is delivered whole. -/
theorem Whole.pushNew {s : Bodies} (h : s.Whole) (kind : Kind) {body : Body}
    (hbody : body.ids = [s.nextBody])
    (hheap : ∀ id b, body = .buffer id b → b < s.heap.length) :
    ({ s with nextBody := s.nextBody + 1 }.push kind body).Whole where
  once := by
    intro id
    have hid := h.once id
    have hfresh := h.numbered id
    simp only [Bodies.push, tally_append, tally_cons, tally_nil, Instance.ids, hbody,
      List.count_singleton]
    by_cases hlt : s.nextBody = id
    · have := hfresh (by omega)
      simp [hlt]
      omega
    · simp [hlt]
      exact hid
  numbered := by
    intro id hle
    have hle : s.nextBody + 1 ≤ id := hle
    have hid := h.numbered id (by omega)
    have hne : s.nextBody ≠ id := by omega
    simp only [Bodies.push, tally_append, tally_cons, tally_nil, Instance.ids, hbody,
      List.count_singleton]
    simpa [hne] using hid
  inHeap := by
    intro inst hinst id b hb
    obtain hinst | hinst := List.mem_append.mp hinst
    · exact h.inHeap inst hinst id b hb
    · obtain rfl := List.mem_singleton.mp hinst
      exact hheap id b hb
  twins := h.twins

theorem Whole.bodyInit {s : Bodies} (h : s.Whole) (kind : Kind) (arg : BodyArg) :
    (s.bodyInit kind arg).Whole := by
  cases arg with
  | none => exact h.push kind rfl
  | text value => exact h.pushNew kind rfl (by simp)
  | buffer b =>
    simp only [Bodies.bodyInit]
    split
    · refine (h.beneath (s.beneath_alloc (s.read b))).pushNew kind rfl ?_
      intro id c hc
      obtain ⟨-, rfl⟩ := Body.buffer.inj hc
      simp [alloc]
    · exact h
  | stream u =>
    simp only [Bodies.bodyInit]
    split
    · exact h.push kind rfl
    · exact h
  | iterable =>
    exact Whole.push (s := { s with streams := s.streams ++ [BodyStream.fresh .iterable] })
      ⟨h.once, h.numbered, h.inHeap, h.twins⟩ kind rfl

/-- The body that a helper takes is in the instance no more; a whole one is now delivered. -/
theorem Whole.take {s : Bodies} (h : s.Whole) {i : Nat} {inst : Instance}
    (hi : s.instances[i]? = some inst) :
    ({ s with
      instances := s.instances.set i { inst with used := true, body := .null }
      wholes := s.wholes ++ inst.body.ids }).Whole := by
  have hset : ∀ id,
      tally Instance.ids (s.instances.set i { inst with used := true, body := .null }) id +
        inst.body.ids.count id = tally Instance.ids s.instances id := by
    intro id
    have := tally_set (f := Instance.ids) hi { inst with used := true, body := .null } id
    simpa [Instance.ids, Body.ids] using this
  exact
    { once := by
        intro id
        have hid := h.once id
        have := hset id
        simp only [List.count_append]
        omega
      numbered := by
        intro id hle
        have hid := h.numbered id hle
        have := hset id
        simp only [List.count_append]
        omega
      inHeap := by
        intro other hother id b hb
        obtain hother | rfl := List.mem_or_eq_of_mem_set hother
        · exact h.inHeap other hother id b hb
        · simp at hb
      twins := h.twins }

/-- What is recorded of a call is not part of it. -/
theorem Whole.accept {s : Bodies} (h : s.Whole) (inst : Instance) : (s.accept inst).Whole :=
  ⟨h.once, h.numbered, h.inHeap, h.twins⟩

theorem Whole.consume {s : Bodies} (h : s.Whole) {i : Nat} {inst : Instance}
    (hi : s.instances[i]? = some inst) (how : Helper) : (s.consume i inst how).Whole := by
  have htake := (h.accept inst).take hi
  unfold Bodies.consume
  split
  · exact h
  · cases hbody : inst.body with
    | null =>
      simp only [hbody, Body.ids, List.append_nil] at htake
      exact htake.beneath (beneath_result _ how _)
    | text id value =>
      simp only [hbody, Body.ids] at htake
      exact htake.beneath (beneath_result _ how _)
    | buffer id b =>
      simp only [hbody, Body.ids] at htake
      cases how with
      | bytes => exact ⟨htake.once, htake.numbered, htake.inHeap, htake.twins⟩
      | arrayBuffer => exact htake.beneath (beneath_result _ .arrayBuffer _)
      | text => exact htake
      | json => exact htake
    | stream u =>
      simp only [hbody, Body.ids, List.append_nil] at htake
      simp only
      split
      · exact ⟨htake.once, htake.numbered, htake.inHeap, htake.twins⟩
      · exact htake.beneath ((beneath_setStream _ u _).trans (beneath_readOn _ u _))

theorem Whole.twin {s : Bodies} (h : s.Whole) {x y : Body} (hxy : s.SameBytes x y) :
    ({ s with twins := s.twins ++ [(x, y)] }).Whole where
  once := h.once
  numbered := h.numbered
  inHeap := h.inHeap
  twins := by
    intro z hz
    obtain hz | hz := List.mem_append.mp hz
    · exact h.twins z hz
    · obtain rfl := List.mem_singleton.mp hz
      exact hxy

/-- A body that is a stream takes the place of another. -/
theorem Whole.setStreamBody {s : Bodies} (h : s.Whole) {i : Nat} {inst : Instance}
    (hi : s.instances[i]? = some inst) {u : Nat} (hbody : inst.body = .stream u) (v : Nat) :
    ({ s with instances := s.instances.set i { inst with body := .stream v } }).Whole := by
  have hset : ∀ id, tally Instance.ids (s.instances.set i { inst with body := .stream v }) id =
      tally Instance.ids s.instances id := by
    intro id
    have := tally_set (f := Instance.ids) hi { inst with body := .stream v } id
    simpa [Instance.ids, Body.ids, hbody] using this
  exact
    { once := by simpa only [hset] using h.once
      numbered := by simpa only [hset] using h.numbered
      inHeap := by
        intro other hother id b hb
        obtain hother | rfl := List.mem_or_eq_of_mem_set hother
        · exact h.inHeap other hother id b hb
        · simp at hb
      twins := h.twins }

theorem Whole.clone {s : Bodies} (h : s.Whole) {i : Nat} {inst : Instance}
    (hi : s.instances[i]? = some inst) : (s.clone i inst).Whole := by
  unfold Bodies.clone
  split
  · exact h
  · cases hbody : inst.body with
    | null => exact (h.accept inst).push inst.kind rfl
    | text id value =>
      exact ((h.accept inst).twin (x := .text id value) (y := .text s.nextBody value) rfl).pushNew
        inst.kind rfl (by simp)
    | buffer id b =>
      have hb : b < s.heap.length := h.inHeap inst (List.mem_of_getElem? hi) id b hbody
      have halloc := (h.accept inst).beneath (beneath_alloc _ (s.read b))
      have hsame : ((s.accept inst).alloc (s.read b)).SameBytes (.buffer id b)
          (.buffer s.nextBody s.heap.length) := by
        refine ⟨?_, ?_, ?_⟩
        · simp only [alloc, Bodies.accept, List.length_append]
          omega
        · simp [alloc, Bodies.accept]
        · simp [Bodies.read, alloc, Bodies.accept, List.getD_eq_getElem?_getD,
            List.getElem?_append_left hb]
      refine (halloc.twin hsame).pushNew inst.kind rfl ?_
      intro id' c hc
      obtain ⟨-, rfl⟩ := Body.buffer.inj hc
      simp [alloc, Bodies.accept]
    | stream u =>
      simp only [teeBody]
      split
      · have hset := (h.accept inst).setStreamBody hi hbody s.streams.length
        refine Whole.push (s := { (s.accept inst) with
          tees := s.tees ++ [Tee.fresh u s.streams.length]
          streams := _
          instances := _ }) ?_ inst.kind rfl
        exact ⟨hset.once, hset.numbered, hset.inHeap, hset.twins⟩
      · exact h.accept inst

/-- One step delivers no whole body again, unless an instance has inherited one. -/
theorem whole_step (s : Bodies) (op : BodyOp) (h : s.Whole) (hop : s.OneConsumer op) :
    (s.step op).Whole := by
  cases hstreams : onStreams op with
  | true => exact h.beneath (s.beneath_step hstreams)
  | false =>
    cases op with
    | hydrate kind =>
      exact Whole.push (s := { s with streams := s.streams ++ [BodyStream.fresh .host] })
        ⟨h.once, h.numbered, h.inHeap, h.twins⟩ kind rfl
    | response nullBodyStatus arg =>
      simp only [step, response]
      split
      · exact h
      · exact h.bodyInit .response arg
    | request input method arg =>
      simp only [step, request]
      split
      · exact h
      · next bodiless hmethod =>
        split
        · next harg => exact h.push _ (hop harg bodiless hmethod)
        · split
          · exact h
          · exact h.bodyInit _ arg
    | clone i =>
      simp only [step]
      split
      · exact h
      · next inst hi => exact h.clone hi
    | consume i how =>
      simp only [step]
      split
      · exact h
      · next inst hi => exact h.consume hi how
    | _ => simp [onStreams] at hstreams

end Bodies

end OneShot

end Iso4
