/-
The two branches of `teeBodyStream` (`crates/core/src/webtypes.js`), between a source and two
consumers.

Which promise goes on next is an input, so a run is any interleaving.  A call of the source's
`pull` can run guest code before it returns, and that code can use the branches: a call that has
not returned is on a stack.  A source ends, or fails, when the tee hears of it.

* `TeeStreams.turn` — one round of a branch's `pull`;
* `TeeStreams.Split` — what a split of a stream should be, of one state;
* `TeeStreams.Harmless` — the source does not throw `null` and does not read the branches from its
  own `pull`, and no consumer writes to a chunk that the other branch has yet to deliver;
* `TeeStreams.split_of_harmless` — it is a split in all runs of harmless steps;
* `TeeStreams.split_fails` — and with each of the three steps it is not.
-/
import Iso4.Lib.Execution
import Iso4.Lib.Wire
import Iso4.WebBodies
import Mathlib.Logic.Function.Basic
import Mathlib.Tactic.Common

namespace Iso4

open Execution

namespace TeeStreams

open Function (update)
open OneShot (Data)

/-! ### The tee -/

inductive Side where
  | left | right
  deriving DecidableEq

def Side.other : Side → Side
  | .left => .right
  | .right => .left

/-- What a promise is rejected with. -/
inductive Thrown where
  | null
  | value (n : Nat)
  deriving DecidableEq

/-- How a stream is over. -/
inductive Ending where
  | eof
  | threw (e : Thrown)
  deriving DecidableEq

/-- A chunk given to a consumer, with the bytes it has then, and those it would have if the other
consumer never wrote (neither is in the source). -/
structure Delivery where
  chunk : Data
  bytes : List UInt8
  alone : List UInt8
  deriving DecidableEq

/-- What a branch's `pull` settles to. -/
inductive Outcome where
  | chunk (d : Delivery)
  | last (e : Ending)
  deriving DecidableEq

/-- `queues[i]` and `cancelledFlags[i]`.  The other fields are not in the source: the outcomes of
the branch's pulls, the buffers its consumer has, the memory as it would be if the other consumer
never wrote, and whether the branch was cancelled before the clean end of the source. -/
structure Branch where
  queue : List Data
  cancelled : Bool
  log : List Outcome
  held : List Nat
  alone : Nat → List UInt8
  early : Bool

/-- The closures' variables, and the pulls under way: `calls` are shared pulls that are calling the
source, the innermost first, each with the branch that asked; `pulling` wait for the source, and
`waiting` are pulls of the branches that wait for a shared one.  The last four fields record. -/
structure Tee where
  branches : Side → Branch
  done : Bool
  failure : Thrown
  inFlight : Option Nat
  calls : List (Side × Nat)
  pulling : List Nat
  nextPull : Nat
  waiting : List (Side × Nat)
  memory : Nat → List UInt8
  /-- The chunks the source gave. -/
  arrived : List Data
  /-- How the source first was over. -/
  ended : Option Ending
  /-- It was pulled after that. -/
  late : Bool
  sourceCancelled : Bool

def Branch.new (memory : Nat → List UInt8) : Branch where
  queue := []
  cancelled := false
  log := []
  held := []
  alone := memory
  early := false

def new (memory : Nat → List UInt8) : Tee where
  branches := fun _ => Branch.new memory
  done := false
  failure := .null
  inFlight := none
  calls := []
  pulling := []
  nextPull := 0
  waiting := []
  memory := memory
  arrived := []
  ended := none
  late := false
  sourceCancelled := false

/-- The bytes of a chunk that is an array. -/
def contents (memory : Nat → List UInt8) : Data → List UInt8
  | .bytes b => memory b
  | .text _ => []

/-- A queue takes the chunk unless its branch is cancelled.  What the source gives is what the
array holds now. -/
def Branch.take (memory : Nat → List UInt8) (c : Data) (b : Branch) : Branch :=
  { b with
    queue := if b.cancelled then b.queue else b.queue ++ [c]
    alone := fun x => if .bytes x = c then memory x else b.alone x }

/-- What a pull of the source settles to. -/
inductive Answer where
  | chunk (c : Data)
  | eof
  | threw (e : Thrown)
  deriving DecidableEq

/-- A cancelled branch. -/
def Branch.drop (ended : Option Ending) (b : Branch) : Branch :=
  { b with queue := [], cancelled := true, early := b.early || ended ≠ some .eof }

/-- A write that the branch's own consumer could have made. -/
def Branch.wrote (x : Nat) (bytes : List UInt8) (b : Branch) : Branch :=
  { b with alone := update b.alone x bytes }

namespace Tee

def setBranch (s : Tee) (side : Side) (f : Branch → Branch) : Tee :=
  { s with branches := update s.branches side (f (s.branches side)) }

def record (s : Tee) (side : Side) (o : Outcome) : Tee :=
  s.setBranch side fun b => { b with log := b.log ++ [o] }

/-- `queues[i].shift()`. -/
def deliver (s : Tee) (side : Side) (c : Data) (rest : List Data) : Tee :=
  s.setBranch side fun b =>
    { b with
      queue := rest
      log := b.log ++ [.chunk ⟨c, contents s.memory c, contents b.alone c⟩]
      held := b.held ++ c.buffers }

/-- `pullShared`, up to the call of `stream._pull()`. -/
def pullShared (s : Tee) (side : Side) : Tee :=
  match s.inFlight with
  | some id => { s with waiting := s.waiting ++ [(side, id)] }
  | none =>
    { s with
      calls := (side, s.nextPull) :: s.calls
      nextPull := s.nextPull + 1
      late := s.late || s.ended.isSome }

/-- A round of the loop in a branch's `pull`. -/
def turn (s : Tee) (side : Side) : Tee :=
  match (s.branches side).queue with
  | c :: rest => s.deliver side c rest
  | [] =>
    if s.failure ≠ .null then s.record side (.last (.threw s.failure))
    else if s.done || (s.branches side).cancelled then s.record side (.last .eof)
    else s.pullShared side

/-- `stream._pull()` returns its promise, which the shared pull awaits. -/
def returned (s : Tee) : Tee :=
  match s.calls with
  | [] => s
  | (side, id) :: calls =>
    { s with
      calls := calls
      pulling := id :: s.pulling
      inFlight := some id
      waiting := s.waiting ++ [(side, id)] }

/-- A shared pull goes on after the source's answer. -/
def settle (s : Tee) (id : Nat) (a : Answer) : Tee :=
  let s := { s with pulling := s.pulling.erase id, inFlight := none }
  match a with
  | .chunk c =>
    { s with
      branches := fun side => Branch.take s.memory c (s.branches side)
      arrived := s.arrived ++ [c] }
  | .eof => { s with done := true, ended := s.ended.or (some .eof) }
  | .threw e => { s with failure := e, ended := s.ended.or (some (.threw e)) }

/-- A branch's `cancel`. -/
def cancel (s : Tee) (side : Side) : Tee :=
  let s := s.setBranch side (Branch.drop s.ended)
  if (s.branches .left).cancelled && (s.branches .right).cancelled && !s.done then
    { s with sourceCancelled := true }
  else s

/-- A consumer writes to an array it was given. -/
def write (s : Tee) (side : Side) (b : Nat) (bytes : List UInt8) : Tee :=
  if b ∈ (s.branches side).held then
    { s.setBranch side (Branch.wrote b bytes) with memory := update s.memory b bytes }
  else s

/-- The source, or other code of the guest, writes to an array. -/
def edit (s : Tee) (b : Nat) (bytes : List UInt8) : Tee :=
  { s with
    memory := update s.memory b bytes
    branches := fun side => Branch.wrote b bytes (s.branches side) }

end Tee

inductive TeeOp where
  | pull (side : Side)
  | returned
  | settle (id : Nat) (a : Answer)
  | resume (k : Nat)
  | cancel (side : Side)
  | write (side : Side) (b : Nat) (bytes : List UInt8)
  | edit (b : Nat) (bytes : List UInt8)
  deriving DecidableEq

/-- No promise goes on while a call of the source has not returned. -/
def Tee.step (s : Tee) : TeeOp → Tee
  | .pull side => s.turn side
  | .returned => s.returned
  | .settle id a => if s.calls = [] ∧ id ∈ s.pulling then s.settle id a else s
  | .resume k =>
    match s.waiting[k]? with
    | none => s
    | some (side, id) =>
      if s.calls = [] ∧ id ∉ s.pulling then { s with waiting := s.waiting.eraseIdx k }.turn side
      else s
  | .cancel side => s.cancel side
  | .write side b bytes => s.write side b bytes
  | .edit b bytes => s.edit b bytes

/-! ### What a split is -/

/-- Of a branch: its outcomes are chunks, with the queue all that the source gave, and then the way
in which the source was over. -/
def Branch.Delivers (arrived : List Data) (ended : Option Ending) (b : Branch) : Prop :=
  ∃ (given : List Delivery) (tail : List Ending),
    b.log = given.map .chunk ++ tail.map .last ∧
      given.map Delivery.chunk ++ b.queue = arrived ∧ ∀ e ∈ tail, b.queue = [] ∧ ended = some e

structure Split (s : Tee) : Prop where
  delivers : ∀ side, (s.branches side).cancelled = false →
    (s.branches side).Delivers s.arrived s.ended
  /-- When all is delivered, a pull has the end of the source. -/
  ends : ∀ side e, (s.branches side).queue = [] → s.ended = some e →
    s.turn side = s.record side (.last e)
  oneInFlight : s.calls.length + s.pulling.length ≤ 1
  notLate : s.late = false
  cancels : s.sourceCancelled = true ↔ ∀ side, (s.branches side).early = true
  untouched : ∀ side d, .chunk d ∈ (s.branches side).log → d.bytes = d.alone

/-- A pull of this branch would pull the source. -/
def Asks (s : Tee) (side : Side) : Prop :=
  (s.branches side).queue = [] ∧ s.failure = .null ∧ s.done = false ∧
    (s.branches side).cancelled = false ∧ s.inFlight = none

def Harmless (s : Tee) : TeeOp → Prop
  | .pull side => s.calls = [] ∨ ¬ Asks s side
  | .settle _ (.threw e) => e ≠ .null
  | .write side b _ => b ∈ (s.branches side).held → .bytes b ∉ (s.branches side.other).queue
  | _ => True

/-! ### The invariant -/

/-- A branch of a source that gave `arrived`. -/
structure Branch.Sound (arrived : List Data) (ended : Option Ending) (memory : Nat → List UInt8)
    (b : Branch) : Prop where
  delivers : b.cancelled = false → b.Delivers arrived ended
  cancelled : b.early = true → b.cancelled = true
  early : b.cancelled = true → ended ≠ some .eof → b.early = true
  /-- What is yet to be delivered, nobody but the branch's own consumer has written to. -/
  queued : ∀ x, .bytes x ∈ b.queue → memory x = b.alone x
  untouched : ∀ d, .chunk d ∈ b.log → d.bytes = d.alone

/-- What the closures know of the source's end. -/
def Tee.ending (s : Tee) : Option Ending :=
  if s.failure ≠ .null then some (.threw s.failure) else if s.done then some .eof else none

structure Inv (s : Tee) : Prop where
  branch : ∀ side, (s.branches side).Sound s.arrived s.ended s.memory
  single : s.calls.length + s.pulling.length ≤ 1
  flight : ∀ id, s.inFlight = some id ↔ id ∈ s.pulling
  known : s.ended = s.ending
  oneEnd : s.done = true → s.failure = .null
  quiet : s.ended ≠ none → s.calls = [] ∧ s.pulling = []
  notLate : s.late = false
  cancels : s.sourceCancelled = true ↔ ∀ side, (s.branches side).early = true

theorem inv_new (memory : Nat → List UInt8) : Inv (new memory) where
  branch side :=
    { delivers := fun _ => ⟨[], [], rfl, rfl, fun e he => absurd he List.not_mem_nil⟩
      cancelled := fun h => by cases h
      early := fun h => by cases h
      queued := fun x hx => absurd hx List.not_mem_nil
      untouched := fun d hd => absurd hd List.not_mem_nil }
  single := Nat.zero_le 1
  flight id := by simp [new]
  known := rfl
  oneEnd h := by cases h
  quiet h := absurd rfl h
  notLate := rfl
  cancels := by
    constructor
    · intro h
      cases h
    · intro h
      cases h .left

section Steps

variable {s : Tee} {side : Side}

/-- A branch that has delivered all has the end of the source. -/
theorem turn_ends (h : Inv s) {e : Ending} (hqueue : (s.branches side).queue = [])
    (hover : s.ended = some e) : s.turn side = s.record side (.last e) := by
  have hending : s.ending = some e := by rw [← h.known, hover]
  unfold Tee.ending at hending
  unfold Tee.turn
  rw [hqueue]
  dsimp only
  split
  · next hfailure =>
    rw [if_pos hfailure] at hending
    rw [Option.some.inj hending]
  · next hfailure =>
    rw [if_neg hfailure] at hending
    cases hdone : s.done with
    | true =>
      rw [hdone, if_pos rfl] at hending
      rw [← Option.some.inj hending]
      rfl
    | false =>
      rw [hdone, if_neg (by simp)] at hending
      cases hending

theorem Inv.split (h : Inv s) : Split s where
  delivers side := (h.branch side).delivers
  ends _ _ hqueue hover := turn_ends h hqueue hover
  oneInFlight := h.single
  notLate := h.notLate
  cancels := h.cancels
  untouched side := (h.branch side).untouched

/-- One branch moves on. -/
theorem Inv.setBranch (h : Inv s) {f : Branch → Branch}
    (hsound : (f (s.branches side)).Sound s.arrived s.ended s.memory)
    (hearly : (f (s.branches side)).early = (s.branches side).early) :
    Inv (s.setBranch side f) := by
  have hbranch : ∀ i, ((s.setBranch side f).branches i).Sound s.arrived s.ended s.memory ∧
      ((s.setBranch side f).branches i).early = (s.branches i).early := by
    intro i
    by_cases hi : i = side
    · subst hi
      rw [show (s.setBranch i f).branches i = f (s.branches i) from Function.update_self ..]
      exact ⟨hsound, hearly⟩
    · rw [show (s.setBranch side f).branches i = s.branches i from Function.update_of_ne hi ..]
      exact ⟨h.branch i, rfl⟩
  refine ⟨fun i => (hbranch i).1, h.single, h.flight, h.known, h.oneEnd, h.quiet, h.notLate, ?_⟩
  rw [show (s.setBranch side f).sourceCancelled = s.sourceCancelled from rfl, h.cancels]
  exact forall_congr' fun i => by rw [(hbranch i).2]

/-- A branch delivers the head of its queue: nobody else has written to it. -/
theorem Inv.deliver (h : Inv s) {c : Data} {rest : List Data}
    (hqueue : (s.branches side).queue = c :: rest) : Inv (s.deliver side c rest) := by
  have hb := h.branch side
  have hcontents : contents s.memory c = contents (s.branches side).alone c := by
    cases c with
    | text value => rfl
    | bytes x => exact hb.queued x (by rw [hqueue]; exact List.mem_cons_self)
  refine h.setBranch ⟨fun hopen => ?_, hb.cancelled, hb.early, fun x hx => ?_, fun d hd => ?_⟩ rfl
  · obtain ⟨given, tail, hlog, harrived, htail⟩ := hb.delivers hopen
    -- With a chunk in the queue there was no end yet.
    have hnil : tail = [] := by
      cases tail with
      | nil => rfl
      | cons e tail =>
        rw [(htail e List.mem_cons_self).1] at hqueue
        cases hqueue
    subst hnil
    refine ⟨given ++ [⟨c, contents s.memory c, contents (s.branches side).alone c⟩], [], ?_, ?_,
      fun e he => absurd he List.not_mem_nil⟩
    · simp [hlog]
    · rw [← harrived, hqueue]
      simp
  · exact hb.queued x (by rw [hqueue]; exact List.mem_cons_of_mem c hx)
  · obtain hd | hd := List.mem_append.mp hd
    · exact hb.untouched d hd
    · obtain rfl := Outcome.chunk.inj (List.mem_singleton.mp hd)
      exact hcontents

/-- A branch that has delivered all of a source that is over says so. -/
theorem Inv.record (h : Inv s) {e : Ending} (hqueue : (s.branches side).queue = [])
    (hover : s.ended = some e) : Inv (s.record side (.last e)) := by
  have hb := h.branch side
  refine h.setBranch ⟨fun hopen => ?_, hb.cancelled, hb.early, hb.queued, fun d hd => ?_⟩ rfl
  · obtain ⟨given, tail, hlog, harrived, htail⟩ := hb.delivers hopen
    refine ⟨given, tail ++ [e], ?_, harrived, fun x hx => ?_⟩
    · simp [hlog]
    · obtain hx | hx := List.mem_append.mp hx
      · exact htail x hx
      · rw [List.mem_singleton.mp hx]
        exact ⟨hqueue, hover⟩
  · obtain hd | hd := List.mem_append.mp hd
    · exact hb.untouched d hd
    · simp at hd

/-- A branch that was cancelled has `null` of its pulls. -/
theorem Inv.recordCancelled (h : Inv s) (hcancelled : (s.branches side).cancelled = true)
    (e : Ending) : Inv (s.record side (.last e)) := by
  have hb := h.branch side
  refine h.setBranch ⟨fun hopen => ?_, hb.cancelled, hb.early, hb.queued, fun d hd => ?_⟩ rfl
  · rw [show (s.branches side).cancelled = false from hopen] at hcancelled
    cases hcancelled
  · obtain hd | hd := List.mem_append.mp hd
    · exact hb.untouched d hd
    · simp at hd

/-- Nothing is in flight when the variable says so. -/
theorem Inv.pulling_eq_nil (h : Inv s) (hflight : s.inFlight = none) : s.pulling = [] := by
  refine List.eq_nil_iff_forall_not_mem.mpr fun id hid => ?_
  rw [(h.flight id).mpr hid] at hflight
  cases hflight

/-- A shared pull that is under way is joined; a new one begins when no call is under way. -/
theorem Inv.pullShared (h : Inv s) (hover : s.ended = none)
    (hcalls : s.inFlight = none → s.calls = []) : Inv (s.pullShared side) := by
  unfold Tee.pullShared
  split
  · exact ⟨h.branch, h.single, h.flight, h.known, h.oneEnd, h.quiet, h.notLate, h.cancels⟩
  · next hflight =>
    have hpulling := h.pulling_eq_nil hflight
    refine ⟨h.branch, ?_, h.flight, h.known, h.oneEnd, fun hne => absurd hover hne, ?_, h.cancels⟩
    · show ((side, s.nextPull) :: s.calls).length + s.pulling.length ≤ 1
      rw [hcalls hflight, hpulling]
      exact Nat.le_refl 1
    · show (s.late || s.ended.isSome) = false
      rw [h.notLate, hover]
      rfl

theorem Inv.turn (h : Inv s) (hcalls : s.calls = [] ∨ ¬ Asks s side) : Inv (s.turn side) := by
  cases hqueue : (s.branches side).queue with
  | cons c rest =>
    rw [Tee.turn, hqueue]
    exact h.deliver hqueue
  | nil =>
    have hknown := h.known
    rw [Tee.turn, hqueue]
    dsimp only
    unfold Tee.ending at hknown
    split
    · next hfailure =>
      rw [if_pos hfailure] at hknown
      exact h.record hqueue hknown
    · next hfailure =>
      have hfailure : s.failure = .null := by simpa using hfailure
      rw [if_neg (by simp [hfailure])] at hknown
      cases hdone : s.done with
      | true =>
        rw [hdone, if_pos rfl] at hknown
        exact h.record hqueue hknown
      | false =>
        rw [hdone, if_neg (by simp)] at hknown
        cases hcancelled : (s.branches side).cancelled with
        | true => exact h.recordCancelled hcancelled .eof
        | false =>
          refine h.pullShared hknown fun hflight => ?_
          exact hcalls.resolve_right fun hasks => hasks ⟨hqueue, hfailure, hdone, hcancelled, hflight⟩

theorem Inv.returned (h : Inv s) : Inv s.returned := by
  unfold Tee.returned
  cases hcalls : s.calls with
  | nil => exact h
  | cons call calls =>
    have hsingle := h.single
    rw [hcalls, List.length_cons] at hsingle
    have hrest : calls = [] := List.length_eq_zero_iff.mp (by omega)
    have hpulling : s.pulling = [] := List.length_eq_zero_iff.mp (by omega)
    have hover : s.ended = none := by
      by_contra hne
      rw [(h.quiet hne).1] at hcalls
      cases hcalls
    refine ⟨h.branch, ?_, fun id => ?_, h.known, h.oneEnd, fun hne => absurd hover hne, h.notLate,
      h.cancels⟩
    · show calls.length + (call.2 :: s.pulling).length ≤ 1
      rw [hrest, hpulling]
      exact Nat.le_refl 1
    · show some call.2 = some id ↔ id ∈ call.2 :: s.pulling
      rw [hpulling, List.mem_singleton, Option.some.injEq, eq_comm]

/-- Before the end nothing but chunks has come out of a branch. -/
theorem Branch.Sound.chunks {arrived : List Data} {memory : Nat → List UInt8} {b : Branch}
    (h : b.Sound arrived none memory) (hopen : b.cancelled = false) :
    ∃ given : List Delivery, b.log = given.map .chunk ∧
      given.map Delivery.chunk ++ b.queue = arrived := by
  obtain ⟨given, tail, hlog, harrived, htail⟩ := h.delivers hopen
  cases tail with
  | nil => exact ⟨given, by simpa using hlog, harrived⟩
  | cons e tail => cases (htail e List.mem_cons_self).2

/-- Before the end it can come. -/
theorem Branch.Sound.ended {arrived : List Data} {memory : Nat → List UInt8} {b : Branch}
    (h : b.Sound arrived none memory) (e : Ending) : b.Sound arrived (some e) memory where
  delivers hopen := by
    obtain ⟨given, hlog, harrived⟩ := h.chunks hopen
    exact ⟨given, [], by simpa using hlog, harrived, fun x hx => absurd hx List.not_mem_nil⟩
  cancelled := h.cancelled
  early hcancelled _ := h.early hcancelled (by simp)
  queued := h.queued
  untouched := h.untouched

theorem Branch.Sound.take {arrived : List Data} {memory : Nat → List UInt8} {b : Branch}
    (h : b.Sound arrived none memory) (c : Data) :
    (Branch.take memory c b).Sound (arrived ++ [c]) none memory where
  delivers hopen := by
    have hopen : b.cancelled = false := hopen
    obtain ⟨given, hlog, harrived⟩ := h.chunks hopen
    refine ⟨given, [], by simpa [Branch.take] using hlog, ?_, fun x hx => absurd hx List.not_mem_nil⟩
    rw [← harrived, List.append_assoc]
    simp [Branch.take, hopen]
  cancelled := h.cancelled
  early := h.early
  queued x hx := by
    show memory x = if .bytes x = c then memory x else b.alone x
    split
    · rfl
    · next hne =>
      refine h.queued x ?_
      simp only [Branch.take] at hx
      split at hx
      · exact hx
      · exact (List.mem_append.mp hx).resolve_right fun heq => hne (List.mem_singleton.mp heq)
  untouched := h.untouched

/-- The source answers the pull that is in flight. -/
theorem Inv.settle (h : Inv s) {id : Nat} {a : Answer} (hcalls : s.calls = [])
    (hid : id ∈ s.pulling) (ha : a ≠ .threw .null) : Inv (s.settle id a) := by
  have hover : s.ended = none := by
    by_contra hne
    rw [(h.quiet hne).2] at hid
    cases hid
  have hpulling : s.pulling.erase id = [] := by
    have hsingle := h.single
    refine List.length_eq_zero_iff.mp ?_
    rw [List.length_erase_of_mem hid]
    omega
  have hending : s.ending = none := by rw [← h.known, hover]
  have hfailure : s.failure = .null := by
    by_contra hne
    rw [Tee.ending, if_pos hne] at hending
    cases hending
  have hdone : s.done = false := by
    cases hdone : s.done with
    | false => rfl
    | true =>
      rw [Tee.ending, if_neg (by simp [hfailure]), hdone, if_pos rfl] at hending
      cases hending
  have hflight : ∀ x : Nat, (none : Option Nat) = some x ↔ x ∈ s.pulling.erase id := by
    intro x
    rw [hpulling]
    simp
  have hsingle : s.calls.length + (s.pulling.erase id).length ≤ 1 := by
    rw [hcalls, hpulling]
    exact Nat.zero_le 1
  have hbranch := h.branch
  rw [hover] at hbranch
  cases a with
  | chunk c =>
    refine ⟨fun side => ?_, hsingle, hflight, h.known, h.oneEnd, fun hne => absurd hover hne,
      h.notLate, h.cancels⟩
    show (Branch.take s.memory c (s.branches side)).Sound (s.arrived ++ [c]) s.ended s.memory
    rw [hover]
    exact (hbranch side).take c
  | eof =>
    refine ⟨fun side => ?_, hsingle, hflight, ?_, fun _ => hfailure, fun _ => ⟨hcalls, hpulling⟩,
      h.notLate, h.cancels⟩
    · show (s.branches side).Sound s.arrived (s.ended.or (some .eof)) s.memory
      rw [hover]
      exact (hbranch side).ended .eof
    · show s.ended.or (some .eof) = _
      rw [hover]
      show _ = if s.failure ≠ .null then _ else some Ending.eof
      rw [if_neg (not_not_intro hfailure)]
      rfl
  | threw e =>
    have he : e ≠ .null := fun heq => ha (by rw [heq])
    refine ⟨fun side => ?_, hsingle, hflight, ?_, fun hd => ?_, fun _ => ⟨hcalls, hpulling⟩,
      h.notLate, h.cancels⟩
    · show (s.branches side).Sound s.arrived (s.ended.or (some (.threw e))) s.memory
      rw [hover]
      exact (hbranch side).ended (.threw e)
    · show s.ended.or (some (.threw e)) = _
      rw [hover]
      show _ = if e ≠ .null then some (Ending.threw e) else _
      rw [if_pos he]
      rfl
    · rw [show s.done = true from hd] at hdone
      cases hdone

theorem branches_setBranch (s : Tee) (f : Branch → Branch) (i : Side) :
    (s.setBranch side f).branches i = if i = side then f (s.branches i) else s.branches i := by
  by_cases hi : i = side
  · subst hi
    rw [if_pos rfl]
    exact Function.update_self ..
  · rw [if_neg hi]
    exact Function.update_of_ne hi ..

/-- The branch that is cancelled last, before the clean end, cancels the source. -/
theorem Inv.cancel (h : Inv s) : Inv (s.cancel side) := by
  have hdone : s.done = true ↔ s.ended = some .eof := by
    rw [h.known, Tee.ending]
    constructor
    · intro hdone
      rw [if_neg (not_not_intro (h.oneEnd hdone)), if_pos hdone]
    · intro hending
      split at hending
      · cases Option.some.inj hending
      · split at hending
        · assumption
        · cases hending
  have hbranch : ∀ i, ((s.setBranch side (Branch.drop s.ended)).branches i).Sound s.arrived s.ended
      s.memory := by
    intro i
    have hi := h.branch i
    rw [branches_setBranch]
    split
    · refine ⟨fun hopen => ?_, fun _ => rfl, fun _ hover => ?_,
        fun x hx => absurd hx List.not_mem_nil, hi.untouched⟩
      · cases hopen
      · simp [Branch.drop, hover]
    · exact hi
  have hearly : ∀ i, ((s.setBranch side (Branch.drop s.ended)).branches i).early = true ↔
      (s.branches i).early = true ∨ i = side ∧ s.done = false := by
    intro i
    rw [branches_setBranch, ← Bool.not_eq_true, hdone]
    split
    · next hi => simp [hi, Branch.drop]
    · next hi => simp [hi]
  have hcancelled : ∀ i, ((s.setBranch side (Branch.drop s.ended)).branches i).cancelled = true ↔
      (s.branches i).cancelled = true ∨ i = side := by
    intro i
    rw [branches_setBranch]
    split
    · next hi => simp [hi, Branch.drop]
    · next hi => simp [hi]
  unfold Tee.cancel
  dsimp only
  split
  · next hboth =>
    rw [Bool.and_eq_true_iff, Bool.and_eq_true_iff, hcancelled, hcancelled] at hboth
    have hopen : s.done = false := (Bool.not_eq_true' _).mp hboth.2
    have hover : s.ended ≠ some .eof := by
      rw [Ne, ← hdone, hopen]
      simp
    refine ⟨hbranch, h.single, h.flight, h.known, h.oneEnd, h.quiet, h.notLate, fun _ i => ?_,
      fun _ => rfl⟩
    have hi : (s.branches i).cancelled = true ∨ i = side := by
      cases i with
      | left => exact hboth.1.1
      | right => exact hboth.1.2
    refine (hearly i).mpr (hi.imp (fun hi => (h.branch i).early hi hover) fun hi => ⟨hi, hopen⟩)
  · next hboth =>
    refine ⟨hbranch, h.single, h.flight, h.known, h.oneEnd, h.quiet, h.notLate, ?_⟩
    rw [show (s.setBranch side _).sourceCancelled = s.sourceCancelled from rfl, h.cancels]
    constructor
    · exact fun hall i => (hearly i).mpr (.inl (hall i))
    · intro hall i
      obtain hi | ⟨-, hopen⟩ := (hearly i).mp (hall i)
      · exact hi
      · refine absurd ?_ hboth
        have hopen' : (s.setBranch side (Branch.drop s.ended)).done = false := hopen
        rw [(hbranch .left).cancelled (hall .left), (hbranch .right).cancelled (hall .right), hopen']
        rfl

/-- What nobody but its consumer wrote to, as that consumer sees it after a write. -/
theorem Branch.Sound.wrote {arrived : List Data} {ended : Option Ending}
    {memory : Nat → List UInt8} {b : Branch} (h : b.Sound arrived ended memory) (x : Nat)
    (bytes : List UInt8) : (b.wrote x bytes).Sound arrived ended (update memory x bytes) := by
  refine ⟨h.delivers, h.cancelled, h.early, fun y hy => ?_, h.untouched⟩
  show update memory x bytes y = update b.alone x bytes y
  by_cases hyx : y = x
  · rw [hyx, Function.update_self, Function.update_self]
  · rw [Function.update_of_ne hyx, Function.update_of_ne hyx, h.queued y hy]

/-- A write to something that the branch does not have to deliver. -/
theorem Branch.Sound.apart {arrived : List Data} {ended : Option Ending}
    {memory : Nat → List UInt8} {b : Branch} (h : b.Sound arrived ended memory) {x : Nat}
    (hx : .bytes x ∉ b.queue) (bytes : List UInt8) :
    b.Sound arrived ended (update memory x bytes) := by
  refine ⟨h.delivers, h.cancelled, h.early, fun y hy => ?_, h.untouched⟩
  have hyx : y ≠ x := by
    rintro rfl
    exact hx hy
  rw [Function.update_of_ne hyx, h.queued y hy]

/-- A consumer writes to an array that the other branch does not have to deliver. -/
theorem Inv.write (h : Inv s) {b : Nat} (bytes : List UInt8)
    (hb : b ∈ (s.branches side).held → .bytes b ∉ (s.branches side.other).queue) :
    Inv (s.write side b bytes) := by
  unfold Tee.write
  split
  · next hheld =>
    refine ⟨fun i => ?_, h.single, h.flight, h.known, h.oneEnd, h.quiet, h.notLate, ?_⟩
    · show Branch.Sound s.arrived s.ended (update s.memory b bytes)
        ((s.setBranch side (Branch.wrote b bytes)).branches i)
      rw [branches_setBranch]
      split
      · exact (h.branch i).wrote b bytes
      · next hne =>
        have hother : i = side.other := by
          cases i <;> cases side <;> first | rfl | exact absurd rfl hne
        exact (h.branch i).apart (by rw [hother]; exact hb hheld) bytes
    · refine h.cancels.trans (forall_congr' fun i => ?_)
      show _ ↔ ((s.setBranch side (Branch.wrote b bytes)).branches i).early = true
      rw [branches_setBranch]
      split <;> rfl
  · exact h

theorem Inv.edit (h : Inv s) (b : Nat) (bytes : List UInt8) : Inv (s.edit b bytes) :=
  ⟨fun i => (h.branch i).wrote b bytes, h.single, h.flight, h.known, h.oneEnd, h.quiet, h.notLate,
    h.cancels⟩

end Steps

/-! ### Runs -/

theorem inv_step (s : Tee) (op : TeeOp) (h : Inv s) (hop : Harmless s op) : Inv (s.step op) := by
  cases op with
  | pull side => exact h.turn hop
  | returned => exact h.returned
  | settle id a =>
    show Inv (if s.calls = [] ∧ id ∈ s.pulling then s.settle id a else s)
    split
    · next hgo =>
      refine h.settle hgo.1 hgo.2 ?_
      rintro rfl
      exact hop rfl
    · exact h
  | resume k =>
    unfold Tee.step
    dsimp only
    split
    · exact h
    · split
      · next hgo =>
        have hwaits : Inv { s with waiting := s.waiting.eraseIdx k } :=
          ⟨h.branch, h.single, h.flight, h.known, h.oneEnd, h.quiet, h.notLate, h.cancels⟩
        exact hwaits.turn (.inl hgo.1)
      · exact h
  | cancel side => exact h.cancel
  | write side b bytes => exact h.write bytes hop
  | edit b bytes => exact h.edit b bytes

/-- In every run of harmless steps the two branches split the stream. -/
theorem split_of_harmless (memory : Nat → List UInt8) (ops : List TeeOp)
    (h : Along Tee.step Harmless (new memory) ops) : Split (exec Tee.step (new memory) ops) :=
  (Along.invariant inv_step (inv_new memory) h).split

/-- Both branches deliver an array, then one consumer writes to it, and both branches are
cancelled. -/
def bothRead : List TeeOp :=
  [.pull .left, .returned, .settle 0 (.chunk (.bytes 0)), .resume 0, .pull .right,
    .write .left 0 [9], .cancel .left, .cancel .right]

theorem split_of_harmless_bothRead :
    Split (exec Tee.step (new fun _ => [1]) bothRead) := by
  refine split_of_harmless (fun _ => [1]) bothRead ⟨.inl rfl, trivial, trivial, trivial, .inl rfl,
    fun _ => ?_, trivial, trivial, trivial⟩
  exact List.not_mem_nil

/-- The left consumer writes to an array before the right branch delivers it. -/
def writesAhead : List TeeOp :=
  [.pull .left, .returned, .settle 0 (.chunk (.bytes 0)), .resume 0, .write .left 0 [9],
    .pull .right]

/-- The source throws `null`, and the pull that waited asks it again. -/
def throwsNull : List TeeOp :=
  [.pull .left, .returned, .settle 0 (.threw .null), .resume 0]

/-- The source's `pull` reads the right branch before it returns. -/
def readsBranch : List TeeOp := [.pull .left, .pull .right]

theorem split_fails :
    ¬ Split (exec Tee.step (new fun _ => [1]) writesAhead) ∧
      ¬ Split (exec Tee.step (new fun _ => [1]) throwsNull) ∧
      ¬ Split (exec Tee.step (new fun _ => [1]) readsBranch) := by
  refine ⟨fun h => ?_, fun h => ?_, fun h => ?_⟩
  · have heq := h.untouched .right ⟨.bytes 0, [9], [1]⟩ (by decide)
    exact absurd heq (by decide)
  · have hlate : (exec Tee.step (new fun _ => [1]) throwsNull).late = true := by decide
    rw [h.notLate] at hlate
    cases hlate
  · exact absurd h.oneInFlight (by decide)

end TeeStreams

end Iso4
