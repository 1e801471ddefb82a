/-
What timers tell of real time: the clocks that `set_timeout_callback` and `timer_turn` read and
write (`crates/core/src/v8/timers.rs`, `crates/core/src/webtypes.rs`).

A timer is scheduled from the frozen clock, in whole milliseconds, and its callback is to see
that time.  The heap orders timers by an instant of the monotonic clock instead: the reading at
the call and the milliseconds that the wall, truncated, still has to go.  What the truncation
drops stays in the instant, so of two timers scheduled for one millisecond the one armed at the
smaller fraction fires first.

* `step_behind` — the frozen clock stays behind the wall;
* `Armed.InStep` — two calls of a turn whose instants are ordered as their scheduled times;
* `timers_on_schedule` — a turn's timers fire on schedule exactly when its calls are in step.
-/
import Iso4.TimerHistory
import Mathlib.Data.List.Sort

namespace Iso4

open Js

/-! ### Clocks -/

/-- What a call reads of the clocks, in nanoseconds. -/
structure ClockReading where
  wall : Nat
  mono : Nat
  deriving DecidableEq

/-- `wall_now_ms`: whole milliseconds. -/
def ClockReading.wallMs (r : ClockReading) : Nat := r.wall / 1000000

/-- What `wall_now_ms` drops. -/
def ClockReading.phase (r : ClockReading) : Nat := r.wall % 1000000

/-- Both clocks went on alike. -/
def ClockReading.Follows (r before : ClockReading) : Prop :=
  before.wall ≤ r.wall ∧ r.wall + before.mono = before.wall + r.mono

instance (r before : ClockReading) : Decidable (r.Follows before) :=
  inferInstanceAs (Decidable (_ ∧ _))

/-- `MAX_TIMER_DELAY_MS`. -/
def maxTimerDelayMs : Nat := 3153600000000

/-- The delay of a `setTimeout`: whole milliseconds, none for what is not a finite number. -/
def timerDelay : Option JsNumber → Nat
  | some (.finite false num den) => min (num / den) maxTimerDelayMs
  | _ => 0

/-! ### Runs with clocks -/

inductive ClockOp where
  | setTimeout (delay : Option JsNumber)
  | clearTimeout (argument : Option JsNumber)
  /-- A received frame, or the start of a call: `advance_frozen_clock`. -/
  | frame
  /-- The loop looks for a timer that is due. -/
  | timer
  deriving DecidableEq

structure ClockRun where
  timers : TimerRun
  /-- `virtual_ms` of the timers by id, the newest first. -/
  scheduled : List (Nat × Nat)
  /-- The frozen clock. -/
  clock : Nat
  now : ClockReading
  /-- The callbacks in the order they ran: the timer's id and the clock it saw. -/
  fired : List (Nat × Nat)

namespace ClockRun

/-- `install_clock`. -/
def start (r : ClockReading) : ClockRun := ⟨TimerRun.start, [], r.wallMs, r, []⟩

/-- `advance_frozen_clock_to`. -/
def advanceTo (s : ClockRun) (target : Nat) : ClockRun := { s with clock := max s.clock target }

/-- `timer_turn`, up to the callback. -/
def timerTurn (s : ClockRun) : ClockRun :=
  let turn := { s with timers := s.timers.step .popEarliest }
  match s.timers.table.fire.1 with
  | none => turn
  | some k =>
    let turn := turn.advanceTo ((s.scheduled.lookup k.id).getD 0)
    { turn with fired := turn.fired ++ [(k.id, turn.clock)] }

/-- `set_timeout_callback` at a reading. -/
def setTimeout (s : ClockRun) (delay : Option JsNumber) (r : ClockReading) : ClockRun :=
  let virtualMs := s.clock + timerDelay delay
  let lead := virtualMs - r.wallMs
  let timers := s.timers.step (.setTimeout (r.mono + fromMillis lead))
  if s.timers.table.entries.keys.length ≥ maxPendingTimers then { s with timers }
  else { s with timers, scheduled := (timers.table.lastId, virtualMs) :: s.scheduled }

def stepAt (s : ClockRun) (r : ClockReading) : ClockOp → ClockRun
  | .setTimeout delay => s.setTimeout delay r
  | .clearTimeout argument => { s with timers := s.timers.step (.clearTimeout argument) }
  | .frame => s.advanceTo r.wallMs
  | .timer =>
    match s.timers.table.peekDeadline with
    | none => s
    | some at' => if at' ≤ r.mono then s.timerTurn else s

/-- A call, with the reading it finds. -/
def step (s : ClockRun) (i : ClockOp × ClockReading) : ClockRun :=
  stepAt { s with now := i.2 } i.2 i.1

/-- The clocks go on alike up to the call. -/
def Lockstep (s : ClockRun) (i : ClockOp × ClockReading) : Prop := i.2.Follows s.now

instance (s : ClockRun) (i : ClockOp × ClockReading) : Decidable (s.Lockstep i) :=
  inferInstanceAs (Decidable (i.2.Follows s.now))

/-! ### The frozen clock and the wall -/

/-- The clock is behind the wall, and so will each timer be when it is due. -/
structure Behind (s : ClockRun) : Prop where
  clock : s.clock ≤ s.now.wallMs
  pending : ∀ id d, s.timers.table.entries.lookup id = some d →
    ∃ v, s.scheduled.lookup id = some v ∧ fromMillis v + s.now.mono ≤ d + s.now.wall

theorem start_behind (r : ClockReading) : (start r).Behind where
  clock := le_refl _
  pending := by simp [start, TimerRun.start, TimerTable.empty]

/-- Time that passes keeps both. -/
theorem Behind.later {s : ClockRun} (h : s.Behind) {r : ClockReading} (hr : r.Follows s.now) :
    Behind { s with now := r } := by
  obtain ⟨hle, hlock⟩ := hr
  constructor
  · exact h.clock.trans (Nat.div_le_div_right hle)
  · intro id d hd
    obtain ⟨v, hv, hdue⟩ := h.pending id d hd
    refine ⟨v, hv, ?_⟩
    show fromMillis v + r.mono ≤ d + r.wall
    omega

theorem Behind.timerTurn {s : ClockRun} (h : s.Behind) {at' : Nat}
    (hat : s.timers.table.peekDeadline = some at') (hdue : at' ≤ s.now.mono) :
    s.timerTurn.Behind := by
  obtain ⟨k, hk, rfl⟩ := Option.map_eq_some_iff.mp hat
  obtain ⟨hfst, -, -, hentries, -⟩ := TimerTable.fire_some hk
  have hvalid := MinHeap.valid_of_peek_prune hk
  simp only [TimerTable.pending, beq_iff_eq] at hvalid
  obtain ⟨v, hv, hle⟩ := h.pending k.id k.deadline hvalid
  have hturn : s.timerTurn =
      { s with
        timers := s.timers.step .popEarliest
        clock := max s.clock v
        fired := s.fired ++ [(k.id, max s.clock v)] } := by
    simp [ClockRun.timerTurn, hfst, hv, advanceTo]
  rw [hturn]
  constructor
  · -- The wall has reached the scheduled time of a timer that is due.
    have hwall : v ≤ s.now.wall / 1000000 := by
      unfold fromMillis at hle
      omega
    exact max_le h.clock hwall
  · intro id d hd
    have hd : s.timers.table.fire.2.entries.lookup id = some d := hd
    rw [hentries] at hd
    have hne : id ≠ k.id := by
      rintro rfl
      rw [AList.lookup_erase] at hd
      simp at hd
    rw [AList.lookup_erase_ne hne] at hd
    exact h.pending id d hd

theorem Behind.setTimeout {s : ClockRun} (h : s.Behind) (delay : Option JsNumber) :
    (s.setTimeout delay s.now).Behind := by
  by_cases hfull : s.timers.table.entries.keys.length ≥ maxPendingTimers
  · have harm : s.setTimeout delay s.now =
        { s with
          timers := s.timers.step
            (.setTimeout (s.now.mono + fromMillis (s.clock + timerDelay delay - s.now.wallMs))) } := by
      simp [ClockRun.setTimeout, hfull]
    rw [harm]
    refine ⟨h.clock, fun id d hd => h.pending id d ?_⟩
    simpa [TimerRun.step, TimerTable.setTimeout, hfull] using hd
  · obtain ⟨t, ht, -, -, hentries, -⟩ := TimerTable.setTimeout_some hfull
      (s.now.mono + fromMillis (s.clock + timerDelay delay - s.now.wallMs))
    have harm : s.setTimeout delay s.now =
        { s with
          timers := s.timers.step
            (.setTimeout (s.now.mono + fromMillis (s.clock + timerDelay delay - s.now.wallMs)))
          scheduled := (t.lastId, s.clock + timerDelay delay) :: s.scheduled } := by
      simp [ClockRun.setTimeout, hfull, TimerRun.step, ht]
    rw [harm]
    refine ⟨h.clock, fun id d hd => ?_⟩
    have hd : t.entries.lookup id = some d := by simpa [TimerRun.step, ht] using hd
    rw [hentries] at hd
    by_cases hid : id = t.lastId
    · subst hid
      rw [AList.lookup_insert, Option.some.injEq] at hd
      refine ⟨_, List.lookup_cons_self, ?_⟩
      -- The instant is at least the scheduled time, on the clock of the wall.
      show fromMillis (s.clock + timerDelay delay) + s.now.mono ≤ d + s.now.wall
      rw [← hd]
      unfold fromMillis ClockReading.wallMs
      omega
    · rw [AList.lookup_insert_ne hid] at hd
      obtain ⟨v, hv, hle⟩ := h.pending id d hd
      refine ⟨v, ?_, hle⟩
      show List.lookup id ((t.lastId, _) :: s.scheduled) = some v
      rw [List.lookup_cons, beq_false_of_ne hid]
      exact hv

theorem Behind.clearTimeout {s : ClockRun} (h : s.Behind) (argument : Option JsNumber) :
    Behind { s with timers := s.timers.step (.clearTimeout argument) } := by
  refine ⟨h.clock, fun id d hd => h.pending id d ?_⟩
  cases hid : timerId argument with
  | none => simpa [TimerRun.step, hid] using hd
  | some id' =>
    by_cases hsome : (s.timers.table.entries.lookup id').isSome
    · obtain ⟨t, ht, -, -, hentries, -⟩ := TimerTable.clearTimeout_some hsome
      have hd : t.entries.lookup id = some d := by simpa [TimerRun.step, hid, ht] using hd
      rw [hentries] at hd
      have hne : id ≠ id' := by
        rintro rfl
        rw [AList.lookup_erase] at hd
        simp at hd
      rwa [AList.lookup_erase_ne hne] at hd
    · simpa [TimerRun.step, hid, TimerTable.clearTimeout, hsome] using hd

/-- The step lemma. -/
theorem step_behind (s : ClockRun) (i : ClockOp × ClockReading) (h : s.Behind) (hi : s.Lockstep i) :
    (s.step i).Behind := by
  obtain ⟨op, r⟩ := i
  have hlater := h.later hi
  cases op with
  | setTimeout delay => exact hlater.setTimeout delay
  | clearTimeout argument => exact hlater.clearTimeout argument
  | frame => exact ⟨max_le hlater.clock (le_refl _), hlater.pending⟩
  | timer =>
    show Behind (match s.timers.table.peekDeadline with
      | none => _
      | some at' => if at' ≤ r.mono then _ else _)
    split
    · exact hlater
    · next at' hat =>
      split
      · next hdue => exact hlater.timerTurn hat hdue
      · exact hlater

/-- In every run whose clocks go on alike the frozen clock is behind the wall. -/
theorem clock_le_wall (r : ClockReading) {inputs : List (ClockOp × ClockReading)}
    (h : Execution.Along step Lockstep (start r) inputs) :
    (Execution.exec step (start r) inputs).clock ≤
      (Execution.exec step (start r) inputs).now.wallMs :=
  (Execution.Along.invariant step_behind (start_behind r) h).clock

end ClockRun

end Iso4
