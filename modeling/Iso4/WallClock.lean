/-
The counted time of a run: `enter_turn`, `leave_turn`, `live_segment` and
`counted_wall_ms` of `crates/core/src/v8/runloop.rs`, the hand-over to grace of
`build_output_and_maybe_grace`, and the stamps of `conclude_run`.

* `RunClock.step` — what moves a run's clocks: turns, waits, CPU epochs, the move to
  grace, the stamps and the end;
* `RunClock.Clocked` — the instants read go forward, and a thread's CPU clock is not ahead
  of them;
* `step_sound` — the spans counted follow each other, whatever the order of the calls;
* `wall_accounting` — when a report's wall time is within its duration.

Instants are nanoseconds.  The fields that are not in the source only record: the spans
that were counted, and the time of the run that was not.
-/
import Iso4.Lib.Execution
import Iso4.Lib.Spans

namespace Iso4

open Execution Timeline

namespace Wall

/-- A duration as it is reported, in microseconds. -/
def roundMicros (ns : Nat) : Nat := (ns + 500) / 1000

/-- What a success or a failure reports, before rounding. -/
structure WallReport where
  durationNs : Nat
  wallNs : Nat
  cpuNs : Nat
  /-- Not in the source: the instants of the two stamps, and the time not counted by then. -/
  stampedAt : Nat
  wallAt : Nat
  lag : Nat
  /-- Not in the source: the spans behind the wall time, and when the report was made. -/
  runSpans : List (Nat × Nat)
  madeAt : Nat

/-- What a grace report reports: grace bills a counter of its own. -/
structure GraceWall where
  wallNs : Nat
  /-- Not in the source: as in `WallReport`. -/
  runSpans : List (Nat × Nat)
  graceSpans : List (Nat × Nat)
  madeAt : Nat

/-- The clocks of a run.  `stampedAt` is the instant at which `duration_ms` was last taken. -/
structure RunClock where
  start : Nat
  inGrace : Bool
  counted : Nat
  graceCounted : Nat
  parkedAt : Nat
  turnEntered : Option Nat
  cpuNs : Nat
  /-- The thread's CPU clock when the epoch opened, and when that was. -/
  cpuEpoch : Option (Nat × Nat)
  stampedAt : Option Nat
  reports : List WallReport
  graceReports : List GraceWall
  ended : Bool
  /-- Not in the source: the last instant read, the run's time not counted, and the end of the
  run phase. -/
  now : Nat
  lag : Nat
  frozenAt : Nat
  /-- Not in the source: what was folded into the two counters. -/
  runSpans : List (Nat × Nat)
  graceSpans : List (Nat × Nat)

namespace RunClock

/-- A run at its dispatch: its start turn executes. -/
def init (start : Nat) : RunClock where
  start := start
  inGrace := false
  counted := 0
  graceCounted := 0
  parkedAt := start
  turnEntered := some start
  cpuNs := 0
  cpuEpoch := none
  stampedAt := none
  reports := []
  graceReports := []
  ended := false
  now := start
  lag := 0
  frozenAt := start
  runSpans := []
  graceSpans := []

/-- Fold a span into the counter of the phase. -/
def bill (s : RunClock) (a b : Nat) : RunClock :=
  if s.inGrace then
    { s with graceCounted := s.graceCounted + (b - a), graceSpans := s.graceSpans ++ [(a, b)] }
  else { s with counted := s.counted + (b - a), runSpans := s.runSpans ++ [(a, b)] }

/-- Time of the run phase that is not counted. -/
def skip (s : RunClock) (a b : Nat) : RunClock :=
  if s.inGrace then s else { s with lag := s.lag + (b - a) }

/-- `enter_turn`: the wait counts up to the waking instant, nothing of it when that is before the
run parked. -/
def enterTurn (s : RunClock) (wokeAt now : Nat) : RunClock :=
  let woke := max s.parkedAt wokeAt
  { (s.bill s.parkedAt woke).skip woke now with turnEntered := some now, now := now }

/-- `leave_turn`: the clock is read for the turn's time and again for the park. -/
def leaveTurn (s : RunClock) (entered now parkedAt : Nat) : RunClock :=
  { (s.bill entered now).skip now parkedAt with
    turnEntered := none, parkedAt := parkedAt, now := parkedAt }

/-- Where the span begins that is not folded yet. -/
def edge (s : RunClock) : Nat := s.turnEntered.getD s.parkedAt

def liveSegment (s : RunClock) (now : Nat) : Nat := now - s.edge

/-- `counted_wall_ms`. -/
def countedWall (s : RunClock) (now : Nat) : Nat :=
  if s.inGrace then s.counted else s.counted + s.liveSegment now

/-- The success of the early `Result`: the counters as the hand-over leaves them. -/
def earlyReport (s : RunClock) (stampedAt entered freezeAt restartAt : Nat) : WallReport where
  durationNs := stampedAt - s.start
  wallNs := s.counted + (freezeAt - entered)
  cpuNs := s.cpuNs
  stampedAt := stampedAt
  wallAt := freezeAt
  lag := s.lag
  runSpans := s.runSpans ++ [(entered, freezeAt)]
  madeAt := restartAt

/-- The move to grace splits the turn: its time up to `freezeAt` is the run's, what follows
`restartAt` is grace's. -/
def handOver (s : RunClock) (stampedAt entered freezeAt restartAt : Nat) : RunClock :=
  { s with
    inGrace := true
    counted := s.counted + (freezeAt - entered)
    turnEntered := some restartAt
    frozenAt := freezeAt
    now := restartAt
    runSpans := s.runSpans ++ [(entered, freezeAt)]
    reports := s.reports ++ [s.earlyReport stampedAt entered freezeAt restartAt] }

/-- `finish_grace`: the live segment is added to grace's counter. -/
def finishGrace (s : RunClock) (now : Nat) : RunClock :=
  { s with
    now := now
    graceReports := s.graceReports ++ [
      { wallNs := s.graceCounted + s.liveSegment now
        runSpans := s.runSpans
        graceSpans := s.graceSpans ++ [(s.edge, now)]
        madeAt := now }] }

/-- A result at the end, with the live segment in the counter of the run's phase: `conclude_run`
and `stamp_wall`. -/
def lastReport (s : RunClock) (stampedAt now : Nat) : WallReport where
  durationNs := stampedAt - s.start
  wallNs := s.countedWall now
  cpuNs := s.cpuNs
  stampedAt := stampedAt
  wallAt := if s.inGrace then s.frozenAt else now
  lag := s.lag
  runSpans := if s.inGrace then s.runSpans else s.runSpans ++ [(s.edge, now)]
  madeAt := now

def conclude (s : RunClock) (stampedAt now : Nat) : RunClock :=
  { s with
    ended := true
    now := now
    reports := s.reports ++ [s.lastReport stampedAt now] }

end RunClock

/-- What happens to a run's clocks, with the instants read. -/
inductive WallOp where
  | enterTurn (wokeAt now : Nat)
  | leaveTurn (now parkedAt : Nat)
  /-- `CpuBudget::enter` and `leave`, around a stretch of guest code. -/
  | openEpoch (now cpu : Nat)
  | closeEpoch (now cpu : Nat)
  /-- `duration_ms` is taken: `build_output_and_maybe_grace` or `RunState::fail`. -/
  | stamp (now : Nat)
  | handOver (freezeAt restartAt : Nat)
  | finishGrace (now : Nat)
  | conclude (now : Nat)
  deriving DecidableEq

namespace RunClock

/-- One call.  The loops enter a run that waits and leave one whose turn's epoch is closed; a
result is stamped before it is handed over or concluded.  In grace an epoch is on a budget of
its own. -/
def step (s : RunClock) (op : WallOp) : RunClock :=
  if s.ended then s
  else
    match op with
    | .enterTurn wokeAt now => if s.turnEntered.isSome then s else s.enterTurn wokeAt now
    | .leaveTurn now parkedAt =>
      match s.turnEntered with
      | none => s
      | some entered => if s.cpuEpoch.isSome then s else s.leaveTurn entered now parkedAt
    | .openEpoch now cpu =>
      if s.turnEntered.isNone || s.inGrace then { s with now := now }
      else { s with cpuEpoch := some (cpu, now), now := now }
    | .closeEpoch now cpu =>
      match s.cpuEpoch with
      | none => { s with now := now }
      | some epoch => { s with cpuNs := s.cpuNs + (cpu - epoch.1), cpuEpoch := none, now := now }
    | .stamp now => { s with stampedAt := some now, now := now }
    | .handOver freezeAt restartAt =>
      match s.turnEntered, s.stampedAt with
      | some entered, some stampedAt =>
        if s.inGrace || s.cpuEpoch.isSome then s
        else s.handOver stampedAt entered freezeAt restartAt
      | _, _ => s
    | .finishGrace now => if s.inGrace then s.finishGrace now else s
    | .conclude now =>
      match s.stampedAt with
      | none => s
      | some stampedAt => if s.cpuEpoch.isSome then s else s.conclude stampedAt now

/-- The instants read go forward, a run is woken before it is entered, and between the ends of an
epoch the CPU clock moves no further than time does. -/
def Clocked (s : RunClock) : WallOp → Prop
  | .enterTurn wokeAt now => s.now ≤ now ∧ wokeAt ≤ now
  | .leaveTurn now parkedAt => s.now ≤ now ∧ now ≤ parkedAt
  | .openEpoch now _ => s.now ≤ now
  | .closeEpoch now cpu => s.now ≤ now ∧ ∀ epoch ∈ s.cpuEpoch, cpu - epoch.1 ≤ now - epoch.2
  | .stamp now => s.now ≤ now
  | .handOver freezeAt restartAt => s.now ≤ freezeAt ∧ freezeAt ≤ restartAt
  | .finishGrace now => s.now ≤ now
  | .conclude now => s.now ≤ now

instance Clocked.decidable (s : RunClock) : ∀ op : WallOp, Decidable (s.Clocked op)
  | .enterTurn wokeAt now => inferInstanceAs (Decidable (s.now ≤ now ∧ wokeAt ≤ now))
  | .leaveTurn now parkedAt => inferInstanceAs (Decidable (s.now ≤ now ∧ now ≤ parkedAt))
  | .openEpoch now _ => inferInstanceAs (Decidable (s.now ≤ now))
  | .closeEpoch now cpu =>
    inferInstanceAs (Decidable
      (s.now ≤ now ∧ ∀ epoch ∈ s.cpuEpoch, cpu - epoch.1 ≤ now - epoch.2))
  | .stamp now => inferInstanceAs (Decidable (s.now ≤ now))
  | .handOver freezeAt restartAt =>
    inferInstanceAs (Decidable (s.now ≤ freezeAt ∧ freezeAt ≤ restartAt))
  | .finishGrace now => inferInstanceAs (Decidable (s.now ≤ now))
  | .conclude now => inferInstanceAs (Decidable (s.now ≤ now))

/-! ### What holds of a run's clocks -/

/-- The CPU clock of the run is accounted for up to here. -/
def cpuAt (s : RunClock) : Nat := (s.cpuEpoch.map Prod.snd).getD s.now

/-- The run's own time in the turn it is in. -/
def turnTime (s : RunClock) (at' : Nat) : Nat :=
  if s.inGrace then 0 else (s.turnEntered.map fun entered => at' - entered).getD 0

end RunClock

/-- A report reads its counters off spans that follow each other, and the time from the run's
start to its wall stamp is counted but for the lag. -/
structure WallReport.Sound (start : Nat) (r : WallReport) : Prop where
  spans : Spans start r.madeAt r.runSpans
  wall : r.wallNs = totalTime r.runSpans
  cpu : r.cpuNs ≤ r.wallNs
  wallAt : r.wallNs + r.lag + start = r.wallAt
  duration : r.durationNs + start = r.stampedAt

structure GraceWall.Sound (start : Nat) (r : GraceWall) : Prop where
  spans : Spans start r.madeAt (r.runSpans ++ r.graceSpans)
  wall : r.wallNs = totalTime r.graceSpans

/-- The invariant of a run: what is folded ends where the open segment begins, and while the
run's counter moves, it and the lag add up to the time since the start. -/
structure RunClock.Sound (s : RunClock) : Prop where
  spans : Spans s.start s.edge (s.runSpans ++ s.graceSpans)
  edge : s.edge ≤ s.now
  counted : s.counted = totalTime s.runSpans
  graceCounted : s.graceCounted = totalTime s.graceSpans
  settling : s.inGrace = false →
    s.graceSpans = [] ∧ s.graceCounted = 0 ∧ s.counted + s.lag + s.start = s.edge
  frozen : s.inGrace = true → s.cpuEpoch = none ∧ s.counted + s.lag + s.start = s.frozenAt
  cpu : s.cpuNs ≤ s.counted + s.turnTime s.cpuAt
  epoch : ∀ e ∈ s.cpuEpoch, s.turnEntered.isSome ∧ s.edge ≤ e.2 ∧ e.2 ≤ s.now
  stamped : ∀ t ∈ s.stampedAt, s.start ≤ t
  reports : ∀ r ∈ s.reports, r.Sound s.start
  graceReports : ∀ r ∈ s.graceReports, r.Sound s.start

namespace RunClock

theorem init_sound (start : Nat) : (init start).Sound where
  spans := Nat.le_refl start
  edge := Nat.le_refl start
  counted := rfl
  graceCounted := rfl
  settling := fun _ => ⟨rfl, rfl, by simp [init, edge]⟩
  frozen := by simp [init]
  cpu := Nat.zero_le _
  epoch := by simp [init]
  stamped := by simp [init]
  reports := by simp [init]
  graceReports := by simp [init]

variable {s : RunClock}

theorem edge_parked (hparked : s.turnEntered = none) : s.edge = s.parkedAt := by
  simp [edge, hparked]

theorem edge_entered {entered : Nat} (hturn : s.turnEntered = some entered) :
    s.edge = entered := by
  simp [edge, hturn]

theorem Sound.start_le (h : s.Sound) : s.start ≤ s.now := Nat.le_trans h.spans.le h.edge

theorem Sound.cpu_parked (h : s.Sound) (hparked : s.turnEntered = none) : s.cpuNs ≤ s.counted := by
  have hcpu := h.cpu
  simpa [turnTime, hparked] using hcpu

theorem Sound.cpu_grace (h : s.Sound) (hphase : s.inGrace = true) : s.cpuNs ≤ s.counted := by
  have hcpu := h.cpu
  simpa [turnTime, hphase] using hcpu

theorem Sound.cpu_turn (h : s.Sound) (hphase : s.inGrace = false) {entered : Nat}
    (hturn : s.turnEntered = some entered) : s.cpuNs ≤ s.counted + (s.cpuAt - entered) := by
  have hcpu := h.cpu
  simpa [turnTime, hphase, hturn] using hcpu

theorem Sound.runSpans (h : s.Sound) (hphase : s.inGrace = false) :
    Spans s.start s.edge s.runSpans := by
  have hspans := h.spans
  rwa [(h.settling hphase).1, List.append_nil] at hspans

theorem Sound.runSpans_le (h : s.Sound) {now : Nat} (hnow : s.edge ≤ now) :
    Spans s.start now s.runSpans :=
  (h.spans.mono hnow).left

/-- Entering a turn folds the wait up to the waking instant. -/
theorem Sound.enterTurn (h : s.Sound) (hparked : s.turnEntered = none) {wokeAt now : Nat}
    (hnow : s.now ≤ now) (hwoke : wokeAt ≤ now) : (s.enterTurn wokeAt now).Sound := by
  have hcpu := h.cpu_parked hparked
  have hedge := edge_parked hparked
  have hparkedAt := h.edge
  rw [hedge] at hparkedAt
  have hepoch : s.cpuEpoch = none := by
    rw [Option.eq_none_iff_forall_not_mem]
    intro e he
    simpa [hparked] using (h.epoch e he).1
  have hfrom : s.parkedAt ≤ max s.parkedAt wokeAt := Nat.le_max_left _ _
  have hto : max s.parkedAt wokeAt ≤ now := by omega
  cases hphase : s.inGrace with
  | false =>
    obtain ⟨hgrace, hzero, hsum⟩ := h.settling hphase
    rw [hedge] at hsum
    have heq : s.enterTurn wokeAt now =
        { s with
          counted := s.counted + (max s.parkedAt wokeAt - s.parkedAt)
          runSpans := s.runSpans ++ [(s.parkedAt, max s.parkedAt wokeAt)]
          lag := s.lag + (now - max s.parkedAt wokeAt)
          turnEntered := some now
          now := now } := by
      simp [RunClock.enterTurn, bill, skip, hphase]
    rw [heq]
    exact
      { spans := by
          have hspans := h.runSpans hphase
          rw [hedge] at hspans
          simpa [hgrace, RunClock.edge] using hspans.snoc (Nat.le_refl _) hfrom hto
        edge := Nat.le_refl now
        counted := by simp [totalTime_snoc, h.counted]
        graceCounted := h.graceCounted
        settling := fun _ => ⟨hgrace, hzero, by simp only [RunClock.edge, Option.getD_some]; omega⟩
        frozen := by simp [hphase]
        cpu := by simp only [turnTime, hphase]; omega
        epoch := by simp [hepoch]
        stamped := h.stamped
        reports := h.reports
        graceReports := h.graceReports }
  | true =>
    obtain ⟨-, hfrozen⟩ := h.frozen hphase
    have heq : s.enterTurn wokeAt now =
        { s with
          graceCounted := s.graceCounted + (max s.parkedAt wokeAt - s.parkedAt)
          graceSpans := s.graceSpans ++ [(s.parkedAt, max s.parkedAt wokeAt)]
          turnEntered := some now
          now := now } := by
      simp [RunClock.enterTurn, bill, skip, hphase]
    rw [heq]
    exact
      { spans := by
          have hspans := h.spans
          rw [hedge] at hspans
          simpa [RunClock.edge] using hspans.snoc (Nat.le_refl _) hfrom hto
        edge := Nat.le_refl now
        counted := h.counted
        graceCounted := by simp [totalTime_snoc, h.graceCounted]
        settling := by simp [hphase]
        frozen := fun _ => ⟨hepoch, hfrozen⟩
        cpu := by simp only [turnTime, hphase]; omega
        epoch := by simp [hepoch]
        stamped := h.stamped
        reports := h.reports
        graceReports := h.graceReports }

/-- Leaving a turn folds what has passed since it was entered or, in grace, since the hand-over. -/
theorem Sound.leaveTurn (h : s.Sound) {entered : Nat} (hturn : s.turnEntered = some entered)
    (hclosed : s.cpuEpoch = none) {now parkedAt : Nat} (hnow : s.now ≤ now)
    (hpark : now ≤ parkedAt) : (s.leaveTurn entered now parkedAt).Sound := by
  have hedge := edge_entered hturn
  have hentered := h.edge
  rw [hedge] at hentered
  cases hphase : s.inGrace with
  | false =>
    obtain ⟨hgrace, hzero, hsum⟩ := h.settling hphase
    rw [hedge] at hsum
    have hcpu := h.cpu_turn hphase hturn
    simp only [cpuAt, hclosed, Option.map_none, Option.getD_none] at hcpu
    have heq : s.leaveTurn entered now parkedAt =
        { s with
          counted := s.counted + (now - entered)
          runSpans := s.runSpans ++ [(entered, now)]
          lag := s.lag + (parkedAt - now)
          turnEntered := none
          parkedAt := parkedAt
          now := parkedAt } := by
      simp [RunClock.leaveTurn, bill, skip, hphase]
    rw [heq]
    exact
      { spans := by
          have hspans := h.runSpans hphase
          rw [hedge] at hspans
          simpa [hgrace, RunClock.edge] using
            hspans.snoc (Nat.le_refl _) (Nat.le_trans hentered hnow) hpark
        edge := Nat.le_refl parkedAt
        counted := by simp [totalTime_snoc, h.counted]
        graceCounted := h.graceCounted
        settling := fun _ => ⟨hgrace, hzero, by simp only [RunClock.edge, Option.getD_none]; omega⟩
        frozen := by simp [hphase]
        cpu := by simp only [turnTime, hphase]; omega
        epoch := by simp [hclosed]
        stamped := h.stamped
        reports := h.reports
        graceReports := h.graceReports }
  | true =>
    obtain ⟨-, hfrozen⟩ := h.frozen hphase
    have hcpu := h.cpu_grace hphase
    have heq : s.leaveTurn entered now parkedAt =
        { s with
          graceCounted := s.graceCounted + (now - entered)
          graceSpans := s.graceSpans ++ [(entered, now)]
          turnEntered := none
          parkedAt := parkedAt
          now := parkedAt } := by
      simp [RunClock.leaveTurn, bill, skip, hphase]
    rw [heq]
    exact
      { spans := by
          have hspans := h.spans
          rw [hedge] at hspans
          simpa [RunClock.edge] using
            hspans.snoc (Nat.le_refl _) (Nat.le_trans hentered hnow) hpark
        edge := Nat.le_refl parkedAt
        counted := h.counted
        graceCounted := by simp [totalTime_snoc, h.graceCounted]
        settling := by simp [hphase]
        frozen := fun _ => ⟨hclosed, hfrozen⟩
        cpu := by simp only [turnTime, hphase]; omega
        epoch := by simp [hclosed]
        stamped := h.stamped
        reports := h.reports
        graceReports := h.graceReports }

theorem turnTime_mono (s : RunClock) {a b : Nat} (h : a ≤ b) : s.turnTime a ≤ s.turnTime b := by
  unfold turnTime
  split
  · exact Nat.le_refl 0
  · cases s.turnEntered with
    | none => exact Nat.le_refl 0
    | some entered => exact Nat.sub_le_sub_right h entered

theorem Sound.cpuAt_le (h : s.Sound) : s.cpuAt ≤ s.now := by
  cases hepoch : s.cpuEpoch with
  | none => simp [cpuAt, hepoch]
  | some e =>
    have hlate := (h.epoch e hepoch).2.2
    simpa [cpuAt, hepoch] using hlate

theorem Sound.cpu_now (h : s.Sound) {now : Nat} (hnow : s.now ≤ now) :
    s.cpuNs ≤ s.counted + s.turnTime now :=
  Nat.le_trans h.cpu
    (Nat.add_le_add_left (s.turnTime_mono (Nat.le_trans h.cpuAt_le hnow)) s.counted)

/-- Time alone folds nothing. -/
theorem Sound.pass (h : s.Sound) {now : Nat} (hnow : s.now ≤ now) :
    ({ s with now := now }).Sound where
  spans := h.spans
  edge := Nat.le_trans h.edge hnow
  counted := h.counted
  graceCounted := h.graceCounted
  settling := h.settling
  frozen := h.frozen
  cpu := by
    have hcpu := h.cpu
    cases hepoch : s.cpuEpoch with
    | none => simpa [cpuAt, turnTime, hepoch] using h.cpu_now hnow
    | some e => simpa [cpuAt, turnTime, hepoch] using hcpu
  epoch := fun e he => ⟨(h.epoch e he).1, (h.epoch e he).2.1, Nat.le_trans (h.epoch e he).2.2 hnow⟩
  stamped := h.stamped
  reports := h.reports
  graceReports := h.graceReports

theorem Sound.openEpoch (h : s.Sound) {entered : Nat} (hturn : s.turnEntered = some entered)
    (hphase : s.inGrace = false) {now : Nat} (hnow : s.now ≤ now) (cpu : Nat) :
    ({ s with cpuEpoch := some (cpu, now), now := now }).Sound where
  spans := h.spans
  edge := Nat.le_trans h.edge hnow
  counted := h.counted
  graceCounted := h.graceCounted
  settling := h.settling
  frozen := by simp [hphase]
  cpu := h.cpu_now hnow
  epoch := by
    intro e he
    obtain rfl := Option.some.inj he
    exact ⟨by simp [hturn], Nat.le_trans h.edge hnow, Nat.le_refl now⟩
  stamped := h.stamped
  reports := h.reports
  graceReports := h.graceReports

/-- What an epoch burned fits between its ends, and both are in the turn. -/
theorem Sound.closeEpoch (h : s.Sound) {e : Nat × Nat} (hopen : s.cpuEpoch = some e)
    {now cpu : Nat} (hnow : s.now ≤ now) (hburned : cpu - e.1 ≤ now - e.2) :
    ({ s with cpuNs := s.cpuNs + (cpu - e.1), cpuEpoch := none, now := now }).Sound := by
  obtain ⟨hin, hfrom, hto⟩ := h.epoch e hopen
  obtain ⟨entered, hturn⟩ := Option.isSome_iff_exists.mp hin
  rw [edge_entered hturn] at hfrom
  have hphase : s.inGrace = false := by
    cases hphase : s.inGrace with
    | false => rfl
    | true => simp [(h.frozen hphase).1] at hopen
  have hcpu := h.cpu_turn hphase hturn
  simp only [cpuAt, hopen, Option.map_some, Option.getD_some] at hcpu
  exact
    { spans := h.spans
      edge := Nat.le_trans h.edge hnow
      counted := h.counted
      graceCounted := h.graceCounted
      settling := h.settling
      frozen := by simp [hphase]
      cpu := by
        simp only [turnTime, cpuAt, hphase, hturn, Option.map_some, Option.map_none,
          Option.getD_some, Option.getD_none]
        simp only [Bool.false_eq_true, if_false]
        omega
      epoch := by simp
      stamped := h.stamped
      reports := h.reports
      graceReports := h.graceReports }

theorem Sound.stamp (h : s.Sound) {now : Nat} (hnow : s.now ≤ now) :
    ({ s with stampedAt := some now, now := now }).Sound := by
  have hpass := h.pass hnow
  exact
    { spans := hpass.spans
      edge := hpass.edge
      counted := hpass.counted
      graceCounted := hpass.graceCounted
      settling := hpass.settling
      frozen := hpass.frozen
      cpu := hpass.cpu
      epoch := hpass.epoch
      stamped := by
        intro t ht
        obtain rfl := Option.some.inj ht
        exact Nat.le_trans h.start_le hnow
      reports := hpass.reports
      graceReports := hpass.graceReports }

theorem Sound.earlyReport (h : s.Sound) {entered stampedAt : Nat}
    (hturn : s.turnEntered = some entered) (hstamp : s.stampedAt = some stampedAt)
    (hphase : s.inGrace = false) (hclosed : s.cpuEpoch = none) {freezeAt restartAt : Nat}
    (hfreeze : s.now ≤ freezeAt) (hrestart : freezeAt ≤ restartAt) :
    (s.earlyReport stampedAt entered freezeAt restartAt).Sound s.start := by
  have hedge := edge_entered hturn
  have hentered := h.edge
  rw [hedge] at hentered
  obtain ⟨hgrace, -, hsum⟩ := h.settling hphase
  rw [hedge] at hsum
  have hcpu := h.cpu_turn hphase hturn
  simp only [cpuAt, hclosed, Option.map_none, Option.getD_none] at hcpu
  have hstart := h.stamped stampedAt hstamp
  have hspans := h.runSpans hphase
  rw [hedge] at hspans
  exact
    { spans := by
        simpa [RunClock.earlyReport] using
          hspans.snoc (Nat.le_refl _) (Nat.le_trans hentered hfreeze) hrestart
      wall := by simp [RunClock.earlyReport, totalTime_snoc, h.counted]
      cpu := by simp only [RunClock.earlyReport]; omega
      wallAt := by simp only [RunClock.earlyReport]; omega
      duration := by simp only [RunClock.earlyReport]; omega }

theorem Sound.handOver (h : s.Sound) {entered stampedAt : Nat}
    (hturn : s.turnEntered = some entered) (hstamp : s.stampedAt = some stampedAt)
    (hphase : s.inGrace = false) (hclosed : s.cpuEpoch = none) {freezeAt restartAt : Nat}
    (hfreeze : s.now ≤ freezeAt) (hrestart : freezeAt ≤ restartAt) :
    (s.handOver stampedAt entered freezeAt restartAt).Sound := by
  have hreport := h.earlyReport hturn hstamp hphase hclosed hfreeze hrestart
  obtain ⟨hgrace, hzero, -⟩ := h.settling hphase
  have hspans := hreport.spans
  have hcounted := hreport.wall
  have hsum := hreport.wallAt
  have hcpu := hreport.cpu
  simp only [RunClock.earlyReport] at hspans hcounted hsum hcpu
  exact
    { spans := by simpa [RunClock.handOver, RunClock.edge, hgrace] using hspans
      edge := Nat.le_refl restartAt
      counted := hcounted
      graceCounted := by simp [RunClock.handOver, hgrace, hzero]
      settling := by simp [RunClock.handOver]
      frozen := fun _ => ⟨hclosed, hsum⟩
      cpu := Nat.le_trans hcpu (Nat.le_add_right _ _)
      epoch := by simp [RunClock.handOver, hclosed]
      stamped := h.stamped
      reports := by
        intro r hr
        obtain hr | hr := List.mem_append.mp hr
        · exact h.reports r hr
        · obtain rfl := List.mem_singleton.mp hr
          exact hreport
      graceReports := h.graceReports }

theorem Sound.finishGrace (h : s.Sound) {now : Nat} (hnow : s.now ≤ now) :
    (s.finishGrace now).Sound := by
  have hpass := h.pass hnow
  have hedge := Nat.le_trans h.edge hnow
  exact
    { spans := hpass.spans
      edge := hpass.edge
      counted := hpass.counted
      graceCounted := hpass.graceCounted
      settling := hpass.settling
      frozen := hpass.frozen
      cpu := hpass.cpu
      epoch := hpass.epoch
      stamped := hpass.stamped
      reports := hpass.reports
      graceReports := by
        intro r hr
        obtain hr | hr := List.mem_append.mp hr
        · exact h.graceReports r hr
        · obtain rfl := List.mem_singleton.mp hr
          constructor
          · have hspans := h.spans.snoc (Nat.le_refl _) hedge (Nat.le_refl _)
            rwa [List.append_assoc] at hspans
          · simp [liveSegment, totalTime_snoc, h.graceCounted] }

theorem Sound.lastReport (h : s.Sound) {stampedAt : Nat} (hstamp : s.stampedAt = some stampedAt)
    (hclosed : s.cpuEpoch = none) {now : Nat} (hnow : s.now ≤ now) :
    (s.lastReport stampedAt now).Sound s.start := by
  have hedge := h.edge
  have hstart := h.stamped stampedAt hstamp
  cases hphase : s.inGrace with
  | false =>
    obtain ⟨hgrace, hzero, hsum⟩ := h.settling hphase
    have hspans := h.runSpans hphase
    exact
      { spans := by
          simpa [RunClock.lastReport, hphase] using
            hspans.snoc (Nat.le_refl _) (by omega : s.edge ≤ now) (Nat.le_refl _)
        wall := by
          simp [RunClock.lastReport, countedWall, liveSegment, hphase, totalTime_snoc, h.counted]
        cpu := by
          cases hturn : s.turnEntered with
          | none =>
            have hcpu := h.cpu_parked hturn
            simp only [RunClock.lastReport, countedWall, hphase, Bool.false_eq_true, if_false]
            omega
          | some entered =>
            have hcpu := h.cpu_turn hphase hturn
            simp only [cpuAt, hclosed, Option.map_none, Option.getD_none] at hcpu
            simp only [RunClock.lastReport, countedWall, liveSegment, hphase, edge_entered hturn,
              Bool.false_eq_true, if_false]
            omega
        wallAt := by
          simp only [RunClock.lastReport, countedWall, liveSegment, hphase, Bool.false_eq_true,
            if_false]
          omega
        duration := by simp only [RunClock.lastReport]; omega }
  | true =>
    obtain ⟨-, hfrozen⟩ := h.frozen hphase
    have hcpu := h.cpu_grace hphase
    have hspans := h.runSpans_le (Nat.le_trans hedge hnow)
    exact
      { spans := by simpa [RunClock.lastReport, hphase] using hspans
        wall := by simp [RunClock.lastReport, countedWall, hphase, h.counted]
        cpu := by simpa [RunClock.lastReport, countedWall, hphase] using hcpu
        wallAt := by simpa [RunClock.lastReport, countedWall, hphase] using hfrozen
        duration := by simp only [RunClock.lastReport]; omega }

theorem Sound.conclude (h : s.Sound) {stampedAt : Nat} (hstamp : s.stampedAt = some stampedAt)
    (hclosed : s.cpuEpoch = none) {now : Nat} (hnow : s.now ≤ now) :
    (s.conclude stampedAt now).Sound := by
  have hreport := h.lastReport hstamp hclosed hnow
  have hpass := h.pass hnow
  exact
    { spans := hpass.spans
      edge := hpass.edge
      counted := hpass.counted
      graceCounted := hpass.graceCounted
      settling := hpass.settling
      frozen := hpass.frozen
      cpu := hpass.cpu
      epoch := hpass.epoch
      stamped := hpass.stamped
      reports := by
        intro r hr
        obtain hr | hr := List.mem_append.mp hr
        · exact h.reports r hr
        · obtain rfl := List.mem_singleton.mp hr
          exact hreport
      graceReports := h.graceReports }

/-- One call keeps the invariant, whichever call it is. -/
theorem step_sound (s : RunClock) (op : WallOp) (h : s.Sound) (hclock : s.Clocked op) :
    (s.step op).Sound := by
  cases hended : s.ended with
  | true => simpa only [step, hended, if_true] using h
  | false =>
    cases op with
    | enterTurn wokeAt now =>
      obtain ⟨hnow, hwoke⟩ := hclock
      cases hturn : s.turnEntered with
      | some entered => simpa [step, hended, hturn] using h
      | none => simpa [step, hended, hturn] using h.enterTurn hturn hnow hwoke
    | leaveTurn now parkedAt =>
      obtain ⟨hnow, hpark⟩ := hclock
      cases hturn : s.turnEntered with
      | none => simpa [step, hended, hturn] using h
      | some entered =>
        cases hepoch : s.cpuEpoch with
        | some e => simpa [step, hended, hturn, hepoch] using h
        | none =>
          simpa [step, hended, hturn, hepoch] using h.leaveTurn hturn hepoch hnow hpark
    | openEpoch now cpu =>
      have hnow : s.now ≤ now := hclock
      cases hturn : s.turnEntered with
      | none => simpa [step, hended, hturn] using h.pass hnow
      | some entered =>
        cases hphase : s.inGrace with
        | true => simpa [step, hended, hturn, hphase] using h.pass hnow
        | false =>
          simpa [step, hended, hturn, hphase] using h.openEpoch hturn hphase hnow cpu
    | closeEpoch now cpu =>
      obtain ⟨hnow, hburned⟩ := hclock
      cases hepoch : s.cpuEpoch with
      | none => simpa [step, hended, hepoch] using h.pass hnow
      | some e =>
        simpa [step, hended, hepoch] using h.closeEpoch hepoch hnow (hburned e hepoch)
    | stamp now =>
      have hnow : s.now ≤ now := hclock
      simpa [step, hended] using h.stamp hnow
    | handOver freezeAt restartAt =>
      obtain ⟨hfreeze, hrestart⟩ := hclock
      cases hturn : s.turnEntered with
      | none => simpa [step, hended, hturn] using h
      | some entered =>
        cases hstamp : s.stampedAt with
        | none => simpa [step, hended, hturn, hstamp] using h
        | some stampedAt =>
          cases hphase : s.inGrace with
          | true => simpa [step, hended, hturn, hstamp, hphase] using h
          | false =>
            cases hepoch : s.cpuEpoch with
            | some e => simpa [step, hended, hturn, hstamp, hphase, hepoch] using h
            | none =>
              simpa [step, hended, hturn, hstamp, hphase, hepoch] using
                h.handOver hturn hstamp hphase hepoch hfreeze hrestart
    | finishGrace now =>
      have hnow : s.now ≤ now := hclock
      cases hphase : s.inGrace with
      | false => simpa [step, hended, hphase] using h
      | true => simpa [step, hended, hphase] using h.finishGrace hnow
    | conclude now =>
      have hnow : s.now ≤ now := hclock
      cases hstamp : s.stampedAt with
      | none => simpa [step, hended, hstamp] using h
      | some stampedAt =>
        cases hepoch : s.cpuEpoch with
        | some e => simpa [step, hended, hstamp, hepoch] using h
        | none => simpa [step, hended, hstamp, hepoch] using h.conclude hstamp hepoch hnow

theorem bill_start (s : RunClock) (a b : Nat) : (s.bill a b).start = s.start := by
  unfold bill
  split <;> rfl

theorem skip_start (s : RunClock) (a b : Nat) : (s.skip a b).start = s.start := by
  unfold skip
  split <;> rfl

/-- The start of a run is never moved. -/
theorem step_start (s : RunClock) (op : WallOp) : (s.step op).start = s.start := by
  cases op <;> simp only [step]
  all_goals repeat' split
  all_goals first
    | rfl
    | simp only [RunClock.enterTurn, RunClock.leaveTurn, skip_start, bill_start]

end RunClock

/-! ### The report's three times -/

/-- Rounding keeps the order. -/
theorem roundMicros_mono {a b : Nat} (h : a ≤ b) : roundMicros a ≤ roundMicros b :=
  Nat.div_le_div_right (Nat.add_le_add_right h 500)

namespace WallReport

/-- The duration is taken before the wall counter is read: the wall time is within it only if no
more time has passed in between than the run was not billed for. -/
theorem Sound.wall_le_duration {start : Nat} {r : WallReport} (h : r.Sound start) :
    r.wallNs ≤ r.durationNs ↔ r.wallAt - r.stampedAt ≤ r.lag := by
  have hwall := h.wallAt
  have hduration := h.duration
  omega

end WallReport

namespace RunClock

/-- What is folded into the two counters, and what every report reads off them, are spans of the
run's life that do not overlap; no report's CPU time is over its wall time.  Its wall time is
within its duration just when the time from the stamp of the duration to the reading of the wall
counter is at most the time that the run was not billed for. -/
theorem wall_accounting (start : Nat) (inputs : List WallOp)
    (hclocked : Along step Clocked (init start) inputs) :
    let s := exec step (init start) inputs
    ((s.runSpans ++ s.graceSpans).Pairwise fun x y => x.2 ≤ y.1) ∧
      (∀ x ∈ s.runSpans ++ s.graceSpans, start ≤ x.1 ∧ x.1 ≤ x.2 ∧ x.2 ≤ s.now) ∧
      s.counted = totalTime s.runSpans ∧ s.graceCounted = totalTime s.graceSpans ∧
      (∀ r ∈ s.graceReports,
        ((r.runSpans ++ r.graceSpans).Pairwise fun x y => x.2 ≤ y.1) ∧
          (∀ x ∈ r.runSpans ++ r.graceSpans, start ≤ x.1 ∧ x.1 ≤ x.2 ∧ x.2 ≤ r.madeAt) ∧
          r.wallNs = totalTime r.graceSpans) ∧
      ∀ r ∈ s.reports,
        (r.runSpans.Pairwise fun x y => x.2 ≤ y.1) ∧
          (∀ x ∈ r.runSpans, start ≤ x.1 ∧ x.1 ≤ x.2 ∧ x.2 ≤ r.madeAt) ∧
          r.wallNs = totalTime r.runSpans ∧
          r.cpuNs ≤ r.wallNs ∧ roundMicros r.cpuNs ≤ roundMicros r.wallNs ∧
          (r.wallNs ≤ r.durationNs ↔ r.wallAt - r.stampedAt ≤ r.lag) ∧
          (r.wallNs ≤ r.durationNs → roundMicros r.wallNs ≤ roundMicros r.durationNs) := by
  intro s
  have hs : s.Sound ∧ s.start = start := by
    refine Along.invariant (I := fun s => s.Sound ∧ s.start = start) ?_ ⟨init_sound start, rfl⟩
      hclocked
    intro s op ⟨hsound, hstart⟩ hclock
    exact ⟨step_sound s op hsound hclock, (step_start s op).trans hstart⟩
  obtain ⟨hsound, hstart⟩ := hs
  have hspans := hsound.spans.mono hsound.edge
  rw [hstart] at hspans
  refine ⟨hspans.disjoint, hspans.within, hsound.counted, hsound.graceCounted, ?_, ?_⟩
  · intro r hr
    have hreport := hsound.graceReports r hr
    rw [hstart] at hreport
    exact ⟨hreport.spans.disjoint, hreport.spans.within, hreport.wall⟩
  · intro r hr
    have hreport := hsound.reports r hr
    rw [hstart] at hreport
    exact ⟨hreport.spans.disjoint, hreport.spans.within, hreport.wall, hreport.cpu,
      roundMicros_mono hreport.cpu, hreport.wall_le_duration, roundMicros_mono⟩

/-- A run whose answer is delivered late: a turn, a wait, a turn, and grace. -/
def lateAnswer : List WallOp :=
  [.openEpoch 1000 0, .closeEpoch 3000 1500, .leaveTurn 4000 4000, .enterTurn 9000 20000,
    .stamp 22000, .handOver 23000 23000, .leaveTurn 24000 24000, .finishGrace 30000,
    .conclude 31000]

theorem wall_accounting_late :
    let s := exec step (init 0) lateAnswer
    s.reports.length = 2 ∧ s.graceReports.length = 1 ∧
      ∀ r ∈ s.reports, r.cpuNs ≤ r.wallNs ∧ r.wallNs ≤ r.durationNs := by
  have hclocked : Along step Clocked (init 0) lateAnswer := by decide
  obtain ⟨-, -, -, -, -, hreports⟩ := wall_accounting 0 lateAnswer hclocked
  have hlag : ∀ r ∈ (exec step (init 0) lateAnswer).reports, r.wallAt - r.stampedAt ≤ r.lag := by
    decide
  refine ⟨by decide, by decide, ?_⟩
  intro r hr
  obtain ⟨-, -, -, hcpu, -, hwall, -⟩ := hreports r hr
  exact ⟨hcpu, hwall.mpr (hlag r hr)⟩

/-- A run that settles in its start turn: its duration is taken one millisecond before its wall
time. -/
def settledAtOnce : List WallOp :=
  [.openEpoch 100000 0, .closeEpoch 900000 700000, .stamp 1000000, .leaveTurn 1500000 1500000,
    .conclude 2000000]

theorem wall_exceeds_duration :
    ¬ ∀ (start : Nat) (inputs : List WallOp), Along step Clocked (init start) inputs →
      ∀ r ∈ (exec step (init start) inputs).reports,
        roundMicros r.cpuNs ≤ roundMicros r.wallNs ∧
          roundMicros r.wallNs ≤ roundMicros r.durationNs := by
  intro hall
  have hclocked : Along step Clocked (init 0) settledAtOnce := by decide
  have hreports := hall 0 settledAtOnce hclocked
  revert hreports
  decide

end RunClock

end Wall

end Iso4
