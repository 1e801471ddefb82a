/-
The order in which the timers of one turn fire.

* `SetTimer.InStep` — two calls of a turn whose instants are ordered as their scheduled times;
* `Holds` — a run whose pending timers are those of the turn;
* `exec_fires` — the timers fire by their instants;
* `timers_on_schedule` — a turn's timers fire on schedule exactly when its calls are in step.
-/
import Iso4.TimerClocks
import Mathlib.Algebra.Order.BigOperators.Group.List
import Mathlib.Algebra.Order.Ring.Nat

namespace Iso4

open Js

/-! ### Turns -/

/-- One `setTimeout` call of a turn. -/
structure TimerCall where
  delay : Option JsNumber
  reading : ClockReading
  deriving DecidableEq

/-- A timer of the turn. -/
structure SetTimer where
  id : Nat
  /-- The frozen clock and the delay. -/
  scheduled : Nat
  reading : ClockReading
  deriving DecidableEq

namespace SetTimer

def lead (a : SetTimer) : Nat := a.scheduled - a.reading.wallMs

def deadline (a : SetTimer) : Nat := a.reading.mono + fromMillis a.lead

/-- The millisecond in which the timer can fire at the earliest. -/
def ripe (a : SetTimer) : Nat := max a.scheduled a.reading.wallMs

instance : DecidableRel Precedes := fun p q =>
  inferInstanceAs (Decidable (p.2 < q.2 ∨ p.2 = q.2 ∧ p.1 ≤ q.1))

/-- Scheduled before, or for the same time and created before. -/
def ByTime (a b : SetTimer) : Prop := Precedes (a.id, a.scheduled) (b.id, b.scheduled)

def ByDeadline (a b : SetTimer) : Prop := Precedes (a.id, a.deadline) (b.id, b.deadline)

instance : DecidableRel ByTime := fun a b =>
  inferInstanceAs (Decidable (a.scheduled < b.scheduled ∨ a.scheduled = b.scheduled ∧ a.id ≤ b.id))

instance : DecidableRel ByDeadline := fun a b =>
  inferInstanceAs (Decidable (a.deadline < b.deadline ∨ a.deadline = b.deadline ∧ a.id ≤ b.id))

/-- Of two calls, the first and a later one: where they can fire in the same millisecond, the
fractions of the wall at the calls are ordered as the scheduled times; and a timer scheduled
earlier but armed later is not overdue in a later millisecond. -/
def InStep (a b : SetTimer) : Prop :=
  (a.scheduled ≤ b.scheduled → a.ripe = b.ripe → a.reading.phase ≤ b.reading.phase) ∧
    (b.scheduled < a.scheduled →
      b.ripe ≤ a.ripe ∧ (b.ripe = a.ripe → b.reading.phase < a.reading.phase))

instance (a b : SetTimer) : Decidable (InStep a b) := inferInstanceAs (Decidable (_ ∧ _))

/-- Two calls in step are ordered alike by their instants and by their scheduled times. -/
theorem inStep_iff {a b : SetTimer} (hid : a.id < b.id) (hread : b.reading.Follows a.reading) :
    InStep a b ↔ (ByTime a b ↔ ByDeadline a b) ∧ (ByTime b a ↔ ByDeadline b a) := by
  obtain ⟨hwall, hlock⟩ := hread
  simp only [InStep, ByTime, ByDeadline, Precedes, ripe, deadline, lead, fromMillis,
    ClockReading.wallMs, ClockReading.phase]
  omega

theorem byTime_antisymm {a b : SetTimer} (h : ByTime a b) (h' : ByTime b a) : a.id = b.id := by
  simp only [ByTime, Precedes] at h h'
  omega

theorem byDeadline_antisymm {a b : SetTimer} (h : ByDeadline a b) (h' : ByDeadline b a) :
    a.id = b.id := by
  simp only [ByDeadline, Precedes] at h h'
  omega

instance : Std.Total ByTime := ⟨fun a b => by simp only [ByTime, Precedes]; omega⟩

instance : IsTrans SetTimer ByTime :=
  ⟨fun a b c h h' => by simp only [ByTime, Precedes] at *; omega⟩

instance : Std.Total ByDeadline := ⟨fun a b => by simp only [ByDeadline, Precedes]; omega⟩

instance : IsTrans SetTimer ByDeadline :=
  ⟨fun a b c h h' => by simp only [ByDeadline, Precedes] at *; omega⟩

end SetTimer

/-- The timers of some calls, at a frozen clock, from an id on. -/
def armedFrom (clock : Nat) : Nat → List TimerCall → List SetTimer
  | _, [] => []
  | id, c :: calls => ⟨id, clock + timerDelay c.delay, c.reading⟩ :: armedFrom clock (id + 1) calls

namespace ClockRun

/-- The timers that a turn arms: the calls beyond the cap throw. -/
def armed (s : ClockRun) (calls : List TimerCall) : List SetTimer :=
  armedFrom s.clock (s.timers.table.lastId + 1) (calls.take maxPendingTimers)

/-- What the callbacks of the turn should see: each timer once, by its scheduled time and then by
creation, at its scheduled time. -/
def schedule (s : ClockRun) (calls : List TimerCall) : List (Nat × Nat) :=
  ((s.armed calls).insertionSort SetTimer.ByTime).map fun a => (a.id, a.scheduled)

def turn (calls : List TimerCall) : List (ClockOp × ClockReading) :=
  calls.map fun c => (.setTimeout c.delay, c.reading)

/-- The loop looks for due timers, at some readings. -/
def looks (readings : List ClockReading) : List (ClockOp × ClockReading) :=
  readings.map fun r => (.timer, r)

/-- Whenever the loop looks afterwards, the callbacks have run on schedule. -/
def OnSchedule (s : ClockRun) (calls : List TimerCall) : Prop :=
  ∀ readings, Execution.Along step Lockstep s (turn calls ++ looks readings) →
    (Execution.exec step s (turn calls ++ looks readings)).fired <+: s.fired ++ s.schedule calls

/-! ### A run that holds the turn's timers -/

/-- The pending timers of a run. -/
structure Holds (s : ClockRun) (D : List SetTimer) : Prop where
  tracks : s.timers.Tracks
  live : (liveTimers s.timers.log).Perm (D.map fun a => (a.id, a.deadline))
  scheduled : ∀ a ∈ D, s.scheduled.lookup a.id = some a.scheduled

variable {s : ClockRun} {D : List SetTimer}

theorem Holds.perm {D' : List SetTimer} (h : s.Holds D) (hperm : D.Perm D') : s.Holds D' where
  tracks := h.tracks
  live := h.live.trans (hperm.map _)
  scheduled := fun a ha => h.scheduled a (hperm.mem_iff.mpr ha)

theorem Holds.ids_nodup (h : s.Holds D) : (D.map SetTimer.id).Nodup := by
  have hlive := (h.live.map Prod.fst).nodup_iff.mp (live_nodup h.tracks.nodup)
  rw [List.map_map] at hlive
  exact hlive

theorem Holds.count (h : s.Holds D) : s.timers.table.entries.keys.length = D.length := by
  rw [h.tracks.count, h.live.length_eq, List.length_map]

/-- A run that has none. -/
theorem Holds.none (htracks : s.timers.Tracks) (hlive : liveTimers s.timers.log = []) :
    s.Holds [] where
  tracks := htracks
  live := by simp [hlive]
  scheduled := by simp

theorem Holds.later (h : s.Holds D) (r : ClockReading) : Holds { s with now := r } D :=
  ⟨h.tracks, h.live, h.scheduled⟩

/-- A call beyond the cap arms nothing. -/
theorem Holds.refused (h : s.Holds D) (hfull : D.length ≥ maxPendingTimers) (c : TimerCall) :
    (s.step (.setTimeout c.delay, c.reading)).Holds D ∧
      (s.step (.setTimeout c.delay, c.reading)).clock = s.clock ∧
      (s.step (.setTimeout c.delay, c.reading)).fired = s.fired ∧
      armedIds (s.step (.setTimeout c.delay, c.reading)).timers.log = armedIds s.timers.log := by
  have hkeys : s.timers.table.entries.keys.length ≥ maxPendingTimers := by rwa [h.count]
  have hstep : s.step (.setTimeout c.delay, c.reading) =
      { s with now := c.reading, timers := ⟨s.timers.table, .refused :: s.timers.log⟩ } := by
    simp [step, stepAt, ClockRun.setTimeout, hkeys, TimerRun.step, TimerTable.setTimeout]
  rw [hstep]
  exact ⟨⟨h.tracks.same rfl rfl rfl h.tracks.kept fun k hk => hk, h.live, h.scheduled⟩, rfl, rfl,
    rfl⟩

/-- A call below the cap. -/
theorem Holds.arm (h : s.Holds D) (hroom : D.length < maxPendingTimers) (c : TimerCall)
    (hcount : (armedIds s.timers.log).length + 1 < 2 ^ 32) :
    (s.step (.setTimeout c.delay, c.reading)).Holds
        (D ++ [⟨s.timers.table.lastId + 1, s.clock + timerDelay c.delay, c.reading⟩]) ∧
      (s.step (.setTimeout c.delay, c.reading)).clock = s.clock ∧
      (s.step (.setTimeout c.delay, c.reading)).fired = s.fired ∧
      (s.step (.setTimeout c.delay, c.reading)).timers.table.lastId =
        s.timers.table.lastId + 1 ∧
      (armedIds (s.step (.setTimeout c.delay, c.reading)).timers.log).length =
        (armedIds s.timers.log).length + 1 := by
  have hkeys : ¬ s.timers.table.entries.keys.length ≥ maxPendingTimers := by
    rw [h.count]
    omega
  let deadline := c.reading.mono + fromMillis (s.clock + timerDelay c.delay - c.reading.wallMs)
  obtain ⟨t, ht, hlast, -, -, -⟩ := TimerTable.setTimeout_some hkeys deadline
  have hid : t.lastId = s.timers.table.lastId + 1 := by
    rw [hlast, h.tracks.lastId, Nat.mod_eq_of_lt hcount]
    omega
  have htimers : s.timers.step (.setTimeout deadline) =
      ⟨t, .armed t.lastId deadline :: s.timers.log⟩ := by
    simp [TimerRun.step, ht]
  have hstep : s.step (.setTimeout c.delay, c.reading) =
      { s with
        now := c.reading
        timers := ⟨t, .armed t.lastId deadline :: s.timers.log⟩
        scheduled := (t.lastId, s.clock + timerDelay c.delay) :: s.scheduled } := by
    rw [← htimers]
    simp only [step, stepAt, ClockRun.setTimeout, hkeys, if_false]
    rw [show c.reading.mono + fromMillis (s.clock + timerDelay c.delay - c.reading.wallMs) =
      deadline from rfl, htimers]
  have htracks := (h.tracks.setTimeout deadline (by
    rw [htimers]
    exact hcount)).1
  rw [htimers] at htracks
  rw [hstep]
  refine ⟨⟨htracks, ?_, ?_⟩, rfl, rfl, hid, rfl⟩
  · show ((t.lastId, deadline) :: liveTimers s.timers.log).Perm _
    rw [List.map_append, hid]
    exact (h.live.cons _).trans (List.perm_append_singleton _ _).symm
  · intro a ha
    show List.lookup a.id ((t.lastId, s.clock + timerDelay c.delay) :: s.scheduled) = _
    rw [List.lookup_cons, hid]
    rcases List.mem_append.mp ha with ha | ha
    · -- The ids of the timers armed before are smaller.
      have hlive : (a.id, a.deadline) ∈ liveTimers s.timers.log :=
        h.live.mem_iff.mpr (List.mem_map.mpr ⟨a, ha, rfl⟩)
      have hle := h.tracks.ids _ (armed_of_live hlive)
      rw [← h.tracks.lastId] at hle
      have hne : a.id ≠ s.timers.table.lastId + 1 := by omega
      rw [beq_false_of_ne hne]
      exact h.scheduled a ha
    · obtain rfl := List.mem_singleton.mp ha
      simp

/-- The calls of a turn, one after the other. -/
theorem Holds.turn (h : s.Holds D) (calls : List TimerCall)
    (hcount : (armedIds s.timers.log).length + calls.length < 2 ^ 32) :
    (Execution.exec step s (ClockRun.turn calls)).Holds
        (D ++ armedFrom s.clock (s.timers.table.lastId + 1)
          (calls.take (maxPendingTimers - D.length))) ∧
      (Execution.exec step s (ClockRun.turn calls)).clock = s.clock ∧
      (Execution.exec step s (ClockRun.turn calls)).fired = s.fired := by
  induction calls generalizing s D with
  | nil => exact ⟨by simpa [ClockRun.turn, armedFrom] using h, rfl, rfl⟩
  | cons c calls ih =>
    rw [List.length_cons] at hcount
    show (Execution.exec step (s.step (.setTimeout c.delay, c.reading)) _).Holds _ ∧ _ ∧ _
    by_cases hroom : D.length < maxPendingTimers
    · obtain ⟨harm, hclock, hfired, hlast, hids⟩ := h.arm hroom c (by omega)
      obtain ⟨hturn, hclock', hfired'⟩ := ih harm (by rw [hids]; omega)
      refine ⟨?_, hclock'.trans hclock, hfired'.trans hfired⟩
      have htake : maxPendingTimers - D.length = maxPendingTimers - (D.length + 1) + 1 := by omega
      rw [htake, List.take_succ_cons, armedFrom]
      rw [hclock, hlast, List.length_append, List.length_singleton, List.append_assoc] at hturn
      exact hturn
    · obtain ⟨hrefused, hclock, hfired, hids⟩ := h.refused (Nat.not_lt.mp hroom) c
      obtain ⟨hturn, hclock', hfired'⟩ := ih hrefused (by rw [hids]; omega)
      refine ⟨?_, hclock'.trans hclock, hfired'.trans hfired⟩
      have htake : maxPendingTimers - D.length = 0 := by omega
      rw [htake] at hturn ⊢
      exact hturn

/-! ### Firing -/

/-- The callbacks of some timers in their order, and the clock that each sees. -/
def observed : Nat → List SetTimer → List (Nat × Nat)
  | _, [] => []
  | clock, a :: D => (a.id, max clock a.scheduled) :: observed (max clock a.scheduled) D

theorem observed_length (clock : Nat) (D : List SetTimer) : (observed clock D).length = D.length := by
  induction D generalizing clock with
  | nil => rfl
  | cons a D ih => simp [observed, ih]

theorem observed_ids (clock : Nat) (D : List SetTimer) :
    (observed clock D).map Prod.fst = D.map SetTimer.id := by
  induction D generalizing clock with
  | nil => rfl
  | cons a D ih => simp [observed, ih]

/-- Timers in the order of their scheduled times each see their own. -/
theorem observed_sorted {clock : Nat} (hclock : ∀ a ∈ D, clock ≤ a.scheduled)
    (hsorted : D.Pairwise SetTimer.ByTime) :
    observed clock D = D.map fun a => (a.id, a.scheduled) := by
  induction D generalizing clock with
  | nil => rfl
  | cons a D ih =>
    obtain ⟨hfirst, hsorted⟩ := List.pairwise_cons.mp hsorted
    have hmax : max clock a.scheduled = a.scheduled :=
      max_eq_right (hclock a List.mem_cons_self)
    have hrest : ∀ b ∈ D, a.scheduled ≤ b.scheduled := by
      intro b hb
      have := hfirst b hb
      simp only [SetTimer.ByTime, Precedes] at this
      omega
    rw [observed, hmax, ih hrest hsorted, List.map_cons]

/-- The earliest of the timers that are held is the first. -/
theorem Holds.peek {a : SetTimer} (h : s.Holds (a :: D))
    (hfirst : ∀ b ∈ D, SetTimer.ByDeadline a b) :
    ∃ k, s.timers.table.pruned.peek = some k ∧ k.id = a.id ∧ k.deadline = a.deadline := by
  have hlive : ∀ b ∈ a :: D, (b.id, b.deadline) ∈ liveTimers s.timers.log :=
    fun b hb => h.live.mem_iff.mpr (List.mem_map.mpr ⟨b, hb, rfl⟩)
  cases hk : s.timers.table.pruned.peek with
  | none =>
    have hmem := hlive a List.mem_cons_self
    rw [h.tracks.peek_none hk] at hmem
    simp at hmem
  | some k =>
    refine ⟨k, rfl, ?_⟩
    obtain ⟨hmem, hleast⟩ := h.tracks.peek_some hk
    obtain ⟨b, hb, heq⟩ := List.mem_map.mp (h.live.mem_iff.mp hmem)
    simp only [Prod.mk.injEq] at heq
    obtain ⟨hid, hdeadline⟩ := heq
    have hle := hleast _ (hlive a List.mem_cons_self)
    have hge : Precedes (a.id, a.deadline) (b.id, b.deadline) := by
      rcases List.mem_cons.mp hb with rfl | hb
      · exact Or.inr ⟨rfl, le_refl _⟩
      · exact hfirst b hb
    simp only [Precedes] at hle hge
    omega

theorem Holds.waits {a : SetTimer} (h : s.Holds (a :: D))
    (hfirst : ∀ b ∈ D, SetTimer.ByDeadline a b) {r : ClockReading} (hr : ¬ a.deadline ≤ r.mono) :
    s.step (.timer, r) = { s with now := r } := by
  obtain ⟨k, hk, -, hdeadline⟩ := h.peek hfirst
  simp [step, stepAt, TimerTable.peekDeadline, hk, hdeadline, hr]

theorem Holds.idle (h : s.Holds []) (r : ClockReading) : s.step (.timer, r) = { s with now := r } := by
  have hk : s.timers.table.pruned.peek = Option.none := by
    cases hk : s.timers.table.pruned.peek with
    | none => rfl
    | some k =>
      have hmem := h.live.mem_iff.mp (h.tracks.peek_some hk).1
      simp at hmem
  simp [step, stepAt, TimerTable.peekDeadline, hk]

/-- A look at a time when the first timer is due. -/
theorem Holds.fire {a : SetTimer} (h : s.Holds (a :: D))
    (hfirst : ∀ b ∈ D, SetTimer.ByDeadline a b) {r : ClockReading} (hr : a.deadline ≤ r.mono) :
    (s.step (.timer, r)).Holds D ∧
      (s.step (.timer, r)).clock = max s.clock a.scheduled ∧
      (s.step (.timer, r)).fired = s.fired ++ [(a.id, max s.clock a.scheduled)] := by
  obtain ⟨k, hk, hid, hdeadline⟩ := h.peek hfirst
  obtain ⟨hfst, -, -, -, -⟩ := TimerTable.fire_some hk
  have htimers : s.timers.step .popEarliest =
      ⟨s.timers.table.fire.2, .fired (some (k.id, k.deadline)) :: s.timers.log⟩ := by
    simp [TimerRun.step, hfst]
  have hscheduled := h.scheduled a List.mem_cons_self
  have hstep : s.step (.timer, r) =
      { s with
        now := r
        timers := s.timers.step .popEarliest
        clock := max s.clock a.scheduled
        fired := s.fired ++ [(a.id, max s.clock a.scheduled)] } := by
    simp [step, stepAt, TimerTable.peekDeadline, hk, hdeadline, hr, timerTurn, hfst, advanceTo,
      hid, hscheduled]
  rw [hstep]
  refine ⟨⟨(h.tracks.popEarliest).1, ?_, fun b hb => h.scheduled b (List.mem_cons_of_mem _ hb)⟩,
    rfl, rfl⟩
  rw [htimers]
  show ((liveTimers s.timers.log).filter fun p => p.1 ≠ k.id).Perm _
  have hnodup := h.ids_nodup
  rw [List.map_cons, List.nodup_cons] at hnodup
  have hlive := h.live.filter fun p : Nat × Nat => p.1 ≠ k.id
  have hothers : (D.map fun b => (b.id, b.deadline)).filter (fun p => p.1 ≠ k.id) =
      D.map fun b => (b.id, b.deadline) := by
    refine List.filter_eq_self.mpr fun p hp => ?_
    obtain ⟨b, hb, rfl⟩ := List.mem_map.mp hp
    have hne : b.id ≠ a.id := fun heq => hnodup.1 (heq ▸ List.mem_map_of_mem hb)
    simpa [hid] using hne
  rw [List.map_cons, List.filter_cons_of_neg (by simp [hid]), hothers] at hlive
  exact hlive

/-- The timers fire by their instants, whenever the loop looks; after as many looks at a time
when all are due, all of them have. -/
theorem exec_fires (h : s.Holds D) (hsorted : D.Pairwise SetTimer.ByDeadline)
    (readings : List ClockReading) :
    ∃ n, (Execution.exec step s (looks readings)).fired =
        s.fired ++ observed s.clock (D.take n) ∧
      ((∀ r ∈ readings, ∀ a ∈ D, a.deadline ≤ r.mono) → D.length ≤ readings.length →
        D.take n = D) := by
  induction readings generalizing s D with
  | nil =>
    refine ⟨0, by simp [looks, observed], fun _ hlength => ?_⟩
    have hnil : D = [] := List.length_eq_zero_iff.mp (Nat.le_zero.mp hlength)
    rw [hnil]
    rfl
  | cons r readings ih =>
    show ∃ n, (Execution.exec step (s.step (.timer, r)) (looks readings)).fired = _ ∧ _
    cases D with
    | nil =>
      rw [h.idle r]
      obtain ⟨n, hfired, -⟩ := ih (h.later r) hsorted
      exact ⟨n, hfired, by simp⟩
    | cons a D =>
      obtain ⟨hfirst, hrest⟩ := List.pairwise_cons.mp hsorted
      by_cases hr : a.deadline ≤ r.mono
      · obtain ⟨hholds, hclock, hfired⟩ := h.fire hfirst hr
        obtain ⟨n, hfires, hall⟩ := ih hholds hrest
        refine ⟨n + 1, ?_, fun hdue hlength => ?_⟩
        · rw [hfires, hfired, hclock, List.append_assoc]
          rfl
        · rw [List.take_succ_cons, hall (fun r hr b hb => hdue r (List.mem_cons_of_mem _ hr) b
            (List.mem_cons_of_mem _ hb)) (Nat.le_of_succ_le_succ hlength)]
      · rw [h.waits hfirst hr]
        obtain ⟨n, hfires, -⟩ := ih (h.later r) hsorted
        exact ⟨n, hfires, fun hdue _ => absurd (hdue r List.mem_cons_self a List.mem_cons_self) hr⟩

end ClockRun

/-! ### The two orders -/

theorem ClockReading.Follows.refl (r : ClockReading) : r.Follows r := ⟨le_refl _, rfl⟩

theorem ClockReading.Follows.trans {a b c : ClockReading} (h : c.Follows b) (h' : b.Follows a) :
    c.Follows a := by
  simp only [ClockReading.Follows] at *
  omega

/-- Of two members of an ordered list, one comes first. -/
theorem pairwise_or {α : Type*} {R : α → α → Prop} {l : List α} (h : l.Pairwise R) {a b : α}
    (ha : a ∈ l) (hb : b ∈ l) (hne : a ≠ b) : R a b ∨ R b a := by
  have : Std.Symm fun a b => R a b ∨ R b a := ⟨fun _ _ h => h.symm⟩
  have hor : l.Pairwise fun a b => R a b ∨ R b a := h.imp Or.inl
  exact hor.forall ha hb hne

theorem mem_armedFrom {clock id : Nat} {calls : List TimerCall} {a : SetTimer}
    (h : a ∈ armedFrom clock id calls) :
    (∃ c ∈ calls, a.reading = c.reading) ∧ id ≤ a.id ∧ clock ≤ a.scheduled := by
  induction calls generalizing id with
  | nil => simp [armedFrom] at h
  | cons c calls ih =>
    simp only [armedFrom, List.mem_cons] at h
    rcases h with rfl | h
    · exact ⟨⟨c, List.mem_cons_self, rfl⟩, le_refl _, Nat.le_add_right _ _⟩
    · obtain ⟨⟨d, hd, hread⟩, hid, hclock⟩ := ih h
      exact ⟨⟨d, List.mem_cons_of_mem _ hd, hread⟩, Nat.le_of_succ_le hid, hclock⟩

/-- The timers of a turn, in the order of the calls. -/
theorem armedFrom_pairwise {clock id : Nat} {calls : List TimerCall}
    (h : calls.Pairwise fun c d => d.reading.Follows c.reading) :
    (armedFrom clock id calls).Pairwise fun a b =>
      a.id < b.id ∧ b.reading.Follows a.reading := by
  induction calls generalizing id with
  | nil => exact List.Pairwise.nil
  | cons c calls ih =>
    obtain ⟨hfirst, hrest⟩ := List.pairwise_cons.mp h
    refine List.pairwise_cons.mpr ⟨fun b hb => ?_, ih hrest⟩
    obtain ⟨⟨d, hd, hread⟩, hid, -⟩ := mem_armedFrom hb
    refine ⟨hid, ?_⟩
    rw [hread]
    exact hfirst d hd

namespace ClockRun

variable {s : ClockRun} {calls : List TimerCall}

theorem step_now (s : ClockRun) (i : ClockOp × ClockReading) : (s.step i).now = i.2 := by
  obtain ⟨op, r⟩ := i
  cases op with
  | setTimeout delay =>
    show (ClockRun.setTimeout _ delay r).now = r
    unfold ClockRun.setTimeout
    dsimp only
    split <;> rfl
  | clearTimeout argument => rfl
  | frame => rfl
  | timer =>
    simp only [step, stepAt]
    split
    · rfl
    · split
      · unfold timerTurn
        dsimp only
        split <;> rfl
      · rfl

/-- The readings of a turn go on alike from one call to each later one. -/
theorem turn_readings (h : Execution.Along step Lockstep s (turn calls)) :
    (calls.Pairwise fun c d => d.reading.Follows c.reading) ∧
      ∀ c ∈ calls, c.reading.Follows s.now := by
  induction calls generalizing s with
  | nil => simp
  | cons c calls ih =>
    obtain ⟨hc, hrest⟩ := h
    obtain ⟨hpairs, hall⟩ := ih hrest
    rw [step_now] at hall
    refine ⟨List.pairwise_cons.mpr ⟨hall, hpairs⟩, fun d hd => ?_⟩
    rcases List.mem_cons.mp hd with rfl | hd
    · exact hc
    · exact (hall d hd).trans hc

theorem armed_pairwise (h : Execution.Along step Lockstep s (turn calls)) :
    (s.armed calls).Pairwise fun a b => a.id < b.id ∧ b.reading.Follows a.reading :=
  armedFrom_pairwise ((turn_readings h).1.sublist (List.take_sublist _ _))

/-- The calls of a turn are in step when the two orders of its timers agree. -/
theorem inStep_pairwise_iff (h : Execution.Along step Lockstep s (turn calls)) :
    (s.armed calls).Pairwise SetTimer.InStep ↔
      ∀ a ∈ s.armed calls, ∀ b ∈ s.armed calls, a.ByTime b ↔ a.ByDeadline b := by
  have hpairs := armed_pairwise h
  constructor
  · intro hstep a ha b hb
    have hboth : (s.armed calls).Pairwise fun a b =>
        (a.ByTime b ↔ a.ByDeadline b) ∧ (b.ByTime a ↔ b.ByDeadline a) := by
      refine (hstep.and hpairs).imp fun {a b} hab => ?_
      exact (SetTimer.inStep_iff hab.2.1 hab.2.2).mp hab.1
    by_cases heq : a = b
    · subst heq
      exact iff_of_true (Or.inr ⟨rfl, le_refl _⟩) (Or.inr ⟨rfl, le_refl _⟩)
    · rcases pairwise_or hboth ha hb heq with h | h
      · exact h.1
      · exact h.2
  · intro hagree
    refine hpairs.imp_of_mem fun {a b} ha hb hab => ?_
    exact (SetTimer.inStep_iff hab.1 hab.2).mpr ⟨hagree a ha b hb, hagree b hb a ha⟩

/-- Two timers of a turn with one id are one timer. -/
theorem eq_of_id (h : Execution.Along step Lockstep s (turn calls)) {a b : SetTimer}
    (ha : a ∈ s.armed calls) (hb : b ∈ s.armed calls) (hid : a.id = b.id) : a = b := by
  by_contra hne
  rcases pairwise_or (armed_pairwise h) ha hb hne with hab | hab
  · exact Nat.ne_of_lt hab.1 hid
  · exact Nat.ne_of_lt hab.1 hid.symm

theorem eq_of_ids {as bs : List SetTimer} (hinj : ∀ a ∈ as, ∀ b ∈ bs, a.id = b.id → a = b)
    (hids : as.map SetTimer.id = bs.map SetTimer.id) : as = bs := by
  induction as generalizing bs with
  | nil =>
    cases bs with
    | nil => rfl
    | cons b bs => simp at hids
  | cons a as ih =>
    cases bs with
    | nil => simp at hids
    | cons b bs =>
      simp only [List.map_cons, List.cons.injEq] at hids
      have hab := hinj a List.mem_cons_self b List.mem_cons_self hids.1
      rw [hab, ih (fun a ha b hb => hinj a (List.mem_cons_of_mem _ ha) b
        (List.mem_cons_of_mem _ hb)) hids.2]

/-- Both clocks, later by a time. -/
theorem along_looks {r : ClockReading} (h : r.Follows s.now) (n : Nat) :
    Execution.Along step Lockstep s (looks (List.replicate n r)) := by
  induction n generalizing s with
  | zero => exact trivial
  | succ n ih =>
    refine ⟨h, ih ?_⟩
    rw [step_now]
    exact ClockReading.Follows.refl r

/-- The timers of a turn that starts with none pending fire on schedule exactly when its calls
are in step. -/
theorem onSchedule_iff (htracks : s.timers.Tracks) (hnone : liveTimers s.timers.log = [])
    (hturn : Execution.Along step Lockstep s (turn calls))
    (hcount : (armedIds s.timers.log).length + calls.length < 2 ^ 32) :
    s.OnSchedule calls ↔ (s.armed calls).Pairwise SetTimer.InStep := by
  have hD := List.perm_insertionSort SetTimer.ByDeadline (s.armed calls)
  have hS := List.perm_insertionSort SetTimer.ByTime (s.armed calls)
  have hsortedD := List.pairwise_insertionSort SetTimer.ByDeadline (s.armed calls)
  have hsortedS := List.pairwise_insertionSort SetTimer.ByTime (s.armed calls)
  obtain ⟨hholds, hclock, hfired⟩ := (Holds.none htracks hnone).turn calls hcount
  have hholds : (Execution.exec step s (turn calls)).Holds
      ((s.armed calls).insertionSort SetTimer.ByDeadline) := hholds.perm hD.symm
  have hmem : ∀ a ∈ s.armed calls, s.clock ≤ a.scheduled :=
    fun a ha => (mem_armedFrom ha).2.2
  generalize hDdef : (s.armed calls).insertionSort SetTimer.ByDeadline = D at *
  rw [inStep_pairwise_iff hturn]
  constructor
  · intro hsched a ha b hb
    -- The loop looks often enough, at a time when every timer is due.
    let now := (Execution.exec step s (turn calls)).now
    let wait := (D.map SetTimer.deadline).sum
    let late : ClockReading := ⟨now.wall + wait, now.mono + wait⟩
    have hlate : late.Follows now := by
      simp only [ClockReading.Follows, late]
      omega
    have halong := Execution.Along.append.mpr ⟨hturn, along_looks hlate D.length⟩
    have hstart := hsched _ halong
    obtain ⟨n, hfires, hall⟩ := exec_fires hholds hsortedD (List.replicate D.length late)
    have hdue : ∀ r ∈ List.replicate D.length late, ∀ a ∈ D, a.deadline ≤ r.mono := by
      intro r hr a ha
      obtain rfl := List.eq_of_mem_replicate hr
      have hle : a.deadline ≤ wait := List.le_sum_of_mem (List.mem_map_of_mem ha)
      exact hle.trans (Nat.le_add_left _ _)
    rw [Execution.exec_append, hfires, hall hdue (by simp), hclock, hfired,
      List.prefix_append_right_inj] at hstart
    have hlength : (observed s.clock D).length = (s.schedule calls).length := by
      rw [observed_length, schedule, List.length_map, hD.length_eq, hS.length_eq]
    have hids := congrArg (List.map Prod.fst) (hstart.eq_of_length hlength)
    rw [observed_ids, schedule, List.map_map] at hids
    have heq : D = (s.armed calls).insertionSort SetTimer.ByTime := by
      refine eq_of_ids (fun a ha b hb hid => ?_) hids
      exact eq_of_id hturn (hD.mem_iff.mp ha) (hS.mem_iff.mp hb) hid
    rw [← heq] at hsortedS
    by_cases hab : a = b
    · subst hab
      exact iff_of_true (Or.inr ⟨rfl, le_refl _⟩) (Or.inr ⟨rfl, le_refl _⟩)
    · have hne : a.id ≠ b.id := fun hid => hab (eq_of_id hturn ha hb hid)
      rcases pairwise_or (hsortedS.and hsortedD) (hD.mem_iff.mpr ha) (hD.mem_iff.mpr hb) hab with
        h | h
      · exact iff_of_true h.1 h.2
      · refine iff_of_false (fun h' => hne ?_) fun h' => hne ?_
        · exact SetTimer.byTime_antisymm h' h.1
        · exact SetTimer.byDeadline_antisymm h' h.2
  · intro hagree readings halong
    obtain ⟨n, hfires, -⟩ := exec_fires hholds hsortedD readings
    have hbytime : D.Pairwise SetTimer.ByTime := by
      refine hsortedD.imp_of_mem fun {a b} ha hb hab => ?_
      exact (hagree a (hD.mem_iff.mp ha) b (hD.mem_iff.mp hb)).mpr hab
    have heq : D = (s.armed calls).insertionSort SetTimer.ByTime := by
      refine List.Perm.eq_of_pairwise (fun a b ha hb hab hba => ?_) hbytime hsortedS
        (hD.trans hS.symm)
      exact eq_of_id hturn (hD.mem_iff.mp ha) (hS.mem_iff.mp hb)
        (SetTimer.byTime_antisymm hab hba)
    have hobserved := @observed_sorted (D.take n) s.clock
      (fun a ha => hmem a (hD.mem_iff.mp (List.mem_of_mem_take ha)))
      (hbytime.sublist (List.take_sublist _ _))
    rw [Execution.exec_append, hfires, hclock, hfired, hobserved, List.prefix_append_right_inj,
      schedule, ← heq, List.map_take]
    exact List.take_prefix _ _

/-- The schedule of a turn depends on its delays only. -/
theorem schedule_congr {calls calls' : List TimerCall}
    (h : calls.map TimerCall.delay = calls'.map TimerCall.delay) :
    s.schedule calls = s.schedule calls' := by
  have hitems : ∀ (id : Nat) (cs cs' : List TimerCall),
      cs.map TimerCall.delay = cs'.map TimerCall.delay →
      ((armedFrom s.clock id cs).map fun a => (a.id, a.scheduled)) =
        (armedFrom s.clock id cs').map fun a => (a.id, a.scheduled) := by
    intro id cs
    induction cs generalizing id with
    | nil =>
      intro cs' hcs
      rw [List.map_nil, eq_comm, List.map_eq_nil_iff] at hcs
      rw [hcs]
    | cons c cs ih =>
      intro cs' hcs
      cases cs' with
      | nil => simp at hcs
      | cons c' cs' =>
        simp only [List.map_cons, List.cons.injEq] at hcs
        simp only [armedFrom, List.map_cons, hcs.1, ih (id + 1) cs' hcs.2]
  have hsort : ∀ l : List SetTimer,
      ((l.insertionSort SetTimer.ByTime).map fun a => (a.id, a.scheduled)) =
        (l.map fun a => (a.id, a.scheduled)).insertionSort Precedes :=
    fun l => List.map_insertionSort SetTimer.ByTime Precedes _ l fun a _ b _ => Iff.rfl
  have htake := congrArg (List.take maxPendingTimers) h
  rw [← List.map_take, ← List.map_take] at htake
  rw [schedule, schedule, hsort, hsort]
  exact congrArg _ (hitems _ _ _ htake)

/-- What the model takes from the table is a history of it. -/
theorem exists_history (r : ClockReading) (inputs : List (ClockOp × ClockReading)) :
    ∃ ops, (Execution.exec step (start r) inputs).timers = TimerRun.after ops := by
  refine Execution.exec_invariant (I := fun s : ClockRun => ∃ ops, s.timers = TimerRun.after ops)
    (fun s i hs => ?_) ⟨[], rfl⟩ inputs
  obtain ⟨ops, hops⟩ := hs
  have hnext : ∀ op, ∃ ops, s.timers.step op = TimerRun.after ops := by
    intro op
    exact ⟨ops ++ [op], by rw [TimerRun.after_concat, hops]⟩
  obtain ⟨op, r⟩ := i
  cases op with
  | setTimeout delay =>
    show ∃ ops, (ClockRun.setTimeout _ delay r).timers = _
    unfold ClockRun.setTimeout
    dsimp only
    split
    · exact hnext (.setTimeout _)
    · exact hnext (.setTimeout _)
  | clearTimeout argument => exact hnext (.clearTimeout argument)
  | frame => exact ⟨ops, hops⟩
  | timer =>
    simp only [step, stepAt]
    split
    · exact ⟨ops, hops⟩
    · split
      · unfold timerTurn
        dsimp only
        split
        · exact hnext .popEarliest
        · exact hnext .popEarliest
      · exact ⟨ops, hops⟩

end ClockRun

/-- After any run of calls, frames and callbacks that leaves no timer pending, and for any two
assignments of readings to the calls of a turn: both fire on the one schedule of the delays if
and only if the calls are in step under both.  The frozen clock is behind the wall in every
state of every run. -/
theorem timers_on_schedule (r₀ : ClockReading) (inputs : List (ClockOp × ClockReading))
    (calls calls' : List TimerCall)
    (hnone : liveTimers (Execution.exec ClockRun.step (.start r₀) inputs).timers.log = [])
    (hcount : (armedIds (Execution.exec ClockRun.step (.start r₀) inputs).timers.log).length +
      calls.length < 2 ^ 32)
    (hdelays : calls.map TimerCall.delay = calls'.map TimerCall.delay)
    (hinputs : Execution.Along ClockRun.step ClockRun.Lockstep (.start r₀)
      (inputs ++ ClockRun.turn calls))
    (hinputs' : Execution.Along ClockRun.step ClockRun.Lockstep (.start r₀)
      (inputs ++ ClockRun.turn calls')) :
    ((Execution.exec ClockRun.step (.start r₀) inputs).OnSchedule calls ∧
        (Execution.exec ClockRun.step (.start r₀) inputs).OnSchedule calls' ↔
      ((Execution.exec ClockRun.step (.start r₀) inputs).armed calls).Pairwise SetTimer.InStep ∧
        ((Execution.exec ClockRun.step (.start r₀) inputs).armed calls').Pairwise
          SetTimer.InStep) ∧
    (Execution.exec ClockRun.step (.start r₀) inputs).schedule calls =
      (Execution.exec ClockRun.step (.start r₀) inputs).schedule calls' ∧
    ∀ more, Execution.Along ClockRun.step ClockRun.Lockstep (.start r₀) more →
      (Execution.exec ClockRun.step (.start r₀) more).clock ≤
        (Execution.exec ClockRun.step (.start r₀) more).now.wallMs := by
  obtain ⟨ops, hops⟩ := ClockRun.exists_history r₀ inputs
  obtain ⟨-, hturn⟩ := Execution.Along.append.mp hinputs
  obtain ⟨-, hturn'⟩ := Execution.Along.append.mp hinputs'
  have hlength : calls.length = calls'.length := by
    simpa using congrArg List.length hdelays
  have htracks : (Execution.exec ClockRun.step (.start r₀) inputs).timers.Tracks := by
    rw [hops] at hcount ⊢
    exact (TimerRun.after_tracks ops (by omega)).1
  refine ⟨?_, ClockRun.schedule_congr hdelays, fun more hmore => ClockRun.clock_le_wall r₀ hmore⟩
  rw [ClockRun.onSchedule_iff htracks hnone hturn hcount,
    ClockRun.onSchedule_iff htracks hnone hturn' (by rwa [← hlength])]

/-- Two timers of one delay, armed at 0.2 ms and 0.7 ms, and at 0.2 ms and 1.3 ms. -/
theorem timers_on_schedule_pair :
    let calls : List TimerCall :=
      [⟨some (.finite false 10 1), ⟨200000, 200000⟩⟩, ⟨some (.finite false 10 1), ⟨700000, 700000⟩⟩]
    let calls' : List TimerCall :=
      [⟨some (.finite false 10 1), ⟨200000, 200000⟩⟩,
        ⟨some (.finite false 10 1), ⟨1300000, 1300000⟩⟩]
    (ClockRun.start ⟨0, 0⟩).OnSchedule calls ∧ (ClockRun.start ⟨0, 0⟩).OnSchedule calls' := by
  intro calls calls'
  have hspec := timers_on_schedule ⟨0, 0⟩ [] calls calls' rfl (by decide) (by decide)
    (by decide +kernel) (by decide +kernel)
  exact hspec.1.mpr ⟨by decide +kernel, by decide +kernel⟩

/-- Two timers of one delay, armed at 0.9 ms and at 1.0 ms: the second fires first, and the
first sees the same clock after it. -/
theorem later_timer_first :
    ¬ ∀ (r₀ : ClockReading) (calls : List TimerCall),
      Execution.Along ClockRun.step ClockRun.Lockstep (.start r₀) (ClockRun.turn calls) →
      (ClockRun.start r₀).OnSchedule calls := by
  intro h
  let calls : List TimerCall :=
    [⟨some (.finite false 10 1), ⟨900000, 900000⟩⟩, ⟨some (.finite false 10 1), ⟨1000000, 1000000⟩⟩]
  let late : ClockReading := ⟨20000000, 20000000⟩
  have hsched := h ⟨0, 0⟩ calls (by decide +kernel) [late, late] (by decide +kernel)
  have hfired : (Execution.exec ClockRun.step (.start ⟨0, 0⟩)
      (ClockRun.turn calls ++ ClockRun.looks [late, late])).fired = [(2, 10), (1, 10)] := by
    decide +kernel
  have hschedule : (ClockRun.start ⟨0, 0⟩).fired ++ (ClockRun.start ⟨0, 0⟩).schedule calls =
      [(1, 10), (2, 10)] := by
    decide +kernel
  rw [hfired, hschedule] at hsched
  exact absurd hsched (by decide)

end Iso4
