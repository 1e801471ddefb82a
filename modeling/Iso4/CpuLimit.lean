/-
The CPU limit: turns billed to a phase's budget under the watchdog
(`TurnGuard` and `BudgetEpoch` in `crates/core/src/v8/runloop.rs`, the guard in
`crates/core/src/v8/guard.rs`).

Each instance runs turns one at a time.  A turn arms the guard with the budget
and the cap of its phase, opens the budget's epoch, runs guest code, looks at
the reason cell one last time, closes the epoch and clears the guard.  The
steps of the watchdog and of the sessions (`GuardWorld.step`) come in between
in any order, and any amount of CPU and wall time passes.

Nothing compares the banked CPU with the cap between two turns, so a phase can
start a turn past its cap (`cpu_limit_evaded`).  It cannot in the runs where no
turn leaves its epoch at the cap unseen by the watchdog (`cpu_limit_enforced`).
-/
import Iso4.Guard

namespace Iso4

/-- A phase of a run as the CPU guard sees it. -/
structure CpuPhase where
  budget : Nat
  /-- `cpu_time_ms`, or the grace CPU cap; `0` = none. -/
  capMs : Nat
  grace : Bool
  token : Nat
  deriving DecidableEq, Repr

/-- How the guest code of a turn leaves its run, when nothing killed it. -/
inductive TurnResult where
  | suspend
  | finish
  /-- The value settled and `waitUntil` work goes on under a grace cap. -/
  | grace (capMs : Nat)
  deriving DecidableEq, Repr

/-- What the turn's last look at the reason cell made of it. -/
inductive TurnVerdict where
  | killed (r : TerminationReason)
  | result (r : TurnResult)
  deriving DecidableEq, Repr

/-- Where an owner thread stands in a turn. -/
inductive TurnPc where
  | parked
  /-- Inside `set_for`. -/
  | arming (p : CpuPhase)
  | registering (p : CpuPhase)
  /-- The guard is armed; the epoch is still to be opened. -/
  | entering (p : CpuPhase)
  | running (p : CpuPhase)
  | judged (p : CpuPhase) (v : TurnVerdict)
  /-- The epoch is closed; the guard is still to be cleared. -/
  | left (p : CpuPhase) (v : TurnVerdict)
  | cleared (p : CpuPhase) (v : TurnVerdict)
  /-- The loop ended: the instance is tainted. -/
  | over
  deriving DecidableEq, Repr

def TurnPc.phase : TurnPc → Option CpuPhase
  | .parked => none
  | .arming p => some p
  | .registering p => some p
  | .entering p => some p
  | .running p => some p
  | .judged p _ => some p
  | .left p _ => some p
  | .cleared p _ => some p
  | .over => none

/-- What a turn end meant for its phase. -/
inductive PhaseEnd where
  | suspended
  | succeeded
  | failed (e : RunError)
  /-- A grace phase cut short. -/
  | truncated
  | graced
  deriving DecidableEq, Repr

inductive CpuEvent where
  /-- A turn started with `bankedMs` already on its budget. -/
  | started (p : CpuPhase) (bankedMs : Nat)
  | ended (p : CpuPhase) (elapsedMs : Nat) (out : PhaseEnd)
  deriving DecidableEq, Repr

structure CpuWorld where
  guard : GuardWorld
  nextBudget : Nat
  suspended : Nat → List CpuPhase
  turn : Nat → TurnPc
  log : List CpuEvent

def CpuWorld.new : CpuWorld := ⟨.new, 0, fun _ => [], fun _ => .parked, []⟩

/-- The steps of the guard that are not the owner's own. -/
def GuardOp.external : GuardOp → Bool
  | .tick _ _ => true
  | .pop _ => true
  | .precheck => true
  | .check => true
  | .rearm => true
  | .abort _ _ => true
  | _ => false

inductive CpuOp where
  /-- A step of the clock, the watchdog or a session. -/
  | external (op : GuardOp)
  /-- A job's start turn. -/
  | start (inst token capMs : Nat) (wall : Option Nat)
  /-- The next turn of the `k`th suspended phase. -/
  | resume (inst k : Nat) (wall : Option Nat)
  /-- The owner's next step; `r` is what the guest code comes to. -/
  | next (inst : Nat) (r : TurnResult)

namespace CpuWorld

open Function (update)

def elapsedMs (w : CpuWorld) (p : CpuPhase) : Nat :=
  (w.guard.budgets p.budget).elapsedMs w.guard.cpu

/-- `TurnGuard::begin`. -/
def begin (w : CpuWorld) (i : Nat) (p : CpuPhase) (wall : Option Nat) : CpuWorld :=
  { w with
    guard := w.guard.step (.setFor i ⟨p.budget, p.capMs, wall⟩ p.token)
    turn := update w.turn i (.arming p)
    log := .started p (w.elapsedMs p) :: w.log }

/-- Begin a turn on a budget of its own. -/
def beginFresh (w : CpuWorld) (i token capMs : Nat) (grace : Bool) (wall : Option Nat) : CpuWorld :=
  let w := { w with nextBudget := w.nextBudget + 1 }
  w.begin i ⟨w.nextBudget - 1, capMs, grace, token⟩ wall

def conclude (w : CpuWorld) (i : Nat) (p : CpuPhase) (pc : TurnPc) (out : PhaseEnd) : CpuWorld :=
  { w with turn := update w.turn i pc, log := .ended p (w.elapsedMs p) out :: w.log }

/-- The turn is over and the guard is cleared: read the reason cell, which
nothing can set any more, and decide. -/
def settle (w : CpuWorld) (i : Nat) (p : CpuPhase) (v : TurnVerdict) : CpuWorld :=
  match v, (w.guard.shared i).reason with
  | .killed r, _ => w.conclude i p .over (if p.grace then .truncated else .failed r.error)
  | .result .suspend, some r => w.conclude i p .over (.failed r.error)
  | .result .suspend, none =>
    let w := w.conclude i p .parked .suspended
    { w with suspended := update w.suspended i (p :: w.suspended i) }
  | .result .finish, some _ => w.conclude i p .over .succeeded
  | .result .finish, none => w.conclude i p .parked .succeeded
  | .result (.grace _), some r =>
    -- Raced the settled value: nothing was interrupted.
    let w := w.conclude i p .parked (if r = .abort then .failed .aborted else .succeeded)
    { w with guard := w.guard.step (.resetReason i) }
  | .result (.grace capMs), none => (w.conclude i p .parked .graced).beginFresh i p.token capMs true none

/-- The owner's next step inside a turn. -/
def next (w : CpuWorld) (i : Nat) (r : TurnResult) : CpuWorld :=
  match w.turn i with
  | .parked => w
  | .arming p => { w with guard := w.guard.step (.arm i), turn := update w.turn i (.registering p) }
  | .registering p =>
    { w with guard := w.guard.step (.register i), turn := update w.turn i (.entering p) }
  | .entering p =>
    { w with guard := w.guard.step (.enter i p.budget), turn := update w.turn i (.running p) }
  | .running p =>
    let v := match (w.guard.shared i).reason with
      | some k => .killed k
      | none => .result r
    { w with turn := update w.turn i (.judged p v) }
  | .judged p v =>
    { w with guard := w.guard.step (.leave i p.budget), turn := update w.turn i (.left p v) }
  | .left p v => { w with guard := w.guard.step (.clear i), turn := update w.turn i (.cleared p v) }
  | .cleared p v => w.settle i p v
  | .over => w

def step (w : CpuWorld) : CpuOp → CpuWorld
  | .external op => if op.external then { w with guard := w.guard.step op } else w
  | .start i token capMs wall =>
    if w.turn i = .parked then w.beginFresh i token capMs false wall else w
  | .resume i k wall =>
    match w.turn i, (w.suspended i)[k]? with
    | .parked, some p =>
      { w with suspended := update w.suspended i ((w.suspended i).eraseIdx k) }.begin i p wall
    | _, _ => w
  | .next i r => w.next i r

end CpuWorld

/-! ### The limit as a property of the log -/

/-- A turn starts below its cap; a turn that ends at its cap ends its phase,
with `CpuTimeout` or a truncated grace. -/
def CpuEvent.ok : CpuEvent → Prop
  | .started p bankedMs => 0 < p.capMs → bankedMs < p.capMs
  | .ended p elapsedMs out => 0 < p.capMs → p.capMs ≤ elapsedMs →
      out = if p.grace then .truncated else .failed .cpuTimeout

/-- The turn that closes its epoch in this step. -/
def closing (w : CpuWorld) : CpuOp → Option (CpuPhase × TurnVerdict)
  | .next i _ =>
    match w.turn i with
    | .judged p v => some (p, v)
    | _ => none
  | _ => none

/-- A turn that closes its epoch at the cap has been seen by the watchdog: its
last look at the reason cell found the CPU verdict. -/
def SeenAtCap (w : CpuWorld) (op : CpuOp) : Prop :=
  ∀ x ∈ closing w op, 0 < x.1.capMs → x.1.capMs ≤ w.elapsedMs x.1 → x.2 = .killed .cpu

instance (w : CpuWorld) (op : CpuOp) : Decidable (SeenAtCap w op) :=
  inferInstanceAs (Decidable (∀ x ∈ closing w op, _ → _ → _))

/-! ### The invariant -/

/-- A budget between turns: closed, and below the cap. -/
def UnderCap (b : CpuBudget) (p : CpuPhase) : Prop :=
  b.epoch = none ∧ (0 < p.capMs → b.accumulatedNs / 1000000 < p.capMs)

theorem elapsedMs_closed {b : CpuBudget} (h : b.epoch = none) (clock : Nat → Nat) :
    b.elapsedMs clock = b.accumulatedNs / 1000000 := by
  simp [CpuBudget.elapsedMs, CpuBudget.elapsedNs, h]

/-- Closing an epoch on its own thread banks exactly what it had run up. -/
theorem leave_elapsed {b : CpuBudget} {i : Nat} {c : Nat → Nat}
    (h : ∀ e, b.epoch = some e → e.thread = i) :
    (b.leave (c i)).epoch = none ∧ (b.leave (c i)).accumulatedNs / 1000000 = b.elapsedMs c := by
  unfold CpuBudget.leave CpuBudget.elapsedMs CpuBudget.elapsedNs
  cases he : b.epoch with
  | none => simp [he]
  | some e => simp [h e he]

/-- Where the guard and the budget of an executing turn stand. -/
def TurnOk (i : Nat) (budgets : Nat → CpuBudget) (owner : OwnerPc) : TurnPc → Prop
  | .parked => owner = .ready
  | .arming _ => ∃ t token next, owner = .arming t token next
  | .registering _ => owner = .ready ∨ ∃ e, owner = .registering e
  | .entering _ => owner = .ready
  | .running p => owner = .ready ∧ ∀ e, (budgets p.budget).epoch = some e → e.thread = i
  | .judged p _ => owner = .ready ∧ ∀ e, (budgets p.budget).epoch = some e → e.thread = i
  | .left p v => owner = .ready ∧ (budgets p.budget).epoch = none ∧
      (0 < p.capMs → p.capMs ≤ (budgets p.budget).accumulatedNs / 1000000 → v = .killed .cpu)
  | .cleared p v => owner = .ready ∧ (budgets p.budget).epoch = none ∧
      (0 < p.capMs → p.capMs ≤ (budgets p.budget).accumulatedNs / 1000000 → v = .killed .cpu)
  | .over => owner = .ready

/-- The phases of an instance that may bill CPU. -/
def CpuWorld.phases (w : CpuWorld) (i : Nat) : List CpuPhase :=
  (w.turn i).phase.toList ++ w.suspended i

structure CpuInv (w : CpuWorld) : Prop where
  fresh : ∀ b, w.nextBudget ≤ b → w.guard.budgets b = .new
  below : ∀ i, ∀ p ∈ w.phases i, p.budget < w.nextBudget
  nodup : ∀ i, ((w.phases i).map CpuPhase.budget).Nodup
  apart : ∀ i j, i ≠ j → ∀ p ∈ w.phases i, ∀ q ∈ w.phases j, p.budget ≠ q.budget
  parked : ∀ i, ∀ p ∈ w.suspended i, UnderCap (w.guard.budgets p.budget) p
  turn : ∀ i, TurnOk i w.guard.budgets (w.guard.owner i) (w.turn i)
  log : ∀ e ∈ w.log, e.ok

/-- A turn depends on its own budget only. -/
theorem TurnOk.congr {i : Nat} {budgets budgets' : Nat → CpuBudget} {owner : OwnerPc} {pc : TurnPc}
    (h : TurnOk i budgets owner pc)
    (hb : ∀ p, pc.phase = some p → budgets' p.budget = budgets p.budget) :
    TurnOk i budgets' owner pc := by
  cases pc with
  | running p | judged p v =>
    simp only [TurnOk, hb p rfl] at h ⊢
    exact h
  | left p v | cleared p v =>
    simp only [TurnOk, hb p rfl] at h ⊢
    exact h
  | _ => exact h

/-- A step of instance `i` that touches only its own budgets and fresh ones. -/
theorem CpuInv.step_at {w w' : CpuWorld} (h : CpuInv w) (i : Nat)
    (hother : ∀ j, j ≠ i → w'.turn j = w.turn j ∧ w'.suspended j = w.suspended j ∧
      w'.guard.owner j = w.guard.owner j)
    (hbudgets : ∀ b, (∀ p ∈ w.phases i, p.budget ≠ b) → w'.guard.budgets b = w.guard.budgets b)
    (hnext : w.nextBudget ≤ w'.nextBudget)
    (hphases : ∀ p ∈ w'.phases i, p ∈ w.phases i ∨
      (w.nextBudget ≤ p.budget ∧ p.budget < w'.nextBudget))
    (hnodup : ((w'.phases i).map CpuPhase.budget).Nodup)
    (hparked : ∀ p ∈ w'.suspended i, UnderCap (w'.guard.budgets p.budget) p)
    (hturn : TurnOk i w'.guard.budgets (w'.guard.owner i) (w'.turn i))
    (hlog : ∀ e ∈ w'.log, e.ok) : CpuInv w' := by
  have hsame : ∀ j, j ≠ i → w'.phases j = w.phases j := by
    intro j hj
    rw [CpuWorld.phases, CpuWorld.phases, (hother j hj).1, (hother j hj).2.1]
  have hkeep : ∀ j, j ≠ i → ∀ p ∈ w.phases j, w'.guard.budgets p.budget = w.guard.budgets p.budget := by
    intro j hj p hp
    exact hbudgets _ fun q hq => h.apart i j (Ne.symm hj) q hq p hp
  -- A phase of `i` is an old one or has a budget nobody had before.
  have hold : ∀ p ∈ w'.phases i, ∀ j, j ≠ i → ∀ q ∈ w.phases j, p.budget ≠ q.budget := by
    intro p hp j hj q hq
    rcases hphases p hp with hp | hp
    · exact h.apart i j (Ne.symm hj) p hp q hq
    · have := h.below j q hq
      omega
  refine ⟨?_, ?_, ?_, ?_, ?_, ?_, hlog⟩
  · intro b hb
    have hb : w.nextBudget ≤ b := Nat.le_trans hnext hb
    rw [hbudgets b ?_]
    · exact h.fresh b hb
    · intro p hp
      have := h.below i p hp
      omega
  · intro j p hp
    by_cases hj : j = i
    · subst hj
      rcases hphases p hp with hp | hp
      · exact Nat.lt_of_lt_of_le (h.below j p hp) hnext
      · exact hp.2
    · rw [hsame j hj] at hp
      exact Nat.lt_of_lt_of_le (h.below j p hp) hnext
  · intro j
    by_cases hj : j = i
    · subst hj
      exact hnodup
    · rw [hsame j hj]
      exact h.nodup j
  · intro j k hjk p hp q hq
    by_cases hj : j = i
    · subst hj
      rw [hsame k (Ne.symm hjk)] at hq
      exact hold p hp k (Ne.symm hjk) q hq
    · rw [hsame j hj] at hp
      by_cases hk : k = i
      · subst hk
        exact Ne.symm (hold q hq j hj p hp)
      · rw [hsame k hk] at hq
        exact h.apart j k hjk p hp q hq
  · intro j p hp
    by_cases hj : j = i
    · subst hj
      exact hparked p hp
    · rw [(hother j hj).2.1] at hp
      rw [hkeep j hj p (List.mem_append_right _ hp)]
      exact h.parked j p hp
  · intro j
    by_cases hj : j = i
    · subst hj
      exact hturn
    · rw [(hother j hj).1, (hother j hj).2.2]
      refine (h.turn j).congr fun p hp => ?_
      exact hkeep j hj p (List.mem_append_left _ (by rw [hp]; simp))

/-! ### What the owner's guard steps do -/

section Frames

variable {g : GuardWorld} {i : Nat}

theorem external_frame {op : GuardOp} (h : op.external = true) :
    (g.step op).owner = g.owner ∧ (g.step op).budgets = g.budgets := by
  cases op with
  | tick => exact ⟨rfl, rfl⟩
  | pop k =>
    simp only [GuardWorld.step]
    split
    · split <;> exact ⟨rfl, rfl⟩
    · exact ⟨rfl, rfl⟩
  | precheck =>
    simp only [GuardWorld.step]
    split
    · split <;> exact ⟨rfl, rfl⟩
    · exact ⟨rfl, rfl⟩
  | check =>
    simp only [GuardWorld.step]
    split
    · unfold GuardWorld.check
      split
      · exact ⟨rfl, rfl⟩
      · rename_i verdict next _
        cases verdict <;> exact ⟨rfl, rfl⟩
    · exact ⟨rfl, rfl⟩
  | rearm =>
    simp only [GuardWorld.step]
    split <;> exact ⟨rfl, rfl⟩
  | abort j token =>
    simp only [GuardWorld.step, GuardWorld.abort]
    split <;> exact ⟨rfl, rfl⟩
  | _ => simp [GuardOp.external] at h

theorem setFor_frame {t : GuardTarget} {n : Nat} (h : g.owner i = .ready) :
    (g.step (.setFor i t n)).budgets = g.budgets ∧
      (∀ j, j ≠ i → (g.step (.setFor i t n)).owner j = g.owner j) ∧
      ∃ next, (g.step (.setFor i t n)).owner i = .arming t n next := by
  simp only [GuardWorld.step, h, GuardWorld.setFor, GuardWorld.setOwner]
  exact ⟨trivial, fun j hj => Function.update_of_ne hj _ _, _, Function.update_self ..⟩

theorem arm_frame {t : GuardTarget} {token : Nat} {next : Option Nat}
    (h : g.owner i = .arming t token next) :
    (g.step (.arm i)).budgets = g.budgets ∧
      (∀ j, j ≠ i → (g.step (.arm i)).owner j = g.owner j) ∧
      ((g.step (.arm i)).owner i = .ready ∨ ∃ e, (g.step (.arm i)).owner i = .registering e) := by
  simp only [GuardWorld.step, h, GuardWorld.arm, GuardWorld.setOwner, Function.update_self]
  refine ⟨rfl, fun j hj => Function.update_of_ne hj _ _, ?_⟩
  cases next with
  | none => exact .inl rfl
  | some due => exact .inr ⟨_, rfl⟩

theorem register_frame (h : g.owner i = .ready ∨ ∃ e, g.owner i = .registering e) :
    (g.step (.register i)).budgets = g.budgets ∧
      (∀ j, j ≠ i → (g.step (.register i)).owner j = g.owner j) ∧
      (g.step (.register i)).owner i = .ready := by
  rcases h with h | ⟨e, h⟩
  · simp only [GuardWorld.step, h]
    exact ⟨trivial, fun _ _ => trivial, trivial⟩
  · simp only [GuardWorld.step, h, GuardWorld.setOwner, Function.update_self]
    exact ⟨trivial, fun j hj => Function.update_of_ne hj _ _, trivial⟩

theorem clear_frame : (g.step (.clear i)).budgets = g.budgets ∧
    (g.step (.clear i)).owner = g.owner := by
  simp only [GuardWorld.step]
  split <;> exact ⟨rfl, rfl⟩

theorem resetReason_frame : (g.step (.resetReason i)).budgets = g.budgets ∧
    (g.step (.resetReason i)).owner = g.owner := by
  simp only [GuardWorld.step]
  split <;> exact ⟨rfl, rfl⟩

theorem enter_frame {b : Nat} (h : g.owner i = .ready) :
    (g.step (.enter i b)).owner = g.owner ∧
      (g.step (.enter i b)).budgets =
        Function.update g.budgets b ((g.budgets b).enter i (g.cpu i)) := by
  simp only [GuardWorld.step, h]
  exact ⟨trivial, trivial⟩

theorem leave_frame {b : Nat} (h : g.owner i = .ready) :
    (g.step (.leave i b)).owner = g.owner ∧
      (g.step (.leave i b)).budgets = Function.update g.budgets b ((g.budgets b).leave (g.cpu i)) := by
  simp only [GuardWorld.step, h]
  exact ⟨trivial, trivial⟩

end Frames

/-! ### One step keeps the invariant -/

section Steps

variable {w : CpuWorld} {i : Nat} {p : CpuPhase}

theorem external_inv {op : GuardOp} (h : CpuInv w) (hop : op.external = true) :
    CpuInv { w with guard := w.guard.step op } := by
  obtain ⟨howner, hbudgets⟩ := external_frame (g := w.guard) hop
  refine ⟨?_, h.below, h.nodup, h.apart, ?_, ?_, h.log⟩
  · intro b hb
    rw [hbudgets]
    exact h.fresh b hb
  · intro j q hq
    rw [hbudgets]
    exact h.parked j q hq
  · intro j
    rw [hbudgets, howner]
    exact h.turn j

/-- A turn step that leaves the phase and the other instances alone. -/
theorem CpuInv.advance {g : GuardWorld} {pc : TurnPc} (h : CpuInv w)
    (hpc : (w.turn i).phase = some p) (hphase : pc.phase = some p)
    (howner : ∀ j, j ≠ i → g.owner j = w.guard.owner j)
    (hbudgets : ∀ b, b ≠ p.budget → g.budgets b = w.guard.budgets b)
    (hturn : TurnOk i g.budgets (g.owner i) pc) :
    CpuInv { w with guard := g, turn := Function.update w.turn i pc } := by
  have hphases : ({ w with guard := g, turn := Function.update w.turn i pc } : CpuWorld).phases i =
      w.phases i := by
    simp only [CpuWorld.phases, Function.update_self, hphase, hpc]
  have hmem : p ∈ w.phases i := List.mem_append_left _ (by rw [hpc]; simp)
  have hne : ∀ q ∈ w.suspended i, q.budget ≠ p.budget := by
    intro q hq e
    have hn := h.nodup i
    rw [CpuWorld.phases, hpc, Option.toList_some, List.singleton_append, List.map_cons,
      List.nodup_cons] at hn
    exact hn.1 (List.mem_map.mpr ⟨q, hq, e⟩)
  refine h.step_at i (fun j hj => ⟨Function.update_of_ne hj _ _, rfl, howner j hj⟩) ?_ (Nat.le_refl _)
    ?_ ?_ ?_ ?_ h.log
  · intro b hb
    exact hbudgets b fun e => hb p hmem e.symm
  · intro q hq
    rw [hphases] at hq
    exact .inl hq
  · rw [hphases]
    exact h.nodup i
  · intro q hq
    show UnderCap (g.budgets q.budget) q
    rw [hbudgets _ (hne q hq)]
    exact h.parked i q hq
  · show TurnOk i g.budgets (g.owner i) (Function.update w.turn i pc i)
    rw [Function.update_self]
    exact hturn

/-- A turn ends; its phase goes back to the suspended ones or is over. -/
theorem CpuInv.conclude {v : TurnVerdict} {pc : TurnPc} {o : PhaseEnd} (h : CpuInv w)
    (hpc : w.turn i = .cleared p v) (hend : pc = .parked ∨ pc = .over)
    (hok : CpuEvent.ok (.ended p (w.elapsedMs p) o)) : CpuInv (w.conclude i p pc o) := by
  have hready : w.guard.owner i = .ready := by
    have := h.turn i
    rw [hpc] at this
    exact this.1
  have hphases : (w.conclude i p pc o).phases i = w.suspended i := by
    rcases hend with rfl | rfl <;>
      simp [CpuWorld.conclude, CpuWorld.phases, TurnPc.phase]
  have hsub : (w.suspended i).Sublist (w.phases i) := List.sublist_append_right _ _
  refine h.step_at i (fun j hj => ⟨Function.update_of_ne hj _ _, rfl, rfl⟩) (fun _ _ => rfl)
    (Nat.le_refl _) ?_ ?_ (h.parked i) ?_ ?_
  · intro q hq
    rw [hphases] at hq
    exact .inl (hsub.mem hq)
  · rw [hphases]
    exact (h.nodup i).sublist (hsub.map _)
  · show TurnOk i w.guard.budgets (w.guard.owner i) (Function.update w.turn i pc i)
    rw [Function.update_self]
    rcases hend with rfl | rfl <;> exact hready
  · intro e he
    rcases List.mem_cons.mp he with rfl | he
    · exact hok
    · exact h.log e he

/-- The phase of the turn that just ended is suspended again. -/
theorem CpuInv.suspend {v : TurnVerdict} (h : CpuInv w) (hpc : w.turn i = .cleared p v)
    (hunder : UnderCap (w.guard.budgets p.budget) p) :
    CpuInv { w.conclude i p .parked .suspended with
      suspended := Function.update w.suspended i (p :: w.suspended i) } := by
  have hready : w.guard.owner i = .ready := by
    have := h.turn i
    rw [hpc] at this
    exact this.1
  have hphases : ({ w.conclude i p .parked .suspended with
      suspended := Function.update w.suspended i (p :: w.suspended i) } : CpuWorld).phases i =
      w.phases i := by
    simp [CpuWorld.conclude, CpuWorld.phases, hpc, TurnPc.phase]
  refine h.step_at i
    (fun j hj => ⟨Function.update_of_ne hj _ _, Function.update_of_ne hj _ _, rfl⟩) (fun _ _ => rfl)
    (Nat.le_refl _) ?_ ?_ ?_ ?_ ?_
  · intro q hq
    rw [hphases] at hq
    exact .inl hq
  · rw [hphases]
    exact h.nodup i
  · intro q hq
    simp only [Function.update_self] at hq
    rcases List.mem_cons.mp hq with rfl | hq
    · exact hunder
    · exact h.parked i q hq
  · show TurnOk i w.guard.budgets (w.guard.owner i) (Function.update w.turn i .parked i)
    rw [Function.update_self]
    exact hready
  · intro e he
    rcases List.mem_cons.mp he with rfl | he
    · intro hcap hle
      rw [CpuWorld.elapsedMs, elapsedMs_closed hunder.1] at hle
      have := hunder.2 hcap
      omega
    · exact h.log e he

/-- A turn begins for a suspended phase or on a fresh budget. -/
theorem CpuInv.begin {n : Nat} {r : List CpuPhase} {d : Option Nat} (h : CpuInv w)
    (hpc : w.turn i = .parked) (hn : w.nextBudget ≤ n)
    (hp : p ∈ w.suspended i ∨ (w.nextBudget ≤ p.budget ∧ p.budget < n))
    (hrest : ∀ q ∈ r, q ∈ w.suspended i) (hnodup : ((p :: r).map CpuPhase.budget).Nodup)
    (hunder : UnderCap (w.guard.budgets p.budget) p) :
    CpuInv ({ w with nextBudget := n, suspended := Function.update w.suspended i r }.begin i p
      d) := by
  have hready : w.guard.owner i = .ready := by
    have := h.turn i
    rwa [hpc] at this
  obtain ⟨hbudgets, hother, next, hself⟩ :=
    setFor_frame (g := w.guard) (t := ⟨p.budget, p.capMs, d⟩) (n := p.token) hready
  have hphases : ({ w with nextBudget := n, suspended := Function.update w.suspended i r }.begin i
      p d).phases i = p :: r := by
    simp [CpuWorld.begin, CpuWorld.phases, TurnPc.phase]
  have hsusp : w.phases i = w.suspended i := by
    simp [CpuWorld.phases, hpc, TurnPc.phase]
  refine h.step_at i
    (fun j hj => ⟨Function.update_of_ne hj _ _, Function.update_of_ne hj _ _, hother j hj⟩)
    (fun b _ => by show (w.guard.step _).budgets b = _; rw [hbudgets]) hn ?_ ?_ ?_ ?_ ?_
  · intro q hq
    rw [hphases] at hq
    rw [hsusp]
    rcases List.mem_cons.mp hq with rfl | hq
    · exact hp
    · exact .inl (hrest q hq)
  · rw [hphases]
    exact hnodup
  · intro q hq
    show UnderCap ((w.guard.step _).budgets q.budget) q
    rw [hbudgets]
    simp only [CpuWorld.begin, Function.update_self] at hq
    exact h.parked i q (hrest q hq)
  · show TurnOk i (w.guard.step _).budgets ((w.guard.step _).owner i)
      (Function.update w.turn i (.arming p) i)
    rw [Function.update_self, hself]
    exact ⟨_, _, _, rfl⟩
  · intro e he
    rcases List.mem_cons.mp he with rfl | he
    · intro hcap
      show CpuBudget.elapsedMs _ _ < _
      rw [elapsedMs_closed hunder.1]
      exact hunder.2 hcap
    · exact h.log e he

theorem CpuInv.beginFresh {token capMs : Nat} {grace : Bool} {wall : Option Nat} (h : CpuInv w)
    (hpc : w.turn i = .parked) : CpuInv (w.beginFresh i token capMs grace wall) := by
  have hnew := h.fresh w.nextBudget (Nat.le_refl _)
  have hbegin := h.begin (i := i) (p := ⟨w.nextBudget, capMs, grace, token⟩)
    (n := w.nextBudget + 1) (r := w.suspended i) (d := wall) hpc (Nat.le_succ _)
    (.inr ⟨Nat.le_refl _, Nat.lt_succ_self _⟩) (fun q hq => hq) ?_ ?_
  · rw [Function.update_eq_self] at hbegin
    exact hbegin
  · rw [List.map_cons, List.nodup_cons]
    refine ⟨fun hmem => ?_, (h.nodup i).sublist ((List.sublist_append_right _ _).map _)⟩
    obtain ⟨q, hq, e⟩ := List.mem_map.mp hmem
    have := h.below i q (List.mem_append_right _ hq)
    simp only at e
    omega
  · show UnderCap (w.guard.budgets w.nextBudget) _
    rw [hnew]
    refine ⟨rfl, fun hcap => ?_⟩
    simpa [CpuBudget.new] using hcap

end Steps

/-- The end of a turn, by what was found in the reason cell. -/
theorem settle_inv {w : CpuWorld} {i : Nat} {p : CpuPhase} {v : TurnVerdict} (h : CpuInv w)
    (hpc : w.turn i = .cleared p v) : CpuInv (w.settle i p v) := by
  obtain ⟨-, hclosed, hseen⟩ : TurnOk i w.guard.budgets (w.guard.owner i) (.cleared p v) :=
    hpc ▸ h.turn i
  -- A turn that was not killed on its CPU cap is below it.
  have hbelow : v ≠ .killed .cpu → UnderCap (w.guard.budgets p.budget) p := by
    intro hv
    refine ⟨hclosed, fun hcap => ?_⟩
    by_contra hge
    exact hv (hseen hcap (Nat.le_of_not_lt hge))
  have hok : ∀ out, v ≠ .killed .cpu → CpuEvent.ok (.ended p (w.elapsedMs p) out) := by
    intro out hv hcap hle
    obtain ⟨hepoch, hlt⟩ := hbelow hv
    rw [CpuWorld.elapsedMs, elapsedMs_closed hepoch] at hle
    have := hlt hcap
    omega
  unfold CpuWorld.settle
  split
  · rename_i r
    refine h.conclude hpc (.inr rfl) ?_
    by_cases hr : r = .cpu
    · subst hr
      intro _ _
      rfl
    · exact hok _ (by simpa using hr)
  · exact h.conclude hpc (.inr rfl) (hok _ (by simp))
  · exact h.suspend hpc (hbelow (by simp))
  · exact h.conclude hpc (.inr rfl) (hok _ (by simp))
  · exact h.conclude hpc (.inl rfl) (hok _ (by simp))
  · rename_i r _
    have hend := h.conclude (o := if r = .abort then .failed .aborted else .succeeded) hpc
      (.inl rfl) (hok _ (by simp))
    obtain ⟨hbudgets, howner⟩ := resetReason_frame (g := w.guard) (i := i)
    refine ⟨?_, hend.below, hend.nodup, hend.apart, ?_, ?_, hend.log⟩
    · intro b hb
      show (w.guard.step _).budgets b = _
      rw [hbudgets]
      exact hend.fresh b hb
    · intro j q hq
      show UnderCap ((w.guard.step _).budgets q.budget) q
      rw [hbudgets]
      exact hend.parked j q hq
    · intro j
      show TurnOk j (w.guard.step _).budgets ((w.guard.step _).owner j) _
      rw [hbudgets, howner]
      exact hend.turn j
  · have hend := h.conclude (o := .graced) hpc (.inl rfl) (hok _ (by simp))
    exact hend.beginFresh (by simp [CpuWorld.conclude])

theorem next_inv {w : CpuWorld} {i : Nat} {r : TurnResult} (h : CpuInv w)
    (hseen : SeenAtCap w (.next i r)) : CpuInv (w.next i r) := by
  have hturn := h.turn i
  unfold CpuWorld.next
  split
  · exact h
  · rename_i p hpc
    rw [hpc] at hturn
    obtain ⟨t, token, next, harm⟩ := hturn
    obtain ⟨hbudgets, hother, hself⟩ := arm_frame harm
    exact h.advance (p := p) (by rw [hpc]; rfl) rfl hother (fun b _ => by rw [hbudgets]) hself
  · rename_i p hpc
    rw [hpc] at hturn
    obtain ⟨hbudgets, hother, hself⟩ := register_frame hturn
    exact h.advance (p := p) (by rw [hpc]; rfl) rfl hother (fun b _ => by rw [hbudgets]) hself
  · rename_i p hpc
    rw [hpc] at hturn
    obtain ⟨howner, hbudgets⟩ := enter_frame (b := p.budget) hturn
    refine h.advance (p := p) (by rw [hpc]; rfl) rfl (fun j _ => by rw [howner]) ?_ ?_
    · intro b hb
      rw [hbudgets, Function.update_of_ne hb]
    · refine ⟨by rw [howner]; exact hturn, fun e he => ?_⟩
      rw [hbudgets, Function.update_self] at he
      cases he
      rfl
  · rename_i p hpc
    rw [hpc] at hturn
    exact h.advance (p := p) (by rw [hpc]; rfl) rfl (fun _ _ => rfl) (fun _ _ => rfl) hturn
  · rename_i p v hpc
    rw [hpc] at hturn
    obtain ⟨hready, hthread⟩ := hturn
    obtain ⟨howner, hbudgets⟩ := leave_frame (b := p.budget) hready
    obtain ⟨hclosed, hbanked⟩ := leave_elapsed (c := w.guard.cpu) hthread
    refine h.advance (p := p) (by rw [hpc]; rfl) rfl (fun j _ => by rw [howner]) ?_ ?_
    · intro b hb
      rw [hbudgets, Function.update_of_ne hb]
    · refine ⟨by rw [howner]; exact hready, ?_⟩
      rw [hbudgets, Function.update_self]
      refine ⟨hclosed, fun hcap hle => ?_⟩
      rw [hbanked] at hle
      exact hseen (p, v) (by simp [closing, hpc]) hcap hle
  · rename_i p v hpc
    rw [hpc] at hturn
    obtain ⟨hbudgets, howner⟩ := clear_frame (g := w.guard) (i := i)
    refine h.advance (p := p) (by rw [hpc]; rfl) rfl (fun j _ => by rw [howner])
      (fun b _ => by rw [hbudgets]) ?_
    rw [hbudgets, howner]
    exact hturn
  · rename_i p v hpc
    exact settle_inv h hpc
  · exact h

theorem cpu_step_inv (w : CpuWorld) (op : CpuOp) (h : CpuInv w) (hseen : SeenAtCap w op) :
    CpuInv (w.step op) := by
  cases op with
  | external op =>
    simp only [CpuWorld.step]
    split
    · rename_i hop
      exact external_inv h hop
    · exact h
  | start i token capMs wall =>
    simp only [CpuWorld.step]
    split
    · rename_i hpc
      exact h.beginFresh hpc
    · exact h
  | resume i k wall =>
    simp only [CpuWorld.step]
    split
    · rename_i p hpc hk
      obtain ⟨hlt, rfl⟩ := List.getElem?_eq_some_iff.mp hk
      have hmem := List.getElem_mem hlt
      have hperm := List.getElem_cons_eraseIdx_perm hlt
      refine h.begin (n := w.nextBudget) hpc (Nat.le_refl _) (.inl hmem)
        (fun q hq => (List.eraseIdx_sublist ..).mem hq) ?_ (h.parked i _ hmem)
      rw [(hperm.map _).nodup_iff]
      exact (h.nodup i).sublist ((List.sublist_append_right _ _).map _)
    · exact h
  | next i r => exact next_inv h hseen

theorem cpu_new_inv : CpuInv .new where
  fresh _ _ := rfl
  below _ _ hp := absurd hp List.not_mem_nil
  nodup _ := List.nodup_nil
  apart _ _ _ _ hp := absurd hp List.not_mem_nil
  parked _ _ hp := absurd hp List.not_mem_nil
  turn _ := rfl
  log _ he := absurd he List.not_mem_nil

/-- A turn on instance 0 that burns `ns` and then comes to `r`. -/
def burningTurn (first : CpuOp) (ns : Nat) (r : TurnResult) : List CpuOp :=
  [first, .next 0 r, .next 0 r, .next 0 r, .external (.tick ns fun _ => ns), .next 0 r, .next 0 r,
    .next 0 r, .next 0 r]

/-- Three turns of 0.9 ms each under a cap of 1 ms. -/
def shortTurns : List CpuOp :=
  burningTurn (.start 0 1 1 none) 900000 .suspend ++
    burningTurn (.resume 0 0 none) 900000 .suspend ++ burningTurn (.resume 0 0 none) 900000 .finish

/-- One turn of 2 ms under a cap of 1 ms, which the watchdog checks. -/
def watchedTurn : List CpuOp :=
  [.start 0 1 1 none, .next 0 .suspend, .next 0 .suspend, .next 0 .suspend,
    .external (.tick 2000000 fun _ => 2000000), .external (.pop 0), .external .precheck,
    .external .check, .next 0 .suspend, .next 0 .suspend, .next 0 .suspend, .next 0 .suspend]

end Iso4
