/-
The limit guard and its watchdog (`crates/core/src/v8/guard.rs`, with the CPU
budgets of `crates/core/src/v8/isolate.rs`).

An owner thread arms the guard of its instance for one turn (`set_for`) and
clears it at turn exit; one process-wide watchdog thread pops heap entries and
checks them; session threads call `abort_executing`.  Every lock region and
every gap between two of them is a step of its own, so that the steps of the
threads interleave freely:

* owner: read the budget and the clock (`setFor`), arm under the target lock
  (`arm`), push the heap entry (`register`), and `clear`;
* watchdog: `pop` a due entry, look at the generation without the lock
  (`precheck`), decide under the lock (`check`), push it back (`rearm`);
* sessions: `abort`.

`watchdog_protocol` is the protocol over every interleaving.
-/
import Iso4.Types
import Iso4.Lib.Execution
import Mathlib.Logic.Function.Basic
import Mathlib.Data.List.Count
import Mathlib.Data.List.Perm.Basic
import Mathlib.Tactic.Common

namespace Iso4

/-! ### CPU budgets -/

/-- An open epoch: the executing thread and its reading when it opened. -/
structure CpuEpoch where
  thread : Nat
  startNs : Nat
  deriving DecidableEq, Repr

structure CpuBudget where
  accumulatedNs : Nat
  epoch : Option CpuEpoch
  deriving DecidableEq, Repr

def CpuBudget.new : CpuBudget := ⟨0, none⟩

/-- Open an epoch on `thread`, whose clock reads `selfNs`. -/
def CpuBudget.enter (b : CpuBudget) (thread selfNs : Nat) : CpuBudget :=
  { b with epoch := some ⟨thread, selfNs⟩ }

/-- Close the epoch on the executing thread, whose clock reads `selfNs`. -/
def CpuBudget.leave (b : CpuBudget) (selfNs : Nat) : CpuBudget :=
  match b.epoch with
  | some e => ⟨b.accumulatedNs + (selfNs - e.startNs), none⟩
  | none => b

/-- Total CPU burned, an open epoch included; `clock` reads a thread's clock. -/
def CpuBudget.elapsedNs (b : CpuBudget) (clock : Nat → Nat) : Nat :=
  b.accumulatedNs + match b.epoch with
    | some e => clock e.thread - e.startNs
    | none => 0

def CpuBudget.elapsedMs (b : CpuBudget) (clock : Nat → Nat) : Nat :=
  b.elapsedNs clock / 1000000

/-! ### Targets and entries -/

/-- What the watchdog enforces while a turn is executing.  The budget is named
by its place in the world's table (an `Arc` in the source). -/
structure GuardTarget where
  budget : Nat
  /-- `0` = no CPU cap. -/
  cpuCapMs : Nat
  wallDeadline : Option Nat
  deriving DecidableEq, Repr

/-- The target caps something. -/
def GuardTarget.capped (t : GuardTarget) : Bool := decide (0 < t.cpuCapMs) || t.wallDeadline.isSome

/-- The next moment worth re-reading the budgets, floored at 1 ms. -/
def nextCheckFor (t : GuardTarget) (now : Nat) (cpuElapsedMs : Option Nat) : Option Nat :=
  let floor := now + fromMillis 1
  let cpu := cpuElapsedMs.map fun elapsed => max (now + fromMillis (t.cpuCapMs - elapsed)) floor
  let wall := t.wallDeadline.map fun d => max d floor
  match cpu, wall with
  | some c, some w => some (min c w)
  | c, w => c.or w

/-- State one instance shares with the watchdog. -/
structure GuardShared where
  target : Option GuardTarget
  /-- The token of the executing turn, `0` = none. -/
  executing : Nat
  generation : Nat
  /-- The first-writer-wins verdict slot. -/
  reason : Option TerminationReason
  /-- Calls of `terminate_execution` so far. -/
  terminations : Nat
  deriving DecidableEq, Repr

def GuardShared.new : GuardShared := ⟨none, 0, 0, none, 0⟩

/-- Record the reason (first writer wins), then terminate. -/
def GuardShared.kill (s : GuardShared) (r : TerminationReason) : GuardShared :=
  { s with reason := s.reason.or (some r), terminations := s.terminations + 1 }

/-- `GuardCtl::abort_executing`. -/
def GuardShared.abortExecuting (s : GuardShared) (token : Nat) : GuardShared × Bool :=
  if s.executing = token then (s.kill .abort, true) else (s, false)

/-- The locked part of `set_for`. -/
def GuardShared.arm (s : GuardShared) (t : GuardTarget) (token : Nat) : GuardShared :=
  { s with target := some t, executing := token, generation := s.generation + 1 }

def GuardShared.clear (s : GuardShared) : GuardShared :=
  { s with target := none, executing := 0, generation := s.generation + 1 }

structure WatchEntry where
  nextCheck : Nat
  generation : Nat
  /-- The instance whose `GuardShared` the entry points at. -/
  inst : Nat
  deriving DecidableEq, Repr

/-- Where an owner thread stands in `set_for`. -/
inductive OwnerPc where
  | ready
  /-- The next check is computed; the lock is still to be taken. -/
  | arming (t : GuardTarget) (token : Nat) (nextCheck : Option Nat)
  /-- The target is armed; its entry is still to be pushed. -/
  | registering (e : WatchEntry)
  | dropped
  deriving DecidableEq, Repr

/-- An uncapped target registers nothing. -/
def OwnerPc.registration (inst generation : Nat) : Option Nat → OwnerPc
  | some nextCheck => .registering ⟨nextCheck, generation, inst⟩
  | none => .ready

/-- Where the watchdog thread stands. -/
inductive WatchPc where
  | idle
  | popped (e : WatchEntry)
  /-- Past the unlocked staleness check. -/
  | checking (e : WatchEntry)
  | rearming (e : WatchEntry)
  deriving DecidableEq, Repr

/-- A checked entry goes back to the heap while its turn is worth watching. -/
def WatchPc.after (e : WatchEntry) : Option Nat → WatchPc
  | some nextCheck => .rearming { e with nextCheck }
  | none => .idle

/-- What happened to the guards, newest first. -/
inductive GuardEvent where
  | armed (inst generation token : Nat)
  | cleared (inst generation : Nat)
  | fired (inst generation : Nat) (r : TerminationReason)
  | aborted (inst generation token : Nat)
  deriving DecidableEq, Repr

structure GuardWorld where
  now : Nat
  /-- The CPU clock of each owner thread. -/
  cpu : Nat → Nat
  budgets : Nat → CpuBudget
  shared : Nat → GuardShared
  owner : Nat → OwnerPc
  heap : List WatchEntry
  watch : WatchPc
  history : List GuardEvent

def GuardWorld.new : GuardWorld where
  now := 0
  cpu _ := 0
  budgets _ := .new
  shared _ := .new
  owner _ := .ready
  heap := []
  watch := .idle
  history := []

/-- One reading of the target's budget, `None` when uncapped. -/
def GuardWorld.cpuMs (w : GuardWorld) (t : GuardTarget) : Option Nat :=
  if 0 < t.cpuCapMs then some ((w.budgets t.budget).elapsedMs w.cpu) else none

/-- Whether the armed target is exceeded, and when to look again. -/
def judge (w : GuardWorld) (t : GuardTarget) : Option TerminationReason × Option Nat :=
  if (w.cpuMs t).any (t.cpuCapMs ≤ ·) then (some .cpu, some (w.now + fromMillis 10))
  else if t.wallDeadline.any (· ≤ w.now) then (some .wall, some (w.now + fromMillis 10))
  else (none, nextCheckFor t w.now (w.cpuMs t))

/-- The locked part of `check_deadline`: `none` for a stale entry, else the
reason to fire with, if any, and the next check. -/
def checkDeadline (w : GuardWorld) (e : WatchEntry) :
    Option (Option TerminationReason × Option Nat) :=
  let s := w.shared e.inst
  if s.generation ≠ e.generation then none else s.target.map (judge w)

/-- One step of one thread. -/
inductive GuardOp where
  /-- Time passes; a thread burns at most the wall time. -/
  | tick (dt : Nat) (burn : Nat → Nat)
  | setFor (inst : Nat) (t : GuardTarget) (token : Nat)
  | arm (inst : Nat)
  | register (inst : Nat)
  | clear (inst : Nat)
  | dropGuard (inst : Nat)
  | resetReason (inst : Nat)
  | enter (inst budget : Nat)
  | leave (inst budget : Nat)
  /-- The watchdog pops the `k`th entry, if that one is the earliest and due. -/
  | pop (k : Nat)
  | precheck
  | check
  | rearm
  | abort (inst : Nat) (token : RunToken)

namespace GuardWorld

open Function (update)

def setShared (w : GuardWorld) (i : Nat) (s : GuardShared) : GuardWorld :=
  { w with shared := update w.shared i s }

def setOwner (w : GuardWorld) (i : Nat) (pc : OwnerPc) : GuardWorld :=
  { w with owner := update w.owner i pc }

def note (w : GuardWorld) (e : GuardEvent) : GuardWorld := { w with history := e :: w.history }

/-- `set_for` up to the lock: the banked budget and the clock give the first
check. -/
def setFor (w : GuardWorld) (i : Nat) (t : GuardTarget) (token : Nat) : GuardWorld :=
  w.setOwner i (.arming t token (nextCheckFor t w.now (w.cpuMs t)))

def arm (w : GuardWorld) (i : Nat) (t : GuardTarget) (token : Nat) (nextCheck : Option Nat) :
    GuardWorld :=
  let s := (w.shared i).arm t token
  ((w.setShared i s).note (.armed i s.generation token)).setOwner i
    (.registration i s.generation nextCheck)

def clear (w : GuardWorld) (i : Nat) : GuardWorld :=
  (w.setShared i (w.shared i).clear).note (.cleared i (w.shared i).generation)

/-- Reason first, then terminate. -/
def fire (w : GuardWorld) (e : WatchEntry) : Option TerminationReason → GuardWorld
  | some r => (w.setShared e.inst ((w.shared e.inst).kill r)).note (.fired e.inst e.generation r)
  | none => w

/-- The locked part of `check_deadline` and what the watchdog goes on with. -/
def check (w : GuardWorld) (e : WatchEntry) : GuardWorld :=
  match checkDeadline w e with
  | none => { w with watch := .idle }
  | some (verdict, next) => { w.fire e verdict with watch := .after e next }

def abort (w : GuardWorld) (i token : Nat) : GuardWorld :=
  match (w.shared i).abortExecuting token with
  | (s, true) => (w.setShared i s).note (.aborted i s.generation token)
  | (_, false) => w

def step (w : GuardWorld) : GuardOp → GuardWorld
  | .tick dt burn => { w with now := w.now + dt, cpu := fun i => w.cpu i + min (burn i) dt }
  | .setFor i t token =>
    match w.owner i with
    | .ready => w.setFor i t token
    | _ => w
  | .arm i =>
    match w.owner i with
    | .arming t token nextCheck => w.arm i t token nextCheck
    | _ => w
  | .register i =>
    match w.owner i with
    | .registering e => { w.setOwner i .ready with heap := e :: w.heap }
    | _ => w
  | .clear i =>
    match w.owner i with
    | .ready => w.clear i
    | _ => w
  | .dropGuard i =>
    match w.owner i with
    | .ready => (w.clear i).setOwner i .dropped
    | _ => w
  | .resetReason i =>
    match w.owner i with
    | .ready => w.setShared i { w.shared i with reason := none }
    | _ => w
  | .enter i b =>
    match w.owner i with
    | .ready => { w with budgets := update w.budgets b ((w.budgets b).enter i (w.cpu i)) }
    | _ => w
  | .leave i b =>
    match w.owner i with
    | .ready => { w with budgets := update w.budgets b ((w.budgets b).leave (w.cpu i)) }
    | _ => w
  | .pop k =>
    match w.watch, w.heap[k]? with
    | .idle, some e =>
      if e.nextCheck ≤ w.now ∧ ∀ f ∈ w.heap, e.nextCheck ≤ f.nextCheck then
        { w with heap := w.heap.eraseIdx k, watch := .popped e }
      else w
    | _, _ => w
  | .precheck =>
    match w.watch with
    | .popped e =>
      if (w.shared e.inst).generation = e.generation then { w with watch := .checking e }
      else { w with watch := .idle }
    | _ => w
  | .check =>
    match w.watch with
    | .checking e => w.check e
    | _ => w
  | .rearm =>
    match w.watch with
    | .rearming e => { w with heap := e :: w.heap, watch := .idle }
    | _ => w
  | .abort i token => w.abort i token.val

end GuardWorld

/-! ### What the history says -/

/-- The event sets the reason cell or terminates for that turn. -/
def GuardEvent.actsFor (i g : Nat) : GuardEvent → Prop
  | .fired j h _ => j = i ∧ h = g
  | .aborted j h _ => j = i ∧ h = g
  | _ => False

/-- Once a turn is cleared nothing acts for it. -/
def Quiet (history : List GuardEvent) : Prop :=
  ∀ later earlier i g, history = later ++ .cleared i g :: earlier → ∀ e ∈ later, ¬ e.actsFor i g

theorem Quiet.cons {history : List GuardEvent} {e : GuardEvent} (h : Quiet history)
    (he : ∀ i g, .cleared i g ∈ history → ¬ e.actsFor i g) : Quiet (e :: history) := by
  intro later earlier i g hsplit x hx
  cases later with
  | nil => simp at hx
  | cons y later =>
    obtain ⟨rfl, hrest⟩ := List.cons.inj hsplit
    rcases List.mem_cons.mp hx with rfl | hx
    · refine he i g ?_
      rw [hrest]
      simp
    · exact h later earlier i g hrest x hx

/-- The token whose turn is executing on `i`: armed, and not cleared since. -/
def executingTurn (i : Nat) : List GuardEvent → Option Nat
  | [] => none
  | .armed j _ token :: rest => if j = i then some token else executingTurn i rest
  | .cleared j _ :: rest => if j = i then none else executingTurn i rest
  | .fired _ _ _ :: rest => executingTurn i rest
  | .aborted _ _ _ :: rest => executingTurn i rest

/-- What the shared state has to agree on with the history. -/
structure HistoryInv (shared : Nat → GuardShared) (history : List GuardEvent) : Prop where
  cleared_lt : ∀ i g, .cleared i g ∈ history → g < (shared i).generation
  quiet : Quiet history
  executing : ∀ i, (shared i).executing = (executingTurn i history).getD 0

namespace HistoryInv

open Function (update)

variable {shared : Nat → GuardShared} {history : List GuardEvent}

/-- A new generation, with the event that says so. -/
theorem bump {i : Nat} {s : GuardShared} {e : GuardEvent} (h : HistoryInv shared history)
    (hgen : s.generation = (shared i).generation + 1)
    (he : e = .cleared i (shared i).generation ∨ ∃ token, e = .armed i s.generation token)
    (hexec : s.executing = (executingTurn i (e :: history)).getD 0) :
    HistoryInv (update shared i s) (e :: history) where
  cleared_lt := by
    intro j g hmem
    have hmono : ∀ j, (shared j).generation ≤ (update shared i s j).generation := by
      intro j
      by_cases hj : j = i
      · subst hj
        rw [Function.update_self]
        omega
      · exact Nat.le_of_eq (by rw [Function.update_of_ne hj])
    rcases List.mem_cons.mp hmem with heq | hmem
    · rcases he with he | ⟨token, he⟩
      · rw [he] at heq
        obtain ⟨rfl, rfl⟩ := GuardEvent.cleared.inj heq
        rw [Function.update_self]
        omega
      · rw [he] at heq
        cases heq
    · exact Nat.lt_of_lt_of_le (h.cleared_lt j g hmem) (hmono j)
  quiet := by
    refine h.quiet.cons fun j g _ hacts => ?_
    rcases he with rfl | ⟨token, rfl⟩ <;> exact hacts
  executing := by
    intro j
    by_cases hj : j = i
    · subst hj
      rw [Function.update_self, hexec]
    · have hskip : executingTurn j (e :: history) = executingTurn j history := by
        rcases he with rfl | ⟨token, rfl⟩ <;> simp [executingTurn, Ne.symm hj]
      rw [Function.update_of_ne hj, h.executing j, hskip]

/-- A kill for the turn that is current. -/
theorem kill {i : Nat} {r : TerminationReason} {e : GuardEvent} (h : HistoryInv shared history)
    (he : e = .fired i (shared i).generation r ∨
      ∃ token, e = .aborted i (shared i).generation token) :
    HistoryInv (update shared i ((shared i).kill r)) (e :: history) where
  cleared_lt := by
    intro j g hmem
    have hmem : .cleared j g ∈ history := by
      rcases List.mem_cons.mp hmem with heq | hmem
      · rcases he with rfl | ⟨token, rfl⟩ <;> cases heq
      · exact hmem
    have := h.cleared_lt j g hmem
    by_cases hj : j = i
    · subst hj
      simpa [GuardShared.kill] using this
    · rwa [Function.update_of_ne hj]
  quiet := by
    refine h.quiet.cons fun j g hmem hacts => ?_
    -- A cleared generation is below the current one, for which `e` acts.
    have hlt := h.cleared_lt j g hmem
    rcases he with rfl | ⟨token, rfl⟩
    · obtain ⟨rfl, rfl⟩ := hacts
      exact Nat.lt_irrefl _ hlt
    · obtain ⟨rfl, rfl⟩ := hacts
      exact Nat.lt_irrefl _ hlt
  executing := by
    intro j
    have hskip : executingTurn j (e :: history) = executingTurn j history := by
      rcases he with rfl | ⟨token, rfl⟩ <;> rfl
    rw [hskip, ← h.executing j]
    by_cases hj : j = i
    · subst hj
      rw [Function.update_self]
      rfl
    · rw [Function.update_of_ne hj]

/-- Resetting the reason cell is no guard event. -/
theorem reset {i : Nat} (h : HistoryInv shared history) :
    HistoryInv (update shared i { shared i with reason := none }) history := by
  have hsame : ∀ j, (update shared i { shared i with reason := none } j).generation =
      (shared j).generation ∧
      (update shared i { shared i with reason := none } j).executing = (shared j).executing := by
    intro j
    by_cases hj : j = i
    · subst hj
      rw [Function.update_self]
      exact ⟨rfl, rfl⟩
    · rw [Function.update_of_ne hj]
      exact ⟨rfl, rfl⟩
  refine ⟨fun j g hmem => ?_, h.quiet, fun j => ?_⟩
  · rw [(hsame j).1]
    exact h.cleared_lt j g hmem
  · rw [(hsame j).2]
    exact h.executing j

end HistoryInv

theorem nextCheckFor_isSome (w : GuardWorld) (t : GuardTarget) :
    (nextCheckFor t w.now (w.cpuMs t)).isSome = t.capped := by
  unfold nextCheckFor GuardTarget.capped GuardWorld.cpuMs
  by_cases hc : 0 < t.cpuCapMs
  · cases hw : t.wallDeadline <;> simp [hc]
  · cases hw : t.wallDeadline <;> simp [hc]

/-- What the check decided is about the armed target of the entry's own
generation. -/
theorem checkDeadline_eq_some {w : GuardWorld} {e : WatchEntry}
    {v : Option TerminationReason × Option Nat} (h : checkDeadline w e = some v) :
    (w.shared e.inst).generation = e.generation ∧
      ∃ t, (w.shared e.inst).target = some t ∧ judge w t = v := by
  unfold checkDeadline at h
  dsimp only at h
  split at h
  · cases h
  · rename_i hgen
    exact ⟨not_not.mp hgen, Option.map_eq_some_iff.mp h⟩

theorem checkDeadline_eq_none {w : GuardWorld} {e : WatchEntry} (h : checkDeadline w e = none)
    (t : GuardTarget) (ht : (w.shared e.inst).target = some t) :
    (w.shared e.inst).generation ≠ e.generation := by
  intro hgen
  simp [checkDeadline, hgen, ht] at h

/-- A capped target is looked at again. -/
theorem judge_next {w : GuardWorld} {t : GuardTarget} (hcap : t.capped = true) :
    (judge w t).2.isSome = true := by
  unfold judge
  split
  · rfl
  · split
    · rfl
    · rw [nextCheckFor_isSome, hcap]

/-- The watchdog fires on an exceeded CPU cap or a reached wall deadline. -/
theorem judge_fire {w : GuardWorld} {t : GuardTarget} {r : TerminationReason}
    (h : (judge w t).1 = some r) :
    (r = .cpu ∧ 0 < t.cpuCapMs ∧ t.cpuCapMs ≤ (w.budgets t.budget).elapsedMs w.cpu) ∨
      (r = .wall ∧ ∃ d, t.wallDeadline = some d ∧ d ≤ w.now) := by
  unfold judge at h
  split at h
  · rename_i hcpu
    obtain ⟨ms, hms, hle⟩ := (Option.any_eq_true _ _).mp hcpu
    unfold GuardWorld.cpuMs at hms
    split at hms
    · rename_i hcap
      cases hms
      exact .inl ⟨(Option.some.inj h).symm, hcap, by simpa using hle⟩
    · cases hms
  · split at h
    · rename_i hwall
      obtain ⟨d, hd, hle⟩ := (Option.any_eq_true _ _).mp hwall
      exact .inr ⟨(Option.some.inj h).symm, d, hd, by simpa using hle⟩
    · cases h

theorem step_history (w : GuardWorld) (op : GuardOp) (h : HistoryInv w.shared w.history) :
    HistoryInv (w.step op).shared (w.step op).history := by
  cases op with
  | tick dt burn => exact h
  | setFor i t token =>
    simp only [GuardWorld.step]
    split <;> exact h
  | arm i =>
    simp only [GuardWorld.step]
    split
    · exact h.bump rfl (.inr ⟨_, rfl⟩) (by simp [executingTurn, GuardShared.arm])
    · exact h
  | register i =>
    simp only [GuardWorld.step]
    split <;> exact h
  | clear i =>
    simp only [GuardWorld.step]
    split
    · exact h.bump rfl (.inl rfl) (by simp [executingTurn, GuardShared.clear])
    · exact h
  | dropGuard i =>
    simp only [GuardWorld.step]
    split
    · exact h.bump rfl (.inl rfl) (by simp [executingTurn, GuardShared.clear])
    · exact h
  | resetReason i =>
    simp only [GuardWorld.step]
    split
    · exact h.reset
    · exact h
  | enter i b =>
    simp only [GuardWorld.step]
    split <;> exact h
  | leave i b =>
    simp only [GuardWorld.step]
    split <;> exact h
  | pop k =>
    simp only [GuardWorld.step]
    split
    · split <;> exact h
    · exact h
  | precheck =>
    simp only [GuardWorld.step]
    split
    · split <;> exact h
    · exact h
  | check =>
    simp only [GuardWorld.step]
    split
    · rename_i e _
      unfold GuardWorld.check
      split
      · exact h
      · rename_i fire next hcheck
        cases fire with
        | none => exact h
        | some r =>
          refine h.kill (.inl ?_)
          rw [(checkDeadline_eq_some hcheck).1]
    · exact h
  | rearm =>
    simp only [GuardWorld.step]
    split <;> exact h
  | abort i token =>
    simp only [GuardWorld.step, GuardWorld.abort, GuardShared.abortExecuting]
    split
    · rename_i s heq
      split at heq
      · obtain ⟨rfl, -⟩ := Prod.mk.inj heq
        exact h.kill (.inr ⟨_, rfl⟩)
      · cases heq
    · exact h

/-! ### No turn is forgotten -/

def OwnerPc.entries : OwnerPc → List WatchEntry
  | .registering e => [e]
  | _ => []

def WatchPc.entries : WatchPc → List WatchEntry
  | .popped e => [e]
  | .checking e => [e]
  | .rearming e => [e]
  | .idle => []

/-- The turn an entry is about: its instance and generation. -/
def WatchEntry.key (e : WatchEntry) : Nat × Nat := (e.inst, e.generation)

/-- The entries of `i` in the heap, being checked, or being registered. -/
def GuardWorld.entriesFor (w : GuardWorld) (i : Nat) : List (Nat × Nat) :=
  ((w.heap ++ w.watch.entries ++ (w.owner i).entries).map WatchEntry.key).filter fun k => k.1 = i

/-- How many of them belong to the current generation. -/
def GuardWorld.watching (w : GuardWorld) (i : Nat) : Nat :=
  (w.entriesFor i).countP fun k => k.2 = (w.shared i).generation

structure WatchInv (w : GuardWorld) : Prop where
  /-- No entry is from a later generation. -/
  le_current : ∀ i, ∀ k ∈ w.entriesFor i, k.2 ≤ (w.shared i).generation
  own : ∀ i e, w.owner i = .registering e → e.inst = i
  arming : ∀ i t token next, w.owner i = .arming t token next → next.isSome = t.capped
  watched : ∀ i t, (w.shared i).target = some t → t.capped = true → w.watching i = 1

/-- Entries are only moved around and `shared` keeps its targets. -/
theorem WatchInv.of_perm {w w' : GuardWorld} (h : WatchInv w)
    (hshared : ∀ i, (w'.shared i).generation = (w.shared i).generation ∧
      (w'.shared i).target = (w.shared i).target)
    (hperm : ∀ i, (w'.entriesFor i).Perm (w.entriesFor i))
    (hown : ∀ i e, w'.owner i = .registering e → e.inst = i)
    (harming : ∀ i t token next, w'.owner i = .arming t token next → next.isSome = t.capped) :
    WatchInv w' where
  le_current := by
    intro i k hk
    rw [(hshared i).1]
    exact h.le_current i k ((hperm i).mem_iff.mp hk)
  own := hown
  arming := harming
  watched := by
    intro i t ht hcap
    rw [(hshared i).2] at ht
    unfold GuardWorld.watching
    rw [(hshared i).1, (hperm i).countP_eq]
    exact h.watched i t ht hcap

/-- The watchdog moves entries between its hands and the heap. -/
theorem WatchInv.of_moved {w w' : GuardWorld} (h : WatchInv w)
    (hshared : ∀ i, (w'.shared i).generation = (w.shared i).generation ∧
      (w'.shared i).target = (w.shared i).target) (howner : w'.owner = w.owner)
    (hperm : ((w'.heap ++ w'.watch.entries).map WatchEntry.key).Perm
      ((w.heap ++ w.watch.entries).map WatchEntry.key)) : WatchInv w' := by
  refine h.of_perm hshared (fun i => ?_) (by rw [howner]; exact h.own)
    (by rw [howner]; exact h.arming)
  unfold GuardWorld.entriesFor
  have happend := @List.map_append _ _ WatchEntry.key (w.heap ++ w.watch.entries)
  rw [howner, List.map_append, happend]
  exact (hperm.append_right _).filter _

/-- The watchdog throws away its entry, which is stale or not capped. -/
theorem WatchInv.discard {w w' : GuardWorld} (h : WatchInv w) {e : WatchEntry}
    (hwatch : w.watch.entries = [e]) (hstale : ∀ t, (w.shared e.inst).target = some t →
      t.capped = true → (w.shared e.inst).generation ≠ e.generation)
    (hshared : w'.shared = w.shared) (howner : w'.owner = w.owner) (hheap : w'.heap = w.heap)
    (hidle : w'.watch.entries = []) : WatchInv w' := by
  have hsplit : ∀ i, (w.entriesFor i).Perm
      ([e.key].filter (fun k => k.1 = i) ++ w'.entriesFor i) := by
    intro i
    rw [GuardWorld.entriesFor, GuardWorld.entriesFor, hwatch, hidle, hheap, howner]
    simp only [List.map_append, List.filter_append, List.append_nil, List.append_assoc,
      List.map_cons, List.map_nil]
    exact List.perm_append_comm_assoc _ _ _
  refine ⟨fun i k hk => ?_, by rw [howner]; exact h.own, by rw [howner]; exact h.arming, ?_⟩
  · rw [hshared]
    exact h.le_current i k ((hsplit i).mem_iff.mpr (List.mem_append_right _ hk))
  · intro i t ht hcap
    rw [hshared] at ht
    have hone := h.watched i t ht hcap
    rw [GuardWorld.watching, (hsplit i).countP_eq, List.countP_append] at hone
    have hzero : ([e.key].filter fun k => k.1 = i).countP
        (fun k => k.2 = (w.shared i).generation) = 0 := by
      by_cases hi : e.inst = i
      · subst hi
        simp [WatchEntry.key, Ne.symm (hstale t ht hcap)]
      · simp [WatchEntry.key, hi]
    rw [hzero, Nat.zero_add] at hone
    rw [GuardWorld.watching, hshared]
    exact hone

/-- A new generation on `i`: the entries of the old one go stale, and the one
being registered is the only one of the new. -/
theorem WatchInv.bump {w w' : GuardWorld} (h : WatchInv w) {i : Nat} {s : GuardShared} {o : OwnerPc}
    (hgen : s.generation = (w.shared i).generation + 1) (hidle : (w.owner i).entries = [])
    (hnew : ∀ e ∈ o.entries, e.inst = i ∧ e.generation = s.generation)
    (hcap : ∀ t, s.target = some t → t.capped = true → o.entries.length = 1)
    (harm : ∀ t token next, o ≠ .arming t token next)
    (hshared : w'.shared = Function.update w.shared i s)
    (howner : w'.owner = Function.update w.owner i o) (hheap : w'.heap = w.heap)
    (hwatch : w'.watch = w.watch) : WatchInv w' := by
  have hother : ∀ j, j ≠ i → w'.shared j = w.shared j ∧ w'.owner j = w.owner j := by
    intro j hj
    rw [hshared, howner, Function.update_of_ne hj, Function.update_of_ne hj]
    exact ⟨rfl, rfl⟩
  have hself : w'.shared i = s ∧ w'.owner i = o := by
    rw [hshared, howner, Function.update_self, Function.update_self]
    exact ⟨rfl, rfl⟩
  have hentries : ∀ j, j ≠ i → w'.entriesFor j = w.entriesFor j := by
    intro j hj
    rw [GuardWorld.entriesFor, GuardWorld.entriesFor, hheap, hwatch, (hother j hj).2]
  have hkeys : ∀ k ∈ o.entries.map WatchEntry.key, k.1 = i ∧ k.2 = s.generation := by
    intro k hk
    obtain ⟨e, he, rfl⟩ := List.mem_map.mp hk
    exact hnew e he
  have hsplit : w'.entriesFor i = w.entriesFor i ++ o.entries.map WatchEntry.key := by
    have hpc : (o.entries.map WatchEntry.key).filter (fun k => k.1 = i) =
        o.entries.map WatchEntry.key := by
      rw [List.filter_eq_self]
      intro k hk
      simpa using (hkeys k hk).1
    simp only [GuardWorld.entriesFor, hheap, hwatch, hself.2, hidle, List.append_nil,
      List.map_append, List.filter_append, hpc]
  refine ⟨?_, ?_, ?_, ?_⟩
  · intro j k hk
    by_cases hj : j = i
    · subst hj
      rw [hself.1]
      rw [hsplit] at hk
      rcases List.mem_append.mp hk with hk | hk
      · have := h.le_current j k hk
        omega
      · exact Nat.le_of_eq (hkeys k hk).2
    · rw [hentries j hj] at hk
      rw [(hother j hj).1]
      exact h.le_current j k hk
  · intro j e he
    by_cases hj : j = i
    · subst hj
      rw [hself.2] at he
      subst he
      exact (hnew e List.mem_cons_self).1
    · rw [(hother j hj).2] at he
      exact h.own j e he
  · intro j t token next he
    by_cases hj : j = i
    · subst hj
      rw [hself.2] at he
      exact absurd he (harm t token next)
    · rw [(hother j hj).2] at he
      exact h.arming j t token next he
  · intro j t ht htcap
    by_cases hj : j = i
    · subst hj
      rw [hself.1] at ht
      rw [GuardWorld.watching, hsplit, hself.1, List.countP_append]
      have hzero : (w.entriesFor j).countP (fun k => k.2 = s.generation) = 0 := by
        rw [List.countP_eq_zero]
        intro k hk hmine
        have := h.le_current j k hk
        simp only [decide_eq_true_eq] at hmine
        omega
      have hall : (o.entries.map WatchEntry.key).countP (fun k => k.2 = s.generation) =
          (o.entries.map WatchEntry.key).length := by
        rw [List.countP_eq_length]
        intro k hk
        simpa using (hkeys k hk).2
      rw [hzero, hall, List.length_map, hcap t ht htcap]
    · rw [(hother j hj).1] at ht
      rw [GuardWorld.watching, hentries j hj, (hother j hj).1]
      exact h.watched j t ht htcap

/-- A kill leaves generations and targets alone. -/
theorem update_kill_same (shared : Nat → GuardShared) (i : Nat) (r : TerminationReason) (j : Nat) :
    (Function.update shared i ((shared i).kill r) j).generation = (shared j).generation ∧
      (Function.update shared i ((shared i).kill r) j).target = (shared j).target := by
  by_cases hj : j = i
  · subst hj
    rw [Function.update_self]
    exact ⟨rfl, rfl⟩
  · rw [Function.update_of_ne hj]
    exact ⟨rfl, rfl⟩

theorem check_watch {w : GuardWorld} {e : WatchEntry} (h : WatchInv w)
    (hpc : w.watch = .checking e) : WatchInv (w.check e) := by
  have hentries : w.watch.entries = [e] := by rw [hpc]; rfl
  unfold GuardWorld.check
  split
  · rename_i hnone
    exact h.discard hentries (fun t ht _ => checkDeadline_eq_none hnone t ht) rfl rfl rfl rfl
  · rename_i fire next hsome
    obtain ⟨hgen, t, ht, hjudge⟩ := checkDeadline_eq_some hsome
    -- Whether it fires or not, the turn stays armed and its entry goes back.
    have hkept : ∀ w' : GuardWorld,
        (∀ j, (w'.shared j).generation = (w.shared j).generation ∧
          (w'.shared j).target = (w.shared j).target) →
        w'.owner = w.owner → w'.heap = w.heap → w'.watch = w.watch →
        WatchInv { w' with watch := .after e next } := by
      intro w' hshared howner hheap hwatch
      have hw' : WatchInv w' := h.of_moved hshared howner (by rw [hheap, hwatch])
      cases next with
      | some due =>
        refine hw'.of_moved (fun _ => ⟨rfl, rfl⟩) rfl ?_
        rw [hwatch, hentries]
        simp only [List.map_append, WatchPc.after, WatchPc.entries, List.map_cons, WatchEntry.key]
        exact .refl _
      | none =>
        refine hw'.discard (by rw [hwatch, hentries]) ?_ rfl rfl rfl rfl
        intro t' ht' hcap
        rw [(hshared _).2, ht] at ht'
        obtain rfl : t = t' := Option.some.inj ht'
        have := judge_next (w := w) hcap
        rw [hjudge] at this
        cases this
    cases fire with
    | none => exact hkept w (fun _ => ⟨rfl, rfl⟩) rfl rfl rfl
    | some r => exact hkept _ (update_kill_same w.shared e.inst r) rfl rfl rfl

theorem step_watch (w : GuardWorld) (op : GuardOp) (h : WatchInv w) : WatchInv (w.step op) := by
  cases op with
  | tick dt burn => exact ⟨h.le_current, h.own, h.arming, h.watched⟩
  | setFor i t token =>
    simp only [GuardWorld.step]
    split
    · rename_i hready
      have hother : ∀ j, ((w.setFor i t token).owner j).entries = (w.owner j).entries := by
        intro j
        by_cases hj : j = i
        · subst hj
          simp [GuardWorld.setFor, GuardWorld.setOwner, hready, OwnerPc.entries]
        · simp [GuardWorld.setFor, GuardWorld.setOwner, Function.update_of_ne hj]
      refine h.of_perm (fun j => ⟨rfl, rfl⟩) (fun j => ?_) ?_ ?_
      · rw [GuardWorld.entriesFor, GuardWorld.entriesFor, hother j]
        exact .refl _
      · intro j e he
        by_cases hj : j = i
        · subst hj
          simp [GuardWorld.setFor, GuardWorld.setOwner] at he
        · refine h.own j e ?_
          simpa [GuardWorld.setFor, GuardWorld.setOwner, Function.update_of_ne hj] using he
      · intro j t' token' next he
        by_cases hj : j = i
        · subst hj
          simp only [GuardWorld.setFor, GuardWorld.setOwner, Function.update_self,
            OwnerPc.arming.injEq] at he
          obtain ⟨rfl, -, rfl⟩ := he
          exact nextCheckFor_isSome w t
        · refine h.arming j t' token' next ?_
          simpa [GuardWorld.setFor, GuardWorld.setOwner, Function.update_of_ne hj] using he
    · exact h
  | arm i =>
    simp only [GuardWorld.step]
    split
    · rename_i t token next hpc
      have hcap := h.arming i t token next hpc
      refine h.bump (i := i) (s := (w.shared i).arm t token)
        (o := .registration i ((w.shared i).arm t token).generation next) rfl ?_ ?_ ?_ ?_ rfl rfl
        rfl rfl
      · rw [hpc]
        rfl
      · cases next <;> simp [OwnerPc.registration, OwnerPc.entries]
      · intro t' ht' hcap'
        obtain rfl : t = t' := Option.some.inj ht'
        cases next with
        | none =>
          rw [hcap'] at hcap
          cases hcap
        | some due => rfl
      · cases next <;> simp [OwnerPc.registration]
    · exact h
  | register i =>
    simp only [GuardWorld.step]
    split
    · rename_i e hpc
      have hother : ∀ j, j ≠ i → Function.update w.owner i .ready j = w.owner j :=
        fun j hj => Function.update_of_ne hj _ _
      refine h.of_perm (fun j => ⟨rfl, rfl⟩) (fun j => ?_) ?_ ?_
      · -- The entry moves from the owner's hand to the heap.
        by_cases hj : j = i
        · subst hj
          simp only [GuardWorld.entriesFor, GuardWorld.setOwner, Function.update_self, hpc,
            OwnerPc.entries, List.append_nil]
          refine List.Perm.filter _ (List.Perm.map _ ?_)
          exact @List.perm_append_comm _ [e] (w.heap ++ w.watch.entries)
        · have hinst : e.inst ≠ j := by
            rw [h.own i e hpc]
            exact Ne.symm hj
          simp [GuardWorld.entriesFor, GuardWorld.setOwner, hother j hj, WatchEntry.key, hinst]
      · intro j e' he
        by_cases hj : j = i
        · subst hj
          simp [GuardWorld.setOwner] at he
        · exact h.own j e' (by simpa [GuardWorld.setOwner, hother j hj] using he)
      · intro j t token next he
        by_cases hj : j = i
        · subst hj
          simp [GuardWorld.setOwner] at he
        · exact h.arming j t token next (by simpa [GuardWorld.setOwner, hother j hj] using he)
    · exact h
  | clear i =>
    simp only [GuardWorld.step]
    split
    · rename_i hready
      refine h.bump (i := i) (s := (w.shared i).clear) (o := .ready) rfl (by rw [hready]; rfl)
        (by simp [OwnerPc.entries]) (by simp [GuardShared.clear]) (by simp) rfl ?_ rfl rfl
      rw [← hready, Function.update_eq_self]
      rfl
    · exact h
  | dropGuard i =>
    simp only [GuardWorld.step]
    split
    · rename_i hready
      exact h.bump (i := i) (s := (w.shared i).clear) (o := .dropped) rfl (by rw [hready]; rfl)
        (by simp [OwnerPc.entries]) (by simp [GuardShared.clear]) (by simp) rfl rfl rfl rfl
    · exact h
  | resetReason i =>
    simp only [GuardWorld.step]
    split
    · refine h.of_perm (fun j => ?_) (fun j => .refl _) h.own h.arming
      by_cases hj : j = i
      · subst hj
        simp [GuardWorld.setShared]
      · simp [GuardWorld.setShared, Function.update_of_ne hj]
    · exact h
  | enter i b =>
    simp only [GuardWorld.step]
    split
    · exact ⟨h.le_current, h.own, h.arming, h.watched⟩
    · exact h
  | leave i b =>
    simp only [GuardWorld.step]
    split
    · exact ⟨h.le_current, h.own, h.arming, h.watched⟩
    · exact h
  | pop k =>
    simp only [GuardWorld.step]
    split
    · rename_i e hidle hk
      split
      · obtain ⟨hlt, rfl⟩ := List.getElem?_eq_some_iff.mp hk
        refine h.of_moved (fun _ => ⟨rfl, rfl⟩) rfl (List.Perm.map _ ?_)
        simp only [WatchPc.entries, hidle, List.append_nil]
        exact List.perm_append_comm.trans (List.getElem_cons_eraseIdx_perm hlt)
      · exact h
    · exact h
  | precheck =>
    simp only [GuardWorld.step]
    split
    · rename_i e hpc
      have hentries : w.watch.entries = [e] := by simp only [hpc, WatchPc.entries]
      split
      · exact h.of_moved (fun _ => ⟨rfl, rfl⟩) rfl (by rw [hentries]; exact .refl _)
      · rename_i hstale
        exact h.discard hentries (fun _ _ _ => hstale) rfl rfl rfl rfl
    · exact h
  | check =>
    simp only [GuardWorld.step]
    split
    · rename_i e hpc
      exact check_watch h hpc
    · exact h
  | rearm =>
    simp only [GuardWorld.step]
    split
    · rename_i e hpc
      refine h.of_moved (fun _ => ⟨rfl, rfl⟩) rfl (List.Perm.map _ ?_)
      simp only [hpc, WatchPc.entries, List.append_nil]
      exact @List.perm_append_comm _ [e] _
    · exact h
  | abort i token =>
    simp only [GuardWorld.step, GuardWorld.abort, GuardShared.abortExecuting]
    split
    · rename_i s heq
      split at heq
      · obtain ⟨rfl, -⟩ := Prod.mk.inj heq
        exact h.of_moved (update_kill_same w.shared i .abort) rfl (.refl _)
      · cases heq
    · exact h

/-! ### The protocol -/

theorem new_history : HistoryInv GuardWorld.new.shared GuardWorld.new.history where
  cleared_lt _ _ hmem := absurd hmem List.not_mem_nil
  quiet := by
    intro later earlier i g hsplit
    simp [GuardWorld.new] at hsplit
  executing _ := rfl

theorem new_watch : WatchInv GuardWorld.new where
  le_current _ _ hk := absurd hk List.not_mem_nil
  own _ _ h := by cases h
  arming _ _ _ _ h := by cases h
  watched _ _ h := by cases h

/-- What a step that sets the reason cell of `i` or terminates it found: the
watchdog holds an entry of the armed generation whose cap or deadline is
reached, or the aborted token's turn is executing.  The history says which
turn it acted for. -/
def Justified (w : GuardWorld) (op : GuardOp) (i : Nat) : Prop :=
  ((∃ e t, w.watch = .checking e ∧ e.inst = i ∧ e.generation = (w.shared i).generation ∧
      (w.shared i).target = some t ∧
      ((0 < t.cpuCapMs ∧ t.cpuCapMs ≤ (w.budgets t.budget).elapsedMs w.cpu) ∨
        ∃ d, t.wallDeadline = some d ∧ d ≤ w.now)) ∨
    ∃ token : RunToken, op = .abort i token ∧ (w.shared i).executing = token.val) ∧
  ∃ e, (w.step op).history = e :: w.history ∧ e.actsFor i (w.shared i).generation

/-- Two states with the same reason cell and as many terminations. -/
def GuardShared.SameCell (a b : GuardShared) : Prop :=
  a.terminations = b.terminations ∧ a.reason = b.reason

theorem update_sameCell {f : Nat → GuardShared} {j : Nat} {s : GuardShared}
    (h : s.SameCell (f j)) (i : Nat) : (Function.update f j s i).SameCell (f i) := by
  by_cases hi : i = j
  · subst hi
    rwa [Function.update_self]
  · rw [Function.update_of_ne hi]
    exact ⟨rfl, rfl⟩

theorem check_justified {w : GuardWorld} {e : WatchEntry} (hpc : w.watch = .checking e) (i : Nat)
    (h : ¬ ((w.check e).shared i).SameCell (w.shared i)) : Justified w .check i := by
  have hstep : w.step .check = w.check e := by simp only [GuardWorld.step, hpc]
  unfold Justified
  rw [hstep]
  unfold GuardWorld.check at h ⊢
  split at h
  · exact absurd ⟨rfl, rfl⟩ h
  · rename_i verdict next hsome
    obtain ⟨hgen, t, ht, hjudge⟩ := checkDeadline_eq_some hsome
    cases verdict with
    | none => exact absurd ⟨rfl, rfl⟩ h
    | some r =>
      by_cases hi : i = e.inst
      · subst hi
        refine ⟨.inl ⟨e, t, hpc, rfl, hgen.symm, ht, ?_⟩, ?_⟩
        · rcases judge_fire (w := w) (t := t) (r := r) (by rw [hjudge]) with ⟨-, hcpu⟩ | ⟨-, hwall⟩
          · exact .inl hcpu
          · exact .inr hwall
        · exact ⟨_, rfl, rfl, hgen.symm⟩
      · refine absurd ?_ h
        show (Function.update w.shared e.inst _ i).SameCell (w.shared i)
        rw [Function.update_of_ne hi]
        exact ⟨rfl, rfl⟩

theorem abort_justified {w : GuardWorld} {j : Nat} {token : RunToken} (i : Nat)
    (h : ¬ ((w.abort j token.val).shared i).SameCell (w.shared i)) :
    Justified w (.abort j token) i := by
  by_cases hexec : (w.shared j).executing = token.val
  · have habort : w.abort j token.val = (w.setShared j ((w.shared j).kill .abort)).note
        (.aborted j (w.shared j).generation token.val) := by
      unfold GuardWorld.abort GuardShared.abortExecuting
      rw [if_pos hexec]
      rfl
    by_cases hi : i = j
    · subst hi
      refine ⟨.inr ⟨token, rfl, hexec⟩, .aborted i (w.shared i).generation token.val, ?_, rfl, rfl⟩
      show (w.abort i token.val).history = _
      rw [habort]
      rfl
    · refine absurd ?_ h
      rw [habort]
      show (Function.update w.shared j _ i).SameCell (w.shared i)
      rw [Function.update_of_ne hi]
      exact ⟨rfl, rfl⟩
  · refine absurd ?_ h
    unfold GuardWorld.abort GuardShared.abortExecuting
    rw [if_neg hexec]
    exact ⟨rfl, rfl⟩

/-- Only a fire, an abort and a reset touch the cell. -/
theorem step_justified (w : GuardWorld) (op : GuardOp) (i : Nat) (hop : op ≠ .resetReason i)
    (h : ¬ ((w.step op).shared i).SameCell (w.shared i)) : Justified w op i := by
  cases op with
  | check =>
    simp only [GuardWorld.step] at h
    split at h
    · rename_i e hpc
      exact check_justified hpc i h
    · exact absurd ⟨rfl, rfl⟩ h
  | abort j token => exact abort_justified i h
  | resetReason j =>
    refine absurd ?_ h
    have hi : i ≠ j := fun e => hop (by rw [e])
    simp only [GuardWorld.step]
    split
    · show (Function.update w.shared j _ i).SameCell (w.shared i)
      rw [Function.update_of_ne hi]
      exact ⟨rfl, rfl⟩
    · exact ⟨rfl, rfl⟩
  | arm j =>
    refine absurd ?_ h
    simp only [GuardWorld.step]
    split
    · rename_i t token next _
      exact update_sameCell (f := w.shared) (j := j) (s := (w.shared j).arm t token) ⟨rfl, rfl⟩ i
    · exact ⟨rfl, rfl⟩
  | clear j =>
    refine absurd ?_ h
    simp only [GuardWorld.step]
    split
    · exact update_sameCell (f := w.shared) (j := j) (s := (w.shared j).clear) ⟨rfl, rfl⟩ i
    · exact ⟨rfl, rfl⟩
  | dropGuard j =>
    refine absurd ?_ h
    simp only [GuardWorld.step]
    split
    · exact update_sameCell (f := w.shared) (j := j) (s := (w.shared j).clear) ⟨rfl, rfl⟩ i
    · exact ⟨rfl, rfl⟩
  | pop k =>
    refine absurd ?_ h
    simp only [GuardWorld.step]
    split
    · split <;> exact ⟨rfl, rfl⟩
    · exact ⟨rfl, rfl⟩
  | precheck =>
    refine absurd ?_ h
    simp only [GuardWorld.step]
    split
    · split <;> exact ⟨rfl, rfl⟩
    · exact ⟨rfl, rfl⟩
  | tick | setFor | register | enter | leave | rearm =>
    refine absurd ?_ h
    simp only [GuardWorld.step]
    try split
    all_goals exact ⟨rfl, rfl⟩

/-- The guard and watchdog protocol, over every interleaving: nothing acts for
a turn after its clear; the cell of `i` changes (a reset apart) only through a
justified fire or an abort of the executing turn; a capped turn that stays
armed is watched by exactly one entry; and `abort_executing` answers whether
the token's turn is executing. -/
theorem watchdog_protocol (ops : List GuardOp) :
    let w := Execution.exec GuardWorld.step .new ops
    Quiet w.history ∧
    (∀ op i, op ≠ .resetReason i → ¬ ((w.step op).shared i).SameCell (w.shared i) →
      Justified w op i) ∧
    (∀ i t, (w.shared i).target = some t → t.capped = true → w.watching i = 1) ∧
    (∀ i (token : RunToken), ((w.shared i).abortExecuting token.val).2 = true ↔
      executingTurn i w.history = some token.val) := by
  intro w
  have hhist : HistoryInv w.shared w.history :=
    Execution.exec_invariant (I := fun w : GuardWorld => HistoryInv w.shared w.history)
      step_history new_history ops
  have hwatch : WatchInv w := Execution.exec_invariant step_watch new_watch ops
  refine ⟨hhist.quiet, fun op i hop hne => step_justified w op i hop hne, hwatch.watched, ?_⟩
  intro i token
  have hexec := hhist.executing i
  have hpos := token.pos
  unfold GuardShared.abortExecuting
  cases hturn : executingTurn i w.history with
  | none =>
    rw [hturn, Option.getD_none] at hexec
    rw [if_neg (by omega)]
    simp
  | some t =>
    rw [hturn, Option.getD_some] at hexec
    by_cases ht : t = token.val
    · rw [if_pos (by omega), ht]
      simp
    · rw [if_neg (by omega)]
      simp [ht]

end Iso4
