/-
Run admission (`SlotPool` of `packages/iso4-sandbox/src/pool.ts`).

A fixed number of slots, callers beyond it queued first in, first out.  The
caller's promise settles once: `resolve` and `reject` calls after that do
nothing.  Abort listeners run one at a time, in a dispatch that other
synchronous calls may come between; a listener removed meanwhile is skipped.

`SlotWorld` is the pool with the callers around it: their signals and the
listeners on them, how each promise settled, who holds a slot.

* `slot_admission` — what holds of the pool before `dispose`, after every
  sequence of calls and aborts.
-/
import Iso4.Lib.Execution
import Mathlib.Data.List.Nodup
import Mathlib.Data.List.Sublists
import Mathlib.Tactic.Common

namespace Iso4

/-- Why an `acquire` is rejected. -/
inductive SlotError where
  | disposed
  | runAborted
  | queueFull
  deriving DecidableEq

/-- How a caller's promise settled. -/
inductive SlotOutcome where
  | admitted
  | rejected (e : SlotError)
  deriving DecidableEq

/-- A queued caller with its soft and hard abort signals. -/
structure SlotWaiter where
  caller : Nat
  signal : Option Nat
  hardAbortSignal : Option Nat

/-- An abort listener a queued caller put on a signal. -/
structure AbortListener where
  signal : Nat
  caller : Nat
  deriving DecidableEq

/-- The abort listeners of a queued caller. -/
def SlotWaiter.listeners (x : SlotWaiter) : List AbortListener :=
  (x.signal.toList ++ x.hardAbortSignal.toList).map fun signal => ⟨signal, x.caller⟩

structure SlotPool where
  capacity : Nat
  maxQueued : Nat
  active : Nat
  waiters : List SlotWaiter
  disposed : Bool

/-- The pool and its callers. -/
structure SlotWorld extends SlotPool where
  /-- The signals that fired. -/
  aborted : List Nat
  listeners : List AbortListener
  /-- The listeners of fired signals still to run. -/
  dispatching : List AbortListener
  /-- How many callers asked for a slot. -/
  callers : Nat
  /-- The callers that got a slot or a place in the queue, in order. -/
  entered : List Nat
  /-- How the promises settled, in order. -/
  outcomes : List (Nat × SlotOutcome)
  /-- The admitted callers that did not release yet. -/
  holders : List Nat
  released : Nat

/-- A call or an abort. -/
inductive SlotOp where
  | acquire (signal hardAbortSignal : Option Nat)
  /-- The `k`-th holder releases its slot. -/
  | release (k : Nat)
  | setCapacity (capacity : Nat)
  | abort (signal : Nat)
  /-- The next listener of a fired signal runs. -/
  | listener
  | dispose

namespace SlotWorld

def new (capacity maxQueued : Nat) : SlotWorld where
  capacity := capacity
  maxQueued := maxQueued
  active := 0
  waiters := []
  disposed := false
  aborted := []
  listeners := []
  dispatching := []
  callers := 0
  entered := []
  outcomes := []
  holders := []
  released := 0

def settled (w : SlotWorld) (caller : Nat) : Bool := decide (caller ∈ w.outcomes.map Prod.fst)

/-- Settle a caller's promise, once. -/
def settle (w : SlotWorld) (caller : Nat) (o : SlotOutcome) : SlotWorld :=
  if w.settled caller then w else { w with outcomes := w.outcomes ++ [(caller, o)] }

/-- The `settle` of a waiter: remove its abort listeners. -/
def removeListeners (w : SlotWorld) (caller : Nat) : SlotWorld :=
  { w with
    listeners := w.listeners.filter fun l => l.caller ≠ caller
    dispatching := w.dispatching.filter fun l => l.caller ≠ caller }

/-- Resolve a caller's promise: it holds a slot from here on. -/
def admitCaller (w : SlotWorld) (caller : Nat) : SlotWorld :=
  let holders := if w.settled caller then w.holders else w.holders ++ [caller]
  { w.settle caller .admitted with holders }

/-- `waiter.resolve`. -/
def resolveWaiter (w : SlotWorld) (x : SlotWaiter) : SlotWorld :=
  (w.removeListeners x.caller).admitCaller x.caller

/-- `waiter.reject`. -/
def rejectWaiter (w : SlotWorld) (x : SlotWaiter) (e : SlotError) : SlotWorld :=
  (w.removeListeners x.caller).settle x.caller (.rejected e)

def isAborted (w : SlotWorld) (signal : Option Nat) : Bool :=
  match signal with
  | some signal => decide (signal ∈ w.aborted)
  | none => false

/-- Queue a caller. -/
def enqueue (w : SlotWorld) (x : SlotWaiter) : SlotWorld :=
  { w with
    waiters := w.waiters ++ [x]
    listeners := w.listeners ++ x.listeners
    entered := w.entered ++ [x.caller] }

def acquire (w : SlotWorld) (signal hardAbortSignal : Option Nat) : SlotWorld :=
  let caller := w.callers
  let w := { w with callers := w.callers + 1 }
  if w.disposed then w.settle caller (.rejected .disposed)
  else if w.isAborted signal || w.isAborted hardAbortSignal then
    w.settle caller (.rejected .runAborted)
  else if w.active < w.capacity then
    { w with active := w.active + 1, entered := w.entered ++ [caller] }.admitCaller caller
  else if w.waiters.length ≥ w.maxQueued then w.settle caller (.rejected .queueFull)
  else w.enqueue ⟨caller, signal, hardAbortSignal⟩

/-- `while (active < capacity)`, over the queue. -/
def admitWaiters (w : SlotWorld) : List SlotWaiter → SlotWorld
  | [] => { w with waiters := [] }
  | x :: rest =>
    if w.active < w.capacity then
      ({ w with waiters := rest, active := w.active + 1 }.resolveWaiter x).admitWaiters rest
    else { w with waiters := x :: rest }

def setCapacity (w : SlotWorld) (capacity : Nat) : SlotWorld :=
  if w.disposed || capacity = w.capacity || capacity < 1 then w
  else { w with capacity }.admitWaiters w.waiters

/-- `release`, of a caller that no longer holds its slot. -/
def freeSlot (w : SlotWorld) : SlotWorld :=
  match w.waiters with
  | x :: rest =>
    if w.active ≤ w.capacity then { w with waiters := rest }.resolveWaiter x
    else { w with active := w.active - 1 }
  | [] => { w with active := w.active - 1 }

def release (w : SlotWorld) (k : Nat) : SlotWorld :=
  if k < w.holders.length then
    { w with holders := w.holders.eraseIdx k, released := w.released + 1 }.freeSlot
  else w

/-- A signal fires; its listeners are dispatched. -/
def abort (w : SlotWorld) (signal : Nat) : SlotWorld :=
  if signal ∈ w.aborted then w
  else
    { w with
      aborted := signal :: w.aborted
      listeners := w.listeners.filter fun l => l.signal ≠ signal
      dispatching := (w.listeners.filter fun l => l.signal = signal) ++ w.dispatching }

/-- `dequeue`, the abort listener of a queued caller. -/
def dequeue (w : SlotWorld) (caller : Nat) : SlotWorld :=
  { w with waiters := w.waiters.filter fun x => x.caller ≠ caller }.settle caller
    (.rejected .runAborted)

def runListener (w : SlotWorld) : SlotWorld :=
  match w.dispatching with
  | [] => w
  | l :: rest => { w with dispatching := rest }.dequeue l.caller

/-- Reject every waiter of a disposed pool. -/
def rejectAll (w : SlotWorld) : List SlotWaiter → SlotWorld
  | [] => w
  | x :: rest => (w.rejectWaiter x .disposed).rejectAll rest

def dispose (w : SlotWorld) : SlotWorld :=
  if w.disposed then w else { w with disposed := true, waiters := [] }.rejectAll w.waiters

def step (w : SlotWorld) : SlotOp → SlotWorld
  | .acquire signal hardAbortSignal => w.acquire signal hardAbortSignal
  | .release k => if w.dispatching = [] then w.release k else w
  | .setCapacity capacity => if w.dispatching = [] then w.setCapacity capacity else w
  | .abort signal => w.abort signal
  | .listener => w.runListener
  | .dispose => w.dispose

/-! ### Promises -/

/-- The callers admitted, in order. -/
def admitted (w : SlotWorld) : List Nat :=
  w.outcomes.filterMap fun p => if p.2 = .admitted then some p.1 else none

/-- The caller's promise was rejected. -/
def rejected (w : SlotWorld) (caller : Nat) : Bool :=
  w.outcomes.any fun p => decide (p.1 = caller) && decide (p.2 ≠ .admitted)

section Settle

variable {w : SlotWorld} {c d : Nat} {e : SlotError}

theorem settle_eq {o : SlotOutcome} (h : c ∉ w.outcomes.map Prod.fst) :
    w.settle c o = { w with outcomes := w.outcomes ++ [(c, o)] } :=
  if_neg (by simpa [settled] using h)

theorem settle_of_settled {o : SlotOutcome} (h : c ∈ w.outcomes.map Prod.fst) : w.settle c o = w :=
  if_pos (by simpa [settled] using h)

theorem admit_eq (h : c ∉ w.outcomes.map Prod.fst) :
    w.admitCaller c =
      { w with outcomes := w.outcomes ++ [(c, .admitted)], holders := w.holders ++ [c] } := by
  have hs : w.settled c = false := by simpa [settled] using h
  rw [admitCaller, hs, settle_eq h]
  rfl

theorem admitted_concat (o : SlotOutcome) :
    admitted { w with outcomes := w.outcomes ++ [(c, o)] } =
      w.admitted ++ if o = .admitted then [c] else [] := by
  rw [admitted, List.filterMap_append]
  congr 1
  cases o <;> rfl

theorem rejected_concat (o : SlotOutcome) :
    rejected { w with outcomes := w.outcomes ++ [(c, o)] } d =
      (w.rejected d || (decide (c = d) && decide (o ≠ .admitted))) := by
  simp [rejected, List.any_append]

/-- A rejected caller is settled. -/
theorem settled_of_rejected (h : w.rejected c = true) : c ∈ w.outcomes.map Prod.fst := by
  obtain ⟨p, hp, hc⟩ := List.any_eq_true.mp h
  simp only [Bool.and_eq_true, decide_eq_true_eq] at hc
  exact List.mem_map.mpr ⟨p, hp, hc.1⟩

theorem mem_admitted : c ∈ w.admitted ↔ (c, .admitted) ∈ w.outcomes := by
  simp only [admitted, List.mem_filterMap, Option.ite_none_right_eq_some, Option.some.injEq,
    Prod.exists]
  constructor
  · rintro ⟨a, o, hm, rfl, rfl⟩
    exact hm
  · exact fun hm => ⟨c, _, hm, rfl, rfl⟩

end Settle

/-! ### The queue -/

/-- Promises and queue: callers come out of the queue in order, each promise
settles once, and every waiter's signals are heard. -/
structure Orderly (w : SlotWorld) : Prop where
  fifo : (w.entered.filter fun c => !w.rejected c) = w.admitted ++ w.waiters.map SlotWaiter.caller
  bound : w.waiters.length ≤ w.maxQueued
  once : (w.outcomes.map Prod.fst).Nodup
  waiting : ∀ x ∈ w.waiters, x.caller ∉ w.outcomes.map Prod.fst
  distinct : w.entered.Nodup
  fresh : (∀ c ∈ w.entered, c < w.callers) ∧ ∀ c ∈ w.outcomes.map Prod.fst, c < w.callers
  listening : ∀ x ∈ w.waiters, ∀ l ∈ x.listeners,
    (l ∈ w.listeners ∧ l.signal ∉ w.aborted) ∨ l ∈ w.dispatching
  heard : ∀ l, l ∈ w.listeners ∨ l ∈ w.dispatching →
    (∃ x ∈ w.waiters, x.caller = l.caller) ∨ w.rejected l.caller = true

namespace Orderly

variable {w : SlotWorld}

/-- The counters are another matter. -/
theorem set (h : Orderly w) (active capacity released : Nat) (holders : List Nat) :
    Orderly { w with active, capacity, released, holders } :=
  ⟨h.fifo, h.bound, h.once, h.waiting, h.distinct, h.fresh, h.listening, h.heard⟩

theorem callers_nodup (h : Orderly w) : (w.admitted ++ w.waiters.map SlotWaiter.caller).Nodup :=
  h.fifo ▸ h.distinct.filter _

theorem mem_entered (h : Orderly w) {x : SlotWaiter} (hx : x ∈ w.waiters) : x.caller ∈ w.entered := by
  have hm : x.caller ∈ w.admitted ++ w.waiters.map SlotWaiter.caller :=
    List.mem_append_right _ (List.mem_map_of_mem hx)
  rw [← h.fifo] at hm
  exact (List.mem_filter.mp hm).1

/-- A listener belongs to a caller that is not admitted. -/
theorem heard_of_mem (h : Orderly w) {l : AbortListener} (hl : l ∈ w.listeners ∨ l ∈ w.dispatching) :
    l.caller ∉ w.admitted := by
  intro ha
  rcases h.heard l hl with ⟨x, hx, hc⟩ | hr
  · exact h.waiting x hx (hc ▸ List.mem_map_of_mem (mem_admitted.mp ha))
  · obtain ⟨p, hp, hpc⟩ := List.any_eq_true.mp hr
    simp only [Bool.and_eq_true, decide_eq_true_eq] at hpc
    have hsame := List.inj_on_of_nodup_map h.once hp (mem_admitted.mp ha) hpc.1
    rw [hsame] at hpc
    exact hpc.2 rfl

/-- The first waiter is admitted. -/
theorem resolve (h : Orderly w) {x : SlotWaiter} {rest : List SlotWaiter} (hw : w.waiters = x :: rest) :
    Orderly ({ w with waiters := rest }.resolveWaiter x) ∧
      ({ w with waiters := rest }.resolveWaiter x).admitted = w.admitted ++ [x.caller] ∧
      ({ w with waiters := rest }.resolveWaiter x).holders = w.holders ++ [x.caller] := by
  have hx : x ∈ w.waiters := hw ▸ List.mem_cons_self
  have hopen : x.caller ∉ w.outcomes.map Prod.fst := h.waiting x hx
  have hdistinct := h.callers_nodup
  rw [hw, List.map_cons] at hdistinct
  have hne : ∀ y ∈ rest, y.caller ≠ x.caller := by
    intro y hy he
    have hcons := (List.nodup_append.mp hdistinct).2.1
    exact (List.nodup_cons.mp hcons).1 (List.mem_map.mpr ⟨y, hy, he⟩)
  have hrest : ∀ y ∈ rest, y ∈ w.waiters := fun y hy => hw ▸ List.mem_cons_of_mem _ hy
  have hstep : { w with waiters := rest }.resolveWaiter x =
      { w with
        waiters := rest
        listeners := w.listeners.filter fun l => l.caller ≠ x.caller
        dispatching := w.dispatching.filter fun l => l.caller ≠ x.caller
        outcomes := w.outcomes ++ [(x.caller, .admitted)]
        holders := w.holders ++ [x.caller] } :=
    admit_eq (w := removeListeners { w with waiters := rest } x.caller) hopen
  have hrej : ∀ d, rejected { w with outcomes := w.outcomes ++ [(x.caller, .admitted)] } d = w.rejected d := by
    intro d
    rw [rejected_concat]
    simp
  have hadm : admitted { w with outcomes := w.outcomes ++ [(x.caller, .admitted)] } =
      w.admitted ++ [x.caller] := admitted_concat _
  rw [hstep]
  refine ⟨⟨?_, ?_, ?_, ?_, h.distinct, ?_, ?_, ?_⟩, hadm, rfl⟩
  · have hfifo := h.fifo
    rw [hw, List.map_cons] at hfifo
    change (w.entered.filter fun c => !rejected { w with outcomes := _ } c) = _ ++ _
    simp only [hrej]
    rw [hfifo]
    change _ = admitted { w with outcomes := _ } ++ _
    rw [hadm, List.append_assoc]
    rfl
  · have hb := h.bound
    rw [hw, List.length_cons] at hb
    exact Nat.le_of_succ_le hb
  · change ((w.outcomes ++ [(x.caller, SlotOutcome.admitted)]).map Prod.fst).Nodup
    rw [List.map_append, List.map_singleton, List.nodup_append]
    refine ⟨h.once, List.nodup_singleton _, fun a ha b hb => ?_⟩
    rw [List.mem_singleton.mp hb]
    rintro rfl
    exact hopen ha
  · intro y hy hm
    rw [List.map_append, List.mem_append] at hm
    rcases hm with hm | hm
    · exact h.waiting y (hrest y hy) hm
    · exact hne y hy (List.mem_singleton.mp hm)
  · refine ⟨h.fresh.1, fun c hc => ?_⟩
    rw [List.map_append, List.mem_append] at hc
    rcases hc with hc | hc
    · exact h.fresh.2 c hc
    · rw [List.mem_singleton.mp hc]
      exact h.fresh.1 _ (h.mem_entered hx)
  · intro y hy l hl
    have hcaller : l.caller = y.caller := by
      obtain ⟨signal, -, rfl⟩ := List.mem_map.mp hl
      rfl
    have hkeep : decide (l.caller ≠ x.caller) = true := by
      rw [hcaller]
      exact decide_eq_true (hne y hy)
    rcases h.listening y (hrest y hy) l hl with ⟨hm, ha⟩ | hm
    · exact Or.inl ⟨List.mem_filter.mpr ⟨hm, hkeep⟩, ha⟩
    · exact Or.inr (List.mem_filter.mpr ⟨hm, hkeep⟩)
  · intro l hl
    have hcut : (l ∈ w.listeners ∨ l ∈ w.dispatching) ∧ l.caller ≠ x.caller := by
      rcases hl with hl | hl
      · exact ⟨Or.inl (List.mem_filter.mp hl).1, of_decide_eq_true (List.mem_filter.mp hl).2⟩
      · exact ⟨Or.inr (List.mem_filter.mp hl).1, of_decide_eq_true (List.mem_filter.mp hl).2⟩
    rcases h.heard l hcut.1 with ⟨y, hy, hc⟩ | hr
    · rw [hw] at hy
      rcases List.mem_cons.mp hy with rfl | hy
      · exact absurd hc.symm hcut.2
      · exact Or.inl ⟨y, hy, hc⟩
    · exact Or.inr ((hrej _).trans hr)

/-- A listener of a waiter names its caller. -/
theorem caller_of_listeners {x : SlotWaiter} {l : AbortListener} (hl : l ∈ x.listeners) :
    l.caller = x.caller := by
  obtain ⟨signal, -, rfl⟩ := List.mem_map.mp hl
  rfl

/-- An unsettled caller is rejected and leaves the queue; of its listeners any
may go. -/
theorem withdraw (h : Orderly w) {c : Nat} {e : SlotError} (hc : c ∉ w.outcomes.map Prod.fst)
    (hlt : c < w.callers) {waiters : List SlotWaiter} {listeners dispatching : List AbortListener}
    (hq : (w.waiters.filter fun x => x.caller ≠ c) = waiters)
    (hl : ∀ l ∈ listeners, l ∈ w.listeners) (hd : ∀ l ∈ dispatching, l ∈ w.dispatching)
    (hl' : ∀ l ∈ w.listeners, l.caller ≠ c → l ∈ listeners)
    (hd' : ∀ l ∈ w.dispatching, l.caller ≠ c → l ∈ dispatching) :
    Orderly { w with
      waiters, listeners, dispatching, outcomes := w.outcomes ++ [(c, .rejected e)] } := by
  subst hq
  have hrej : ∀ d, rejected { w with outcomes := w.outcomes ++ [(c, .rejected e)] } d =
      (w.rejected d || decide (c = d)) := by
    intro d
    rw [rejected_concat]
    simp
  have hadm : admitted { w with outcomes := w.outcomes ++ [(c, .rejected e)] } = w.admitted := by
    rw [admitted_concat]
    simp
  have hnot : c ∉ w.admitted := fun hm => hc (List.mem_map_of_mem (mem_admitted.mp hm))
  have hstay : ∀ y ∈ w.waiters.filter fun x => x.caller ≠ c, y ∈ w.waiters ∧ y.caller ≠ c :=
    fun y hy => ⟨(List.mem_filter.mp hy).1, of_decide_eq_true (List.mem_filter.mp hy).2⟩
  refine ⟨?_, ?_, ?_, ?_, h.distinct, ?_, ?_, ?_⟩
  · change (w.entered.filter fun d => !rejected { w with outcomes := _ } d) =
      admitted { w with outcomes := _ } ++ _
    rw [hadm]
    calc (w.entered.filter fun d => !rejected { w with outcomes := w.outcomes ++ [(c, .rejected e)] } d)
        = (w.entered.filter fun d => !w.rejected d).filter fun d => d ≠ c := by
          rw [List.filter_filter]
          refine List.filter_congr fun d _ => ?_
          rw [hrej, Bool.not_or, Bool.and_comm, ← decide_not]
          exact congrArg (· && _) (decide_eq_decide.mpr ne_comm)
      _ = (w.admitted ++ w.waiters.map SlotWaiter.caller).filter fun d => d ≠ c := by rw [h.fifo]
      _ = w.admitted ++ (w.waiters.filter fun x => x.caller ≠ c).map SlotWaiter.caller := by
          rw [List.filter_append, List.filter_map]
          congr 1
          refine List.filter_eq_self.mpr fun d hd => decide_eq_true ?_
          rintro rfl
          exact hnot hd
  · exact Nat.le_trans (List.length_filter_le _ _) h.bound
  · change ((w.outcomes ++ [(c, SlotOutcome.rejected e)]).map Prod.fst).Nodup
    rw [List.map_append, List.map_singleton, List.nodup_append]
    refine ⟨h.once, List.nodup_singleton _, fun a ha b hb => ?_⟩
    rw [List.mem_singleton.mp hb]
    rintro rfl
    exact hc ha
  · intro y hy hm
    rw [List.map_append, List.mem_append] at hm
    rcases hm with hm | hm
    · exact h.waiting y (hstay y hy).1 hm
    · exact (hstay y hy).2 (List.mem_singleton.mp hm)
  · refine ⟨h.fresh.1, fun d hm => ?_⟩
    rw [List.map_append, List.mem_append] at hm
    rcases hm with hm | hm
    · exact h.fresh.2 d hm
    · rw [List.mem_singleton.mp hm]
      exact hlt
  · intro y hy l hm
    have hne : l.caller ≠ c := caller_of_listeners hm ▸ (hstay y hy).2
    rcases h.listening y (hstay y hy).1 l hm with ⟨hm, ha⟩ | hm
    · exact Or.inl ⟨hl' l hm hne, ha⟩
    · exact Or.inr (hd' l hm hne)
  · intro l hm
    by_cases hlc : l.caller = c
    · refine Or.inr ((hrej _).trans ?_)
      rw [hlc, decide_eq_true rfl, Bool.or_true]
    · rcases h.heard l (hm.imp (hl l) (hd l)) with ⟨y, hy, hyc⟩ | hr
      · exact Or.inl ⟨y, List.mem_filter.mpr ⟨hy, decide_eq_true (hyc ▸ hlc)⟩, hyc⟩
      · refine Or.inr ((hrej _).trans ?_)
        rw [hr, Bool.true_or]

/-- A new caller is rejected at once. -/
theorem refuse (h : Orderly w) (e : SlotError) :
    Orderly ({ w with callers := w.callers + 1 }.settle w.callers (.rejected e)) := by
  have hc : w.callers ∉ w.outcomes.map Prod.fst := fun hm => Nat.lt_irrefl _ (h.fresh.2 _ hm)
  have hnew : Orderly { w with callers := w.callers + 1 } :=
    ⟨h.fifo, h.bound, h.once, h.waiting, h.distinct, ⟨fun c hm => Nat.lt_succ_of_lt (h.fresh.1 c hm),
      fun c hm => Nat.lt_succ_of_lt (h.fresh.2 c hm)⟩, h.listening, h.heard⟩
  have hsame : (w.waiters.filter fun x => x.caller ≠ w.callers) = w.waiters := by
    refine List.filter_eq_self.mpr fun x hx => decide_eq_true ?_
    exact Nat.ne_of_lt (h.fresh.1 _ (h.mem_entered hx))
  rw [settle_eq (w := { w with callers := w.callers + 1 }) hc]
  exact hnew.withdraw hc (Nat.lt_succ_self _) hsame (fun _ => id) (fun _ => id) (fun _ hl _ => hl)
    fun _ hl _ => hl

/-- A new caller gets a free slot: nobody waits. -/
theorem admitNew (h : Orderly w) (hw : w.waiters = []) (active : Nat) :
    Orderly ({ w with
      callers := w.callers + 1, active, entered := w.entered ++ [w.callers] }.admitCaller w.callers) := by
  have hc : w.callers ∉ w.outcomes.map Prod.fst := fun hm => Nat.lt_irrefl _ (h.fresh.2 _ hm)
  have hrej : ∀ d, rejected { w with outcomes := w.outcomes ++ [(w.callers, .admitted)] } d = w.rejected d := by
    intro d
    rw [rejected_concat]
    simp
  have hopen : w.rejected w.callers = false := by
    rw [Bool.eq_false_iff]
    exact fun hr => hc (settled_of_rejected hr)
  have hadm : admitted { w with outcomes := w.outcomes ++ [(w.callers, .admitted)] } =
      w.admitted ++ [w.callers] := admitted_concat _
  rw [admit_eq (w := { w with
    callers := w.callers + 1, active, entered := w.entered ++ [w.callers] }) hc]
  refine ⟨?_, h.bound, ?_, ?_, ?_, ⟨fun c hm => ?_, fun c hm => ?_⟩, h.listening, fun l hl => ?_⟩
  · change ((w.entered ++ [w.callers]).filter fun d => !rejected { w with outcomes := _ } d) =
      admitted { w with outcomes := _ } ++ w.waiters.map SlotWaiter.caller
    have hfifo := h.fifo
    rw [hw, List.map_nil, List.append_nil] at hfifo
    simp only [hrej]
    rw [hadm, hw, List.filter_append, hfifo, List.map_nil, List.append_nil]
    congr 1
    exact List.filter_eq_self.mpr fun d hd => by rw [List.mem_singleton.mp hd, hopen]; rfl
  · change ((w.outcomes ++ [(w.callers, SlotOutcome.admitted)]).map Prod.fst).Nodup
    rw [List.map_append, List.map_singleton, List.nodup_append]
    refine ⟨h.once, List.nodup_singleton _, fun a ha b hb => ?_⟩
    rw [List.mem_singleton.mp hb]
    rintro rfl
    exact hc ha
  · intro x hx
    rw [show w.waiters = [] from hw] at hx
    cases hx
  · rw [List.nodup_append]
    refine ⟨h.distinct, List.nodup_singleton _, fun a ha b hb => ?_⟩
    rw [List.mem_singleton.mp hb]
    exact Nat.ne_of_lt (h.fresh.1 a ha)
  · rcases List.mem_append.mp hm with hm | hm
    · exact Nat.lt_succ_of_lt (h.fresh.1 c hm)
    · rw [List.mem_singleton.mp hm]
      exact Nat.lt_succ_self _
  · rw [List.map_append, List.mem_append] at hm
    rcases hm with hm | hm
    · exact Nat.lt_succ_of_lt (h.fresh.2 c hm)
    · rw [List.mem_singleton.mp hm]
      exact Nat.lt_succ_self _
  · exact (h.heard l hl).imp_right (hrej _).trans

/-- A new caller whose signals did not fire is queued. -/
theorem enqueueNew (h : Orderly w) {signal hardAbortSignal : Option Nat}
    (hs : w.isAborted signal = false) (hh : w.isAborted hardAbortSignal = false)
    (hroom : w.waiters.length < w.maxQueued) :
    Orderly ({ w with callers := w.callers + 1 }.enqueue ⟨w.callers, signal, hardAbortSignal⟩) := by
  have hc : w.callers ∉ w.outcomes.map Prod.fst := fun hm => Nat.lt_irrefl _ (h.fresh.2 _ hm)
  have hopen : w.rejected w.callers = false := by
    rw [Bool.eq_false_iff]
    exact fun hr => hc (settled_of_rejected hr)
  have hquiet : ∀ l ∈ (⟨w.callers, signal, hardAbortSignal⟩ : SlotWaiter).listeners,
      l.signal ∉ w.aborted := by
    intro l hl hm
    obtain ⟨sig, hsig, rfl⟩ := List.mem_map.mp hl
    rcases List.mem_append.mp hsig with hsig | hsig
    · obtain rfl : signal = some sig := Option.mem_toList.mp hsig
      exact of_decide_eq_false hs hm
    · obtain rfl : hardAbortSignal = some sig := Option.mem_toList.mp hsig
      exact of_decide_eq_false hh hm
  refine ⟨?_, ?_, h.once, ?_, ?_, ⟨fun c hm => ?_, fun c hm => Nat.lt_succ_of_lt (h.fresh.2 c hm)⟩, ?_, ?_⟩
  · change ((w.entered ++ [w.callers]).filter fun d => !w.rejected d) =
      w.admitted ++ (w.waiters ++ [_]).map SlotWaiter.caller
    rw [List.filter_append, h.fifo, List.map_append, List.append_assoc]
    congr 2
    exact List.filter_eq_self.mpr fun d hd => by rw [List.mem_singleton.mp hd, hopen]; rfl
  · change (w.waiters ++ [_]).length ≤ w.maxQueued
    rw [List.length_append]
    exact hroom
  · intro x hx
    rcases List.mem_append.mp hx with hx | hx
    · exact h.waiting x hx
    · rw [List.mem_singleton.mp hx]
      exact hc
  · change (w.entered ++ [w.callers]).Nodup
    rw [List.nodup_append]
    refine ⟨h.distinct, List.nodup_singleton _, fun a ha b hb => ?_⟩
    rw [List.mem_singleton.mp hb]
    exact Nat.ne_of_lt (h.fresh.1 a ha)
  · rcases List.mem_append.mp hm with hm | hm
    · exact Nat.lt_succ_of_lt (h.fresh.1 c hm)
    · rw [List.mem_singleton.mp hm]
      exact Nat.lt_succ_self _
  · intro x hx l hl
    rcases List.mem_append.mp hx with hx | hx
    · exact (h.listening x hx l hl).imp_left fun hl => ⟨List.mem_append_left _ hl.1, hl.2⟩
    · rw [List.mem_singleton.mp hx] at hl
      exact Or.inl ⟨List.mem_append_right _ hl, hquiet l hl⟩
  · intro l hl
    have hold : l ∈ w.listeners ∨ l ∈ w.dispatching →
        (∃ x ∈ w.waiters ++ [⟨w.callers, signal, hardAbortSignal⟩], x.caller = l.caller) ∨
          w.rejected l.caller = true := fun hl =>
      (h.heard l hl).imp_left fun ⟨x, hx, hxc⟩ => ⟨x, List.mem_append_left _ hx, hxc⟩
    rcases hl with hl | hl
    · rcases List.mem_append.mp hl with hl | hl
      · exact hold (Or.inl hl)
      · exact Or.inl ⟨_, List.mem_append_right _ (List.mem_singleton.mpr rfl),
          (caller_of_listeners hl).symm⟩
    · exact hold (Or.inr hl)

theorem abort (h : Orderly w) (signal : Nat) : Orderly (w.abort signal) := by
  unfold SlotWorld.abort
  split
  · exact h
  · refine ⟨h.fifo, h.bound, h.once, h.waiting, h.distinct, h.fresh, ?_, ?_⟩
    · intro x hx l hl
      rcases h.listening x hx l hl with ⟨hl, ha⟩ | hl
      · by_cases hs : l.signal = signal
        · exact Or.inr (List.mem_append_left _ (List.mem_filter.mpr ⟨hl, decide_eq_true hs⟩))
        · refine Or.inl ⟨List.mem_filter.mpr ⟨hl, decide_eq_true hs⟩, fun hm => ?_⟩
          rcases List.mem_cons.mp hm with hm | hm
          · exact hs hm
          · exact ha hm
      · exact Or.inr (List.mem_append_right _ hl)
    · intro l hl
      refine h.heard l ?_
      rcases hl with hl | hl
      · exact Or.inl (List.mem_filter.mp hl).1
      · rcases List.mem_append.mp hl with hl | hl
        · exact Or.inl (List.mem_filter.mp hl).1
        · exact Or.inr hl

theorem runListener (h : Orderly w) : Orderly w.runListener := by
  unfold SlotWorld.runListener
  split
  · exact h
  · next l rest hd =>
    have hmem : l ∈ w.dispatching := hd ▸ List.mem_cons_self
    unfold dequeue
    by_cases hc : l.caller ∈ w.outcomes.map Prod.fst
    · -- The caller was rejected before: the queue does not hold it.
      rw [settle_of_settled (by exact hc)]
      have hsame : (w.waiters.filter fun x => x.caller ≠ l.caller) = w.waiters := by
        refine List.filter_eq_self.mpr fun x hx => decide_eq_true fun he => ?_
        exact h.waiting x hx (he ▸ hc)
      have hnone : ∀ x ∈ w.waiters, x.caller ≠ l.caller := fun x hx he => h.waiting x hx (he ▸ hc)
      dsimp only
      rw [hsame]
      refine ⟨h.fifo, h.bound, h.once, h.waiting, h.distinct, h.fresh, ?_, ?_⟩
      · intro x hx m hm
        refine (h.listening x hx m hm).imp_right fun hm' => ?_
        rw [hd] at hm'
        rcases List.mem_cons.mp hm' with rfl | hm'
        · exact absurd (caller_of_listeners hm).symm (hnone x hx)
        · exact hm'
      · exact fun m hm => h.heard m (hm.imp_right fun hm => hd ▸ List.mem_cons_of_mem _ hm)
    · have hlt : l.caller < w.callers := by
        rcases h.heard l (Or.inr hmem) with ⟨x, hx, hxc⟩ | hr
        · rw [← hxc]
          exact h.fresh.1 _ (h.mem_entered hx)
        · exact absurd (settled_of_rejected hr) hc
      rw [settle_eq (by exact hc)]
      refine h.withdraw hc hlt rfl (fun _ => id) (fun m hm => hd ▸ List.mem_cons_of_mem _ hm)
        (fun _ hm _ => hm) fun m hm hne => ?_
      rw [hd] at hm
      rcases List.mem_cons.mp hm with rfl | hm
      · exact absurd rfl hne
      · exact hm

/-- The waiters are rejected one by one. -/
theorem rejectAll {xs : List SlotWaiter} (h : Orderly { w with waiters := xs }) (hw : w.waiters = []) :
    Orderly (w.rejectAll xs) := by
  induction xs generalizing w with
  | nil =>
    rw [← hw] at h
    exact h
  | cons x xs ih =>
    have hc : x.caller ∉ w.outcomes.map Prod.fst := h.waiting x List.mem_cons_self
    have hdistinct := h.callers_nodup
    have hne : ∀ y ∈ xs, y.caller ≠ x.caller := by
      intro y hy he
      have hcons : (x.caller :: xs.map SlotWaiter.caller).Nodup := (List.nodup_append.mp hdistinct).2.1
      exact (List.nodup_cons.mp hcons).1 (List.mem_map.mpr ⟨y, hy, he⟩)
    have hrest : ((x :: xs).filter fun y => y.caller ≠ x.caller) = xs := by
      rw [List.filter_cons_of_neg (by simp)]
      exact List.filter_eq_self.mpr fun y hy => decide_eq_true (hne y hy)
    have hcut : Orderly { w with
        waiters := xs
        listeners := w.listeners.filter fun l => l.caller ≠ x.caller
        dispatching := w.dispatching.filter fun l => l.caller ≠ x.caller
        outcomes := w.outcomes ++ [(x.caller, .rejected .disposed)] } := h.withdraw hc
      (h.fresh.1 _ (h.mem_entered List.mem_cons_self)) hrest
      (fun l hl => (List.mem_filter.mp hl).1) (fun l hl => (List.mem_filter.mp hl).1)
      (fun l hl hne => List.mem_filter.mpr ⟨hl, decide_eq_true hne⟩)
      fun l hl hne => List.mem_filter.mpr ⟨hl, decide_eq_true hne⟩
    have hstep : w.rejectWaiter x .disposed =
        { w with
          listeners := w.listeners.filter fun l => l.caller ≠ x.caller
          dispatching := w.dispatching.filter fun l => l.caller ≠ x.caller
          outcomes := w.outcomes ++ [(x.caller, .rejected .disposed)] } :=
      settle_eq (w := w.removeListeners x.caller) hc
    rw [SlotWorld.rejectAll, hstep]
    exact ih hcut hw

theorem dispose (h : Orderly w) : Orderly w.dispose := by
  unfold SlotWorld.dispose
  split
  · exact h
  · refine rejectAll ?_ rfl
    exact ⟨h.fifo, h.bound, h.once, h.waiting, h.distinct, h.fresh, h.listening, h.heard⟩

end Orderly

/-! ### The slots -/

/-- Slots taken and given back, and no slot left free while someone waits. -/
structure Counted (w : SlotWorld) : Prop where
  full : w.waiters ≠ [] → w.capacity ≤ w.active
  slots : w.active + w.released = w.admitted.length
  holders : w.holders.length = w.active

/-- The pool is in order. -/
structure Fair (w : SlotWorld) : Prop extends Orderly w, Counted w

variable {w : SlotWorld}

theorem settle_toSlotPool (w : SlotWorld) (c : Nat) (o : SlotOutcome) :
    (w.settle c o).toSlotPool = w.toSlotPool := by
  unfold settle
  split <;> rfl

theorem settle_holders (w : SlotWorld) (c : Nat) (o : SlotOutcome) :
    (w.settle c o).holders = w.holders ∧ (w.settle c o).released = w.released := by
  unfold settle
  split <;> exact ⟨rfl, rfl⟩

theorem admitted_settle (w : SlotWorld) (c : Nat) (e : SlotError) :
    (w.settle c (.rejected e)).admitted = w.admitted := by
  unfold settle
  split
  · rfl
  · rw [admitted_concat]
    simp

/-- Rejecting a caller frees and takes no slot. -/
theorem Counted.settle (h : Counted w) (c : Nat) (e : SlotError) : Counted (w.settle c (.rejected e)) where
  full := by
    rw [settle_toSlotPool]
    exact h.full
  slots := by
    rw [admitted_settle, (settle_holders w c _).2, settle_toSlotPool]
    exact h.slots
  holders := by
    rw [(settle_holders w c _).1, settle_toSlotPool]
    exact h.holders

theorem resolve_toSlotPool (w : SlotWorld) (x : SlotWaiter) :
    (w.resolveWaiter x).toSlotPool = w.toSlotPool :=
  settle_toSlotPool (w.removeListeners x.caller) x.caller .admitted

/-- Handing a slot to the first waiter. -/
theorem resolve_slots (h : Orderly w) {x : SlotWaiter} {rest : List SlotWaiter}
    (hw : w.waiters = x :: rest) (hs : w.active + w.released = w.admitted.length + 1)
    (hh : w.holders.length + 1 = w.active) :
    ({ w with waiters := rest }.resolveWaiter x).active +
        ({ w with waiters := rest }.resolveWaiter x).released =
      ({ w with waiters := rest }.resolveWaiter x).admitted.length ∧
    ({ w with waiters := rest }.resolveWaiter x).holders.length =
      ({ w with waiters := rest }.resolveWaiter x).active := by
  obtain ⟨-, hadm, hhold⟩ := h.resolve hw
  have hpool : ({ w with waiters := rest }.resolveWaiter x).active = w.active :=
    (congrArg SlotPool.active (resolve_toSlotPool { w with waiters := rest } x) :)
  have hrel : ({ w with waiters := rest }.resolveWaiter x).released = w.released :=
    (settle_holders (removeListeners { w with waiters := rest } x.caller) x.caller .admitted).2
  rw [hadm, hhold, hpool, hrel, List.length_append, List.length_append]
  exact ⟨hs, hh⟩

/-- The loop that admits waiters after the capacity grew. -/
theorem admitWaiters_fair {xs : List SlotWaiter} (h : Orderly w) (hw : w.waiters = xs)
    (hs : w.active + w.released = w.admitted.length) (hh : w.holders.length = w.active) :
    Fair (w.admitWaiters xs) ∧ (w.admitWaiters xs).capacity = w.capacity ∧
      (w.active < (w.admitWaiters xs).active → w.active < w.capacity) := by
  induction xs generalizing w with
  | nil =>
    have hsame : w.admitWaiters [] = w := by
      rw [admitWaiters, ← hw]
    rw [hsame]
    exact ⟨⟨h, ⟨fun hne => absurd hw hne, hs, hh⟩⟩, rfl, fun hlt => absurd hlt (Nat.lt_irrefl _)⟩
  | cons x xs ih =>
    rw [admitWaiters]
    split
    · next hroom =>
      have htaken := h.set (w.active + 1) w.capacity w.released w.holders
      have hres := htaken.resolve hw
      obtain ⟨hslots, hholders⟩ := resolve_slots htaken hw
        (show w.active + 1 + w.released = w.admitted.length + 1 by omega)
        (show w.holders.length + 1 = w.active + 1 by omega)
      have hpool := resolve_toSlotPool { w with waiters := xs, active := w.active + 1 } x
      obtain ⟨hfair, hcap, -⟩ := ih hres.1 (congrArg SlotPool.waiters hpool :) hslots hholders
      exact ⟨hfair, hcap.trans (congrArg SlotPool.capacity hpool :), fun _ => hroom⟩
    · next hfull =>
      have hsame : { w with waiters := x :: xs } = w := by rw [← hw]
      rw [hsame]
      exact ⟨⟨h, ⟨fun _ => Nat.le_of_not_lt hfull, hs, hh⟩⟩, rfl, fun hlt => absurd hlt (Nat.lt_irrefl _)⟩

/-- No step takes a slot at or above the capacity it leaves. -/
structure Step (w w' : SlotWorld) : Prop where
  fair : Fair w'
  grows : w.active < w'.active → w.active < w'.capacity

theorem Step.still {w' : SlotWorld} (h : Fair w') (ha : w'.active ≤ w.active) : Step w w' :=
  ⟨h, fun hlt => absurd hlt (Nat.not_lt.mpr ha)⟩

theorem step_acquire (h : Fair w) (signal hardAbortSignal : Option Nat) :
    Step w (w.acquire signal hardAbortSignal) := by
  have hrefuse : ∀ e, Step w ({ w with callers := w.callers + 1 }.settle w.callers (.rejected e)) := by
    intro e
    have hcounted : Counted { w with callers := w.callers + 1 } := ⟨h.full, h.slots, h.holders⟩
    refine Step.still ⟨h.toOrderly.refuse e, hcounted.settle _ e⟩ ?_
    rw [settle_toSlotPool]
  unfold acquire
  dsimp only
  split
  · exact hrefuse _
  · split
    · exact hrefuse _
    · next hsignals =>
      split
      · next hroom =>
        have hnone : w.waiters = [] := by
          by_contra hne
          exact absurd (h.full hne) (Nat.not_le.mpr hroom)
        have hc : w.callers ∉ w.outcomes.map Prod.fst := fun hm => Nat.lt_irrefl _ (h.fresh.2 _ hm)
        have horderly := h.toOrderly.admitNew hnone (w.active + 1)
        rw [admit_eq (w := { w with
          callers := w.callers + 1, active := w.active + 1,
          entered := w.entered ++ [w.callers] }) hc] at horderly ⊢
        refine ⟨⟨horderly, ⟨fun hne => absurd hnone hne, ?_, ?_⟩⟩, fun _ => hroom⟩
        · change w.active + 1 + w.released = (admitted { w with outcomes := _ }).length
          have hslots := h.slots
          rw [admitted_concat, List.length_append, if_pos rfl, List.length_singleton]
          omega
        · have hholders := h.holders
          change (w.holders ++ [w.callers]).length = w.active + 1
          rw [List.length_append, List.length_singleton, hholders]
      · next hfull =>
        split
        · exact hrefuse _
        · next hroom =>
          rw [Bool.not_eq_true, Bool.or_eq_false_iff] at hsignals
          refine Step.still ⟨?_, ⟨fun _ => Nat.le_of_not_lt hfull, h.slots, h.holders⟩⟩ (Nat.le_refl _)
          exact h.toOrderly.enqueueNew hsignals.1 hsignals.2 (Nat.lt_of_not_le hroom)

theorem step_release (h : Fair w) (k : Nat) : Step w (w.release k) := by
  unfold release
  split
  · next hk =>
    have hslots := h.slots
    have hlen : (w.holders.eraseIdx k).length + 1 = w.active := by
      rw [List.length_eraseIdx_of_lt hk, h.holders]
      have := h.holders
      omega
    have hset := h.toOrderly.set w.active w.capacity (w.released + 1) (w.holders.eraseIdx k)
    have hdown : Orderly { w with
        active := w.active - 1, released := w.released + 1, holders := w.holders.eraseIdx k } :=
      h.toOrderly.set _ _ _ _
    unfold freeSlot
    split
    · next x rest hw =>
      split
      · next hle =>
        have hres := hset.resolve hw
        obtain ⟨hs, hh⟩ := resolve_slots hset hw
          (show w.active + (w.released + 1) = w.admitted.length + 1 by omega) hlen
        have hpool := resolve_toSlotPool
          { w with waiters := rest, released := w.released + 1, holders := w.holders.eraseIdx k } x
        refine Step.still ⟨hres.1, ⟨fun _ => ?_, hs, hh⟩⟩ (Nat.le_of_eq (congrArg SlotPool.active hpool :))
        rw [hpool]
        exact h.full (hw ▸ List.cons_ne_nil _ _)
      · next habove =>
        refine Step.still ⟨hdown, ⟨fun _ => ?_, ?_, ?_⟩⟩ (Nat.sub_le _ _)
        · change w.capacity ≤ w.active - 1
          change ¬ w.active ≤ w.capacity at habove
          omega
        · change w.active - 1 + (w.released + 1) = w.admitted.length
          omega
        · change (w.holders.eraseIdx k).length = w.active - 1
          omega
    · next hw =>
      refine Step.still ⟨hdown, ⟨fun hne => absurd hw hne, ?_, ?_⟩⟩ (Nat.sub_le _ _)
      · change w.active - 1 + (w.released + 1) = w.admitted.length
        omega
      · change (w.holders.eraseIdx k).length = w.active - 1
        omega
  · exact Step.still h (Nat.le_refl _)

theorem step_setCapacity (h : Fair w) (capacity : Nat) : Step w (w.setCapacity capacity) := by
  unfold setCapacity
  split
  · exact Step.still h (Nat.le_refl _)
  · have hset := h.toOrderly.set w.active capacity w.released w.holders
    obtain ⟨hfair, hcap, hgrows⟩ := admitWaiters_fair hset rfl h.slots h.holders
    exact ⟨hfair, fun hlt => by rw [hcap]; exact hgrows hlt⟩

theorem step_abort (h : Fair w) (signal : Nat) : Step w (w.abort signal) := by
  have horderly := h.toOrderly.abort signal
  unfold SlotWorld.abort at horderly ⊢
  split
  · exact Step.still h (Nat.le_refl _)
  · next hnew =>
    rw [if_neg hnew] at horderly
    exact Step.still ⟨horderly, ⟨h.full, h.slots, h.holders⟩⟩ (Nat.le_refl _)

theorem step_listener (h : Fair w) : Step w w.runListener := by
  have horderly := h.toOrderly.runListener
  unfold SlotWorld.runListener at horderly ⊢
  split
  · exact Step.still h (Nat.le_refl _)
  · next l rest hd =>
    rw [hd] at horderly
    have hcounted : Counted { w with
        dispatching := rest, waiters := w.waiters.filter fun x => x.caller ≠ l.caller } := by
      refine ⟨fun hne => h.full fun hnil => hne ?_, h.slots, h.holders⟩
      rw [show w.waiters = [] from hnil]
      rfl
    refine Step.still ⟨horderly, hcounted.settle _ _⟩ ?_
    rw [dequeue, settle_toSlotPool]

theorem rejectAll_counted {xs : List SlotWaiter} (h : Counted w) : Counted (w.rejectAll xs) := by
  induction xs generalizing w with
  | nil => exact h
  | cons x xs ih =>
    have hcut : Counted (w.removeListeners x.caller) := ⟨h.full, h.slots, h.holders⟩
    exact ih (hcut.settle _ _)

theorem rejectAll_active (xs : List SlotWaiter) (w : SlotWorld) : (w.rejectAll xs).active = w.active := by
  induction xs generalizing w with
  | nil => rfl
  | cons x xs ih =>
    rw [rejectAll, ih, rejectWaiter, settle_toSlotPool]
    rfl

theorem step_dispose (h : Fair w) : Step w w.dispose := by
  have horderly := h.toOrderly.dispose
  unfold SlotWorld.dispose at horderly ⊢
  split
  · exact Step.still h (Nat.le_refl _)
  · next hlive =>
    rw [if_neg hlive] at horderly
    refine Step.still ⟨horderly, rejectAll_counted ⟨fun hne => absurd rfl hne, h.slots, h.holders⟩⟩ ?_
    rw [rejectAll_active]

theorem step_fair (h : Fair w) (op : SlotOp) : Step w (w.step op) := by
  cases op with
  | acquire signal hardAbortSignal => exact step_acquire h signal hardAbortSignal
  | release k =>
    unfold step
    dsimp only
    split
    · exact step_release h k
    · exact Step.still h (Nat.le_refl _)
  | setCapacity capacity =>
    unfold step
    dsimp only
    split
    · exact step_setCapacity h capacity
    · exact Step.still h (Nat.le_refl _)
  | abort signal => exact step_abort h signal
  | listener => exact step_listener h
  | dispose => exact step_dispose h

theorem new_fair (capacity maxQueued : Nat) : Fair (new capacity maxQueued) where
  fifo := rfl
  bound := Nat.zero_le _
  once := List.nodup_nil
  waiting _ hx := absurd hx List.not_mem_nil
  distinct := List.nodup_nil
  fresh := ⟨fun _ hc => absurd hc List.not_mem_nil, fun _ hc => absurd hc List.not_mem_nil⟩
  listening _ hx := absurd hx List.not_mem_nil
  heard _ hl := hl.elim (absurd · List.not_mem_nil) (absurd · List.not_mem_nil)
  full hne := absurd rfl hne
  slots := rfl
  holders := rfl

/-! ### Promises settle once -/

theorem prefix_settle (w : SlotWorld) (c : Nat) (o : SlotOutcome) :
    w.outcomes <+: (w.settle c o).outcomes := by
  unfold settle
  split
  · exact List.prefix_refl _
  · exact List.prefix_append _ _

theorem prefix_resolveWaiter (w : SlotWorld) (x : SlotWaiter) :
    w.outcomes <+: (w.resolveWaiter x).outcomes :=
  prefix_settle (w.removeListeners x.caller) x.caller .admitted

theorem prefix_admitWaiters (xs : List SlotWaiter) (w : SlotWorld) :
    w.outcomes <+: (w.admitWaiters xs).outcomes := by
  induction xs generalizing w with
  | nil => exact List.prefix_refl _
  | cons x xs ih =>
    rw [admitWaiters]
    split
    · exact (prefix_resolveWaiter { w with waiters := xs, active := w.active + 1 } x).trans (ih _)
    · exact List.prefix_refl _

theorem prefix_rejectAll (xs : List SlotWaiter) (w : SlotWorld) :
    w.outcomes <+: (w.rejectAll xs).outcomes := by
  induction xs generalizing w with
  | nil => exact List.prefix_refl _
  | cons x xs ih => exact (prefix_settle (w.removeListeners x.caller) x.caller _).trans (ih _)

theorem prefix_release (w : SlotWorld) (k : Nat) : w.outcomes <+: (w.release k).outcomes := by
  unfold release
  split
  · unfold freeSlot
    split
    · next x rest _ =>
      split
      · exact prefix_resolveWaiter
          { w with waiters := rest, holders := w.holders.eraseIdx k, released := w.released + 1 } x
      · exact List.prefix_refl _
    · exact List.prefix_refl _
  · exact List.prefix_refl _

theorem prefix_acquire (w : SlotWorld) (signal hardAbortSignal : Option Nat) :
    w.outcomes <+: (w.acquire signal hardAbortSignal).outcomes := by
  unfold acquire
  dsimp only
  split
  · exact prefix_settle { w with callers := w.callers + 1 } _ _
  · split
    · exact prefix_settle { w with callers := w.callers + 1 } _ _
    · split
      · exact prefix_settle { w with
          callers := w.callers + 1, active := w.active + 1, entered := w.entered ++ [w.callers] } _ _
      · split
        · exact prefix_settle { w with callers := w.callers + 1 } _ _
        · exact List.prefix_refl _

/-- A settled promise stays as it is. -/
theorem prefix_step (w : SlotWorld) (op : SlotOp) : w.outcomes <+: (w.step op).outcomes := by
  cases op with
  | acquire signal hardAbortSignal => exact prefix_acquire w signal hardAbortSignal
  | release k =>
    unfold step
    dsimp only
    split
    · exact prefix_release w k
    · exact List.prefix_refl _
  | setCapacity capacity =>
    unfold step setCapacity
    dsimp only
    split
    · split
      · exact List.prefix_refl _
      · exact prefix_admitWaiters _ { w with capacity }
    · exact List.prefix_refl _
  | abort signal =>
    unfold step SlotWorld.abort
    dsimp only
    split <;> exact List.prefix_refl _
  | listener =>
    unfold step runListener
    dsimp only
    split
    · exact List.prefix_refl _
    · next l rest _ =>
      exact prefix_settle { w with
        dispatching := rest, waiters := w.waiters.filter fun x => x.caller ≠ l.caller } _ _
  | dispose =>
    unfold step dispose
    dsimp only
    split
    · exact List.prefix_refl _
    · exact prefix_rejectAll _ { w with disposed := true, waiters := [] }

/-! ### Aborted waiters -/

theorem admitted_rejectAll (xs : List SlotWaiter) (w : SlotWorld) :
    (w.rejectAll xs).admitted = w.admitted := by
  induction xs generalizing w with
  | nil => rfl
  | cons x xs ih =>
    rw [rejectAll, ih, rejectWaiter, admitted_settle]
    rfl

/-- A caller that is waiting is not admitted by another's call. -/
theorem admitted_acquire (h : Fair w) {x : SlotWaiter} (hx : x ∈ w.waiters)
    (signal hardAbortSignal : Option Nat) : x.caller ∉ (w.acquire signal hardAbortSignal).admitted := by
  have hnot : x.caller ∉ w.admitted :=
    fun hm => h.waiting x hx (List.mem_map_of_mem (mem_admitted.mp hm))
  have hrefuse : ∀ e, x.caller ∉
      ({ w with callers := w.callers + 1 }.settle w.callers (.rejected e)).admitted := by
    intro e
    rw [admitted_settle]
    exact hnot
  unfold acquire
  dsimp only
  split
  · exact hrefuse _
  · split
    · exact hrefuse _
    · split
      · next hroom =>
        have hfull := h.full (List.ne_nil_of_mem hx)
        change w.active < w.capacity at hroom
        omega
      · split
        · exact hrefuse _
        · exact hnot

/-- A waiter that a step admits has no fired signal. -/
theorem admitted_unaborted (h : Fair w) {op : SlotOp} {x : SlotWaiter} (hx : x ∈ w.waiters)
    (ha : x.caller ∈ (w.step op).admitted) :
    w.isAborted x.signal = false ∧ w.isAborted x.hardAbortSignal = false := by
  have hnot : x.caller ∉ w.admitted :=
    fun hm => h.waiting x hx (List.mem_map_of_mem (mem_admitted.mp hm))
  have hquiet : w.dispatching = [] →
      w.isAborted x.signal = false ∧ w.isAborted x.hardAbortSignal = false := by
    intro hd
    have hsilent : ∀ signal, signal ∈ x.signal.toList ++ x.hardAbortSignal.toList →
        signal ∉ w.aborted := by
      intro signal hs
      have hl : (⟨signal, x.caller⟩ : AbortListener) ∈ x.listeners := List.mem_map_of_mem hs
      rcases h.listening x hx _ hl with ⟨-, hfree⟩ | hm
      · exact hfree
      · rw [hd] at hm
        cases hm
    constructor
    · cases hs : x.signal with
      | none => rfl
      | some signal => exact decide_eq_false (hsilent signal (by simp [hs]))
    · cases hs : x.hardAbortSignal with
      | none => rfl
      | some signal => exact decide_eq_false (hsilent signal (by simp [hs]))
  cases op with
  | acquire signal hardAbortSignal => exact absurd ha (admitted_acquire h hx signal hardAbortSignal)
  | release k =>
    unfold step at ha
    dsimp only at ha
    split at ha
    · next hd => exact hquiet hd
    · exact absurd ha hnot
  | setCapacity capacity =>
    unfold step at ha
    dsimp only at ha
    split at ha
    · next hd => exact hquiet hd
    · exact absurd ha hnot
  | abort signal =>
    unfold step SlotWorld.abort at ha
    dsimp only at ha
    split at ha <;> exact absurd ha hnot
  | listener =>
    unfold step runListener at ha
    dsimp only at ha
    split at ha
    · exact absurd ha hnot
    · rw [dequeue, admitted_settle] at ha
      exact absurd ha hnot
  | dispose =>
    unfold step dispose at ha
    dsimp only at ha
    split at ha
    · exact absurd ha hnot
    · rw [admitted_rejectAll] at ha
      exact absurd ha hnot

/-- An abort listener that runs leaves its caller rejected. -/
theorem rejected_listener (h : Fair w) {l : AbortListener} {rest : List AbortListener}
    (hd : w.dispatching = l :: rest) : (w.step .listener).rejected l.caller = true := by
  unfold step runListener
  rw [hd]
  dsimp only
  unfold dequeue
  by_cases hc : l.caller ∈ w.outcomes.map Prod.fst
  · rw [settle_of_settled (by exact hc)]
    rcases h.heard l (Or.inr (hd ▸ List.mem_cons_self)) with ⟨x, hx, hxc⟩ | hr
    · exact absurd (hxc ▸ hc) (h.waiting x hx)
    · exact hr
  · rw [settle_eq (by exact hc), rejected_concat]
    simp

end SlotWorld

/-- After every sequence of calls and aborts: callers wait only while the slots
are taken, the slots are those of the callers admitted and not released, callers
are admitted in the order they came but for the rejected ones, the queue stays
within its bound, each promise settles once and for good, an aborted waiter is
rejected and never admitted, and no step takes a slot at or above the capacity. -/
theorem slot_admission (capacity maxQueued : Nat) (ops : List SlotOp) :
    let w := Execution.exec SlotWorld.step (SlotWorld.new capacity maxQueued) ops
    (w.waiters ≠ [] → w.capacity ≤ w.active) ∧
    (w.active + w.released = w.admitted.length ∧ w.holders.length = w.active) ∧
    (w.entered.filter fun c => !w.rejected c) = w.admitted ++ w.waiters.map SlotWaiter.caller ∧
    w.waiters.length ≤ w.maxQueued ∧
    ((w.outcomes.map Prod.fst).Nodup ∧ ∀ op, w.outcomes <+: (w.step op).outcomes) ∧
    (∀ l rest, w.dispatching = l :: rest → (w.step .listener).rejected l.caller = true) ∧
    (∀ op, ∀ x ∈ w.waiters, x.caller ∈ (w.step op).admitted →
      w.isAborted x.signal = false ∧ w.isAborted x.hardAbortSignal = false) ∧
    ∀ op, w.active < (w.step op).active → w.active < (w.step op).capacity := by
  intro w
  have h : w.Fair := Execution.exec_invariant (I := SlotWorld.Fair)
    (fun _ op hw => (SlotWorld.step_fair hw op).fair) (SlotWorld.new_fair capacity maxQueued) ops
  exact ⟨h.full, ⟨h.slots, h.holders⟩, h.fifo, h.bound, ⟨h.once, w.prefix_step⟩,
    fun _ _ => SlotWorld.rejected_listener h, fun _ _ hx => SlotWorld.admitted_unaborted h hx,
    fun op => (SlotWorld.step_fair h op).grows⟩

end Iso4
