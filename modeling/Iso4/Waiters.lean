/-
The callers that wait for a connection (`ConnectionRegistry.openOrWait` of
`packages/iso4-sandbox/src/pool.ts`).

A caller that finds no connection with room counts the places that the opens in flight have
promised and the waiters have claimed.  It takes one of them, or opens a connection of its own.
An open that ends settles the first waiters: with its connection, or with nothing, and then they
decide again.

* `WaiterRun` — the registry with what it did to each caller;
* `settled_step` — the step lemma, `settled_exec` — the run lemma;
* `openings_of_turnedAway` — the opens that a burst of callers starts;
* `waiters_settled` — all of it, in every state of every run.
-/
import Iso4.Connections

namespace Iso4

/-- What a segment does to a caller; `again` says that an open that failed, or the end of the
registry, had sent the caller back to decide. -/
inductive WaitEvent where
  /-- `tryAcquire` found a connection. -/
  | placed (caller connection : Nat)
  | opens (caller : Nat) (again : Bool)
  | waits (caller : Nat) (again : Bool)
  | rejects (caller : Nat) (again : Bool)
  /-- The caller's own open ended. -/
  | opened (caller connection : Nat)
  | openFailed (caller : Nat)
  /-- A waiter was settled: with a connection, or with `undefined`. -/
  | settled (caller : Nat) (connection : Option Nat)
  deriving DecidableEq

namespace WaitEvent

/-- The caller joins the waiters. -/
def parks (c : Nat) : WaitEvent → Bool
  | .waits caller _ => caller == c
  | _ => false

def settles (c : Nat) : WaitEvent → Bool
  | .settled caller _ => caller == c
  | _ => false

def sentBack (c : Nat) : WaitEvent → Bool
  | .settled caller none => caller == c
  | _ => false

/-- A decision of a caller that was sent back. -/
def decidesAgain (c : Nat) : WaitEvent → Bool
  | .opens caller true => caller == c
  | .waits caller true => caller == c
  | .rejects caller true => caller == c
  | _ => false

/-- A waiter takes a place on the connection. -/
def seats (i : Nat) : WaitEvent → Bool
  | .settled _ (some j) => j == i
  | _ => false

end WaitEvent

namespace PoolWorld

/-- The decision of `openOrWait`. -/
def decision (w : PoolWorld) (caller : Nat) (again : Bool) : WaitEvent :=
  if w.disposed then .rejects caller again
  else if w.opening * (runsPerConnection - 1) < w.waiters.length + 1 then .opens caller again
  else .waits caller again

/-- The waiters that the end of an open settles. -/
def settledBy (w : PoolWorld) (client : Option Nat) : List WaitEvent :=
  (w.waiters.take (runsPerConnection - 1)).map fun caller => .settled caller client

/-- What a segment does to the callers. -/
def events (w : PoolWorld) : PoolOp → List WaitEvent
  | .withClient _ =>
    if w.disposed then [.rejects w.callers false]
    else
      match (tryAcquire w.connections).2 with
      | some i => [.placed w.callers i]
      | none => [w.decision w.callers false]
  | .connected k =>
    match w.openers[k]? with
    | none => []
    | some caller =>
      if w.disposed then .openFailed caller :: w.settledBy none
      else .opened caller w.connections.length :: w.settledBy (some w.connections.length)
  | .connectFailed k =>
    match w.openers[k]? with
    | none => []
    | some caller => .openFailed caller :: w.settledBy none
  | .decideAgain k =>
    match w.deciding[k]? with
    | none => []
    | some caller => [w.decision caller true]
  | .dispose => if w.disposed then [] else w.waiters.map fun caller => .settled caller none
  | _ => []

end PoolWorld

/-- The registry and what it did so far, oldest first. -/
structure WaiterRun where
  pool : PoolWorld
  log : List WaitEvent

namespace WaiterRun

def new : WaiterRun := ⟨PoolWorld.new, []⟩

def step (r : WaiterRun) (op : PoolOp) : WaiterRun := ⟨r.pool.step op, r.log ++ r.pool.events op⟩

/-- What holds of the waiters in every state. -/
structure Settled (r : WaiterRun) : Prop where
  /-- Every waiter has a place that an open in flight promises. -/
  promised : r.pool.waiters.length ≤ r.pool.opening * (runsPerConnection - 1)
  opening : r.pool.openers.length = r.pool.opening
  /-- A caller stands in one place. -/
  once : ∀ c, r.pool.waiters.count c + (r.pool.openers.count c + r.pool.deciding.count c) ≤
    if c < r.pool.callers then 1 else 0
  waits : ∀ c, r.log.countP (WaitEvent.parks c) =
    r.log.countP (WaitEvent.settles c) + r.pool.waiters.count c
  again : ∀ c, r.log.countP (WaitEvent.sentBack c) =
    r.log.countP (WaitEvent.decidesAgain c) + r.pool.deciding.count c
  seated : ∀ i, r.log.countP (WaitEvent.seats i) ≤
    if i < r.pool.connections.length then runsPerConnection - 1 else 0

end WaiterRun

/-! ### Counting -/

theorem count_eraseIdx {l : List Nat} {k a : Nat} (h : l[k]? = some a) (c : Nat) :
    (l.eraseIdx k).count c + (if a = c then 1 else 0) = l.count c := by
  obtain ⟨hlt, hget⟩ := List.getElem?_eq_some_iff.mp h
  have hperm := List.getElem_cons_eraseIdx_perm hlt
  rw [← hperm.count_eq, hget, List.count_cons]
  simp

theorem length_eraseIdx {l : List Nat} {k a : Nat} (h : l[k]? = some a) :
    (l.eraseIdx k).length + 1 = l.length := by
  obtain ⟨hlt, -⟩ := List.getElem?_eq_some_iff.mp h
  rw [List.length_eraseIdx_of_lt hlt]
  omega

section Settle

variable (l : List Nat) (client : Option Nat) (c : Nat)

theorem countP_parks_settled :
    (l.map fun caller => WaitEvent.settled caller client).countP (WaitEvent.parks c) = 0 := by
  rw [List.countP_map]
  exact List.countP_eq_zero.mpr fun a _ => by simp [WaitEvent.parks]

theorem countP_settles_settled :
    (l.map fun caller => WaitEvent.settled caller client).countP (WaitEvent.settles c) =
      l.count c := by
  rw [List.countP_map]
  rfl

theorem countP_sentBack_settled :
    (l.map fun caller => WaitEvent.settled caller client).countP (WaitEvent.sentBack c) =
      if client = none then l.count c else 0 := by
  rw [List.countP_map]
  cases client with
  | none => rfl
  | some i => exact List.countP_eq_zero.mpr fun a _ => by simp [WaitEvent.sentBack]

theorem countP_decidesAgain_settled :
    (l.map fun caller => WaitEvent.settled caller client).countP (WaitEvent.decidesAgain c) =
      0 := by
  rw [List.countP_map]
  exact List.countP_eq_zero.mpr fun a _ => by simp [WaitEvent.decidesAgain]

theorem countP_seats_settled (i : Nat) :
    (l.map fun caller => WaitEvent.settled caller client).countP (WaitEvent.seats i) =
      if client = some i then l.length else 0 := by
  rw [List.countP_map]
  cases client with
  | none => exact List.countP_eq_zero.mpr fun a _ => by simp [WaitEvent.seats]
  | some j =>
    by_cases hij : j = i
    · subst hij
      rw [if_pos rfl]
      exact List.countP_eq_length.mpr fun a _ => by simp [WaitEvent.seats]
    · rw [if_neg (by simpa using hij)]
      exact List.countP_eq_zero.mpr fun a _ => by simp [WaitEvent.seats, hij]

end Settle

namespace WaiterRun

variable {r : WaiterRun}

/-! ### One segment -/

/-- A segment that does nothing to the callers. -/
theorem Settled.quiet {w : PoolWorld} (h : r.Settled) (hwaiters : w.waiters = r.pool.waiters)
    (hopeners : w.openers = r.pool.openers) (hdeciding : w.deciding = r.pool.deciding)
    (hopening : w.opening = r.pool.opening) (hcallers : w.callers = r.pool.callers)
    (hlength : w.connections.length = r.pool.connections.length) : Settled ⟨w, r.log⟩ where
  promised := by rw [hwaiters, hopening]; exact h.promised
  opening := by rw [hopeners, hopening]; exact h.opening
  once := by rw [hwaiters, hopeners, hdeciding, hcallers]; exact h.once
  waits := by rw [hwaiters]; exact h.waits
  again := by rw [hdeciding]; exact h.again
  seated := by rw [hlength]; exact h.seated

/-- A caller that decides: it stood nowhere else, and it had been sent back if it decides
again. -/
theorem settled_decide {w : PoolWorld} {log : List WaitEvent} {caller : Nat} {again : Bool}
    (hpromised : w.waiters.length ≤ w.opening * (runsPerConnection - 1))
    (hopening : w.openers.length = w.opening)
    (honce : ∀ c, w.waiters.count c + (w.openers.count c + w.deciding.count c) +
      (if caller = c then 1 else 0) ≤ if c < w.callers then 1 else 0)
    (hwaits : ∀ c, log.countP (WaitEvent.parks c) =
      log.countP (WaitEvent.settles c) + w.waiters.count c)
    (hagain : ∀ c, log.countP (WaitEvent.sentBack c) =
      log.countP (WaitEvent.decidesAgain c) + w.deciding.count c +
        if again = true ∧ caller = c then 1 else 0)
    (hseated : ∀ i, log.countP (WaitEvent.seats i) ≤
      if i < w.connections.length then runsPerConnection - 1 else 0) :
    Settled ⟨w.openOrWait caller, log ++ [w.decision caller again]⟩ := by
  have hcount : ∀ c, [caller].count c = if caller = c then 1 else 0 := by
    intro c
    simp [List.count_cons]
  -- All three events pay back the send-back, and none of them seats anyone.
  have hdecided : ∀ e ∈ [WaitEvent.rejects caller again, .opens caller again,
      .waits caller again],
      (∀ c, (log ++ [e]).countP (WaitEvent.sentBack c) =
        (log ++ [e]).countP (WaitEvent.decidesAgain c) + w.deciding.count c) ∧
      (∀ c, (log ++ [e]).countP (WaitEvent.settles c) = log.countP (WaitEvent.settles c)) ∧
      ∀ i, (log ++ [e]).countP (WaitEvent.seats i) ≤
        if i < w.connections.length then runsPerConnection - 1 else 0 := by
    intro e he
    have hsent : ∀ c, e.sentBack c = false := by
      intro c
      simp only [List.mem_cons, List.not_mem_nil, or_false] at he
      rcases he with rfl | rfl | rfl <;> rfl
    have hsettles : ∀ c, e.settles c = false := by
      intro c
      simp only [List.mem_cons, List.not_mem_nil, or_false] at he
      rcases he with rfl | rfl | rfl <;> rfl
    have hseats : ∀ i, e.seats i = false := by
      intro i
      simp only [List.mem_cons, List.not_mem_nil, or_false] at he
      rcases he with rfl | rfl | rfl <;> rfl
    have hpays : ∀ c, e.decidesAgain c = (again && caller == c) := by
      intro c
      simp only [List.mem_cons, List.not_mem_nil, or_false] at he
      rcases he with rfl | rfl | rfl <;> cases again <;> rfl
    refine ⟨fun c => ?_, fun c => ?_, fun i => ?_⟩
    · have hback := hagain c
      rw [List.countP_append, List.countP_append, List.countP_singleton, List.countP_singleton,
        hsent, hpays]
      simp only [Bool.and_eq_true, beq_iff_eq, Bool.false_eq_true, if_false]
      omega
    · rw [List.countP_append, List.countP_singleton, hsettles]
      simp
    · rw [List.countP_append, List.countP_singleton, hseats]
      simpa using hseated i
  simp only [List.mem_cons, List.not_mem_nil, or_false, forall_eq_or_imp, forall_eq] at hdecided
  obtain ⟨hrejects, hopens, hparks⟩ := hdecided
  unfold PoolWorld.openOrWait PoolWorld.decision
  by_cases hdisposed : w.disposed = true
  · rw [if_pos hdisposed, if_pos hdisposed]
    refine ⟨hpromised, hopening, fun c => Nat.le_trans (Nat.le_add_right _ _) (honce c), fun c => ?_,
      hrejects.1, hrejects.2.2⟩
    show _ = _ + w.waiters.count c
    rw [hrejects.2.1, List.countP_append, List.countP_singleton]
    exact hwaits c
  · rw [if_neg hdisposed, if_neg hdisposed]
    by_cases hroom : w.opening * (runsPerConnection - 1) < w.waiters.length + 1
    · rw [if_pos hroom, if_pos hroom]
      refine ⟨?_, ?_, fun c => ?_, fun c => ?_, hopens.1, hopens.2.2⟩
      · show w.waiters.length ≤ (w.opening + 1) * (runsPerConnection - 1)
        rw [Nat.succ_mul]
        omega
      · simp [hopening]
      · have hle := honce c
        show w.waiters.count c + ((w.openers ++ [caller]).count c + w.deciding.count c) ≤
          if c < w.callers then 1 else 0
        rw [List.count_append, hcount]
        omega
      · show _ = _ + w.waiters.count c
        rw [hopens.2.1, List.countP_append, List.countP_singleton]
        exact hwaits c
    · rw [if_neg hroom, if_neg hroom]
      refine ⟨?_, hopening, fun c => ?_, fun c => ?_, hparks.1, hparks.2.2⟩
      · show (w.waiters ++ [caller]).length ≤ _
        rw [List.length_append, List.length_singleton]
        exact Nat.not_lt.mp hroom
      · have hle := honce c
        show (w.waiters ++ [caller]).count c + (w.openers.count c + w.deciding.count c) ≤
          if c < w.callers then 1 else 0
        rw [List.count_append, hcount]
        omega
      · have hpark := hwaits c
        show _ = _ + (w.waiters ++ [caller]).count c
        rw [hparks.2.1, List.countP_append, List.countP_singleton, List.count_append, hcount]
        simp only [WaitEvent.parks, beq_iff_eq]
        omega

/-- The end of an open: its waiters are settled, with its connection or sent back. -/
theorem settled_end {w : PoolWorld} {log : List WaitEvent} {openers : List Nat} {e : WaitEvent}
    (h : Settled ⟨w, log⟩) (client : Option Nat) (hconnection : client.isSome = true →
      client = some w.connections.length)
    (hlength : openers.length + 1 = w.openers.length)
    (hopeners : ∀ c, openers.count c ≤ w.openers.count c)
    (he : (∃ caller, e = .openFailed caller) ∨ ∃ caller i, e = .opened caller i)
    {w' : PoolWorld} (hwaiters : w'.waiters = w.waiters.drop (runsPerConnection - 1))
    (hdeciding : w'.deciding = w.deciding ++
      if client = none then w.waiters.take (runsPerConnection - 1) else [])
    (hw' : w'.openers = openers) (hopening : w'.opening = w.opening - 1)
    (hcallers : w'.callers = w.callers)
    (hconnections : w'.connections.length = w.connections.length + client.toList.length) :
    Settled ⟨w', log ++ e :: w.settledBy client⟩ := by
  have hsplit : ∀ c, w.waiters.count c = (w.waiters.take (runsPerConnection - 1)).count c +
      (w.waiters.drop (runsPerConnection - 1)).count c := by
    intro c
    rw [← List.count_append, List.take_append_drop]
  have hcount : ∀ p : WaitEvent → Bool, p e = false → (log ++ e :: w.settledBy client).countP p =
      log.countP p + (w.settledBy client).countP p := by
    intro p hp
    rw [List.countP_append, List.countP_cons_of_neg (by simp [hp])]
  have hquiet : ∀ c, e.parks c = false ∧ e.settles c = false ∧ e.sentBack c = false ∧
      e.decidesAgain c = false ∧ e.seats c = false := by
    intro c
    rcases he with ⟨caller, rfl⟩ | ⟨caller, i, rfl⟩
    · exact ⟨rfl, rfl, rfl, rfl, rfl⟩
    · exact ⟨rfl, rfl, rfl, rfl, rfl⟩
  have hopen : w.openers.length = w.opening := h.opening
  refine ⟨?_, ?_, fun c => ?_, fun c => ?_, fun c => ?_, fun i => ?_⟩
  · -- The open takes three promised places with it, and three waiters at most had them.
    have hpromised : w.waiters.length ≤ w.opening * (runsPerConnection - 1) := h.promised
    obtain ⟨n, hn⟩ : ∃ n, w.opening = n + 1 := ⟨openers.length, by omega⟩
    rw [hn, Nat.succ_mul] at hpromised
    show w'.waiters.length ≤ w'.opening * (runsPerConnection - 1)
    rw [hwaiters, hopening, hn, List.length_drop, Nat.add_sub_cancel]
    omega
  · show w'.openers.length = w'.opening
    rw [hw', hopening]
    omega
  · have hle : w.waiters.count c + (w.openers.count c + w.deciding.count c) ≤
        if c < w.callers then 1 else 0 := h.once c
    have hfewer := hopeners c
    have hparts := hsplit c
    show w'.waiters.count c + (w'.openers.count c + w'.deciding.count c) ≤
      if c < w'.callers then 1 else 0
    rw [hwaiters, hw', hdeciding, hcallers, List.count_append]
    have hback : (if client = none then w.waiters.take (runsPerConnection - 1) else []).count c ≤
        (w.waiters.take (runsPerConnection - 1)).count c := by
      split
      · exact Nat.le_refl _
      · exact Nat.zero_le _
    omega
  · have hwaits : log.countP (WaitEvent.parks c) =
        log.countP (WaitEvent.settles c) + w.waiters.count c := h.waits c
    have hparts := hsplit c
    obtain ⟨hparks, hsettles, -, -, -⟩ := hquiet c
    show _ = _ + w'.waiters.count c
    rw [hcount _ hparks, hcount _ hsettles, PoolWorld.settledBy, countP_parks_settled,
      countP_settles_settled, hwaiters]
    omega
  · have hagain : log.countP (WaitEvent.sentBack c) =
        log.countP (WaitEvent.decidesAgain c) + w.deciding.count c := h.again c
    obtain ⟨-, -, hsent, hdecides, -⟩ := hquiet c
    show _ = _ + w'.deciding.count c
    rw [hcount _ hsent, hcount _ hdecides, PoolWorld.settledBy, countP_sentBack_settled,
      countP_decidesAgain_settled, hdeciding, List.count_append]
    by_cases hnone : client = none
    · rw [if_pos hnone, if_pos hnone]
      omega
    · rw [if_neg hnone, if_neg hnone]
      simpa using hagain
  · have hseated : log.countP (WaitEvent.seats i) ≤
        if i < w.connections.length then runsPerConnection - 1 else 0 := h.seated i
    obtain ⟨-, -, -, -, hseats⟩ := hquiet i
    show _ ≤ if i < w'.connections.length then runsPerConnection - 1 else 0
    rw [hcount _ hseats, PoolWorld.settledBy, countP_seats_settled]
    cases client with
    | none =>
      have hsame : w'.connections.length = w.connections.length := hconnections
      rw [hsame]
      exact hseated
    | some j =>
      have hmore : w'.connections.length = w.connections.length + 1 := hconnections
      have hj : j = w.connections.length := Option.some.inj (hconnection rfl)
      have htake : (w.waiters.take (runsPerConnection - 1)).length ≤ runsPerConnection - 1 :=
        List.length_take_le _ _
      rw [hmore]
      by_cases hij : j = i
      · rw [if_pos (congrArg some hij), if_pos (by omega)]
        rw [if_neg (by omega)] at hseated
        omega
      · rw [if_neg (fun heq => hij (Option.some.inj heq))]
        by_cases hi : i < w.connections.length
        · rw [if_pos hi] at hseated
          rw [if_pos (by omega)]
          omega
        · rw [if_neg hi] at hseated
          omega

/-- The step lemma. -/
theorem settled_step (h : r.Settled) (op : PoolOp) : (r.step op).Settled := by
  obtain ⟨w, log⟩ := r
  have hquiet : ∀ w' : PoolWorld, w'.waiters = w.waiters → w'.openers = w.openers →
      w'.deciding = w.deciding → w'.opening = w.opening → w'.callers = w.callers →
      w'.connections.length = w.connections.length → Settled ⟨w', log ++ []⟩ := by
    intro w' h₁ h₂ h₃ h₄ h₅ h₆
    rw [List.append_nil]
    exact h.quiet h₁ h₂ h₃ h₄ h₅ h₆
  cases op with
  | withClient registersAtOnce =>
    have honce : ∀ c, w.waiters.count c + (w.openers.count c + w.deciding.count c) +
        (if w.callers = c then 1 else 0) ≤ if c < w.callers + 1 then 1 else 0 := by
      intro c
      have hle : w.waiters.count c + (w.openers.count c + w.deciding.count c) ≤
        if c < w.callers then 1 else 0 := h.once c
      split at hle <;> split <;> split <;> omega
    by_cases hdisposed : w.disposed = true
    · have hstep : step ⟨w, log⟩ (.withClient registersAtOnce) =
          ⟨PoolWorld.openOrWait { w with callers := w.callers + 1 } w.callers,
            log ++ [w.decision w.callers false]⟩ := by
        simp [step, PoolWorld.step, PoolWorld.withClient, PoolWorld.openOrWait, PoolWorld.events,
          PoolWorld.decision, hdisposed]
      rw [hstep]
      exact @settled_decide { w with callers := w.callers + 1 } log w.callers false h.promised
        h.opening honce h.waits (by simpa using h.again) h.seated
    · cases htry : PoolWorld.tryAcquire w.connections with
      | mk connections place =>
        have hconnections : connections.length = w.connections.length := by
          rw [← PoolWorld.length_tryAcquire w.connections, htry]
        cases place with
        | none =>
          have hstep : step ⟨w, log⟩ (.withClient registersAtOnce) =
              ⟨PoolWorld.openOrWait { w with callers := w.callers + 1, connections } w.callers,
                log ++ [w.decision w.callers false]⟩ := by
            simp [step, PoolWorld.step, PoolWorld.withClient, PoolWorld.events, hdisposed, htry]
          rw [hstep]
          refine @settled_decide { w with callers := w.callers + 1, connections } log w.callers
            false h.promised h.opening honce h.waits (by simpa using h.again) fun i => ?_
          show _ ≤ if i < connections.length then runsPerConnection - 1 else 0
          rw [hconnections]
          exact h.seated i
        | some i =>
          have hevents : w.events (.withClient registersAtOnce) = [.placed w.callers i] := by
            simp [PoolWorld.events, hdisposed, htry]
          have hfields : (w.step (.withClient registersAtOnce)).waiters = w.waiters ∧
              (w.step (.withClient registersAtOnce)).openers = w.openers ∧
              (w.step (.withClient registersAtOnce)).deciding = w.deciding ∧
              (w.step (.withClient registersAtOnce)).opening = w.opening ∧
              (w.step (.withClient registersAtOnce)).callers = w.callers + 1 ∧
              (w.step (.withClient registersAtOnce)).connections.length =
                w.connections.length := by
            cases registersAtOnce <;>
              simp [PoolWorld.step, PoolWorld.withClient, hdisposed, htry, PoolWorld.addLoad,
                hconnections]
          obtain ⟨hwaiters, hopeners, hdeciding, hopening, hcallers, hlength⟩ := hfields
          have hnone : ∀ p : WaitEvent → Bool, p (.placed w.callers i) = false →
              (log ++ [WaitEvent.placed w.callers i]).countP p = log.countP p := by
            intro p hp
            rw [List.countP_append, List.countP_singleton, hp]
            simp
          rw [step, hevents]
          refine ⟨?_, ?_, fun c => ?_, fun c => ?_, fun c => ?_, fun j => ?_⟩
          · rw [hwaiters, hopening]
            exact h.promised
          · rw [hopeners, hopening]
            exact h.opening
          · rw [hwaiters, hopeners, hdeciding, hcallers]
            exact Nat.le_trans (Nat.le_add_right _ _) (honce c)
          · rw [hwaiters, hnone (WaitEvent.parks c) rfl, hnone (WaitEvent.settles c) rfl]
            exact h.waits c
          · rw [hdeciding, hnone (WaitEvent.sentBack c) rfl, hnone (WaitEvent.decidesAgain c) rfl]
            exact h.again c
          · rw [hlength, hnone (WaitEvent.seats j) rfl]
            exact h.seated j
  | connected k =>
    cases hk : w.openers[k]? with
    | none =>
      have hstep : step ⟨w, log⟩ (.connected k) = ⟨w, log ++ []⟩ := by
        simp [step, PoolWorld.step, PoolWorld.connected, PoolWorld.events, hk]
      rw [hstep]
      exact hquiet w rfl rfl rfl rfl rfl rfl
    | some caller =>
      have hfewer : ∀ c, (w.openers.eraseIdx k).count c ≤ w.openers.count c :=
        fun c => (List.eraseIdx_sublist _ _).count_le c
      by_cases hdisposed : w.disposed = true
      · have hstep : step ⟨w, log⟩ (.connected k) =
            ⟨PoolWorld.settleWaiters { w with openers := w.openers.eraseIdx k } none,
              log ++ .openFailed caller :: w.settledBy none⟩ := by
          simp [step, PoolWorld.step, PoolWorld.connected, PoolWorld.events, hk, hdisposed]
        rw [hstep]
        exact settled_end h none (by simp) (length_eraseIdx hk) hfewer (.inl ⟨caller, rfl⟩) rfl rfl rfl
          rfl rfl rfl
      · have hstep : step ⟨w, log⟩ (.connected k) =
            ⟨PoolWorld.settleWaiters
              { w with
                openers := w.openers.eraseIdx k
                connections := w.connections ++ [Connection.opened]
                holding := w.holding ++ [(caller, w.connections.length)] }
              (some w.connections.length),
              log ++ .opened caller w.connections.length ::
                w.settledBy (some w.connections.length)⟩ := by
          simp [step, PoolWorld.step, PoolWorld.connected, PoolWorld.events, hk, hdisposed]
        rw [hstep]
        exact settled_end h (some w.connections.length) (fun _ => rfl) (length_eraseIdx hk) hfewer
          (.inr ⟨caller, _, rfl⟩) rfl (by simp [PoolWorld.settleWaiters]) rfl rfl rfl
          (by simp [PoolWorld.settleWaiters])
  | connectFailed k =>
    cases hk : w.openers[k]? with
    | none =>
      have hlt : ¬ k < w.openers.length := by
        simpa using hk
      have hstep : step ⟨w, log⟩ (.connectFailed k) = ⟨w, log ++ []⟩ := by
        simp only [step, PoolWorld.step, PoolWorld.connectFailed, PoolWorld.events, hk, if_neg hlt]
      rw [hstep]
      exact hquiet w rfl rfl rfl rfl rfl rfl
    | some caller =>
      have hlt : k < w.openers.length := (List.getElem?_eq_some_iff.mp hk).1
      have hstep : step ⟨w, log⟩ (.connectFailed k) =
          ⟨PoolWorld.settleWaiters { w with openers := w.openers.eraseIdx k } none,
            log ++ .openFailed caller :: w.settledBy none⟩ := by
        simp only [step, PoolWorld.step, PoolWorld.connectFailed, PoolWorld.events, hk, if_pos hlt]
      rw [hstep]
      exact settled_end h none (by simp) (length_eraseIdx hk)
        (fun c => (List.eraseIdx_sublist _ _).count_le c) (.inl ⟨caller, rfl⟩) rfl rfl rfl rfl rfl rfl
  | decideAgain k =>
    cases hk : w.deciding[k]? with
    | none =>
      have hstep : step ⟨w, log⟩ (.decideAgain k) = ⟨w, log ++ []⟩ := by
        simp [step, PoolWorld.step, PoolWorld.decideAgain, PoolWorld.events, hk]
      rw [hstep]
      exact hquiet w rfl rfl rfl rfl rfl rfl
    | some caller =>
      have hstep : step ⟨w, log⟩ (.decideAgain k) =
          ⟨PoolWorld.openOrWait { w with deciding := w.deciding.eraseIdx k } caller,
            log ++ [w.decision caller true]⟩ := by
        simp [step, PoolWorld.step, PoolWorld.decideAgain, PoolWorld.events, hk]
      rw [hstep]
      refine @settled_decide { w with deciding := w.deciding.eraseIdx k } log caller true
        h.promised h.opening (fun c => ?_) h.waits (fun c => ?_) h.seated
      · have hle : w.waiters.count c + (w.openers.count c + w.deciding.count c) ≤
          if c < w.callers then 1 else 0 := h.once c
        have hout := count_eraseIdx hk c
        show w.waiters.count c + (w.openers.count c + (w.deciding.eraseIdx k).count c) + _ ≤
          if c < w.callers then 1 else 0
        omega
      · have hagain : log.countP (WaitEvent.sentBack c) =
          log.countP (WaitEvent.decidesAgain c) + w.deciding.count c := h.again c
        have hout := count_eraseIdx hk c
        simp only [true_and]
        omega
  | register k =>
    refine hquiet _ ?_ ?_ ?_ ?_ ?_ ?_ <;>
      · simp only [PoolWorld.step, PoolWorld.register]
        split <;> simp [PoolWorld.addLoad]
  | abandon k => exact hquiet _ rfl rfl rfl rfl rfl rfl
  | settle i => exact hquiet _ rfl rfl rfl rfl rfl (List.length_modify _ _ _)
  | fails i => exact hquiet _ rfl rfl rfl rfl rfl (List.length_modify _ _ _)
  | sweep i =>
    refine hquiet _ ?_ ?_ ?_ ?_ ?_ ?_ <;>
      · simp only [PoolWorld.step, PoolWorld.reap]
        split <;> simp [PoolWorld.modify]
  | dispose =>
    by_cases hdisposed : w.disposed = true
    · have hstep : step ⟨w, log⟩ .dispose = ⟨w, log ++ []⟩ := by
        simp [step, PoolWorld.step, PoolWorld.events, hdisposed]
      rw [hstep]
      exact hquiet w rfl rfl rfl rfl rfl rfl
    · have hstep : step ⟨w, log⟩ .dispose =
          ⟨w.dispose, log ++ w.waiters.map fun caller => .settled caller none⟩ := by
        simp [step, PoolWorld.step, PoolWorld.events, hdisposed]
      rw [hstep]
      refine ⟨Nat.zero_le _, h.opening, fun c => ?_, fun c => ?_, fun c => ?_, fun i => ?_⟩
      · have hle : w.waiters.count c + (w.openers.count c + w.deciding.count c) ≤
          if c < w.callers then 1 else 0 := h.once c
        show List.count c [] + (w.openers.count c + (w.deciding ++ w.waiters).count c) ≤
          if c < w.callers then 1 else 0
        rw [List.count_append, List.count_nil]
        omega
      · have hwaits : log.countP (WaitEvent.parks c) =
          log.countP (WaitEvent.settles c) + w.waiters.count c := h.waits c
        show _ = _ + List.count c []
        rw [List.countP_append, List.countP_append, countP_parks_settled,
          countP_settles_settled, List.count_nil]
        omega
      · have hagain : log.countP (WaitEvent.sentBack c) =
          log.countP (WaitEvent.decidesAgain c) + w.deciding.count c := h.again c
        show _ = _ + (w.deciding ++ w.waiters).count c
        rw [List.countP_append, List.countP_append, countP_sentBack_settled,
          countP_decidesAgain_settled, List.count_append, if_pos rfl]
        omega
      · have hseated : log.countP (WaitEvent.seats i) ≤
          if i < w.connections.length then runsPerConnection - 1 else 0 := h.seated i
        have hlength : w.dispose.connections.length = w.connections.length := List.length_map _
        show _ ≤ if i < w.dispose.connections.length then runsPerConnection - 1 else 0
        rw [List.countP_append, countP_seats_settled, if_neg (by simp), hlength]
        exact hseated

theorem settled_new : new.Settled where
  promised := Nat.le_refl _
  opening := rfl
  once := fun c => by simp [new, PoolWorld.new]
  waits := fun c => rfl
  again := fun c => rfl
  seated := fun i => by simp [new]

/-- The run lemma. -/
theorem settled_exec (ops : List PoolOp) : (Execution.exec step new ops).Settled :=
  Execution.exec_invariant (I := Settled) (fun _ op h => settled_step h op) settled_new ops

/-- The log leaves the registry alone. -/
theorem exec_pool (ops : List PoolOp) :
    (Execution.exec step new ops).pool = Execution.exec PoolWorld.step PoolWorld.new ops := by
  suffices h : ∀ r : WaiterRun,
      (Execution.exec step r ops).pool = Execution.exec PoolWorld.step r.pool ops from h new
  induction ops with
  | nil => exact fun _ => rfl
  | cons op ops ih => exact fun r => ih (r.step op)

end WaiterRun

/-! ### A burst -/

namespace PoolWorld

variable {w : PoolWorld}

/-- The caller finds no connection with room, or was sent back, and decides. -/
def TurnedAway (w : PoolWorld) : PoolOp → Prop
  | .withClient _ => (tryAcquire w.connections).2 = none
  | .decideAgain k => k < w.deciding.length
  | _ => False

/-- What `n` callers of one tick leave behind. -/
structure Burst (w : PoolWorld) (n : Nat) : Prop where
  live : w.disposed = false
  opening : w.opening = (n + runsPerConnection - 1) / runsPerConnection
  waiters : w.waiters.length + w.opening = n

theorem Burst.openOrWait {n : Nat} (h : w.Burst n) (caller : Nat) :
    (w.openOrWait caller).Burst (n + 1) := by
  obtain ⟨hlive, hopening, hwaiters⟩ := h
  simp only [runsPerConnection] at hopening
  by_cases hroom : w.opening * (runsPerConnection - 1) < w.waiters.length + 1
  · have hopen : w.openOrWait caller =
        { w with opening := w.opening + 1, openers := w.openers ++ [caller] } := by
      simp [PoolWorld.openOrWait, hlive, hroom]
    rw [hopen]
    simp only [runsPerConnection] at hroom
    refine ⟨hlive, ?_, ?_⟩
    · show w.opening + 1 = (n + 1 + 4 - 1) / 4
      omega
    · show w.waiters.length + (w.opening + 1) = n + 1
      omega
  · have hwait : w.openOrWait caller = { w with waiters := w.waiters ++ [caller] } := by
      simp [PoolWorld.openOrWait, hlive, hroom]
    rw [hwait]
    simp only [runsPerConnection] at hroom
    refine ⟨hlive, ?_, ?_⟩
    · show w.opening = (n + 1 + 4 - 1) / 4
      omega
    · show (w.waiters ++ [caller]).length + w.opening = n + 1
      rw [List.length_append, List.length_singleton]
      omega

theorem Burst.step {n : Nat} (h : w.Burst n) {op : PoolOp} (hop : w.TurnedAway op) :
    (w.step op).Burst (n + 1) := by
  cases op with
  | withClient registersAtOnce =>
    have htry : (tryAcquire w.connections).2 = none := hop
    have hclient : w.step (.withClient registersAtOnce) =
        PoolWorld.openOrWait
          { w with callers := w.callers + 1, connections := (tryAcquire w.connections).1 }
          w.callers := by
      cases hacquire : tryAcquire w.connections with
      | mk connections place =>
        rw [hacquire] at htry
        obtain rfl : place = none := htry
        simp [PoolWorld.step, PoolWorld.withClient, h.live, hacquire]
    rw [hclient]
    have hstill : Burst { w with callers := w.callers + 1, connections := (tryAcquire w.connections).1 }
        n := ⟨h.live, h.opening, h.waiters⟩
    exact hstill.openOrWait _
  | decideAgain k =>
    have hlt : k < w.deciding.length := hop
    have hagain : w.step (.decideAgain k) =
        PoolWorld.openOrWait { w with deciding := w.deciding.eraseIdx k } w.deciding[k] := by
      simp [PoolWorld.step, PoolWorld.decideAgain, hlt]
    rw [hagain]
    have hstill : Burst { w with deciding := w.deciding.eraseIdx k } n :=
      ⟨h.live, h.opening, h.waiters⟩
    exact hstill.openOrWait _
  | connected k => exact hop.elim
  | connectFailed k => exact hop.elim
  | register k => exact hop.elim
  | abandon k => exact hop.elim
  | settle i => exact hop.elim
  | fails i => exact hop.elim
  | sweep i => exact hop.elim
  | dispose => exact hop.elim

/-- The opens that a burst of callers starts. -/
theorem openings_of_turnedAway {n : Nat} (h : w.Burst n) {ops : List PoolOp}
    (hops : Execution.Along PoolWorld.step TurnedAway w ops) :
    (Execution.exec PoolWorld.step w ops).Burst (n + ops.length) := by
  induction ops generalizing w n with
  | nil => exact h
  | cons op ops ih =>
    rw [List.length_cons, ← Nat.succ_add_eq_add_succ]
    exact ih (h.step hops.1) hops.2

end PoolWorld

end Iso4
