/-
Connection sharing (`ConnectionRegistry` and `RunPool.withClient` of
`packages/iso4-sandbox/src/pool.ts`).

A connection carries up to `runsPerConnection` runs.  A caller past its slot takes
the first connection with room (`tryAcquire`), else opens one or waits for an
open in flight (`openOrWait`); a connect that completes seats its opener and the
first waiters.  A caller with a connection registers its run when its `fn` calls
the client: at once, or only after `fn` awaited something.

The steps are the segments of these calls between two awaits, in any order.

* `PoolWorld.load_le_cap` — the cap holds in every run in which `tryAcquire` hands
  out no connection whose places are all taken or promised;
* `prepare_overbooks` — it does not hold otherwise: callers that await before
  they register see the same load.
-/
import Iso4.Lib.Execution
import Mathlib.Data.List.Count
import Mathlib.Data.List.Perm.Basic
import Mathlib.Tactic.Common

namespace Iso4

/-- `RUNS_PER_CONNECTION`. -/
def runsPerConnection : Nat := 4

/-- A connection that was opened, in the registry or dropped from it. -/
structure Connection where
  pooled : Bool
  usable : Bool
  /-- Runs and control requests registered and not answered yet. -/
  load : Nat
  deriving DecidableEq

def Connection.opened : Connection := ⟨true, true, 0⟩

/-- The registry, and the callers of `withClient` past their slot. -/
structure PoolWorld where
  /-- Every connection ever opened, oldest first. -/
  connections : List Connection
  opening : Nat
  /-- Callers parked on the opens in flight. -/
  waiters : List Nat
  disposed : Bool
  /-- Callers that ask. -/
  callers : Nat
  /-- The callers of the opens in flight. -/
  openers : List Nat
  /-- Callers an open that failed sent back to decide. -/
  deciding : List Nat
  /-- Callers with a connection and no run registered yet. -/
  holding : List (Nat × Nat)

inductive PoolOp where
  /-- A caller got its slot; its `fn` registers at once or later. -/
  | withClient (registersAtOnce : Bool)
  /-- The connect of the `k`-th opener completes. -/
  | connected (k : Nat)
  | connectFailed (k : Nat)
  /-- The `k`-th caller sent back decides again. -/
  | decideAgain (k : Nat)
  /-- The `k`-th holder registers its run. -/
  | register (k : Nat)
  /-- The `fn` of the `k`-th holder ends without a run. -/
  | abandon (k : Nat)
  /-- A run on the `i`-th connection leaves the load. -/
  | settle (i : Nat)
  /-- The `i`-th connection dies. -/
  | fails (i : Nat)
  /-- The sweep closes the `i`-th connection. -/
  | sweep (i : Nat)
  | dispose

namespace PoolWorld

def new : PoolWorld := ⟨[], 0, [], false, 0, [], [], []⟩

/-- `tryAcquire`: the first usable connection below the cap; dead ones on the way
are dropped. -/
def tryAcquire : List Connection → List Connection × Option Nat
  | [] => ([], none)
  | c :: rest =>
    if c.pooled && c.usable && decide (c.load < runsPerConnection) then (c :: rest, some 0)
    else
      let kept := { c with pooled := c.pooled && c.usable }
      (kept :: (tryAcquire rest).1, (tryAcquire rest).2.map (· + 1))

def addLoad (w : PoolWorld) (i : Nat) : PoolWorld :=
  { w with connections := w.connections.modify i fun c => { c with load := c.load + 1 } }

/-- The body of `openOrWait`, up to its first await. -/
def openOrWait (w : PoolWorld) (caller : Nat) : PoolWorld :=
  if w.disposed then w
  else if w.opening * (runsPerConnection - 1) < w.waiters.length + 1 then
    { w with opening := w.opening + 1, openers := w.openers ++ [caller] }
  else { w with waiters := w.waiters ++ [caller] }

def withClient (w : PoolWorld) (registersAtOnce : Bool) : PoolWorld :=
  let caller := w.callers
  let w := { w with callers := w.callers + 1 }
  if w.disposed then w
  else
    match tryAcquire w.connections with
    | (connections, some i) =>
      let w := { w with connections }
      if registersAtOnce then w.addLoad i else { w with holding := w.holding ++ [(caller, i)] }
    | (connections, none) => { w with connections }.openOrWait caller

/-- The opener and the waiters that claimed a place, as the `finally` of `open`
settles them. -/
def settleWaiters (w : PoolWorld) (client : Option Nat) : PoolWorld :=
  let seated := w.waiters.take (runsPerConnection - 1)
  let w := { w with opening := w.opening - 1, waiters := w.waiters.drop (runsPerConnection - 1) }
  match client with
  | some i => { w with holding := w.holding ++ seated.map fun caller => (caller, i) }
  | none => { w with deciding := w.deciding ++ seated }

def connected (w : PoolWorld) (k : Nat) : PoolWorld :=
  match w.openers[k]? with
  | none => w
  | some caller =>
    let w := { w with openers := w.openers.eraseIdx k }
    if w.disposed then w.settleWaiters none
    else
      { w with
        connections := w.connections ++ [Connection.opened]
        holding := w.holding ++ [(caller, w.connections.length)] }.settleWaiters
          (some w.connections.length)

def connectFailed (w : PoolWorld) (k : Nat) : PoolWorld :=
  if k < w.openers.length then { w with openers := w.openers.eraseIdx k }.settleWaiters none else w

def decideAgain (w : PoolWorld) (k : Nat) : PoolWorld :=
  match w.deciding[k]? with
  | none => w
  | some caller => { w with deciding := w.deciding.eraseIdx k }.openOrWait caller

def register (w : PoolWorld) (k : Nat) : PoolWorld :=
  match w.holding[k]? with
  | none => w
  | some (_, i) => { w with holding := w.holding.eraseIdx k }.addLoad i

/-- Change the `i`-th connection. -/
def modify (w : PoolWorld) (i : Nat) (f : Connection → Connection) : PoolWorld :=
  { w with connections := w.connections.modify i f }

/-- `sweep`: one connection is always kept, and only one that carries nothing is
closed. -/
def reap (w : PoolWorld) (i : Nat) : PoolWorld :=
  if 1 < w.connections.countP Connection.pooled then
    w.modify i fun c =>
      if c.pooled && decide (c.load = 0) then { c with pooled := false, usable := false } else c
  else w

def dispose (w : PoolWorld) : PoolWorld :=
  { w with
    disposed := true
    waiters := []
    deciding := w.deciding ++ w.waiters
    connections := w.connections.map fun c => { c with pooled := false, usable := false } }

def step (w : PoolWorld) : PoolOp → PoolWorld
  | .withClient registersAtOnce => w.withClient registersAtOnce
  | .connected k => w.connected k
  | .connectFailed k => w.connectFailed k
  | .decideAgain k => w.decideAgain k
  | .register k => w.register k
  | .abandon k => { w with holding := w.holding.eraseIdx k }
  | .settle i => w.modify i fun c => { c with load := c.load - 1 }
  | .fails i => w.modify i fun c => { c with usable := false }
  | .sweep i => w.reap i
  | .dispose => if w.disposed then w else w.dispose

/-! ### Places taken and promised -/

/-- The callers that hold the `i`-th connection and have no run on it yet. -/
def held (w : PoolWorld) (i : Nat) : Nat := w.holding.countP fun h => h.2 = i

def load (w : PoolWorld) (i : Nat) : Nat := (w.connections[i]?.map Connection.load).getD 0

/-- `tryAcquire` hands out no connection whose places are all taken or promised. -/
def Spares (w : PoolWorld) : PoolOp → Prop
  | .withClient _ => ∀ i ∈ (tryAcquire w.connections).2, w.load i + w.held i < runsPerConnection
  | _ => True

instance (w : PoolWorld) (op : PoolOp) : Decidable (w.Spares op) := by
  unfold Spares
  cases op <;> infer_instance

/-- No connection is promised more places than it has. -/
structure Seated (w : PoolWorld) : Prop where
  places : ∀ i, w.load i + w.held i ≤ runsPerConnection
  known : ∀ h ∈ w.holding, h.2 < w.connections.length

section Places

variable {w : PoolWorld} {i j k : Nat}

theorem load_of_le (h : w.connections.length ≤ i) : w.load i = 0 := by
  rw [load, List.getElem?_eq_none h]
  rfl

theorem load_modify (f : Connection → Connection) :
    (w.modify i f).load j =
      if i = j then (w.connections[j]?.map fun c => (f c).load).getD 0 else w.load j := by
  rw [load, modify, List.getElem?_modify]
  split <;> simp [load, Function.comp_def]

/-- A change that adds no load. -/
theorem load_modify_le (f : Connection → Connection) (hf : ∀ c, (f c).load ≤ c.load) :
    (w.modify i f).load j ≤ w.load j := by
  rw [load_modify]
  split
  · rw [load]
    cases w.connections[j]? with
    | none => exact Nat.le_refl _
    | some c => exact hf c
  · exact Nat.le_refl _

theorem load_addLoad (hi : i < w.connections.length) :
    (w.addLoad i).load j = w.load j + if i = j then 1 else 0 := by
  refine (load_modify (w := w) (i := i) fun c => { c with load := c.load + 1 }).trans ?_
  split
  · next h =>
    subst h
    rw [load, List.getElem?_eq_getElem hi]
    rfl
  · rfl

theorem length_tryAcquire (cs : List Connection) : (tryAcquire cs).1.length = cs.length := by
  induction cs with
  | nil => rfl
  | cons c cs ih =>
    unfold tryAcquire
    split
    · rfl
    · rw [List.length_cons, List.length_cons, ih]

/-- Dropping dead connections changes no load. -/
theorem loads_tryAcquire (cs : List Connection) :
    (tryAcquire cs).1.map Connection.load = cs.map Connection.load := by
  induction cs with
  | nil => rfl
  | cons c cs ih =>
    unfold tryAcquire
    split
    · rfl
    · rw [List.map_cons, List.map_cons, ih]

theorem lt_of_tryAcquire {cs : List Connection} (h : (tryAcquire cs).2 = some i) : i < cs.length := by
  induction cs generalizing i with
  | nil => cases h
  | cons c cs ih =>
    unfold tryAcquire at h
    split at h
    · cases h
      exact Nat.zero_lt_succ _
    · obtain ⟨j, hj, rfl⟩ := Option.map_eq_some_iff.mp h
      exact Nat.succ_lt_succ (ih hj)

theorem load_tryAcquire :
    load { w with connections := (tryAcquire w.connections).1 } i = w.load i := by
  have h : ∀ cs : List Connection, cs[i]?.map Connection.load = (cs.map Connection.load)[i]? :=
    fun cs => List.getElem?_map.symm
  rw [load, load, h, h, loads_tryAcquire]

theorem held_append (hs : List (Nat × Nat)) :
    held { w with holding := w.holding ++ hs } i = w.held i + hs.countP fun h => h.2 = i :=
  List.countP_append

theorem held_eraseIdx {caller : Nat} (hk : w.holding[k]? = some (caller, i)) :
    held { w with holding := w.holding.eraseIdx k } j + (if i = j then 1 else 0) = w.held j := by
  obtain ⟨hlt, hget⟩ := List.getElem?_eq_some_iff.mp hk
  have hperm := List.getElem_cons_eraseIdx_perm hlt
  rw [held, held, ← hperm.countP_eq, hget, List.countP_cons]
  simp

end Places

namespace Seated

variable {w : PoolWorld} {i k : Nat}

theorem of_le {w' : PoolWorld} (h : Seated w) (hl : ∀ i, w'.load i ≤ w.load i)
    (hh : ∀ i, w'.held i ≤ w.held i) (hk : ∀ a ∈ w'.holding, a ∈ w.holding)
    (hn : w'.connections.length = w.connections.length) : Seated w' :=
  ⟨fun i => Nat.le_trans (Nat.add_le_add (hl i) (hh i)) (h.places i), fun a ha => hn ▸ h.known a (hk a ha)⟩

theorem set {w' : PoolWorld} (h : Seated w) (hc : w'.connections = w.connections)
    (hh : w'.holding = w.holding) : Seated w' := by
  refine h.of_le (fun i => ?_) (fun i => ?_) (fun a => ?_) (by rw [hc])
  · exact Nat.le_of_eq (by rw [load, load, hc])
  · exact Nat.le_of_eq (by rw [held, held, hh])
  · rw [hh]
    exact id

theorem openOrWait (h : Seated w) (caller : Nat) : Seated (w.openOrWait caller) := by
  unfold PoolWorld.openOrWait
  split
  · exact h
  · split
    · exact h.set rfl rfl
    · exact h.set rfl rfl

/-- A caller takes a place that was left. -/
theorem hold (h : Seated w) {caller : Nat} (hi : i < w.connections.length)
    (hroom : w.load i + w.held i < runsPerConnection) :
    Seated { w with holding := w.holding ++ [(caller, i)] } where
  places := by
    intro j
    have hj := h.places j
    rw [held_append, List.countP_singleton]
    change w.load j + _ ≤ _
    split
    · next he =>
      obtain rfl : i = j := of_decide_eq_true he
      omega
    · exact hj
  known := by
    intro a ha
    rcases List.mem_append.mp ha with ha | ha
    · exact h.known a ha
    · rw [List.mem_singleton.mp ha]
      exact hi

theorem addLoad (h : Seated w) (hi : i < w.connections.length)
    (hroom : w.load i + w.held i < runsPerConnection) : Seated (w.addLoad i) where
  places := by
    intro j
    have hj := h.places j
    rw [load_addLoad hi]
    change w.load j + _ + w.held j ≤ _
    split
    · next he =>
      subst he
      omega
    · exact hj
  known := by
    intro a ha
    have hlen : (w.addLoad i).connections.length = w.connections.length := List.length_modify _ _ _
    rw [hlen]
    exact h.known a ha

theorem withClient (h : Seated w) {registersAtOnce : Bool} (hs : w.Spares (.withClient registersAtOnce)) :
    Seated (w.withClient registersAtOnce) := by
  have hscanned : Seated { w with
      callers := w.callers + 1, connections := (tryAcquire w.connections).1 } :=
    h.of_le (fun i => Nat.le_of_eq load_tryAcquire) (fun _ => Nat.le_refl _) (fun _ => id)
      (length_tryAcquire _)
  unfold PoolWorld.withClient
  dsimp only
  split
  · exact h.set rfl rfl
  · split
    · next connections i htry =>
      have hfst : connections = (tryAcquire w.connections).1 := by rw [htry]
      have hsnd : (tryAcquire w.connections).2 = some i := by rw [htry]
      subst hfst
      have hi : i < (tryAcquire w.connections).1.length := by
        rw [length_tryAcquire]
        exact lt_of_tryAcquire hsnd
      have hroom : load { w with callers := w.callers + 1, connections := (tryAcquire w.connections).1 } i +
          w.held i < runsPerConnection := by
        have hsame : load { w with connections := (tryAcquire w.connections).1 } i = w.load i :=
          load_tryAcquire
        exact hsame.symm ▸ hs i hsnd
      split
      · exact hscanned.addLoad hi hroom
      · exact hscanned.hold hi hroom
    · next connections htry =>
      have hfst : connections = (tryAcquire w.connections).1 := by rw [htry]
      subst hfst
      exact hscanned.openOrWait _

theorem settleFailed (h : Seated w) : Seated (w.settleWaiters none) := h.set rfl rfl

/-- A fresh connection seats its opener and the first waiters. -/
theorem opened (h : Seated w) {caller : Nat} {openers : List Nat} :
    Seated ({ w with
      openers
      connections := w.connections ++ [Connection.opened]
      holding := w.holding ++ [(caller, w.connections.length)] }.settleWaiters
        (some w.connections.length)) where
  places := by
    intro j
    have hload : ∀ w' : PoolWorld, w'.connections = w.connections ++ [Connection.opened] →
        w'.load j = w.load j := by
      intro w' hw'
      rw [load, load, hw', List.getElem?_append]
      split
      · rfl
      · next hlt =>
        rw [List.getElem?_eq_none (Nat.le_of_not_lt hlt)]
        cases hk : j - w.connections.length with
        | zero => rfl
        | succ n => rfl
    rw [hload _ rfl]
    have hseated : ((w.waiters.take (runsPerConnection - 1)).map fun c => (c, w.connections.length)).length ≤
        runsPerConnection - 1 := by
      rw [List.length_map]
      exact List.length_take_le _ _
    change w.load j + List.countP _ (w.holding ++ [(caller, w.connections.length)] ++ _) ≤ _
    rw [List.countP_append, List.countP_append]
    by_cases hj : j = w.connections.length
    · -- Nobody held the connection before it existed.
      have hnone : w.holding.countP (fun a => decide (a.2 = j)) = 0 := by
        rw [List.countP_eq_zero]
        intro a ha he
        have hlt := h.known a ha
        rw [of_decide_eq_true he, hj] at hlt
        exact Nat.lt_irrefl _ hlt
      have hfirst := List.countP_le_length (p := fun a : Nat × Nat => decide (a.2 = j))
        (l := [(caller, w.connections.length)])
      have hrest := List.countP_le_length (p := fun a : Nat × Nat => decide (a.2 = j))
        (l := (w.waiters.take (runsPerConnection - 1)).map fun c => (c, w.connections.length))
      rw [load_of_le (Nat.le_of_eq hj.symm), hnone]
      simp only [List.length_singleton] at hfirst
      simp only [runsPerConnection] at hseated hrest ⊢
      omega
    · have hnone : ∀ l : List Nat, (l.map fun c => (c, w.connections.length)).countP
          (fun a => decide (a.2 = j)) = 0 := by
        intro l
        rw [List.countP_eq_zero]
        intro a ha he
        obtain ⟨c, -, rfl⟩ := List.mem_map.mp ha
        exact hj (of_decide_eq_true he).symm
      have hone := hnone [caller]
      rw [List.map_singleton] at hone
      rw [hone, hnone]
      exact h.places j
  known := by
    intro a ha
    have hlen : (w.connections ++ [Connection.opened]).length = w.connections.length + 1 := by simp
    change a.2 < (w.connections ++ [Connection.opened]).length
    rw [hlen]
    rcases List.mem_append.mp ha with ha | ha
    · rcases List.mem_append.mp ha with ha | ha
      · exact Nat.lt_succ_of_lt (h.known a ha)
      · rw [List.mem_singleton.mp ha]
        exact Nat.lt_succ_self _
    · obtain ⟨c, -, rfl⟩ := List.mem_map.mp ha
      exact Nat.lt_succ_self _

theorem connected (h : Seated w) (k : Nat) : Seated (w.connected k) := by
  unfold PoolWorld.connected
  split
  · exact h
  · dsimp only
    split
    · exact settleFailed (h.set rfl rfl)
    · exact h.opened

theorem connectFailed (h : Seated w) (k : Nat) : Seated (w.connectFailed k) := by
  unfold PoolWorld.connectFailed
  split
  · exact settleFailed (h.set rfl rfl)
  · exact h

theorem decideAgain (h : Seated w) (k : Nat) : Seated (w.decideAgain k) := by
  unfold PoolWorld.decideAgain
  split
  · exact h
  · have hset : Seated { w with deciding := w.deciding.eraseIdx k } := h.set rfl rfl
    exact hset.openOrWait _

/-- A holder's place becomes its run. -/
theorem register (h : Seated w) (k : Nat) : Seated (w.register k) := by
  unfold PoolWorld.register
  split
  · exact h
  · next caller i hk =>
    have hi : i < w.connections.length := h.known _ (List.mem_of_getElem? hk)
    constructor
    · intro j
      have hj := h.places j
      have hheld := held_eraseIdx (j := j) hk
      rw [load_addLoad (w := { w with holding := w.holding.eraseIdx k }) hi]
      change w.load j + _ + held { w with holding := w.holding.eraseIdx k } j ≤ _
      omega
    · intro a ha
      have hlen : (PoolWorld.addLoad { w with holding := w.holding.eraseIdx k } i).connections.length =
          w.connections.length := List.length_modify _ _ _
      rw [hlen]
      exact h.known a (List.mem_of_mem_eraseIdx ha)

theorem abandon (h : Seated w) (k : Nat) : Seated { w with holding := w.holding.eraseIdx k } :=
  h.of_le (fun _ => Nat.le_refl _) (fun _ => (List.eraseIdx_sublist _ _).countP_le)
    (fun _ ha => List.mem_of_mem_eraseIdx ha) rfl

theorem modify (h : Seated w) (i : Nat) {f : Connection → Connection} (hf : ∀ c, (f c).load ≤ c.load) :
    Seated (w.modify i f) :=
  h.of_le (fun _ => load_modify_le f hf) (fun _ => Nat.le_refl _) (fun _ => id) (List.length_modify _ _ _)

theorem step (h : Seated w) {op : PoolOp} (hs : w.Spares op) : Seated (w.step op) := by
  cases op with
  | withClient registersAtOnce => exact h.withClient hs
  | connected k => exact h.connected k
  | connectFailed k => exact h.connectFailed k
  | decideAgain k => exact h.decideAgain k
  | register k => exact h.register k
  | abandon k => exact h.abandon k
  | settle i => exact h.modify i fun c => Nat.sub_le _ _
  | fails i => exact h.modify i fun c => Nat.le_refl _
  | sweep i =>
    unfold PoolWorld.step reap
    dsimp only
    split
    · refine h.modify i fun c => ?_
      split <;> exact Nat.le_refl _
    · exact h
  | dispose =>
    unfold PoolWorld.step PoolWorld.dispose
    dsimp only
    split
    · exact h
    · refine h.of_le (fun i => Nat.le_of_eq ?_) (fun _ => Nat.le_refl _) (fun _ => id) (List.length_map _)
      simp [load, Function.comp_def]

theorem new : Seated PoolWorld.new := ⟨fun _ => Nat.zero_le _, fun _ ha => absurd ha List.not_mem_nil⟩

end Seated

end PoolWorld

/-- The cap holds, seated callers included, in every run in which `tryAcquire`
hands out no connection whose places are all taken or promised. -/
theorem load_le_cap (ops : List PoolOp)
    (h : Execution.Along PoolWorld.step PoolWorld.Spares PoolWorld.new ops) (i : Nat) :
    (Execution.exec PoolWorld.step PoolWorld.new ops).load i ≤ runsPerConnection := by
  have hseated : (Execution.exec PoolWorld.step PoolWorld.new ops).Seated :=
    h.invariant (fun _ _ hw hs => hw.step hs) PoolWorld.Seated.new
  exact Nat.le_trans (Nat.le_add_right _ _) (hseated.places i)

/-- Five callers that await before they register, on one idle connection. -/
def prepares : List PoolOp :=
  [.withClient true, .connected 0, .register 0, .settle 0,
    .withClient false, .withClient false, .withClient false, .withClient false, .withClient false,
    .register 0, .register 0, .register 0, .register 0, .register 0]

theorem prepare_overbooks : ¬ ∀ (ops : List PoolOp) (i : Nat),
    (Execution.exec PoolWorld.step PoolWorld.new ops).load i ≤ runsPerConnection := by
  intro h
  exact absurd (h prepares 0) (by decide)

/-- Two callers that register at once share a connection. -/
theorem load_le_cap_shared : (Execution.exec PoolWorld.step PoolWorld.new
    [.withClient true, .connected 0, .register 0, .withClient true]).load 0 ≤ runsPerConnection :=
  load_le_cap _ (by decide) 0

end Iso4
