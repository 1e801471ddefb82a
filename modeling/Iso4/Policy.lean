/-
The eviction and memory-pressure policy (`crates/core/src/policy.rs`).

Pure decision functions over facts the registry gathers under its lock: which
idle instance to drop (`pickVictim`), whether the warm budget is shedding and
how many instances one pass drops (`watermarkAction`), whether another isolate
may be created (`admitIsolate`), and which busy instance a run joins
(`pickJoinTarget`, `joinFallback`, `shouldSpawn`).

Byte counts, counters and instants are natural numbers (instants in
nanoseconds).  The `f64` arithmetic of the scores and averages is a class,
`F64`, so that nothing below depends on how it rounds; `Float` is an instance.
What the registry's proofs use of a pick is only that it is an index into the
facts it was given (`pickVictim_lt`, `pickJoinTarget_lt`, `joinFallback_lt`).
-/
import Mathlib.Data.List.Basic
import Mathlib.Data.Nat.Basic
import Mathlib.Algebra.Ring.Nat

namespace Iso4

/-- The `f64` operations the policy and the demand averages use. -/
class F64 (F : Type) extends Add F, Mul F, Div F where
  /-- A decimal literal `m · 10⁻ᵉ`. -/
  lit : (m e : Nat) → F
  /-- `u64 as f64`. -/
  ofNat : Nat → F
  /-- `f64 as u64`: truncating, saturating. -/
  toU64 : F → Nat
  powf : F → F → F
  round : F → F
  isFinite : F → Bool
  lt : F → F → Bool

instance : F64 Float where
  lit m e := Float.ofScientific m true e
  ofNat := Float.ofNat
  toU64 x := x.toUInt64.toNat
  powf := Float.pow
  round := Float.round
  isFinite := Float.isFinite
  lt x y := decide (x < y)

variable {F : Type} [F64 F]

/-- `Duration::as_secs_f64` of a duration in nanoseconds. -/
def asSecsF64 (d : Nat) : F :=
  F64.ofNat (d / 1000000000) + F64.ofNat (d % 1000000000) / F64.ofNat 1000000000

/-- `partial_cmp(..).unwrap_or(Equal)`. -/
def f64Cmp (x y : F) : Ordering :=
  if F64.lt x y then .lt else if F64.lt y x then .gt else .eq

/-- `Iterator::max_by` over an indexed slice: the last of the maximal
elements under `cmp`. -/
def maxBy {α : Type} (cmp : α → α → Ordering) : List (Nat × α) → Option (Nat × α)
  | [] => none
  | x :: xs => some (xs.foldl (fun best y => if cmp best.2 y.2 = .gt then best else y) x)

/-- `Iterator::min_by_key`: the first of the minimal elements under `cmp`. -/
def minBy {α : Type} (cmp : α → α → Ordering) : List (Nat × α) → Option (Nat × α)
  | [] => none
  | x :: xs => some (xs.foldl (fun best y => if cmp best.2 y.2 = .gt then y else best) x)

private theorem foldl_pick_mem {α : Type} (pick : α → α → Bool) :
    ∀ (xs : List α) (x : α),
      xs.foldl (fun best y => if pick best y then best else y) x ∈ x :: xs
  | [], x => by simp
  | y :: ys, x => by
    have h := foldl_pick_mem pick ys (if pick x y then x else y)
    rcases List.mem_cons.mp h with h | h
    · rw [List.foldl_cons, h]
      by_cases hp : pick x y <;> simp [hp]
    · exact List.mem_cons_of_mem _ (List.mem_cons_of_mem _ h)

theorem maxBy_mem {α : Type} {cmp : α → α → Ordering} {l : List (Nat × α)} {r : Nat × α}
    (h : maxBy cmp l = some r) : r ∈ l := by
  cases l with
  | nil => simp [maxBy] at h
  | cons x xs =>
    simp only [maxBy, Option.some.injEq] at h
    have := foldl_pick_mem (fun b y : Nat × α => decide (cmp b.2 y.2 = .gt)) xs x
    simpa [h] using this

theorem maxBy_eq_none {α : Type} {cmp : α → α → Ordering} {l : List (Nat × α)} :
    maxBy cmp l = none ↔ l = [] := by
  cases l <;> simp [maxBy]

theorem minBy_mem {α : Type} {cmp : α → α → Ordering} {l : List (Nat × α)} {r : Nat × α}
    (h : minBy cmp l = some r) : r ∈ l := by
  cases l with
  | nil => simp [minBy] at h
  | cons x xs =>
    simp only [minBy, Option.some.injEq] at h
    have := foldl_pick_mem (fun b y : Nat × α => !decide (cmp b.2 y.2 = .gt)) xs x
    simp only [Bool.not_eq_true', decide_eq_false_iff_not, ite_not] at this
    rwa [h] at this

/-- `slice.iter().enumerate()`. -/
def enumerate {α : Type} (l : List α) : List (Nat × α) := l.zipIdx.map fun p => (p.2, p.1)

theorem mem_enumerate {α : Type} {l : List α} {i : Nat} {x : α} :
    (i, x) ∈ enumerate l ↔ l[i]? = some x := by
  simp [enumerate, List.mem_zipIdx_iff_getElem?]

theorem lt_of_mem_enumerate {α : Type} {l : List α} {p : Nat × α} (h : p ∈ enumerate l) :
    p.1 < l.length := by
  have := mem_enumerate.mp (show (p.1, p.2) ∈ enumerate l from h)
  exact (List.getElem?_eq_some_iff.mp this).choose

/-! ### Eviction -/

/-- What the victim picker knows about one idle instance. -/
structure VictimFact where
  heapUsedBytes : Nat
  lastUsed : Nat
  deriving DecidableEq, Repr

/-- `heapUsed × idleSecs ^ 1.2`. -/
def score (fact : VictimFact) (now : Nat) : F :=
  F64.ofNat fact.heapUsedBytes * F64.powf (asSecsF64 (now - fact.lastUsed)) (F64.lit 12 1)

/-- Pick the instance to evict: the highest score, ties to the longest idle. -/
def pickVictim (F : Type) [F64 F] (idle : List VictimFact) (now : Nat) : Option Nat :=
  (maxBy (fun a b =>
      (f64Cmp (score (F := F) a now) (score b now)).then (compare b.lastUsed a.lastUsed))
    (enumerate idle)).map (·.1)

theorem pickVictim_lt {idle : List VictimFact} {now i : Nat}
    (h : pickVictim F idle now = some i) : i < idle.length := by
  obtain ⟨r, hr, rfl⟩ := Option.map_eq_some_iff.mp h
  exact lt_of_mem_enumerate (maxBy_mem hr)

/-! ### The shedding latch -/

/-- The usage sample the last completed shed pass acted on. -/
structure PassOutcome where
  usageAtPass : Nat
  deriving DecidableEq, Repr

structure PressureFacts where
  usageBytes : Nat
  budgetBytes : Nat
  wasShedding : Bool
  lastPass : Option PassOutcome
  idleCount : Nat
  deriving DecidableEq, Repr

structure PressureVerdict where
  shedding : Bool
  evict : Nat
  deriving DecidableEq, Repr

/-- A tenth of the idle population per pass, at least one. -/
def shedTarget (idleCount : Nat) : Nat := max (idleCount / 10) 1

/-- `u64::abs_diff`. -/
def absDiff (a b : Nat) : Nat := (a - b) + (b - a)

/-- Fold one usage sample into the watermark state. -/
def watermarkAction (facts : PressureFacts) : PressureVerdict :=
  if facts.budgetBytes = 0 then { shedding := false, evict := 0 }
  else
    let release := facts.budgetBytes / 5 * 4
    let shedding := decide (facts.usageBytes ≥ facts.budgetBytes)
      || (facts.wasShedding && decide (facts.usageBytes > release))
    if !shedding || decide (facts.idleCount = 0) then { shedding, evict := 0 }
    else
      match facts.lastPass with
      | some last =>
        -- The last pass left usage flat (within 5 %): hold the latch, stop the walk.
        if absDiff facts.usageBytes last.usageAtPass ≤ last.usageAtPass / 20 then
          { shedding, evict := 0 }
        else { shedding, evict := shedTarget facts.idleCount }
      | none => { shedding, evict := shedTarget facts.idleCount }

/-! ### The soft line -/

/-- Consecutive over-the-soft-line finishes before an instance is retired. -/
def softLineStrikes : Nat := 2

/-- The soft line's verdict at one release: the new strike count (a `u8`,
saturating) and whether the instance is retired. -/
def softStrike (prev : Nat) (overSoft : Bool) : Nat × Bool :=
  if !overSoft then (0, false)
  else
    let strikes := min (prev + 1) 255
    (strikes, decide (strikes ≥ softLineStrikes))

/-! ### Admission and routing -/

structure AdmitFacts where
  usageBytes : Nat
  runCapBytes : Nat
  hardLineBytes : Nat
  budgetBytes : Nat
  deriving DecidableEq, Repr

/-- May a new isolate be created for this run? -/
def admitIsolate (facts : AdmitFacts) : Bool :=
  if facts.runCapBytes = 0 then
    decide (facts.budgetBytes = 0) || decide (facts.usageBytes < facts.budgetBytes)
  else
    -- `saturating_add` on `u64`.
    decide (facts.hardLineBytes = 0)
      || decide (min (facts.usageBytes + facts.runCapBytes) (2 ^ 64 - 1) ≤ facts.hardLineBytes)

/-- The thread-utilization line, per-mille. -/
def utilizationTargetPermille : Nat := 800

structure SpawnFacts (F : Type) where
  arrivalsPerSec : F
  cpuMsPerRun : Option F
  liveInstances : Nat
  cores : Nat

/-- Open another instance for this prefix, or join a busy one? -/
def shouldSpawn (f : SpawnFacts F) : Bool :=
  if f.liveInstances ≥ f.cores then false
  else
    match f.cpuMsPerRun with
    | none => true
    | some cpuMs =>
      let demandThreads := f.arrivalsPerSec * cpuMs / F64.ofNat 1000
      let absorbed :=
        F64.ofNat f.liveInstances * F64.ofNat utilizationTargetPermille / F64.ofNat 1000
      F64.lt absorbed demandThreads

/-- One prefix's run shape for the slot formula. -/
structure SlotFacts (F : Type) where
  arrivalsPerSec : F
  wallMs : F
  cpuMs : F

/-- `f64::max` with `0.0`. -/
def maxZero (x : F) : F := if F64.lt x (F64.ofNat 0) then F64.ofNat 0 else x

/-- `Iterator::sum`. -/
def sumF (l : List F) : F := l.foldl (· + ·) (F64.ofNat 0)

/-- How many runs the host may keep in flight: `5 · cores · wall^0.7 / cpu^1.2` of the
arrival-weighted mean shape, floored at the core count. -/
def targetSlots (prefixes : List (SlotFacts F)) (cores : Nat) : Nat :=
  let floor := max cores 1
  let totalWeight := sumF (prefixes.map fun p => maxZero p.arrivalsPerSec)
  let shape : Option (F × F) :=
    if F64.lt (F64.ofNat 0) totalWeight then
      some (sumF (prefixes.map fun p => p.wallMs * maxZero p.arrivalsPerSec) / totalWeight,
        sumF (prefixes.map fun p => p.cpuMs * maxZero p.arrivalsPerSec) / totalWeight)
    else if prefixes.isEmpty then none
    else
      some (sumF (prefixes.map (·.wallMs)) / F64.ofNat prefixes.length,
        sumF (prefixes.map (·.cpuMs)) / F64.ofNat prefixes.length)
  match shape with
  | none => floor
  | some (wallMs, cpuMs) =>
    if !F64.lt (F64.ofNat 0) wallMs || !F64.lt (F64.ofNat 0) cpuMs then floor
    else
      let slots := F64.ofNat 5 * F64.ofNat floor * F64.powf wallMs (F64.lit 7 1)
        / F64.powf cpuMs (F64.lit 12 1)
      if !F64.isFinite slots then floor
      else min (max (F64.toU64 (F64.round slots)) floor) (2 ^ 32 - 1)

/-- What join routing knows about one live instance. -/
structure JoinFact where
  inFlight : Nat
  utilPermille : Nat
  deriving DecidableEq, Repr

/-- The fullest instance whose thread is not saturated. -/
def pickJoinTarget (instances : List JoinFact) : Option Nat :=
  (maxBy (fun a b => compare a.inFlight b.inFlight)
    ((enumerate instances).filter fun p => p.2.utilPermille < utilizationTargetPermille)).map (·.1)

/-- The least-utilized instance, when everything is saturated. -/
def joinFallback (instances : List JoinFact) : Option Nat :=
  (minBy (fun a b => (compare a.utilPermille b.utilPermille).then (compare a.inFlight b.inFlight))
    (enumerate instances)).map (·.1)

theorem pickJoinTarget_lt {instances : List JoinFact} {i : Nat}
    (h : pickJoinTarget instances = some i) : i < instances.length := by
  obtain ⟨r, hr, rfl⟩ := Option.map_eq_some_iff.mp h
  exact lt_of_mem_enumerate (List.mem_filter.mp (maxBy_mem hr)).1

theorem joinFallback_lt {instances : List JoinFact} {i : Nat}
    (h : joinFallback instances = some i) : i < instances.length := by
  obtain ⟨r, hr, rfl⟩ := Option.map_eq_some_iff.mp h
  exact lt_of_mem_enumerate (minBy_mem hr)

/-- The fallback always has a candidate when there is an instance. -/
theorem joinFallback_isSome {instances : List JoinFact} (h : instances ≠ []) :
    (joinFallback instances).isSome := by
  cases instances with
  | nil => exact absurd rfl h
  | cons x xs => simp [joinFallback, enumerate, minBy, List.zipIdx_cons]

end Iso4
