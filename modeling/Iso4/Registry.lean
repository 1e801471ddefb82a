/-
The warm instance registry (`crates/core/src/warm.rs`).

`RegistryInner` is the state behind the registry's lock: per prefix a list of
instance records with its demand averages, and the counters `total`,
`oneoffRunning` and `idleTotal` that every operation patches by hand.  The
operations are `acquire`, `release`, `reserveOneoff`, `releaseOneoff` and
`disposePrefix`; `pressurePass` and `evictScored` run inside them.

What comes from outside the registry is an argument: the usage sample, the
clock readings, the result of the thread spawn, the utilization each owner
loop last published, and the iteration order of the prefix map (any
permutation, `HashOrder`).

Two fields are not in the source.  `saturated` records whether a
`saturating_sub` on a ledger counter ever had to saturate, and `dropped` lists
the ids of the pooled handles dropped so far (each drop sends that instance
its `Retire`).
-/
import Iso4.Policy
import Mathlib.Data.List.AList

namespace Iso4

/-- The two heap lines a run asks for, in bytes; `0` = none. -/
structure HeapCaps where
  softBytes : Nat
  hardBytes : Nat
  deriving DecidableEq, Repr

/-- A live warm instance as the registry sees it. -/
structure InstanceHandle where
  lastUsed : Nat
  heapUsedBytes : Nat
  deriving DecidableEq, Repr

/-- One pooled instance as the registry tracks it. -/
structure Instance where
  id : Nat
  handle : InstanceHandle
  inFlight : Nat
  caps : HeapCaps
  softStrikes : Nat
  dead : Bool
  deriving DecidableEq, Repr

/-- In the pool, reusable and evictable. -/
def Instance.isIdle (i : Instance) : Bool := decide (i.inFlight = 0) && !i.dead

section Demand

variable {F : Type} [F64 F]

/-- A fading average (`α = 0.2`). -/
structure Ewma (F : Type) where
  value : F
  seeded : Bool

def Ewma.default : Ewma F := ⟨F64.ofNat 0, false⟩

def Ewma.update (e : Ewma F) (sample : F) : Ewma F :=
  ⟨if e.seeded then e.value * F64.lit 8 1 + sample * F64.lit 2 1 else sample, true⟩

def Ewma.get (e : Ewma F) : Option F := if e.seeded then some e.value else none

/-- The lowest sample seen, drifting up by 0.5 % when nothing lower arrives. -/
structure DecayingMin (F : Type) where
  value : F
  seeded : Bool

def DecayingMin.default : DecayingMin F := ⟨F64.ofNat 0, false⟩

def DecayingMin.update (m : DecayingMin F) (sample : F) : DecayingMin F :=
  if !m.seeded || !F64.lt m.value sample then ⟨sample, true⟩
  else
    let drifted := m.value * F64.lit 1005 3
    ⟨if F64.lt sample drifted then sample else drifted, m.seeded⟩

def DecayingMin.get (m : DecayingMin F) : Option F := if m.seeded then some m.value else none

/-- Per-prefix demand statistics feeding the join/spawn decision. -/
structure PrefixDemand (F : Type) where
  lastArrival : Option Nat
  intervalMs : Ewma F
  cpuMs : Ewma F
  wallMin : DecayingMin F
  cpuMin : DecayingMin F
  lastSample : Option Nat
  heapBytes : Ewma F

def PrefixDemand.default : PrefixDemand F :=
  ⟨none, .default, .default, .default, .default, none, .default⟩

def PrefixDemand.noteArrival (d : PrefixDemand F) (now : Nat) : PrefixDemand F :=
  match d.lastArrival with
  | some last =>
    { d with
      intervalMs := d.intervalMs.update (asSecsF64 (now - last) * F64.ofNat 1000)
      lastArrival := some now }
  | none => { d with lastArrival := some now }

def PrefixDemand.arrivalsPerSec (d : PrefixDemand F) : F :=
  match d.intervalMs.get with
  | some ms => if F64.lt (F64.ofNat 0) ms then F64.ofNat 1000 / ms else F64.ofNat 0
  | none => F64.ofNat 0

/-- Note a completed run's shape. -/
def PrefixDemand.noteCompletion (d : PrefixDemand F) (wallMs cpuMs : F) (now : Nat) :
    PrefixDemand F :=
  { d with
    wallMin := if F64.lt (F64.ofNat 0) wallMs then d.wallMin.update wallMs else d.wallMin
    cpuMin := if F64.lt (F64.ofNat 0) cpuMs then d.cpuMin.update cpuMs else d.cpuMin
    lastSample := some now }

/-- Silence after which a prefix stops counting towards the allowance (30 s). -/
def demandStaleAfter : Nat := 30000000000

def PrefixDemand.slotFacts (d : PrefixDemand F) (now : Nat) : Option (SlotFacts F) := do
  let last ← d.lastSample
  if now - last > demandStaleAfter then none
  else
    let wallMs ← d.wallMin.get
    let cpuMs ← d.cpuMin.get
    some ⟨d.arrivalsPerSec, wallMs, cpuMs⟩

end Demand

/-- Instances and demand statistics of one prefix. -/
structure PrefixEntry (F : Type) where
  instances : List Instance
  demand : PrefixDemand F

/-- `HashMap<String, PrefixEntry>`. -/
abbrev PrefixMap (F : Type) := AList fun _ : String => PrefixEntry F

/-- An order in which the prefix map may be iterated. -/
structure HashOrder (F : Type) where
  order : List (Σ _ : String, PrefixEntry F) → List (Σ _ : String, PrefixEntry F)
  perm : ∀ l, (order l).Perm l

/-- Insertion order. -/
def HashOrder.insertion (F : Type) : HashOrder F := ⟨fun l => l, fun l => .refl l⟩

structure RegistryInner (F : Type) where
  prefixes : PrefixMap F
  total : Nat
  oneoffRunning : Nat
  idleTotal : Nat
  nextInstanceId : Nat
  shedding : Bool
  lastPass : Option PassOutcome
  oneoffDemand : PrefixDemand F
  releasesSinceRecompute : Nat
  /-- The process-wide `SLOT_ALLOWANCE`. -/
  slotAllowance : Nat
  saturated : Bool
  dropped : List Nat

/-- The registry's two lines, the host reserve its refusal message shows, and
the core count. -/
structure WarmConfig where
  warmBudgetBytes : Nat
  hardLineBytes : Nat
  hostReserveBytes : Nat
  cores : Nat
  deriving DecidableEq, Repr

/-- What one operation reads of the world: the usage meter, the clock (once on
entry, once for the eviction scores) and the map's iteration order. -/
structure Reading (F : Type) where
  usage : Option Nat
  now : Nat
  passNow : Nat
  order : HashOrder F

section Ops

variable {F : Type} [F64 F]

/-- `WarmRegistry::new`. -/
def RegistryInner.new (F : Type) [F64 F] : RegistryInner F where
  prefixes := ∅
  total := 0
  oneoffRunning := 0
  idleTotal := 0
  nextInstanceId := 1
  shedding := false
  lastPass := none
  oneoffDemand := .default
  releasesSinceRecompute := 0
  slotAllowance := 0
  saturated := false
  dropped := []

/-- `total.saturating_sub(n)`. -/
def RegistryInner.subTotal (s : RegistryInner F) (n : Nat) : RegistryInner F :=
  { s with total := s.total - n, saturated := s.saturated || decide (s.total < n) }

/-- `idle_total.saturating_sub(n)`. -/
def RegistryInner.subIdle (s : RegistryInner F) (n : Nat) : RegistryInner F :=
  { s with idleTotal := s.idleTotal - n, saturated := s.saturated || decide (s.idleTotal < n) }

/-- `oneoff_running.saturating_sub(n)`. -/
def RegistryInner.subOneoff (s : RegistryInner F) (n : Nat) : RegistryInner F :=
  { s with
    oneoffRunning := s.oneoffRunning - n
    saturated := s.saturated || decide (s.oneoffRunning < n) }

/-- Write an entry back into the map. -/
def RegistryInner.putEntry (s : RegistryInner F) (prefixId : String) (e : PrefixEntry F) :
    RegistryInner F :=
  { s with prefixes := s.prefixes.insert prefixId e }

/-- `prefixes.entry(id).or_default()`. -/
def RegistryInner.entryOrDefault (s : RegistryInner F) (prefixId : String) : PrefixEntry F :=
  (s.prefixes.lookup prefixId).getD ⟨[], .default⟩

/-! ### Shedding -/

/-- The idle instances of every prefix, in the map's iteration order. -/
def RegistryInner.idleLocations (s : RegistryInner F) (order : HashOrder F) :
    List (String × Instance) :=
  (order.order s.prefixes.entries).flatMap fun e =>
    (e.2.instances.filter Instance.isIdle).map fun i => (e.1, i)

/-- Drop the highest-scored idle instance across all prefixes. -/
def evictScored (s : RegistryInner F) (now : Nat) (order : HashOrder F) :
    RegistryInner F × Bool :=
  let locations := s.idleLocations order
  match pickVictim F (locations.map fun l => ⟨l.2.handle.heapUsedBytes, l.2.handle.lastUsed⟩) now with
  | none => (s, false)
  | some pick =>
    match locations[pick]? with
    | none => (s, false)
    | some (prefixId, inst) =>
      match s.prefixes.lookup prefixId with
      | none => (s, false)
      | some entry =>
        let kept := entry.instances.filter fun i => i.id ≠ inst.id
        let s := s.putEntry prefixId { entry with instances := kept }
        (({ s with dropped := inst.id :: s.dropped }.subTotal 1).subIdle 1, true)

/-- `while dropped < evict && evict_scored(..)`: the state and the number
dropped. -/
def shed (now : Nat) (order : HashOrder F) : Nat → RegistryInner F → RegistryInner F × Nat
  | 0, s => (s, 0)
  | n + 1, s =>
    match evictScored s now order with
    | (s, false) => (s, 0)
    | (s, true) =>
      let (s, k) := shed now order n s
      (s, k + 1)

/-- Fold one usage sample through the watermark policy and perform the
verdict.  Returns whether a new instance may be pooled. -/
def pressurePass (s : RegistryInner F) (usage : Option Nat) (budget now : Nat)
    (order : HashOrder F) : RegistryInner F × Bool :=
  match usage with
  | none => ({ s with shedding := false, lastPass := none }, true)
  | some usageBytes =>
    let verdict := watermarkAction
      { usageBytes, budgetBytes := budget, wasShedding := s.shedding, lastPass := s.lastPass,
        idleCount := s.idleTotal }
    let s := { s with
      shedding := verdict.shedding
      lastPass := if verdict.shedding then s.lastPass else none }
    let (s, dropped) := shed now order verdict.evict s
    (if dropped > 0 then { s with lastPass := some ⟨usageBytes⟩ } else s, !verdict.shedding)

/-! ### Admission -/

/-- The usage sample, skipped when both lines are disabled. -/
def sampleUsage (cfg : WarmConfig) (reading : Option Nat) : Option Nat :=
  if cfg.warmBudgetBytes = 0 ∧ cfg.hardLineBytes = 0 then none else reading

/-- One mebibyte. -/
def mb : Nat := 1024 * 1024

/-- May a new isolate be created for a run whose terminating cap is
`runCapBytes`?  The error is the refusal message. -/
def admitRun (cfg : WarmConfig) (usage : Option Nat) (runCapBytes : Nat) : Except String Unit :=
  match usage with
  | none => .ok ()
  | some usageBytes =>
    if admitIsolate
        { usageBytes, runCapBytes, hardLineBytes := cfg.hardLineBytes,
          budgetBytes := cfg.warmBudgetBytes } then .ok ()
    else if runCapBytes = 0 then
      .error (s!"no capacity for a new isolate: this run is uncapped (memoryMb: 0), so "
        ++ s!"the memory budget is its refusal line — measured container memory "
        ++ s!"({usageBytes / mb} MB) is at or above the budget ({cfg.warmBudgetBytes / mb} MB, "
        ++ s!"set by memoryBudgetMb)")
    else
      let limitBytes := cfg.hardLineBytes / 9 * 10 + cfg.hostReserveBytes
      let headroomMb := (cfg.hardLineBytes - usageBytes) / mb
      let fit :=
        if headroomMb > 0 then
          s!"the largest heap ceiling admissible right now is {headroomMb} MB"
        else "no heap ceiling fits under the line until memory frees"
      .error (s!"no capacity for a new isolate: measured container memory ({usageBytes / mb} MB) "
        ++ s!"plus this run's heap ceiling ({runCapBytes / mb} MB) totals "
        ++ s!"{min (usageBytes + runCapBytes) (2 ^ 64 - 1) / mb} MB, crossing the admission "
        ++ s!"line of {cfg.hardLineBytes / mb} MB — 90% of (container limit {limitBytes / mb} MB "
        ++ s!"minus host reserve {cfg.hostReserveBytes / mb} MB); {fit}")

/-! ### acquire -/

/-- What `acquire` hands the session thread. -/
inductive Acquired where
  /-- A pooled instance took the run; `release` with its id. -/
  | attached (id : Nat)
  /-- A fresh unpooled isolate for this call only; `releaseOneoff`. -/
  | cold
  | refused (message : String)
  | spawnFailed (error : String)
  deriving DecidableEq, Repr

/-- The warmest idle instance with the same caps (`max_by_key(last_used)`),
with its position. -/
def idlePos (instances : List Instance) (caps : HeapCaps) : Option (Nat × Instance) :=
  maxBy (fun a b : Instance => compare a.handle.lastUsed b.handle.lastUsed)
    ((enumerate instances).filter fun p =>
      !p.2.dead && decide (p.2.inFlight = 0) && decide (p.2.caps = caps))

/-- The live instances with the same caps, with their positions. -/
def joinable (instances : List Instance) (caps : HeapCaps) : List (Nat × Instance) :=
  (enumerate instances).filter fun p => !p.2.dead && decide (p.2.caps = caps)

/-- A freshly spawned record: one run attached. -/
def Instance.spawned (id now : Nat) (caps : HeapCaps) : Instance :=
  { id, handle := ⟨now, 0⟩, inFlight := 1, caps, softStrikes := 0, dead := false }

/-- Attach a run to the instance at `pos` by setting its `in_flight`. -/
def RegistryInner.attachAt (s : RegistryInner F) (prefixId : String) (entry : PrefixEntry F)
    (pos : Nat) (inst : Instance) (inFlight : Nat) : RegistryInner F :=
  s.putEntry prefixId
    { entry with instances := entry.instances.set pos { inst with inFlight := inFlight } }

/-- Pool a freshly spawned instance under the next id. -/
def RegistryInner.pushSpawned (s : RegistryInner F) (prefixId : String) (entry : PrefixEntry F)
    (now : Nat) (caps : HeapCaps) : RegistryInner F :=
  { s.putEntry prefixId
      { entry with instances := entry.instances ++ [.spawned s.nextInstanceId now caps] } with
    total := s.total + 1
    nextInstanceId := s.nextInstanceId + 1 }

/-- The first isolate of this prefix (or only dead or mismatched ones):
admission line, then spawn, then latch. -/
def acquireFirst (cfg : WarmConfig) (s : RegistryInner F) (prefixId : String)
    (entry : PrefixEntry F) (caps : HeapCaps) (usage : Option Nat) (admitWarm : Bool) (now : Nat)
    (spawn : Except String Unit) : RegistryInner F × Acquired :=
  match admitRun cfg usage caps.hardBytes with
  | .error refusal => (s, .refused refusal)
  | .ok () =>
    match spawn with
    | .error e => (s, .spawnFailed e)
    | .ok () =>
      if !admitWarm then
        ({ s with total := s.total + 1, oneoffRunning := s.oneoffRunning + 1 }, .cold)
      else (s.pushSpawned prefixId entry now caps, .attached s.nextInstanceId)

/-- Join a busy instance or open another one. -/
def acquireJoin (cfg : WarmConfig) (s : RegistryInner F) (prefixId : String)
    (entry : PrefixEntry F) (caps : HeapCaps) (usage : Option Nat) (admitWarm : Bool) (now : Nat)
    (spawn : Except String Unit) (util : Nat → Nat) : RegistryInner F × Acquired :=
  let positions := joinable entry.instances caps
  let live := (entry.instances.filter fun i => !i.dead).length
  let spawnCap := (entry.demand.heapBytes.get.map F64.toU64).getD caps.hardBytes
  let canSpawn := admitWarm && decide (live < cfg.cores) && (admitRun cfg usage spawnCap).isOk
  let facts : List JoinFact := positions.map fun p => ⟨p.2.inFlight, util p.2.id⟩
  let target := pickJoinTarget facts
  let wantsSpawn := shouldSpawn
    ⟨entry.demand.arrivalsPerSec, entry.demand.cpuMs.get, live, cfg.cores⟩
  let join :=
    -- Spawn: demanded, or spillover past saturated targets.
    if (wantsSpawn || target.isNone) && canSpawn then none
    else target.orElse fun _ => joinFallback facts
  match join.bind fun k => positions[k]? with
  | some (pos, inst) =>
    (s.attachAt prefixId entry pos inst (inst.inFlight + 1), .attached inst.id)
  | none =>
    match spawn with
    | .error e => (s, .spawnFailed e)
    | .ok () => (s.pushSpawned prefixId entry now caps, .attached s.nextInstanceId)

/-- Take an instance for a run of `prefixId` asking for `caps`. -/
def acquire (cfg : WarmConfig) (s : RegistryInner F) (prefixId : String) (caps : HeapCaps)
    (r : Reading F) (spawn : Except String Unit) (util : Nat → Nat) :
    RegistryInner F × Acquired :=
  let usage := sampleUsage cfg r.usage
  let (s, admitWarm) := pressurePass s usage cfg.warmBudgetBytes r.passNow r.order
  let entry := s.entryOrDefault prefixId
  let demand := entry.demand.noteArrival r.now
  -- Seed: the theoretical cap, until measurements fade it out.
  let demand :=
    if !demand.heapBytes.seeded && decide (caps.hardBytes > 0) then
      { demand with heapBytes := demand.heapBytes.update (F64.ofNat caps.hardBytes) }
    else demand
  let entry : PrefixEntry F := { entry with demand }
  let s := s.putEntry prefixId entry
  match idlePos entry.instances caps with
  | some (pos, inst) =>
    ((s.attachAt prefixId entry pos inst 1).subIdle 1, .attached inst.id)
  | none =>
    if (joinable entry.instances caps).isEmpty then
      acquireFirst cfg s prefixId entry caps usage admitWarm r.now spawn
    else acquireJoin cfg s prefixId entry caps usage admitWarm r.now spawn util

/-! ### Completed runs -/

/-- Completed runs between recomputations of the slot allowance. -/
def recomputeEvery : Nat := 32

/-- Fold one completed run into the slot allowance. -/
def noteSlotSample (cfg : WarmConfig) (s : RegistryInner F) (prefixId : Option String)
    (wallMs cpuMs : F) (now : Nat) : RegistryInner F :=
  let s := match prefixId with
    | some id =>
      match s.prefixes.lookup id with
      | some entry => s.putEntry id { entry with demand := entry.demand.noteCompletion wallMs cpuMs now }
      | none => s
    | none => { s with oneoffDemand := s.oneoffDemand.noteCompletion wallMs cpuMs now }
  let s := { s with releasesSinceRecompute := s.releasesSinceRecompute + 1 }
  if s.releasesSinceRecompute < recomputeEvery then s
  else
    let facts := (s.prefixes.entries.map (·.2.demand) ++ [s.oneoffDemand]).filterMap
      (·.slotFacts now)
    { s with releasesSinceRecompute := 0, slotAllowance := targetSlots facts cfg.cores }

/-- The measurements one finished run reports. -/
structure RunReport (F : Type) where
  tainted : Bool
  heapUsedBytes : Nat
  wallTimeMs : F
  cpuTimeMs : F

/-- A record after one run released it: the in-flight count, the soft line's
strikes, and whether it is now dead. -/
def Instance.released (inst : Instance) (report : RunReport F) (prefixAlive : Bool) : Instance :=
  let inst := { inst with inFlight := inst.inFlight - 1 }
  -- A tainted reading is taken after a terminate: no strike.
  let inst :=
    if !report.tainted && decide (inst.caps.softBytes > 0) then
      let isOver := decide (report.heapUsedBytes > inst.caps.softBytes)
      let (strikes, retire) := softStrike inst.softStrikes isOver
      { inst with softStrikes := strikes, dead := inst.dead || retire }
    else inst
  { inst with dead := inst.dead || report.tainted || !prefixAlive }

/-- Give back the record at `pos` of `entry`. -/
def releaseRecord (s : RegistryInner F) (prefixId : String) (entry : PrefixEntry F) (pos : Nat)
    (inst : Instance) (report : RunReport F) (prefixAlive : Bool) (now : Nat) : RegistryInner F :=
  let s := { s with saturated := s.saturated || decide (inst.inFlight < 1) }
  let inst := inst.released report prefixAlive
  if inst.dead then
    if inst.inFlight = 0 then
      ({ s.putEntry prefixId { entry with instances := entry.instances.eraseIdx pos } with
        dropped := inst.id :: s.dropped }).subTotal 1
    else s.putEntry prefixId { entry with instances := entry.instances.set pos inst }
  else if inst.inFlight = 0 then
    let inst := { inst with handle := ⟨now, report.heapUsedBytes⟩ }
    { s.putEntry prefixId { entry with instances := entry.instances.set pos inst } with
      idleTotal := s.idleTotal + 1 }
  else s.putEntry prefixId { entry with instances := entry.instances.set pos inst }

/-- `if !prefix_alive && entry.instances.is_empty() { prefixes.remove(id) }`. -/
def RegistryInner.dropIfEmpty (s : RegistryInner F) (prefixId : String) : RegistryInner F :=
  match s.prefixes.lookup prefixId with
  | some entry =>
    if entry.instances.isEmpty then { s with prefixes := s.prefixes.erase prefixId } else s
  | none => s

/-- Fold a clean run's measurements into its prefix's averages. -/
def PrefixEntry.noteRelease (entry : PrefixEntry F) (report : RunReport F) : PrefixEntry F :=
  if report.tainted then entry
  else
    let d := { entry.demand with cpuMs := entry.demand.cpuMs.update report.cpuTimeMs }
    { entry with demand :=
        if report.heapUsedBytes > 0 then
          { d with heapBytes := d.heapBytes.update (F64.ofNat report.heapUsedBytes) }
        else d }

/-- One run released its instance. -/
def release (cfg : WarmConfig) (s : RegistryInner F) (prefixId : String) (instanceId : Nat)
    (report : RunReport F) (prefixAlive : Bool) (r : Reading F) : RegistryInner F :=
  let usage := sampleUsage cfg r.usage
  let s :=
    if !report.tainted then
      noteSlotSample cfg s (some prefixId) report.wallTimeMs report.cpuTimeMs r.now
    else s
  let s := match s.prefixes.lookup prefixId with
    | none => s
    | some entry =>
      let entry := entry.noteRelease report
      let s := s.putEntry prefixId entry
      let s := match entry.instances.findIdx? fun i => i.id = instanceId with
        | none => s
        | some pos =>
          match entry.instances[pos]? with
          | none => s
          | some inst => releaseRecord s prefixId entry pos inst report prefixAlive r.now
      if prefixAlive then s else s.dropIfEmpty prefixId
  (pressurePass s usage cfg.warmBudgetBytes r.passNow r.order).1

/-! ### One-off runs and disposal -/

/-- Ledger accounting for a one-off run. -/
def reserveOneoff (cfg : WarmConfig) (s : RegistryInner F) (runCapBytes : Nat) (r : Reading F) :
    RegistryInner F × Except String Unit :=
  let usage := sampleUsage cfg r.usage
  let s := (pressurePass s usage cfg.warmBudgetBytes r.passNow r.order).1
  match admitRun cfg usage runCapBytes with
  | .error refusal => (s, .error refusal)
  | .ok () => ({ s with total := s.total + 1, oneoffRunning := s.oneoffRunning + 1 }, .ok ())

/-- A one-off run (or a cold instance) finished. -/
def releaseOneoff (cfg : WarmConfig) (s : RegistryInner F) (tainted : Bool) (wallMs cpuMs : F)
    (r : Reading F) : RegistryInner F :=
  let usage := sampleUsage cfg r.usage
  let s := (s.subTotal 1).subOneoff 1
  let s := if !tainted then noteSlotSample cfg s none wallMs cpuMs r.now else s
  (pressurePass s usage cfg.warmBudgetBytes r.passNow r.order).1

/-- Mark every instance of a disposed prefix dead: idle ones drop now, busy
ones once their runs release. -/
def disposePrefix (s : RegistryInner F) (prefixId : String) : RegistryInner F :=
  match s.prefixes.lookup prefixId with
  | none => s
  | some entry =>
    let marked : List Instance := entry.instances.map fun i => { i with dead := true }
    let kept := marked.filter fun i => i.inFlight ≠ 0
    let gone := marked.filter fun i => i.inFlight = 0
    let s := s.putEntry prefixId { entry with instances := kept }
    let s := ({ s with dropped := gone.map Instance.id ++ s.dropped }.subTotal gone.length).subIdle
      gone.length
    s.dropIfEmpty prefixId

end Ops

end Iso4
