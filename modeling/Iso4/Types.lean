/-
Types shared by the modules of the runtime core: instants and durations,
limits, termination reasons and run errors (`crates/core/src/errors.rs`,
`crates/core/src/v8/isolate.rs`).

Instants and durations are nanoseconds on one monotonic clock.
-/
import Mathlib.Init

namespace Iso4

/-- `Duration::from_millis`, in nanoseconds. -/
def fromMillis (n : Nat) : Nat := n * 1000000

/-- A run's table token; `0` stands for "no run" and is never allocated. -/
structure RunToken where
  val : Nat
  pos : 0 < val
  deriving DecidableEq, Repr

/-- Why the running turn was terminated. -/
inductive TerminationReason where
  | wall
  | cpu
  | memory
  | abort
  /-- Sandbox code called dynamic `import()`. -/
  | dynamicImport (message : String)
  deriving DecidableEq, Repr

/-- What class of interruption reset an instance. -/
inductive ResetCause where
  | cpu
  | memory
  | wall
  | unsupported
  | abort
  deriving DecidableEq, Repr

/-- The errors a run can fail with. -/
inductive RunError where
  | runtimeError (name message : String)
  | importError (message : String)
  | moduleNotFound (message : String)
  | prefixBridgeCall (message : String)
  | prefixDidNotSettle (message : String)
  | exportNotSerializable (message : String)
  | typeNotSerializable (message : String)
  | cpuTimeout
  | wallTimeout
  | memoryLimit
  | hostBridge (message : String)
  | callTargetNotFound (message : String)
  | functionArgumentNotSupported
  | bridgeCallPayloadTooLarge
  | exportTooLarge
  | bridgeCallLimitExceeded
  | aborted
  | instanceReset (cause : ResetCause) (culpritRunId : Nat)
  | internal (message : String)
  deriving DecidableEq, Repr

/-- The failure class of a termination reason. -/
def TerminationReason.error : TerminationReason → RunError
  | .wall => .wallTimeout
  | .cpu => .cpuTimeout
  | .memory => .memoryLimit
  | .abort => .aborted
  | .dynamicImport message => .importError message

/-- `reason_error`: a terminate without a reason is an abort. -/
def reasonError : Option TerminationReason → RunError
  | some r => r.error
  | none => .aborted

/-- `termination_or`: a set reason is always the real cause. -/
def terminationOr (reason : Option TerminationReason) (fallback : RunError) : RunError :=
  match reason with
  | some r => r.error
  | none => fallback

/-- The class a reset names, as `taint_sweep` derives it. -/
def resetCause : Option TerminationReason → ResetCause
  | some .cpu => .cpu
  | some .memory => .memory
  | some .wall => .wall
  | some (.dynamicImport _) => .unsupported
  | some .abort => .abort
  | none => .abort

/-- The per-run limits the turn loop enforces; `0` = none. -/
structure Limits where
  wallTimeMs : Nat
  cpuTimeMs : Nat
  maxExportBytes : Nat
  graceMs : Nat
  deriving DecidableEq, Repr

/-- How the `waitUntil` part of a run ended. -/
inductive GraceStatus where
  | settled
  | truncated
  | failed
  deriving DecidableEq, Repr

end Iso4
