/-
The payloads of the runtime-to-host frames, as both sides have them: the encoders
of `crates/server/src/wire.rs` and the decoders of
`packages/iso4-sandbox/src/ipc.ts`.

A double is its 64 bits.  A value blob is opaque bytes to the runtime; the host
turns it into a value by the V8 deserializer, which is a parameter here, with the
questions the decoders ask of a value.

* `clampErrorText` — error texts are cut;
* `encodeRunCompletionPayload` and the four encoders beside it;
* `decodeRunCompletionPayload` and the decoders, with the peeks of the router.
-/
import Iso4.Lib.Codec
import Iso4.Payloads

namespace Iso4

open Wire

namespace Ipc

/-! ### What the payloads carry -/

/-- A double, as its bits. -/
abbrev F64 := UInt64

inductive BridgeCallOutcome where
  | ok
  | blocked
  | error
  | unanswered
  deriving DecidableEq

structure BridgeCallRecord where
  name : String
  startMs : F64
  durationMs : F64
  argBytes : UInt32
  responseBytes : UInt32
  /-- The id the call carried; blocked attempts have none (`u32::MAX`). -/
  callId : UInt32
  outcome : BridgeCallOutcome

inductive ResetCause where
  | cpu
  | memory
  | wall
  | abort
  | internal
  | unsupported
  deriving DecidableEq

structure ResetInfo where
  cause : ResetCause
  culpritRunId : UInt32

structure RunErrorPayload where
  code : String
  name : String
  message : String
  stack : Option String
  fields : Option Blob
  reset : Option ResetInfo
  prefixStage : Bool
  cause : Option RunErrorPayload

/-- What success and failure report alike. -/
structure RunTelemetry where
  stdout : List String
  stderr : List String
  durationMs : F64
  wallTimeMs : F64
  cpuTimeMs : F64
  bridgeCalls : List BridgeCallRecord

structure RunSuccessPayload extends RunTelemetry where
  exports : Blob
  skippedExports : List String
  heapUsedBytes : Option UInt64
  backgroundFlags : UInt8

structure RunFailurePayload extends RunTelemetry where
  error : RunErrorPayload
  heapUsedBytes : Option UInt64

inductive RunCompletion where
  | success (s : RunSuccessPayload)
  | failure (f : RunFailurePayload)

inductive GraceStatus where
  | settled
  | truncated
  | failed
  deriving DecidableEq

structure GraceReport extends RunTelemetry where
  status : GraceStatus
  error : Option (String × String)

/-- Counts are `usize`. -/
structure RegistryStats where
  oneoffRunning : UInt64
  warmBusy : UInt64
  warmRuns : UInt64
  warmIdle : UInt64
  idleHeapBytes : UInt64
  perPrefix : List (String × UInt64 × UInt64)
  warmBudgetBytes : UInt64
  rssBytes : UInt64
  usageBytes : UInt64
  hardLineBytes : UInt64
  underPressure : Bool

inductive BridgeTarget where
  | global (name : String)
  | «import» (specifier : String) (path : List String)

/-! ### Error texts -/

/-- `MAX_ERROR_TEXT_BYTES`. -/
def maxErrorTextBytes : Nat := 64 * 1024

/-- The characters that fit in `room` bytes: the text up to the last character
boundary at or before `room`. -/
def charsWithin : Nat → List Char → List Char
  | _, [] => []
  | room, c :: cs => if c.utf8Size ≤ room then c :: charsWithin (room - c.utf8Size) cs else []

def clampErrorText (text : String) : String :=
  if (utf8 text).length ≤ maxErrorTextBytes then text
  else
    String.ofList (charsWithin maxErrorTextBytes text.toList) ++ "… [truncated by iso4: " ++
      toString (utf8 text).length ++ " bytes total]"

/-- A text within the bound is not touched. -/
theorem clampErrorText_of_le {text : String} (h : (utf8 text).length ≤ maxErrorTextBytes) :
    clampErrorText text = text := if_pos h

/-- What is kept of a text begins it. -/
theorem charsWithin_prefix (room : Nat) (cs : List Char) : charsWithin room cs <+: cs := by
  induction cs generalizing room with
  | nil => exact List.prefix_refl _
  | cons c cs ih =>
    unfold charsWithin
    split
    · exact List.prefix_cons_inj c |>.mpr (ih _)
    · exact List.nil_prefix

/-! ### The encoders of the runtime -/

namespace RuntimeWriter

def encodeU32 (n : UInt32) : Blob := u32be n.toNat

def encodeU64 (n : UInt64) : Blob := u64be n.toNat

def encodeF64 (x : F64) : Blob := u64be x.toNat

def encodeString (s : String) : Blob := u32be (utf8 s).length ++ utf8 s

def encodeBool (b : Bool) : Blob := [if b then 1 else 0]

def encodeStringList (items : List String) : Blob := u32be items.length ++ items.flatMap encodeString

def encodeValueBlob (blob : Blob) : Blob := u32be blob.length ++ blob

/-- A presence byte, then the field when set. -/
def encodeOptional {α : Type} (encode : α → Blob) : Option α → Blob
  | some a => 1 :: encode a
  | none => [0]

def encodeOptionalValueBlob : Option Blob → Blob := encodeOptional encodeValueBlob

def encodeOptionalU64 : Option UInt64 → Blob := encodeOptional encodeU64

def resetCauseByte : ResetCause → UInt8
  | .cpu => 0
  | .memory => 1
  | .abort => 2
  | .internal => 3
  | .wall => 4
  | .unsupported => 5

/-- `outcome as u8`. -/
def outcomeByte : BridgeCallOutcome → UInt8
  | .ok => 0
  | .blocked => 1
  | .error => 2
  | .unanswered => 3

def statusByte : GraceStatus → UInt8
  | .settled => 0
  | .truncated => 1
  | .failed => 2

def encodeBridgeCallRecord (r : BridgeCallRecord) : Blob :=
  encodeString r.name ++ (encodeF64 r.startMs ++ (encodeF64 r.durationMs ++ (encodeU32 r.argBytes ++
    (encodeU32 r.responseBytes ++ (encodeU32 r.callId ++ [outcomeByte r.outcome])))))

def encodeBridgeCallRecords (records : List BridgeCallRecord) : Blob :=
  u32be records.length ++ records.flatMap encodeBridgeCallRecord

/-- `MAX_ERROR_FIELDS_BYTES`. -/
def maxErrorFieldsBytes : Nat := 1024 * 1024

/-- An oversized blob of error properties is dropped whole. -/
def keptFields (fields : Option Blob) : Option Blob :=
  fields.filter fun f => f.length ≤ maxErrorFieldsBytes

def encodeErrorStack (stack : Option String) : Blob :=
  encodeOptional (fun s => encodeString (clampErrorText s)) stack

def encodeResetInfo (info : ResetInfo) : Blob := resetCauseByte info.cause :: encodeU32 info.culpritRunId

/-- Of a cause only code, name, message and stack cross. -/
def encodeErrorCause (cause : RunErrorPayload) : Blob :=
  encodeString cause.code ++ (encodeString cause.name ++
    (encodeString (clampErrorText cause.message) ++ encodeErrorStack cause.stack))

def encodeRunErrorPayload (error : RunErrorPayload) : Blob :=
  encodeString error.code ++ (encodeString error.name ++ (encodeString (clampErrorText error.message) ++
    (encodeErrorStack error.stack ++ (encodeOptionalValueBlob (keptFields error.fields) ++
      (encodeOptional encodeResetInfo error.reset ++ (encodeBool error.prefixStage ++
        encodeOptional encodeErrorCause error.cause))))))

end RuntimeWriter

open RuntimeWriter

/-- `slotAllowance` is the runtime's current `slot_allowance()`. -/
def encodeRunCompletionPayload (slotAllowance runId : UInt32) (completion : RunCompletion) : Blob :=
  encodeU32 runId ++ (encodeU32 slotAllowance ++ match completion with
    | .success s =>
      encodeBool true ++ ([1] ++ (encodeValueBlob s.exports ++ (encodeStringList s.skippedExports ++
        (encodeStringList s.stdout ++ (encodeStringList s.stderr ++ (encodeF64 s.durationMs ++
          (encodeF64 s.wallTimeMs ++ (encodeF64 s.cpuTimeMs ++
            (encodeBridgeCallRecords s.bridgeCalls ++ (encodeOptionalU64 s.heapUsedBytes ++
              ([s.backgroundFlags] ++ [0])))))))))))
    | .failure f =>
      encodeBool false ++ ([0] ++ ([1] ++ (encodeRunErrorPayload f.error ++
        (encodeStringList f.stdout ++ (encodeStringList f.stderr ++ (encodeF64 f.durationMs ++
          (encodeF64 f.wallTimeMs ++ (encodeF64 f.cpuTimeMs ++
            (encodeBridgeCallRecords f.bridgeCalls ++ encodeOptionalU64 f.heapUsedBytes))))))))))

def encodeRunCompletePayload (runId : UInt32) (report : GraceReport) : Blob :=
  encodeU32 runId ++ ([statusByte report.status] ++ (encodeF64 report.durationMs ++
    (encodeF64 report.wallTimeMs ++ (encodeF64 report.cpuTimeMs ++ (encodeStringList report.stdout ++
      (encodeStringList report.stderr ++ (encodeBridgeCallRecords report.bridgeCalls ++
        encodeOptional (fun e => encodeString e.1 ++ encodeString e.2) report.error)))))))

/-- `none` is the `unreachable!` of a call with neither. -/
def encodePrecompileResultPayload (requestId : UInt32) (prefixId : Option String)
    (error : Option RunErrorPayload) : Option Blob :=
  match prefixId, error with
  | some id, _ => some (encodeU32 requestId ++ (encodeBool true ++ ([1] ++ (encodeString id ++ [0]))))
  | none, some err =>
    some (encodeU32 requestId ++ (encodeBool false ++ ([0] ++ ([1] ++ encodeRunErrorPayload err))))
  | none, none => none

/-- Counts saturate at `u32::MAX`. -/
def saturated (n : UInt64) : Nat := min n.toNat (2 ^ 32 - 1)

def encodeCount (n : UInt64) : Blob := u32be (saturated n)

def encodePrefixStats (p : String × UInt64 × UInt64) : Blob :=
  encodeString p.1 ++ (encodeCount p.2.1 ++ encodeCount p.2.2)

def encodeStatsPayload (stats : RegistryStats) : Blob :=
  encodeCount stats.oneoffRunning ++ (encodeCount stats.warmBusy ++ (encodeCount stats.warmRuns ++
    (encodeCount stats.warmIdle ++ (encodeU64 stats.idleHeapBytes ++
      (encodeU64 stats.warmBudgetBytes ++ (encodeU64 stats.rssBytes ++ (encodeU64 stats.usageBytes ++
        (encodeU64 stats.hardLineBytes ++ (encodeBool stats.underPressure ++
          (u32be (min stats.perPrefix.length (2 ^ 32 - 1)) ++
            stats.perPrefix.flatMap encodePrefixStats))))))))))

def encodeBridgeTarget : BridgeTarget → Blob
  | .global name => [0, 0] ++ encodeString name
  | .import specifier path => [1, 1] ++ (encodeString specifier ++ encodeStringList path)

/-- Everything up to the argument bytes, which follow in the same frame. -/
def encodeBridgeCallHeader (runId callId : UInt32) (target : BridgeTarget) (argsBlobLen : UInt32) :
    Blob :=
  encodeU32 runId ++ (encodeU32 callId ++ (encodeBridgeTarget target ++ encodeU32 argsBlobLen))

/-! ### The reader of the host -/

/-- What a decoder throws. -/
inductive DecodeError where
  /-- `PayloadDecodeError`. -/
  | payload (message : String)
  /-- A plain `Error`. -/
  | error (message : String)
  /-- The V8 deserializer refuses a blob. -/
  | value
  deriving DecidableEq

/-- What the decoders ask of a value. -/
inductive JsKind where
  | array
  | null
  | object
  | other (typeOf : String)
  deriving DecidableEq

/-- The V8 deserializer, and what is asked of what it gives. -/
structure ValueCodec (V : Type) where
  deserializeValue : Blob → Except DecodeError V
  kind : V → JsKind
  /-- `assertNoArrayHoles` lets the arguments of a blob of that size pass. -/
  dense : V → Nat → Bool

/-- `Number.MAX_SAFE_INTEGER`. -/
def maxSafeInteger : Nat := 2 ^ 53 - 1

/-- A text decoder in the middle of a character. -/
structure Utf8State where
  codePoint : Nat
  /-- Bytes still needed; 0 between characters. -/
  needed : Nat
  lower : Nat
  upper : Nat

namespace Utf8State

def idle : Utf8State := ⟨0, 0, 0x80, 0xBF⟩

def replacement : Char := Char.ofNat 0xFFFD

/-- The first byte of a character. -/
def lead (b : UInt8) : List Char × Utf8State :=
  let n := b.toNat
  if n < 0x80 then ([Char.ofNat n], idle)
  else if 0xC2 ≤ n ∧ n ≤ 0xDF then ([], ⟨n - 0xC0, 1, 0x80, 0xBF⟩)
  else if 0xE0 ≤ n ∧ n ≤ 0xEF then
    ([], ⟨n - 0xE0, 2, if n = 0xE0 then 0xA0 else 0x80, if n = 0xED then 0x9F else 0xBF⟩)
  else if 0xF0 ≤ n ∧ n ≤ 0xF4 then
    ([], ⟨n - 0xF0, 3, if n = 0xF0 then 0x90 else 0x80, if n = 0xF4 then 0x8F else 0xBF⟩)
  else ([replacement], idle)

/-- A byte that does not continue the character ends it and starts the next. -/
def next (s : Utf8State) (b : UInt8) : List Char × Utf8State :=
  if s.needed = 0 then lead b
  else if b.toNat < s.lower ∨ s.upper < b.toNat then (replacement :: (lead b).1, (lead b).2)
  else
    let codePoint := s.codePoint * 64 + (b.toNat - 0x80)
    if s.needed = 1 then ([Char.ofNat codePoint], idle) else ([], ⟨codePoint, s.needed - 1, 0x80, 0xBF⟩)

def decode (s : Utf8State) : Blob → List Char
  | [] => if s.needed = 0 then [] else [replacement]
  | b :: bs => (s.next b).1 ++ decode (s.next b).2 bs

end Utf8State

/-- `Buffer.toString('utf8')`: what is no text gets replacement characters. -/
def bufferToString (bytes : Blob) : String :=
  match ofUtf8 bytes with
  | some s => s
  | none => String.ofList (Utf8State.idle.decode bytes)

namespace HostReader

abbrev HRead (α : Type) := Reader DecodeError α

def invalid {α : Type} (message : String) : HRead α := Reader.fail (.payload message)

def readU8 : HRead UInt8 := Reader.u8 (.payload "unexpected end of payload reading u8")

def readU32 : HRead Nat := Reader.u32 (.payload "unexpected end of payload reading u32")

def readF64 : HRead F64 := UInt64.ofNat <$> Reader.u64 (.payload "unexpected end of payload reading f64")

def readU64 : HRead Nat := do
  let n ← Reader.u64 (.payload "unexpected end of payload reading u64")
  if maxSafeInteger < n then
    invalid ("u64 exceeds the JS safe-integer range: " ++ toString n)
  else pure n

def readOptionalU64 : HRead (Option Nat) := do
  let present ← readU8
  if present = 0 then pure none
  else do
    let n ← readU64
    pure (some n)

def readBool : HRead Bool := do
  let b ← readU8
  if b ≠ 0 ∧ b ≠ 1 then invalid ("invalid bool byte: " ++ hexByte b) else pure (b = 1)

def readRawBytes (len : Nat) : HRead Blob := fun left =>
  if left.length < len then
    .error (.payload ("unexpected end of payload: need " ++ toString len ++ " bytes, have " ++
      toString left.length))
  else .ok (left.take len, left.drop len)

/-- Advance past `len` bytes. -/
def skipBytes (len : Nat) : HRead Unit := (fun _ => ()) <$> readRawBytes len

def readString : HRead String := do
  let len ← readU32
  let bytes ← readRawBytes len
  pure (bufferToString bytes)

def readStringList : HRead (List String) := do
  let count ← readU32
  Reader.times readString count

/-- `skipBytes(readU32())`. -/
def skipString : HRead Unit := do
  let len ← readU32
  skipBytes len

/-- Advance past a specifier and a path. -/
def skipImportKey : HRead Unit := do
  skipString
  let count ← readU32
  let _ ← Reader.times skipString count
  pure ()

/-- The bytes of a specifier and a path, as they stand; the key is their latin1
text. -/
def readImportKey : HRead Blob := fun payload => do
  let (_, left) ← skipImportKey payload
  .ok (payload.take (payload.length - left.length), left)

variable {V : Type} (codec : ValueCodec V)

/-- The value of a slot, and the size of its blob. -/
def readValueBlob : HRead (V × Nat) := do
  let len ← readU32
  let bytes ← readRawBytes len
  let v ← StateT.lift (codec.deserializeValue bytes)
  pure (v, len)

def readOptionalValueBlob : HRead (Option V) := do
  let present ← readU8
  if present = 1 then do
    let (v, _) ← readValueBlob codec
    pure (some v)
  else pure none

def assertDone : HRead Unit := fun left =>
  if left.length ≠ 0 then
    .error (.payload (toString left.length ++ " trailing bytes after expected end of payload"))
  else .ok ((), left)

end HostReader

open HostReader

/-! ### The decoders of the host -/

inductive BridgeCallFailureReason where
  | blocked
  | error
  | dropped
  | unanswered
  deriving DecidableEq

structure BridgeCallEntry where
  name : String
  startMs : F64
  durationMs : F64
  argBytes : Nat
  responseBytes : Nat
  /-- `none` is `ok: true`. -/
  reason : Option BridgeCallFailureReason
  deriving DecidableEq

def outcomeReason (droppedCallIds : List Nat) (callId : Nat) (outcome : UInt8) :
    HRead (Option BridgeCallFailureReason) :=
  match outcome.toNat with
  | 0 => pure none
  | 1 => pure (some .blocked)
  | 2 => pure (some .error)
  | 3 => pure (some (if callId ∈ droppedCallIds then .dropped else .unanswered))
  | n => invalid ("unknown bridge call outcome byte: " ++ toString n)

def readBridgeCallRecord (droppedCallIds : List Nat) : HRead BridgeCallEntry := do
  let name ← HostReader.readString
  let startMs ← readF64
  let durationMs ← readF64
  let argBytes ← HostReader.readU32
  let responseBytes ← HostReader.readU32
  let callId ← HostReader.readU32
  let outcome ← HostReader.readU8
  let reason ← outcomeReason droppedCallIds callId outcome
  pure ⟨name, startMs, durationMs, argBytes, responseBytes, reason⟩

def readBridgeCallRecords (droppedCallIds : List Nat) : HRead (List BridgeCallEntry) := do
  let count ← HostReader.readU32
  Reader.times (readBridgeCallRecord droppedCallIds) count

/-- The `causes` table. -/
def resetCauses : List ResetCause := [.cpu, .memory, .abort, .internal, .wall, .unsupported]

def readResetInfo : HRead (Option (ResetCause × Nat)) := do
  let present ← HostReader.readU8
  if present = 0 then pure none
  else if present ≠ 1 then
    HostReader.invalid ("invalid reset-info presence byte: " ++ toString present.toNat)
  else do
    let causeByte ← HostReader.readU8
    match resetCauses[causeByte.toNat]? with
    | none => HostReader.invalid ("invalid instance-reset cause byte: " ++ toString causeByte.toNat)
    | some resetCause => do
      let culpritRunId ← HostReader.readU32
      pure (some (resetCause, culpritRunId))

/-- Whether the failure is of the prefix stage. -/
def readPrefixStage : HRead Bool := do
  let byte ← HostReader.readU8
  if byte = 0 then pure false
  else if byte ≠ 1 then HostReader.invalid ("invalid prefix-stage byte: " ++ toString byte.toNat)
  else pure true

/-- Code, name, message and stack of an error. -/
structure ErrorText where
  code : String
  name : String
  message : String
  stack : Option String
  deriving DecidableEq

def readErrorText : HRead ErrorText := do
  let code ← HostReader.readString
  let name ← HostReader.readString
  let message ← HostReader.readString
  let stackPresent ← HostReader.readU8
  if stackPresent = 1 then do
    let stack ← HostReader.readString
    pure ⟨code, name, message, some stack⟩
  else pure ⟨code, name, message, none⟩

def readErrorCause : HRead (Option ErrorText) := do
  let present ← HostReader.readU8
  if present = 0 then pure none
  else if present ≠ 1 then
    HostReader.invalid ("invalid error-cause presence byte: " ++ toString present.toNat)
  else do
    let cause ← readErrorText
    pure (some cause)

/-- An error as the caller sees it. -/
structure DecodedError (V : Type) extends ErrorText where
  fields : Option V
  reset : Option (ResetCause × Nat)
  prefixStage : Bool

/-- What the value slot of a completed run holds. -/
inductive RunValue (V : Type) where
  /-- The return value of a call. -/
  | value (v : V)
  | exports (v : V) (skippedExports : List String)

structure DecodedTelemetry where
  stdout : List String
  stderr : List String
  durationMs : F64
  wallTimeMs : F64
  cpuTimeMs : F64
  bridgeCalls : List BridgeCallEntry

/-- The result of a run or a call, with the cause of a refusal. -/
inductive RunResult (V : Type) where
  | completed (value : RunValue V) (telemetry : DecodedTelemetry) (heapUsedBytes : Option Nat)
  | failed (error : DecodedError V) (prefixCause : Option ErrorText) (telemetry : DecodedTelemetry)
      (heapUsedBytes : Option Nat)

structure DecodedRunCompletion (V : Type) where
  runId : Nat
  slotAllowance : Nat
  backgroundFlags : Nat
  result : RunResult V

/-- The field after the run id and the allowance, and what the run carried. -/
inductive ResultKind where
  | exports
  | call
  deriving DecidableEq

variable {V : Type} (codec : ValueCodec V)

def exportsBlobToExports (v : V) : Except DecodeError V :=
  match codec.kind v with
  | .object => .ok v
  | .array => .error (.payload "exports must decode to an object, got: array")
  | .null => .error (.payload "exports must decode to an object, got: object")
  | .other typeOf => .error (.payload ("exports must decode to an object, got: " ++ typeOf))

def runValue (kind : ResultKind) (v : V) (skippedExports : List String) :
    Except DecodeError (RunValue V) :=
  match kind with
  | .call => .ok (.value v)
  | .exports => (fun exports => .exports exports skippedExports) <$> exportsBlobToExports codec v

/-- The fields after `ok = true`. -/
def readSuccess (kind : ResultKind) (droppedCallIds : List Nat) (runId slotAllowance : Nat) :
    HRead (DecodedRunCompletion V) := do
  let successPresent ← HostReader.readU8
  if successPresent ≠ 1 then
    HostReader.invalid "expected success present byte = 1 when ok = true"
  else do
    let (valueRaw, _) ← HostReader.readValueBlob codec
    let skippedExports ← readStringList
    let stdout ← readStringList
    let stderr ← readStringList
    let durationMs ← readF64
    let wallTimeMs ← readF64
    let cpuTimeMs ← readF64
    let bridgeCalls ← readBridgeCallRecords droppedCallIds
    let heapUsedBytes ← readOptionalU64
    let backgroundFlags ← HostReader.readU8
    let _ ← HostReader.readU8
    HostReader.assertDone
    let value ← StateT.lift (runValue codec kind valueRaw skippedExports)
    pure ⟨runId, slotAllowance, backgroundFlags.toNat,
      .completed value ⟨stdout, stderr, durationMs, wallTimeMs, cpuTimeMs, bridgeCalls⟩ heapUsedBytes⟩

/-- The fields after `ok = false`. -/
def readFailure (droppedCallIds : List Nat) (runId slotAllowance : Nat) :
    HRead (DecodedRunCompletion V) := do
  let _ ← HostReader.readU8
  let failurePresent ← HostReader.readU8
  if failurePresent ≠ 1 then
    HostReader.invalid "expected failure present byte = 1 when ok = false"
  else do
    let text ← readErrorText
    let fields ← readOptionalValueBlob codec
    let reset ← readResetInfo
    let prefixStage ← readPrefixStage
    let prefixCause ← readErrorCause
    let stdout ← readStringList
    let stderr ← readStringList
    let durationMs ← readF64
    let wallTimeMs ← readF64
    let cpuTimeMs ← readF64
    let bridgeCalls ← readBridgeCallRecords droppedCallIds
    let heapUsedBytes ← readOptionalU64
    HostReader.assertDone
    pure ⟨runId, slotAllowance, 0, .failed ⟨text, fields, reset, prefixStage⟩ prefixCause
      ⟨stdout, stderr, durationMs, wallTimeMs, cpuTimeMs, bridgeCalls⟩ heapUsedBytes⟩

def readRunCompletion (kind : ResultKind) (droppedCallIds : List Nat) :
    HRead (DecodedRunCompletion V) := do
  let runId ← HostReader.readU32
  let slotAllowance ← HostReader.readU32
  let ok ← HostReader.readBool
  if ok then readSuccess codec kind droppedCallIds runId slotAllowance
  else readFailure codec droppedCallIds runId slotAllowance

def decodeRunCompletionPayload (buf : Blob) (kind : ResultKind) (droppedCallIds : List Nat) :
    Except DecodeError (DecodedRunCompletion V) :=
  (readRunCompletion codec kind droppedCallIds).run buf

structure DecodedRunComplete extends DecodedTelemetry where
  runId : Nat
  status : GraceStatus
  error : Option (String × String)

/-- The statuses by their bytes. -/
def graceStatuses : List GraceStatus := [.settled, .truncated, .failed]

/-- Name and message behind a presence byte; anything but 1 is absence. -/
def readGraceError : HRead (Option (String × String)) := do
  let errorPresent ← HostReader.readU8
  if errorPresent = 1 then do
    let name ← HostReader.readString
    let message ← HostReader.readString
    pure (some (name, message))
  else pure none

def readRunComplete (droppedCallIds : List Nat) : HRead DecodedRunComplete := do
  let runId ← HostReader.readU32
  let statusByte ← HostReader.readU8
  match graceStatuses[statusByte.toNat]? with
  | none => HostReader.invalid ("unknown RunComplete status byte: " ++ toString statusByte.toNat)
  | some status => do
    let durationMs ← readF64
    let wallTimeMs ← readF64
    let cpuTimeMs ← readF64
    let stdout ← readStringList
    let stderr ← readStringList
    let bridgeCalls ← readBridgeCallRecords droppedCallIds
    let error ← readGraceError
    HostReader.assertDone
    pure ⟨⟨stdout, stderr, durationMs, wallTimeMs, cpuTimeMs, bridgeCalls⟩, runId, status, error⟩

def decodeRunCompletePayload (buf : Blob) (droppedCallIds : List Nat) :
    Except DecodeError DecodedRunComplete :=
  (readRunComplete droppedCallIds).run buf

inductive PrecompileResult where
  | ok (requestId : Nat) (prefixId : String)
  | failed (requestId : Nat) (error : ErrorText)
  deriving DecidableEq

def PrecompileResult.requestId : PrecompileResult → Nat
  | .ok requestId _ => requestId
  | .failed requestId _ => requestId

/-- The fields, the reset, the stage and the cause of an error are read and
dropped. -/
def readPrecompileFailure (requestId : Nat) : HRead PrecompileResult := do
  let _ ← HostReader.readU8
  let errorPresent ← HostReader.readU8
  if errorPresent ≠ 1 then
    HostReader.invalid "expected error present byte = 1 when ok = false"
  else do
    let text ← readErrorText
    let _ ← readOptionalValueBlob codec
    let _ ← readResetInfo
    let _ ← readPrefixStage
    let _ ← readErrorCause
    HostReader.assertDone
    pure (.failed requestId text)

def readPrecompileSuccess (requestId : Nat) : HRead PrecompileResult := do
  let prefixIdPresent ← HostReader.readU8
  if prefixIdPresent ≠ 1 then
    HostReader.invalid "expected prefixId present byte = 1 when ok = true"
  else do
    let prefixId ← HostReader.readString
    let _ ← HostReader.readU8
    HostReader.assertDone
    pure (.ok requestId prefixId)

def readPrecompileResult : HRead PrecompileResult := do
  let requestId ← HostReader.readU32
  let ok ← HostReader.readBool
  if ok then readPrecompileSuccess requestId else readPrecompileFailure codec requestId

def decodePrecompileResultPayload (buf : Blob) : Except DecodeError PrecompileResult :=
  (readPrecompileResult codec).run buf

structure RuntimeStatsPayload where
  oneoffRunning : Nat
  warmBusy : Nat
  warmRuns : Nat
  warmIdle : Nat
  idleHeapBytes : Nat
  warmBudgetBytes : Nat
  rssBytes : Nat
  usageBytes : Nat
  hardLineBytes : Nat
  underPressure : Bool
  prefixes : List (String × Nat × Nat)
  deriving DecidableEq

def readPrefixStats : HRead (String × Nat × Nat) := do
  let prefixId ← HostReader.readString
  let idle ← HostReader.readU32
  let busy ← HostReader.readU32
  pure (prefixId, idle, busy)

def readStats : HRead RuntimeStatsPayload := do
  let oneoffRunning ← HostReader.readU32
  let warmBusy ← HostReader.readU32
  let warmRuns ← HostReader.readU32
  let warmIdle ← HostReader.readU32
  let idleHeapBytes ← readU64
  let warmBudgetBytes ← readU64
  let rssBytes ← readU64
  let usageBytes ← readU64
  let hardLineBytes ← readU64
  let underPressure ← HostReader.readBool
  let prefixCount ← HostReader.readU32
  let prefixes ← Reader.times readPrefixStats prefixCount
  HostReader.assertDone
  pure ⟨oneoffRunning, warmBusy, warmRuns, warmIdle, idleHeapBytes, warmBudgetBytes, rssBytes,
    usageBytes, hardLineBytes, underPressure, prefixes⟩

def decodeStatsPayload (buf : Blob) : Except DecodeError RuntimeStatsPayload := readStats.run buf

/-- What a bridge call targets: a global, or an import by its key. -/
inductive DecodedTarget where
  | global (exportName : String)
  | importKey (key : Blob)
  deriving DecidableEq

structure BridgeCallInfo (V : Type) where
  runId : Nat
  callId : Nat
  target : DecodedTarget
  args : V

/-- The arguments decode to an array without holes. -/
def checkArgs (args : V) (blobBytes : Nat) : Except DecodeError V :=
  match codec.kind args with
  | .array =>
    if codec.dense args blobBytes then .ok args
    else .error (.payload "bridge call argument contains an array with holes")
  | .null => .error (.payload "BridgeCall args must decode to an array, got null")
  | .object => .error (.payload "BridgeCall args must decode to an array, got object")
  | .other typeOf => .error (.payload ("BridgeCall args must decode to an array, got " ++ typeOf))

def readTarget (targetKind : UInt8) : HRead DecodedTarget := do
  let specifierPresent ← HostReader.readU8
  if decide (specifierPresent = 1) ≠ decide (targetKind = 1) then
    HostReader.invalid "BridgeCall specifier must be present exactly for an import target"
  else if targetKind = 0 then do
    let exportName ← HostReader.readString
    pure (.global exportName)
  else do
    let key ← readImportKey
    pure (.importKey key)

/-- Bytes after the arguments are not looked at. -/
def readBridgeCall : HRead (BridgeCallInfo V) := do
  let runId ← HostReader.readU32
  let callId ← HostReader.readU32
  let targetKind ← HostReader.readU8
  if targetKind ≠ 0 ∧ targetKind ≠ 1 then
    Reader.fail (.error ("invalid bridge targetKind: " ++ toString targetKind.toNat))
  else do
    let target ← readTarget targetKind
    let (decoded, blobBytes) ← HostReader.readValueBlob codec
    let args ← StateT.lift (checkArgs codec decoded blobBytes)
    pure ⟨runId, callId, target, args⟩

def decodeBridgeCallPayload (buf : Blob) : Except DecodeError (BridgeCallInfo V) :=
  (readBridgeCall codec).run buf

/-- The handler-map key of an import leaf. -/
def encodeImportKey (specifier : String) (path : List String) : Written :=
  PayloadWriter.writeString specifier ++ (writeU32 path.length ++
    Written.concat (path.map PayloadWriter.writeString))

/-- Specifier and path of a key; what follows them is not looked at. -/
def decodeImportKey (key : Blob) : Except DecodeError (String × List String) :=
  Reader.run (do
    let specifier ← HostReader.readString
    let path ← readStringList
    pure (specifier, path)) key

/-! ### The peeks of the router -/

/-- The big-endian `u32` at `offset`. -/
def peekU32 (offset : Nat) (buf : Blob) : Option Nat :=
  match buf.drop offset with
  | a :: b :: c :: d :: _ => some (ofU32be a b c d)
  | _ => none

def peekRunCompletionRunId (buf : Blob) : Option Nat := peekU32 0 buf

def peekRunCompletionSlotAllowance (buf : Blob) : Nat := (peekU32 4 buf).getD 0

/-- The second byte from the end of a success. -/
def peekRunCompletionBackgroundFlags (buf : Blob) : Nat :=
  if buf.length < 11 then 0
  else if buf[8]? = some 1 then (buf.getD (buf.length - 2) 0).toNat else 0

def peekBridgeCallId (buf : Blob) : Option Nat := peekU32 4 buf

def peekBridgeCallRunId (buf : Blob) : Option Nat := peekU32 0 buf

def peekPrecompileResultRequestId (buf : Blob) : Option Nat := peekU32 0 buf

end Ipc

end Iso4
