/-
The payloads of the host-to-runtime frames, as both sides have them: the encoders
of `packages/iso4-sandbox/src/ipc.ts` and the parsers of `crates/server/src/ipc.rs`
and `crates/server/src/wire.rs`.

Value blobs are opaque bytes on both sides.  A text is a well-formed string; its
wire form is a length and its UTF-8 bytes.

* `PayloadWriter` — the client's writer;
* `PayloadReader` — the runtime's reader;
* `HostMessage.encode`, `parsePayload` — the ten payloads.
-/
import Iso4.Lib.Wire
import Iso4.Run
import Mathlib.Data.Nat.Sqrt

namespace Iso4

open Wire

namespace Ipc

/-! ### What the payloads carry -/

abbrev Blob := List UInt8

/-- A node of a host-module shape. -/
inductive HostModuleNode where
  | function
  | data (blob : Blob)
  | object (entries : List (String × HostModuleNode))

inductive ImportModule where
  | source (text : String)
  | host (exports : List (String × HostModuleNode))

structure ImportBinding where
  specifier : String
  module : ImportModule

structure ImportRebind where
  specifier : String
  path : List String

structure CallSpec where
  exportPath : String
  argsBlob : Blob

/-- The limits the caller set. -/
structure WireResourceLimits where
  memoryMb : Option Nat := none
  cpuTimeMs : Option Nat := none
  wallTimeMs : Option Nat := none
  maxExportBytes : Option Nat := none
  maxStdoutBytes : Option Nat := none
  maxStderrBytes : Option Nat := none
  maxBridgeCallBytes : Option Nat := none
  maxBridgeCalls : Option Nat := none
  graceMs : Option Nat := none
  hardMemoryMb : Option Nat := none

/-- The limits the runtime enforces. -/
structure ResourceLimits where
  softMemoryMb : Nat
  hardMemoryMb : Nat
  cpuTimeMs : Nat
  wallTimeMs : Nat
  maxExportBytes : Nat
  maxStdoutBytes : Nat
  maxStderrBytes : Nat
  maxBridgeCallBytes : Nat
  maxBridgeCalls : Nat
  graceMs : Nat
  deriving DecidableEq

/-- What follows the name of a global on the wire. -/
inductive GlobalKind where
  | bridge
  | string (expr : String)
  | data (blob : Blob)
  | shim (shim handlerName : String)

/-- `GlobalDefPayload`: `enumerable` may be left out. -/
structure GlobalDefPayload where
  name : String
  kind : GlobalKind
  enumerable : Option Bool

/-- `HostGlobalDef`. -/
structure HostGlobalDef where
  name : String
  kind : GlobalKind
  enumerable : Bool

structure RunPayloadOptions where
  runId : Nat
  code : String
  filename : Option String
  limits : Option WireResourceLimits
  globals : Option (List GlobalDefPayload)
  imports : Option (List ImportBinding)
  call : Option CallSpec

structure RunRequest where
  runId : Nat
  code : String
  filename : Option String
  limits : ResourceLimits
  globals : List HostGlobalDef
  imports : List ImportBinding
  call : Option CallSpec

structure PrecompilePayloadOptions where
  requestId : Nat
  code : String
  filename : Option String
  limits : Option WireResourceLimits
  globals : Option (List GlobalDefPayload)
  imports : Option (List ImportBinding)

structure PrecompilePayload where
  requestId : Nat
  code : String
  filename : Option String
  globals : List HostGlobalDef
  imports : List ImportBinding

structure PrefixRunPayloadOptions where
  runId : Nat
  prefixId : String
  limits : Option WireResourceLimits
  globals : Option (List GlobalDefPayload)
  importRebinds : Option (List ImportRebind)
  call : CallSpec

structure PrefixRunRequest where
  runId : Nat
  prefixId : String
  limits : ResourceLimits
  globals : List HostGlobalDef
  importRebinds : List ImportRebind
  call : CallSpec

/-- The rejection of a handler; `fields` are the serialized own properties. -/
structure BridgeErrorPayload where
  name : String
  message : String
  fields : Option Blob

inductive TerminateMode where
  | soft
  | hard
  deriving DecidableEq

/-! ### Host-module shapes on the host -/

/-- `MAX_HOST_MODULE_DEPTH`, on both sides. -/
def maxHostModuleDepth : Nat := 64

/-- A host-module value as `lowerNode` looks at it: a function, a plain object, or
anything else (its serialization).  Values are trees; a cyclic one is refused. -/
inductive HostValue where
  | undefined
  | function
  | data (blob : Blob)
  | object (entries : List (String × HostValue))

/-- The serialization of `undefined`. -/
def undefinedBlob : Blob := [0xff, 0x0f, 0x5f]

/-- Why `lowerNode` throws, and at which path. -/
inductive LowerError where
  | tooDeep (path : List String)
  deriving DecidableEq

/-- The function leaves registered on the way, by path. -/
abbrev Handlers := List (List String)

mutual

/-- `lowerNode`: the wire shape of a value at `path`. -/
def lowerNode : HostValue → List String → Except LowerError (HostModuleNode × Handlers)
  | value, path =>
    if maxHostModuleDepth < path.length then .error (.tooDeep path)
    else match value with
      | .function => .ok (.function, [path])
      | .object entries => do
        let (entries, handlers) ← lowerEntries entries path
        .ok (.object entries, handlers)
      | .data blob => .ok (.data blob, [])
      | .undefined => .ok (.data undefinedBlob, [])

/-- The entries of an object; undefined ones are skipped. -/
def lowerEntries :
    List (String × HostValue) → List String → Except LowerError (List (String × HostModuleNode) × Handlers)
  | [], _ => .ok ([], [])
  | (_, .undefined) :: rest, path => lowerEntries rest path
  | (key, child) :: rest, path => do
    let (node, handlers) ← lowerNode child (path ++ [key])
    let (rest, later) ← lowerEntries rest path
    .ok ((key, node) :: rest, handlers ++ later)

end

/-! ### The writer of the client -/

namespace PayloadWriter

def writeString (s : String) : Written := writeU32 (utf8 s).length ++ Written.bytes (utf8 s)

/-- `writeLengthPrefixedBytes`, and `writeValueBlob` of a serialized value. -/
def writeLengthPrefixedBytes (blob : Blob) : Written := writeU32 blob.length ++ Written.bytes blob

/-- An optional field: a presence byte, then the field. -/
def writeOptional {α : Type} (write : α → Written) : Option α → Written
  | none => writeU8 0
  | some a => writeU8 1 ++ write a

def writeOptionalString : Option String → Written := writeOptional writeString

def writeOptionalU32 : Option Nat → Written := writeOptional writeU32

def writeBool (b : Bool) : Written := writeU8 (if b then 1 else 0)

/-- A list: its length, then the entries. -/
def writeList {α : Type} (write : α → Written) (as : List α) : Written :=
  writeU32 as.length ++ Written.concat (as.map write)

/-- `GLOBAL_DEF_KIND`. -/
def globalDefKind : GlobalKind → Nat
  | .bridge => 0
  | .string _ => 1
  | .data _ => 2
  | .shim _ _ => 3

def writeGlobalTail : GlobalKind → Written
  | .bridge => Written.bytes []
  | .string expr => writeString expr
  | .data blob => writeLengthPrefixedBytes blob
  | .shim shim handlerName => writeString shim ++ writeString handlerName

def writeGlobalDef (d : GlobalDefPayload) : Written :=
  writeU8 (globalDefKind d.kind) ++ (writeString d.name ++
    (writeBool (d.enumerable.getD true) ++ writeGlobalTail d.kind))

def writeGlobalDefs : List GlobalDefPayload → Written := writeList writeGlobalDef

mutual

def writeHostModuleNode : HostModuleNode → Written
  | .function => writeU8 0
  | .data blob => writeU8 1 ++ writeLengthPrefixedBytes blob
  | .object entries => writeU8 2 ++ (writeU32 entries.length ++ writeEntries entries)

def writeEntries : List (String × HostModuleNode) → Written
  | [] => Written.bytes []
  | (key, child) :: rest => (writeString key ++ writeHostModuleNode child) ++ writeEntries rest

end

def writeImportModule : ImportModule → Written
  | .source text => writeU8 0 ++ writeString text
  | .host exports => writeU8 1 ++ (writeU32 exports.length ++ writeEntries exports)

def writeImport (b : ImportBinding) : Written := writeString b.specifier ++ writeImportModule b.module

def writeImports : List ImportBinding → Written := writeList writeImport

def writeImportRebind (r : ImportRebind) : Written :=
  writeString r.specifier ++ writeList writeString r.path

def writeImportRebinds : List ImportRebind → Written := writeList writeImportRebind

def writeCall (c : CallSpec) : Written :=
  writeString c.exportPath ++ writeLengthPrefixedBytes c.argsBlob

def writeOptionalCall : Option CallSpec → Written := writeOptional writeCall

def writeResourceLimits (l : WireResourceLimits) : Written :=
  writeOptionalU32 l.memoryMb ++ (writeOptionalU32 l.cpuTimeMs ++ (writeOptionalU32 l.wallTimeMs ++
    (writeOptionalU32 l.maxExportBytes ++ (writeOptionalU32 l.maxStdoutBytes ++
      (writeOptionalU32 l.maxStderrBytes ++ (writeOptionalU32 l.maxBridgeCallBytes ++
        (writeOptionalU32 l.maxBridgeCalls ++ (writeOptionalU32 l.graceMs ++
          writeOptionalU32 l.hardMemoryMb))))))))

end PayloadWriter

open PayloadWriter

def encodeRunPayload (o : RunPayloadOptions) : Written :=
  writeU32 o.runId ++ (writeString o.code ++ (writeOptionalString o.filename ++
    (writeResourceLimits (o.limits.getD {}) ++ (writeGlobalDefs (o.globals.getD []) ++
      (writeImports (o.imports.getD []) ++ writeOptionalCall o.call)))))

def encodePrecompilePayload (o : PrecompilePayloadOptions) : Written :=
  writeU32 o.requestId ++ (writeString o.code ++ (writeOptionalString o.filename ++
    (writeResourceLimits (o.limits.getD {}) ++ (writeGlobalDefs (o.globals.getD []) ++
      writeImports (o.imports.getD [])))))

def encodePrefixRunPayload (o : PrefixRunPayloadOptions) : Written :=
  writeU32 o.runId ++ (writeString o.prefixId ++ (writeResourceLimits (o.limits.getD {}) ++
    (writeGlobalDefs (o.globals.getD []) ++ (writeImportRebinds (o.importRebinds.getD []) ++
      writeCall o.call))))

def encodeDisposePrefixPayload (prefixId : String) : Written := writeString prefixId

def encodeTerminatePayload (runId : Nat) (hard : Bool) : Written :=
  writeU32 runId ++ writeU8 (if hard then 1 else 0)

/-- A blob that is empty is written as absent. -/
def writePresentBlob : Option Blob → Written
  | some (b :: bs) => writeU8 1 ++ writeLengthPrefixedBytes (b :: bs)
  | _ => writeU8 0

def encodeBridgeResponsePayload (runId callId : Nat)
    (answer : Except (Option BridgeErrorPayload) (Option Blob)) : Written :=
  writeU32 runId ++ (writeU32 callId ++ match answer with
    | .ok value => writeU8 1 ++ writePresentBlob value
    | .error error =>
      writeU8 0 ++ (writeString "ERR_HOST_BRIDGE" ++
        (writeString ((error.map (·.name)).getD "Error") ++
          (writeString ((error.map (·.message)).getD "host handler failed") ++
            -- The stack slot is always absent.
            (writeU8 0 ++ writePresentBlob (error.bind (·.fields)))))))

def encodeStreamChunkPayload (runId streamId : Nat) (data : Blob) : Written :=
  writeU32 runId ++ (writeU32 streamId ++ (writeU32 data.length ++ Written.bytes data))

def encodeStreamEndPayload (runId streamId : Nat) (error : Option String) : Written :=
  writeU32 runId ++ (writeU32 streamId ++ match error with
    | none => writeU8 1
    | some message => writeU8 0 ++ (writeU8 1 ++ writeString message))

def encodeStreamPullPayload (runId streamId credit : Nat) : Written :=
  writeU32 runId ++ (writeU32 streamId ++ writeU32 credit)

def encodeStreamCancelPayload (runId streamId : Nat) (reason : String) : Written :=
  writeU32 runId ++ (writeU32 streamId ++ writeString reason)

/-! ### The limits of the runtime -/

inductive BandPolicy where
  | managed
  | strict
  deriving DecidableEq

/-- `heap_band_mb`: the square root of `8 * cap`, rounded.  The product has at most
35 bits, so rounding the floating root rounds the exact one. -/
def heapBandMb (capMb : Nat) : Nat :=
  let root := Nat.sqrt (8 * capMb)
  if 8 * capMb ≤ root * root + root then root else root + 1

/-- The enforced lines, soft and hard. -/
def resolveHeapLines (capMb : Nat) (hardOverride : Option Nat) (band : BandPolicy) : Nat × Nat :=
  match hardOverride, band with
  | none, .strict => (0, capMb)
  | none, .managed => (capMb, min (capMb + heapBandMb capMb) (2 ^ 32 - 1))
  | some hard, band =>
    if hard = 0 then (0, 0)
    else match band with
      | .strict => (0, hard)
      | .managed => if hard ≤ capMb then (0, hard) else (capMb, hard)

/-- Absent limits are the defaults of the runtime. -/
def resolveLimits (l : WireResourceLimits) (band : BandPolicy) : ResourceLimits :=
  let lines := resolveHeapLines (l.memoryMb.getD 128) l.hardMemoryMb band
  { softMemoryMb := lines.1
    hardMemoryMb := lines.2
    cpuTimeMs := l.cpuTimeMs.getD 5000
    wallTimeMs := l.wallTimeMs.getD 30000
    maxExportBytes := l.maxExportBytes.getD (16 * 1024 * 1024)
    maxStdoutBytes := l.maxStdoutBytes.getD (1024 * 1024)
    maxStderrBytes := l.maxStderrBytes.getD (1024 * 1024)
    maxBridgeCallBytes := l.maxBridgeCallBytes.getD (16 * 1024 * 1024)
    maxBridgeCalls := l.maxBridgeCalls.getD 10
    graceMs := l.graceMs.getD 30000 }

/-! ### The reader of the runtime -/

inductive IoErrorKind where
  | unexpectedEof
  | invalidData
  deriving DecidableEq

structure IoError where
  kind : IoErrorKind
  message : String
  deriving DecidableEq

/-- `{b:#04x}`. -/
def hexByte (b : UInt8) : String :=
  "0x" ++ String.ofList [Nat.digitChar (b.toNat / 16), Nat.digitChar (b.toNat % 16)]

namespace PayloadReader

abbrev Read (α : Type) := Reader IoError α

def invalid {α : Type} (message : String) : Read α := Reader.fail ⟨.invalidData, message⟩

def readU8 : Read UInt8 := Reader.u8 ⟨.unexpectedEof, "payload too short reading u8"⟩

def readU32 : Read Nat := Reader.u32 ⟨.unexpectedEof, "payload too short reading u32"⟩

def readBool : Read Bool := do
  let b ← readU8
  match b.toNat with
  | 0 => pure false
  | 1 => pure true
  | _ => invalid ("invalid boolean byte: " ++ hexByte b)

/-- `read_list` and the loop over its entries. -/
def readList {α : Type} (what : String) (entry : Read α) : Read (List α) := do
  let count ← readU32
  let remaining ← Reader.remaining
  if remaining < count then
    invalid (what ++ " count " ++ toString count ++ " exceeds the " ++ toString remaining ++
      " bytes remaining in the payload")
  else Reader.times entry count

/-- A text behind its length; the two readers of the runtime differ in their
messages. -/
def readText (readLen : Read Nat) (short : IoError) (notUtf8 : String) : Read String := do
  let len ← readLen
  let bytes ← Reader.take short len
  match ofUtf8 bytes with
  | some s => pure s
  | none => invalid notUtf8

def readString : Read String :=
  readText readU32 ⟨.unexpectedEof, "payload too short reading string body"⟩
    "string payload is not valid UTF-8"

/-- Bytes behind their length. -/
def readBlob (readLen : Read Nat) (short : IoError) : Read Blob := do
  let len ← readLen
  Reader.take short len

def readValueBlob : Read Blob :=
  readBlob readU32 ⟨.unexpectedEof, "payload too short reading byte slice"⟩

def readOptional {α : Type} (read : Read α) : Read (Option α) := do
  let b ← readU8
  match b.toNat with
  | 0 => pure none
  | 1 => do
    let a ← read
    pure (some a)
  | _ => invalid ("invalid optional presence byte: " ++ hexByte b)

def readOptionalString : Read (Option String) := readOptional readString

def readOptionalU32 : Read (Option Nat) := readOptional readU32

def readResourceLimits (band : BandPolicy) : Read ResourceLimits := do
  let memoryMb ← readOptionalU32
  let cpuTimeMs ← readOptionalU32
  let wallTimeMs ← readOptionalU32
  let maxExportBytes ← readOptionalU32
  let maxStdoutBytes ← readOptionalU32
  let maxStderrBytes ← readOptionalU32
  let maxBridgeCallBytes ← readOptionalU32
  let maxBridgeCalls ← readOptionalU32
  let graceMs ← readOptionalU32
  let hardMemoryMb ← readOptionalU32
  pure (resolveLimits
    { memoryMb, cpuTimeMs, wallTimeMs, maxExportBytes, maxStdoutBytes, maxStderrBytes,
      maxBridgeCallBytes, maxBridgeCalls, graceMs, hardMemoryMb } band)

/-- The tail of a global after its kind byte, name and `enumerable`. -/
def readGlobalTail (kind : UInt8) : Read GlobalKind :=
  match kind.toNat with
  | 0 => pure .bridge
  | 1 => do
    let expr ← readString
    pure (.string expr)
  | 2 => do
    let blob ← readValueBlob
    pure (.data blob)
  | 3 => do
    let shim ← readString
    let handlerName ← readString
    pure (.shim shim handlerName)
  | _ => invalid ("unknown global def kind: " ++ hexByte kind)

def readGlobalDef : Read HostGlobalDef := do
  let kind ← readU8
  let name ← readString
  let enumerable ← readBool
  let tail ← readGlobalTail kind
  pure ⟨name, tail, enumerable⟩

def readGlobalDefs : Read (List HostGlobalDef) := readList "global def" readGlobalDef

def tooDeep : IoError :=
  ⟨.invalidData, "host-module shape nests deeper than " ++ toString maxHostModuleDepth ++ " levels"⟩

/-- `read_host_module_node` with `levels` levels left: at depth `d` that is
`MAX_HOST_MODULE_DEPTH + 1 - d`. -/
def readNode : Nat → Read HostModuleNode
  | 0 => Reader.fail tooDeep
  | levels + 1 => do
    let tag ← readU8
    match tag.toNat with
    | 0 => pure .function
    | 1 => do
      let blob ← readValueBlob
      pure (.data blob)
    | 2 => do
      let entries ← readList "host-module object entry" do
        let key ← readString
        let node ← readNode levels
        pure (key, node)
      pure (.object entries)
    | _ => invalid ("unknown host-module node tag: " ++ hexByte tag)

def readHostModuleNode (depth : Nat) : Read HostModuleNode := readNode (maxHostModuleDepth + 1 - depth)

def readImportBinding : Read ImportBinding := do
  let specifier ← readString
  let kind ← readU8
  match kind.toNat with
  | 0 => do
    let text ← readString
    pure ⟨specifier, .source text⟩
  | 1 => do
    let exports ← readList "host-module export" do
      let name ← readString
      let node ← readHostModuleNode 1
      pure (name, node)
    pure ⟨specifier, .host exports⟩
  | _ => invalid ("unknown import binding kind: " ++ hexByte kind)

def readImportBindings : Read (List ImportBinding) := readList "import binding" readImportBinding

def readImportRebind : Read ImportRebind := do
  let specifier ← readString
  let path ← readList "import rebind path segment" readString
  pure ⟨specifier, path⟩

def readImportRebinds : Read (List ImportRebind) := readList "import rebind" readImportRebind

def readCall : Read CallSpec := do
  let exportPath ← readString
  let argsBlob ← readValueBlob
  pure ⟨exportPath, argsBlob⟩

def readOptionalCall : Read (Option CallSpec) := readOptional readCall

def assertDone : Read Unit := do
  let remaining ← Reader.remaining
  if remaining ≠ 0 then invalid (toString remaining ++ " trailing bytes in payload") else pure ()

end PayloadReader

open PayloadReader

/-! ### The parsers of the runtime -/

def parseRunPayload : Read RunRequest := do
  let runId ← readU32
  let code ← readString
  let filename ← readOptionalString
  let limits ← readResourceLimits .strict
  let globals ← readGlobalDefs
  let imports ← readImportBindings
  let call ← readOptionalCall
  assertDone
  pure ⟨runId, code, filename, limits, globals, imports, call⟩

/-- The limits are read and dropped. -/
def parsePrecompilePayload : Read PrecompilePayload := do
  let requestId ← readU32
  let code ← readString
  let filename ← readOptionalString
  let _ ← readResourceLimits .managed
  let globals ← readGlobalDefs
  let imports ← readImportBindings
  assertDone
  pure ⟨requestId, code, filename, globals, imports⟩

def parsePrefixRunPayload : Read PrefixRunRequest := do
  let runId ← readU32
  let prefixId ← readString
  let limits ← readResourceLimits .managed
  let globals ← readGlobalDefs
  let importRebinds ← readImportRebinds
  let call ← readCall
  assertDone
  pure ⟨runId, prefixId, limits, globals, importRebinds, call⟩

def parseDisposePrefixPayload : Read String := do
  let id ← readString
  assertDone
  pure id

def parseTerminatePayload : Read (Nat × TerminateMode) := do
  let runId ← readU32
  let b ← readU8
  let mode ← match b.toNat with
    | 0 => pure .soft
    | 1 => pure .hard
    | _ => invalid ("unknown Terminate mode " ++ toString b.toNat)
  assertDone
  pure (runId, mode)

def streamChunkOverCap (len : Nat) : IoError :=
  ⟨.invalidData, "stream chunk of " ++ toString len ++ " bytes exceeds the " ++
    toString streamChunkMaxBytes ++ " cap"⟩

/-- Stream id and data; the run id routes the frame. -/
def parseStreamChunkPayload : Read (Nat × Blob) := fun payload =>
  match payload with
  | _ :: _ :: _ :: _ :: a :: b :: c :: d :: e :: f :: g :: h :: data =>
    let len := ofU32be e f g h
    if streamChunkMaxBytes < len then .error (streamChunkOverCap len)
    else if data.length ≠ len then .error ⟨.invalidData, "StreamChunk payload length mismatch"⟩
    else .ok ((ofU32be a b c d, data), [])
  | _ => .error ⟨.invalidData, "payload too short for StreamChunk"⟩

structure StreamEndPayload where
  streamId : Nat
  ok : Bool
  error : Option String

def parseStreamEndPayload : Read StreamEndPayload := do
  let _ ← readU32
  let streamId ← readU32
  let ok ← readBool
  let error ← if ok then pure none else readOptionalString
  assertDone
  pure ⟨streamId, ok, error⟩

def parseStreamPullPayload : Read (Nat × Nat) := do
  let _ ← readU32
  let streamId ← readU32
  let credit ← readU32
  assertDone
  pure (streamId, credit)

def parseStreamCancelPayload : Read (Nat × String) := do
  let _ ← readU32
  let streamId ← readU32
  let reason ← readString
  assertDone
  pure (streamId, reason)

/-! The reader of `wire.rs`, which has messages of its own. -/

namespace WireReader

def endOfData : IoError := ⟨.unexpectedEof, "unexpected end of payload data"⟩

def readU8 : Read UInt8 := Reader.u8 endOfData

def readU32 : Read Nat := Reader.u32 endOfData

def readString : Read String := readText readU32 endOfData "payload string is not valid UTF-8"

def readValueBlob : Read Blob := readBlob readU32 endOfData

/-- A blob behind a presence byte; anything but 1 is absence. -/
def readPresentBlob : Read (Option Blob) := do
  let present ← readU8
  if present.toNat = 1 then do
    let blob ← readValueBlob
    pure (some blob)
  else pure none

/-- The stack slot of an error, read and dropped. -/
def skipStack : Read Unit := do
  let stackPresent ← readU8
  if stackPresent.toNat = 1 then do
    let _ ← readString
    pure ()
  else pure ()

end WireReader

/-- Run id, call id and answer. -/
def parseBridgeResponsePayload : Read (Nat × Nat × Except BridgeErrorPayload (Option Blob)) := do
  let runId ← WireReader.readU32
  let callId ← WireReader.readU32
  let okByte ← WireReader.readU8
  match okByte.toNat with
  | 1 => do
    let value ← WireReader.readPresentBlob
    pure (runId, callId, .ok value)
  | 0 => do
    let _ ← WireReader.readString
    let name ← WireReader.readString
    let message ← WireReader.readString
    WireReader.skipStack
    let fields ← WireReader.readPresentBlob
    pure (runId, callId, .error ⟨name, message, fields⟩)
  | _ => invalid ("invalid BridgeResponse ok byte: " ++ hexByte okByte)

/-! ### The ten payloads -/

/-- What the client encodes. -/
inductive HostMessage where
  | run (o : RunPayloadOptions)
  | precompile (o : PrecompilePayloadOptions)
  | prefixRun (o : PrefixRunPayloadOptions)
  | disposePrefix (prefixId : String)
  | terminate (runId : Nat) (hard : Bool)
  | bridgeResponse (runId callId : Nat) (answer : Except (Option BridgeErrorPayload) (Option Blob))
  | streamChunk (runId streamId : Nat) (data : Blob)
  | streamEnd (runId streamId : Nat) (error : Option String)
  | streamPull (runId streamId credit : Nat)
  | streamCancel (runId streamId : Nat) (reason : String)

/-- What the runtime parses. -/
inductive ParsedMessage where
  | run (r : RunRequest)
  | precompile (p : PrecompilePayload)
  | prefixRun (r : PrefixRunRequest)
  | disposePrefix (prefixId : String)
  | terminate (runId : Nat) (mode : TerminateMode)
  | bridgeResponse (runId callId : Nat) (answer : Except BridgeErrorPayload (Option Blob))
  | streamChunk (streamId : Nat) (data : Blob)
  | streamEnd (p : StreamEndPayload)
  | streamPull (streamId credit : Nat)
  | streamCancel (streamId : Nat) (reason : String)

/-- The type byte of a frame, as far as it selects a payload. -/
inductive MessageType where
  | run | precompile | prefixRun | disposePrefix | terminate | bridgeResponse
  | streamChunk | streamEnd | streamPull | streamCancel
  deriving DecidableEq

namespace HostMessage

def type : HostMessage → MessageType
  | .run _ => .run
  | .precompile _ => .precompile
  | .prefixRun _ => .prefixRun
  | .disposePrefix _ => .disposePrefix
  | .terminate _ _ => .terminate
  | .bridgeResponse _ _ _ => .bridgeResponse
  | .streamChunk _ _ _ => .streamChunk
  | .streamEnd _ _ _ => .streamEnd
  | .streamPull _ _ _ => .streamPull
  | .streamCancel _ _ _ => .streamCancel

def encode : HostMessage → Written
  | .run o => encodeRunPayload o
  | .precompile o => encodePrecompilePayload o
  | .prefixRun o => encodePrefixRunPayload o
  | .disposePrefix prefixId => encodeDisposePrefixPayload prefixId
  | .terminate runId hard => encodeTerminatePayload runId hard
  | .bridgeResponse runId callId answer => encodeBridgeResponsePayload runId callId answer
  | .streamChunk runId streamId data => encodeStreamChunkPayload runId streamId data
  | .streamEnd runId streamId error => encodeStreamEndPayload runId streamId error
  | .streamPull runId streamId credit => encodeStreamPullPayload runId streamId credit
  | .streamCancel runId streamId reason => encodeStreamCancelPayload runId streamId reason

end HostMessage

/-- The parser of a payload type. -/
def readPayload : MessageType → Read ParsedMessage
  | .run => .run <$> parseRunPayload
  | .precompile => .precompile <$> parsePrecompilePayload
  | .prefixRun => .prefixRun <$> parsePrefixRunPayload
  | .disposePrefix => .disposePrefix <$> parseDisposePrefixPayload
  | .terminate => (fun p => .terminate p.1 p.2) <$> parseTerminatePayload
  | .bridgeResponse => (fun p => .bridgeResponse p.1 p.2.1 p.2.2) <$> parseBridgeResponsePayload
  | .streamChunk => (fun p => .streamChunk p.1 p.2) <$> parseStreamChunkPayload
  | .streamEnd => .streamEnd <$> parseStreamEndPayload
  | .streamPull => (fun p => .streamPull p.1 p.2) <$> parseStreamPullPayload
  | .streamCancel => (fun p => .streamCancel p.1 p.2) <$> parseStreamCancelPayload

def parsePayload (type : MessageType) (payload : List UInt8) : Except IoError ParsedMessage :=
  (readPayload type).run payload

end Ipc

end Iso4
