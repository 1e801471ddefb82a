/-
The parsers of the runtime as they index the payload: the two cursors
(`PayloadReader` of `crates/server/src/ipc.rs`, the offset functions of
`crates/server/src/wire.rs`) and the two parsers that index by hand.

A slice access outside the payload and an offset that overflows end the process,
so every such step is a fault here.

* `IndexedPayload.parse` — the parser of a payload type, by index;
* `parse_tracks` — no parser faults, and each does what its reader does.
-/
import Iso4.Lib.Cursor
import Iso4.Payloads

namespace Iso4

open Wire

namespace Ipc

abbrev Indexed (α : Type) := Cursor IoError α

/-! ### The cursor of `ipc.rs` -/

namespace PayloadCursor

def invalid {α : Type} (message : String) : Indexed α := Cursor.fail ⟨.invalidData, message⟩

def remaining : Indexed Nat := fun data offset => do
  let left ← BorrowedBytes.sub data.bytes.length offset
  .ok (left, offset)

def readU8 : Indexed UInt8 := fun data offset => do
  let left ← BorrowedBytes.sub data.bytes.length offset
  if left < 1 then .error (.error ⟨.unexpectedEof, "payload too short reading u8"⟩)
  else do
    let b ← data.index offset
    let next ← BorrowedBytes.add offset 1
    .ok (b, next)

def readU32 : Indexed Nat := fun data offset => do
  let left ← BorrowedBytes.sub data.bytes.length offset
  if left < 4 then .error (.error ⟨.unexpectedEof, "payload too short reading u32"⟩)
  else do
    let next ← BorrowedBytes.add offset 4
    let bytes ← data.range offset next
    let n ← BorrowedBytes.fromBeBytes bytes
    .ok (n, next)

/-- `&self.data[self.offset..self.offset + len]` behind its bounds check, and
`self.offset += len`. -/
def readSlice (short : String) (len : Nat) : Indexed Blob := fun data offset => do
  let left ← BorrowedBytes.sub data.bytes.length offset
  if left < len then .error (.error ⟨.unexpectedEof, short⟩)
  else do
    let next ← BorrowedBytes.add offset len
    let bytes ← data.range offset next
    .ok (bytes, next)

def readBytes (len : Nat) : Indexed Blob := readSlice "payload too short reading byte slice" len

def readString : Indexed String := do
  let len ← readU32
  let bytes ← readSlice "payload too short reading string body" len
  match ofUtf8 bytes with
  | some s => pure s
  | none => invalid "string payload is not valid UTF-8"

def readBool : Indexed Bool := do
  let b ← readU8
  match b.toNat with
  | 0 => pure false
  | 1 => pure true
  | _ => invalid ("invalid boolean byte: " ++ hexByte b)

def readList {α : Type} (what : String) (entry : Indexed α) : Indexed (List α) := do
  let count ← readU32
  let left ← remaining
  if left < count then
    invalid (what ++ " count " ++ toString count ++ " exceeds the " ++ toString left ++
      " bytes remaining in the payload")
  else Cursor.times entry count

def readOptional {α : Type} (read : Indexed α) : Indexed (Option α) := do
  let b ← readU8
  match b.toNat with
  | 0 => pure none
  | 1 => do
    let a ← read
    pure (some a)
  | _ => invalid ("invalid optional presence byte: " ++ hexByte b)

def readOptionalString : Indexed (Option String) := readOptional readString

def readOptionalU32 : Indexed (Option Nat) := readOptional readU32

def readResourceLimits (band : BandPolicy) : Indexed ResourceLimits := do
  let memoryMb ← readOptionalU32
  let cpuTimeMs ← readOptionalU32
  let wallTimeMs ← readOptionalU32
  let maxExportBytes ← readOptionalU32
  let maxStdoutBytes ← readOptionalU32
  let maxStderrBytes ← readOptionalU32
  let maxBridgeCallBytes ← readOptionalU32
  let maxBridgeCalls ← readOptionalU32
  let graceMs ← readOptionalU32
  let hardMemoryMb ← readOptionalU32
  pure (resolveLimits
    { memoryMb, cpuTimeMs, wallTimeMs, maxExportBytes, maxStdoutBytes, maxStderrBytes,
      maxBridgeCallBytes, maxBridgeCalls, graceMs, hardMemoryMb } band)

def readValueBlob : Indexed Blob := do
  let len ← readU32
  readBytes len

def readGlobalTail (kind : UInt8) : Indexed GlobalKind :=
  match kind.toNat with
  | 0 => pure .bridge
  | 1 => do
    let expr ← readString
    pure (.string expr)
  | 2 => do
    let blob ← readValueBlob
    pure (.data blob)
  | 3 => do
    let shim ← readString
    let handlerName ← readString
    pure (.shim shim handlerName)
  | _ => invalid ("unknown global def kind: " ++ hexByte kind)

def readGlobalDef : Indexed HostGlobalDef := do
  let kind ← readU8
  let name ← readString
  let enumerable ← readBool
  let tail ← readGlobalTail kind
  pure ⟨name, tail, enumerable⟩

def readGlobalDefs : Indexed (List HostGlobalDef) := readList "global def" readGlobalDef

/-- `read_host_module_node` with `levels` levels left. -/
def readNode : Nat → Indexed HostModuleNode
  | 0 => Cursor.fail PayloadReader.tooDeep
  | levels + 1 => do
    let tag ← readU8
    match tag.toNat with
    | 0 => pure .function
    | 1 => do
      let blob ← readValueBlob
      pure (.data blob)
    | 2 => do
      let entries ← readList "host-module object entry" do
        let key ← readString
        let node ← readNode levels
        pure (key, node)
      pure (.object entries)
    | _ => invalid ("unknown host-module node tag: " ++ hexByte tag)

def readHostModuleNode (depth : Nat) : Indexed HostModuleNode := readNode (maxHostModuleDepth + 1 - depth)

def readImportBinding : Indexed ImportBinding := do
  let specifier ← readString
  let kind ← readU8
  match kind.toNat with
  | 0 => do
    let text ← readString
    pure ⟨specifier, .source text⟩
  | 1 => do
    let exports ← readList "host-module export" do
      let name ← readString
      let node ← readHostModuleNode 1
      pure (name, node)
    pure ⟨specifier, .host exports⟩
  | _ => invalid ("unknown import binding kind: " ++ hexByte kind)

def readImportBindings : Indexed (List ImportBinding) := readList "import binding" readImportBinding

def readImportRebind : Indexed ImportRebind := do
  let specifier ← readString
  let path ← readList "import rebind path segment" readString
  pure ⟨specifier, path⟩

def readImportRebinds : Indexed (List ImportRebind) := readList "import rebind" readImportRebind

def readCall : Indexed CallSpec := do
  let exportPath ← readString
  let argsBlob ← readValueBlob
  pure ⟨exportPath, argsBlob⟩

def readOptionalCall : Indexed (Option CallSpec) := readOptional readCall

def assertDone : Indexed Unit := do
  let left ← remaining
  if left ≠ 0 then invalid (toString left ++ " trailing bytes in payload") else pure ()

end PayloadCursor

/-! ### The offset functions of `wire.rs` -/

namespace WireCursor

def readU8 : Indexed UInt8 := fun data offset => do
  if data.bytes.length ≤ offset then .error (.error WireReader.endOfData)
  else do
    let b ← data.index offset
    let next ← BorrowedBytes.add offset 1
    .ok (b, next)

def readU32 : Indexed Nat := fun data offset => do
  let next ← BorrowedBytes.add offset 4
  if data.bytes.length < next then .error (.error WireReader.endOfData)
  else do
    let bytes ← data.range offset next
    let n ← BorrowedBytes.fromBeBytes bytes
    .ok (n, next)

/-- The sum is checked: an overflow is an error as well. -/
def readRawBytes (len : Nat) : Indexed Blob := fun data offset => do
  if 2 ^ 64 ≤ offset + len ∨ data.bytes.length < offset + len then .error (.error WireReader.endOfData)
  else do
    let bytes ← data.range offset (offset + len)
    .ok (bytes, offset + len)

def readString : Indexed String := do
  let len ← readU32
  let bytes ← readRawBytes len
  match ofUtf8 bytes with
  | some s => pure s
  | none => PayloadCursor.invalid "payload string is not valid UTF-8"

def readValueBlob : Indexed Blob := do
  let len ← readU32
  readRawBytes len

def readPresentBlob : Indexed (Option Blob) := do
  let present ← readU8
  if present.toNat = 1 then do
    let blob ← readValueBlob
    pure (some blob)
  else pure none

def skipStack : Indexed Unit := do
  let stackPresent ← readU8
  if stackPresent.toNat = 1 then do
    let _ ← readString
    pure ()
  else pure ()

end WireCursor

/-! ### The parsers, by index -/

namespace IndexedPayload

open PayloadCursor

def parseRunPayload : Indexed RunRequest := do
  let runId ← readU32
  let code ← readString
  let filename ← readOptionalString
  let limits ← readResourceLimits .strict
  let globals ← readGlobalDefs
  let imports ← readImportBindings
  let call ← readOptionalCall
  assertDone
  pure ⟨runId, code, filename, limits, globals, imports, call⟩

def parsePrecompilePayload : Indexed PrecompilePayload := do
  let requestId ← readU32
  let code ← readString
  let filename ← readOptionalString
  let _ ← readResourceLimits .managed
  let globals ← readGlobalDefs
  let imports ← readImportBindings
  assertDone
  pure ⟨requestId, code, filename, globals, imports⟩

def parsePrefixRunPayload : Indexed PrefixRunRequest := do
  let runId ← readU32
  let prefixId ← readString
  let limits ← readResourceLimits .managed
  let globals ← readGlobalDefs
  let importRebinds ← readImportRebinds
  let call ← readCall
  assertDone
  pure ⟨runId, prefixId, limits, globals, importRebinds, call⟩

def parseDisposePrefixPayload : Indexed String := do
  let id ← readString
  assertDone
  pure id

def parseTerminatePayload : Indexed (Nat × TerminateMode) := do
  let runId ← readU32
  let b ← readU8
  let mode ← match b.toNat with
    | 0 => pure .soft
    | 1 => pure .hard
    | _ => invalid ("unknown Terminate mode " ++ toString b.toNat)
  assertDone
  pure (runId, mode)

/-- By index, without a cursor. -/
def parseStreamChunkPayload : Indexed (Nat × Blob) := fun payload _ => do
  if payload.bytes.length < 12 then
    .error (.error ⟨.invalidData, "payload too short for StreamChunk"⟩)
  else do
    let id ← payload.range 4 8
    let streamId ← BorrowedBytes.fromBeBytes id
    let length ← payload.range 8 12
    let len ← BorrowedBytes.fromBeBytes length
    if streamChunkMaxBytes < len then .error (.error (streamChunkOverCap len))
    else do
      let total ← BorrowedBytes.add 12 len
      if payload.bytes.length ≠ total then
        .error (.error ⟨.invalidData, "StreamChunk payload length mismatch"⟩)
      else do
        let data ← payload.range 12 payload.bytes.length
        .ok ((streamId, data), payload.bytes.length)

def parseStreamEndPayload : Indexed StreamEndPayload := do
  let _ ← readU32
  let streamId ← readU32
  let ok ← readBool
  let error ← if ok then pure none else readOptionalString
  assertDone
  pure ⟨streamId, ok, error⟩

def parseStreamPullPayload : Indexed (Nat × Nat) := do
  let _ ← readU32
  let streamId ← readU32
  let credit ← readU32
  assertDone
  pure (streamId, credit)

def parseStreamCancelPayload : Indexed (Nat × String) := do
  let _ ← readU32
  let streamId ← readU32
  let reason ← readString
  assertDone
  pure (streamId, reason)

def parseBridgeResponsePayload : Indexed (Nat × Nat × Except BridgeErrorPayload (Option Blob)) := do
  let runId ← WireCursor.readU32
  let callId ← WireCursor.readU32
  let okByte ← WireCursor.readU8
  match okByte.toNat with
  | 1 => do
    let value ← WireCursor.readPresentBlob
    pure (runId, callId, .ok value)
  | 0 => do
    let _ ← WireCursor.readString
    let name ← WireCursor.readString
    let message ← WireCursor.readString
    WireCursor.skipStack
    let fields ← WireCursor.readPresentBlob
    pure (runId, callId, .error ⟨name, message, fields⟩)
  | _ => invalid ("invalid BridgeResponse ok byte: " ++ hexByte okByte)

/-- The parser of a payload type. -/
def read : MessageType → Indexed ParsedMessage
  | .run => .run <$> parseRunPayload
  | .precompile => .precompile <$> parsePrecompilePayload
  | .prefixRun => .prefixRun <$> parsePrefixRunPayload
  | .disposePrefix => .disposePrefix <$> parseDisposePrefixPayload
  | .terminate => (fun p => .terminate p.1 p.2) <$> parseTerminatePayload
  | .bridgeResponse => (fun p => .bridgeResponse p.1 p.2.1 p.2.2) <$> parseBridgeResponsePayload
  | .streamChunk => (fun p => .streamChunk p.1 p.2) <$> parseStreamChunkPayload
  | .streamEnd => .streamEnd <$> parseStreamEndPayload
  | .streamPull => (fun p => .streamPull p.1 p.2) <$> parseStreamPullPayload
  | .streamCancel => (fun p => .streamCancel p.1 p.2) <$> parseStreamCancelPayload

def parse (type : MessageType) (payload : BorrowedBytes) : Except (Fault IoError) ParsedMessage :=
  (·.1) <$> read type payload 0

end IndexedPayload

/-- `AuthenticatePayload`. -/
structure AuthenticatePayload where
  protocolVersion : Nat
  probe : Blob
  descriptorToken : Blob
  deriving DecidableEq

/-- `DESCRIPTOR_TOKEN_LEN`. -/
def descriptorTokenLen : Nat := 16

/-- `parse_authenticate_payload`, by index. -/
def parseAuthenticatePayload (payload : BorrowedBytes) : Except (Fault IoError) AuthenticatePayload := do
  if payload.bytes.length < 6 then
    .error (.error ⟨.invalidData, "payload too short for Authenticate"⟩)
  else do
    let major ← payload.index 0
    let minor ← payload.index 1
    let header ← payload.range 2 6
    let probeLen ← BorrowedBytes.fromBeBytes header
    -- `checked_add`, and then a sum that is not checked.
    let probeEnd := 6 + probeLen
    if 2 ^ 64 ≤ probeEnd then .error (.error ⟨.invalidData, "Authenticate payload truncated (probe)"⟩)
    else do
    let probeEnd4 ← BorrowedBytes.add probeEnd 4
    if payload.bytes.length < probeEnd4 then
      .error (.error ⟨.invalidData, "Authenticate payload truncated (probe)"⟩)
    else do
      let probe ← payload.range 6 probeEnd
      let length ← payload.range probeEnd probeEnd4
      let tokenLen ← BorrowedBytes.fromBeBytes length
      if tokenLen ≠ descriptorTokenLen then
        .error (.error ⟨.invalidData, "descriptor token must be exactly " ++
          toString descriptorTokenLen ++ " bytes, got " ++ toString tokenLen⟩)
      else do
        let tokenEnd ← BorrowedBytes.add probeEnd4 tokenLen
        if payload.bytes.length < tokenEnd then
          .error (.error ⟨.invalidData, "Authenticate payload truncated (descriptor token)"⟩)
        else if tokenEnd ≠ payload.bytes.length then
          .error (.error ⟨.invalidData, "Authenticate payload has trailing bytes"⟩)
        else do
          let descriptorToken ← payload.range probeEnd4 tokenEnd
          .ok ⟨major.toNat * 256 + minor.toNat, probe, descriptorToken⟩

/-- `encode_authenticate_payload`. -/
def encodeAuthenticatePayload (auth : AuthenticatePayload) : Blob :=
  [UInt8.ofNat (auth.protocolVersion / 256), UInt8.ofNat auth.protocolVersion] ++
    (u32be auth.probe.length ++ (auth.probe ++ (u32be auth.descriptorToken.length ++ auth.descriptorToken)))

/-! ### No parser faults -/

section Primitives

variable {data : BorrowedBytes} {offset : Nat}

/-- What a cursor does with `n` bytes that are there. -/
theorem block_ok {n : Nat} (h : n ≤ (data.bytes.drop offset).length) (ho : offset ≤ data.bytes.length) :
    (BorrowedBytes.add offset n : Except (Fault IoError) Nat) = .ok (offset + n) ∧
      (data.range offset (offset + n) : Except (Fault IoError) Blob) =
        .ok ((data.bytes.drop offset).take n) :=
  ⟨BorrowedBytes.add_ok (drop_add_of_le h ho).2.1, BorrowedBytes.range_ok h ho⟩

theorem left_ok (ho : offset ≤ data.bytes.length) :
    (BorrowedBytes.sub data.bytes.length offset : Except (Fault IoError) Nat) =
      .ok (data.bytes.drop offset).length := by
  rw [BorrowedBytes.sub_ok ho, List.length_drop]

end Primitives

theorem tracks_remaining : Tracks PayloadCursor.remaining (Reader.remaining : PayloadReader.Read Nat) := by
  intro data offset ho
  refine ⟨offset, ho, rfl, ?_⟩
  rw [PayloadCursor.remaining, left_ok ho]
  rfl

/-- One byte behind a bounds check. -/
theorem tracks_byte {short : IoError} {c : Indexed UInt8}
    (hend : ∀ (data : BorrowedBytes) (offset : Nat), offset ≤ data.bytes.length → data.bytes.drop offset = [] →
      c data offset = .error (.error short))
    (hbyte : ∀ (data : BorrowedBytes) (offset : Nat), offset < data.bytes.length →
      c data offset = do
        let b ← data.index offset
        let next ← BorrowedBytes.add offset 1
        .ok (b, next)) :
    Tracks c (Reader.u8 short) := by
  intro data offset ho
  cases hleft : data.bytes.drop offset with
  | nil => exact hend data offset ho hleft
  | cons b left =>
    have hlen : 1 ≤ (data.bytes.drop offset).length := by
      rw [hleft]
      exact Nat.le_add_left 1 _
    obtain ⟨hle, -, hdrop⟩ := drop_add_of_le hlen ho
    refine ⟨offset + 1, hle, ?_, ?_⟩
    · rw [hdrop, hleft]
      rfl
    · rw [hbyte data offset (by omega), BorrowedBytes.index_ok hleft, (block_ok hlen ho).1]
      rfl

theorem tracks_readU8 : Tracks PayloadCursor.readU8 PayloadReader.readU8 := by
  refine tracks_byte (fun data offset ho h => ?_) fun data offset ho => ?_
  · rw [PayloadCursor.readU8, left_ok ho, h]
    rfl
  · have hleft : ¬ (data.bytes.drop offset).length < 1 := by
      rw [List.length_drop]
      omega
    rw [PayloadCursor.readU8, left_ok (Nat.le_of_lt ho)]
    exact if_neg hleft

theorem tracks_wireU8 : Tracks WireCursor.readU8 WireReader.readU8 := by
  refine tracks_byte (fun data offset ho h => ?_) fun data offset ho => ?_
  · exact if_pos (List.drop_eq_nil_iff.mp h)
  · exact if_neg (Nat.not_le.mpr ho)

/-- Four bytes are a number. -/
theorem fromBeBytes_take {left : Blob} (short : IoError) (h : 4 ≤ left.length) :
    ∃ n, (BorrowedBytes.fromBeBytes (left.take 4) : Except (Fault IoError) Nat) = .ok n ∧
      Reader.u32 short left = .ok (n, left.drop 4) := by
  match left, h with
  | a :: b :: c :: d :: left, _ => exact ⟨ofU32be a b c d, rfl, rfl⟩

theorem u32_short {left : Blob} {short : IoError} (h : left.length < 4) :
    Reader.u32 short left = .error short := by
  match left, h with
  | [], _ => rfl
  | [_], _ => rfl
  | [_, _], _ => rfl
  | [_, _, _], _ => rfl
  | _ :: _ :: _ :: _ :: _, h =>
    simp only [List.length_cons] at h
    omega

/-- Four bytes behind a bounds check. -/
theorem tracks_word {short : IoError} {c : Indexed Nat}
    (hend : ∀ (data : BorrowedBytes) (offset : Nat), offset ≤ data.bytes.length →
      (data.bytes.drop offset).length < 4 → c data offset = .error (.error short))
    (hword : ∀ (data : BorrowedBytes) (offset : Nat), offset ≤ data.bytes.length →
      4 ≤ (data.bytes.drop offset).length →
      c data offset = do
        let next ← BorrowedBytes.add offset 4
        let bytes ← data.range offset next
        let n ← BorrowedBytes.fromBeBytes bytes
        .ok (n, next)) :
    Tracks c (Reader.u32 short) := by
  intro data offset ho
  by_cases hlen : 4 ≤ (data.bytes.drop offset).length
  · obtain ⟨n, hn, hread⟩ := fromBeBytes_take short hlen
    obtain ⟨hadd, hrange⟩ := block_ok hlen ho
    obtain ⟨hle, -, hdrop⟩ := drop_add_of_le hlen ho
    rw [hread]
    refine ⟨offset + 4, hle, hdrop, ?_⟩
    rw [hword data offset ho hlen, hadd]
    show (data.range offset (offset + 4) >>= _) = _
    rw [hrange]
    show (BorrowedBytes.fromBeBytes _ >>= _) = _
    rw [hn]
    rfl
  · rw [u32_short (Nat.not_le.mp hlen)]
    exact hend data offset ho (Nat.not_le.mp hlen)

theorem tracks_readU32 : Tracks PayloadCursor.readU32 PayloadReader.readU32 := by
  refine tracks_word (fun data offset ho h => ?_) fun data offset ho h => ?_
  · rw [PayloadCursor.readU32, left_ok ho]
    exact if_pos h
  · rw [PayloadCursor.readU32, left_ok ho]
    exact if_neg (Nat.not_lt.mpr h)

theorem tracks_wireU32 : Tracks WireCursor.readU32 WireReader.readU32 := by
  have hadd : ∀ (data : BorrowedBytes) (offset : Nat), offset ≤ data.bytes.length →
      (BorrowedBytes.add offset 4 : Except (Fault IoError) Nat) = .ok (offset + 4) := by
    intro data offset ho
    have hfits := data.fits
    exact BorrowedBytes.add_ok (by omega)
  refine tracks_word (fun data offset ho h => ?_) fun data offset ho h => ?_
  · rw [List.length_drop] at h
    rw [WireCursor.readU32, hadd data offset ho]
    exact if_pos (by omega)
  · rw [List.length_drop] at h
    rw [WireCursor.readU32, hadd data offset ho]
    exact if_neg (by omega)

/-- `len` bytes behind a bounds check. -/
theorem tracks_block {short : IoError} {len : Nat} {c : Indexed Blob}
    (hend : ∀ (data : BorrowedBytes) (offset : Nat), offset ≤ data.bytes.length →
      (data.bytes.drop offset).length < len → c data offset = .error (.error short))
    (hblock : ∀ (data : BorrowedBytes) (offset : Nat), offset ≤ data.bytes.length →
      len ≤ (data.bytes.drop offset).length →
      c data offset = .ok ((data.bytes.drop offset).take len, offset + len)) :
    Tracks c (Reader.take short len) := by
  intro data offset ho
  by_cases hlen : len ≤ (data.bytes.drop offset).length
  · obtain ⟨hle, -, hdrop⟩ := drop_add_of_le hlen ho
    rw [Reader.take, if_neg (Nat.not_lt.mpr hlen)]
    exact ⟨offset + len, hle, hdrop, hblock data offset ho hlen⟩
  · rw [Reader.take, if_pos (Nat.not_le.mp hlen)]
    exact hend data offset ho (Nat.not_le.mp hlen)

theorem tracks_readSlice (short : String) (len : Nat) :
    Tracks (PayloadCursor.readSlice short len) (Reader.take ⟨.unexpectedEof, short⟩ len) := by
  refine tracks_block (fun data offset ho h => ?_) fun data offset ho h => ?_
  · rw [PayloadCursor.readSlice, left_ok ho]
    exact if_pos h
  · obtain ⟨hadd, hrange⟩ := block_ok h ho
    rw [PayloadCursor.readSlice, left_ok ho]
    refine (if_neg (Nat.not_lt.mpr h)).trans ?_
    rw [hadd]
    show (data.range offset (offset + len) >>= _) = _
    rw [hrange]
    rfl

theorem tracks_readRawBytes (len : Nat) :
    Tracks (WireCursor.readRawBytes len) (Reader.take WireReader.endOfData len) := by
  refine tracks_block (fun data offset ho h => ?_) fun data offset ho h => ?_
  · rw [List.length_drop] at h
    exact if_pos (Or.inr (by omega))
  · obtain ⟨hle, hfits, -⟩ := drop_add_of_le h ho
    rw [WireCursor.readRawBytes, if_neg (by omega), (block_ok h ho).2]
    rfl

theorem tracks_readString : Tracks PayloadCursor.readString PayloadReader.readString := by
  refine tracks_readU32.bind fun len => (tracks_readSlice _ len).bind fun bytes => ?_
  cases ofUtf8 bytes with
  | none => exact tracks_fail _
  | some s => exact tracks_pure s

theorem tracks_wireString : Tracks WireCursor.readString WireReader.readString := by
  refine tracks_wireU32.bind fun len => (tracks_readRawBytes len).bind fun bytes => ?_
  cases ofUtf8 bytes with
  | none => exact tracks_fail _
  | some s => exact tracks_pure s

theorem tracks_readBool : Tracks PayloadCursor.readBool PayloadReader.readBool := by
  refine tracks_readU8.bind fun b => ?_
  generalize b.toNat = n
  rcases n with _ | _ | n
  · exact tracks_pure false
  · exact tracks_pure true
  · exact tracks_fail _

theorem tracks_readValueBlob : Tracks PayloadCursor.readValueBlob PayloadReader.readValueBlob :=
  tracks_readU32.bind fun len => tracks_readSlice _ len

theorem tracks_wireBlob : Tracks WireCursor.readValueBlob WireReader.readValueBlob :=
  tracks_wireU32.bind fun len => tracks_readRawBytes len

section Combinators

variable {α : Type} {c : Indexed α} {r : PayloadReader.Read α}

theorem tracks_readList (what : String) (h : Tracks c r) :
    Tracks (PayloadCursor.readList what c) (PayloadReader.readList what r) :=
  tracks_readU32.bind fun count => tracks_remaining.bind fun _ =>
    Tracks.ite (tracks_fail _) (h.times count)

theorem tracks_readOptional (h : Tracks c r) :
    Tracks (PayloadCursor.readOptional c) (PayloadReader.readOptional r) := by
  refine tracks_readU8.bind fun b => ?_
  generalize b.toNat = n
  rcases n with _ | _ | n
  · exact tracks_pure none
  · exact h.bind fun a => tracks_pure (some a)
  · exact tracks_fail _

end Combinators

theorem tracks_readOptionalU32 : Tracks PayloadCursor.readOptionalU32 PayloadReader.readOptionalU32 :=
  tracks_readOptional tracks_readU32

theorem tracks_readOptionalString :
    Tracks PayloadCursor.readOptionalString PayloadReader.readOptionalString :=
  tracks_readOptional tracks_readString

theorem tracks_readResourceLimits (band : BandPolicy) :
    Tracks (PayloadCursor.readResourceLimits band) (PayloadReader.readResourceLimits band) := by
  refine tracks_readOptionalU32.bind fun _ => tracks_readOptionalU32.bind fun _ => ?_
  refine tracks_readOptionalU32.bind fun _ => tracks_readOptionalU32.bind fun _ => ?_
  refine tracks_readOptionalU32.bind fun _ => tracks_readOptionalU32.bind fun _ => ?_
  refine tracks_readOptionalU32.bind fun _ => tracks_readOptionalU32.bind fun _ => ?_
  exact tracks_readOptionalU32.bind fun _ => tracks_readOptionalU32.bind fun _ => tracks_pure _

theorem tracks_readGlobalTail (kind : UInt8) :
    Tracks (PayloadCursor.readGlobalTail kind) (PayloadReader.readGlobalTail kind) := by
  unfold PayloadCursor.readGlobalTail PayloadReader.readGlobalTail
  generalize kind.toNat = n
  rcases n with _ | _ | _ | _ | n
  · exact tracks_pure _
  · exact tracks_readString.bind fun _ => tracks_pure _
  · exact tracks_readValueBlob.bind fun _ => tracks_pure _
  · exact tracks_readString.bind fun _ => tracks_readString.bind fun _ => tracks_pure _
  · exact tracks_fail _

theorem tracks_readGlobalDefs : Tracks PayloadCursor.readGlobalDefs PayloadReader.readGlobalDefs :=
  tracks_readList _ (tracks_readU8.bind fun kind => tracks_readString.bind fun _ =>
    tracks_readBool.bind fun _ => (tracks_readGlobalTail kind).bind fun _ => tracks_pure _)

/-- The recursion over a shape, level by level. -/
theorem tracks_readNode (levels : Nat) :
    Tracks (PayloadCursor.readNode levels) (PayloadReader.readNode levels) := by
  induction levels with
  | zero => exact tracks_fail _
  | succ levels ih =>
    refine tracks_readU8.bind fun tag => ?_
    generalize tag.toNat = n
    rcases n with _ | _ | _ | n
    · exact tracks_pure _
    · exact tracks_readValueBlob.bind fun _ => tracks_pure _
    · refine (tracks_readList _ ?_).bind fun _ => tracks_pure _
      exact tracks_readString.bind fun _ => ih.bind fun _ => tracks_pure _
    · exact tracks_fail _

theorem tracks_readImportBindings :
    Tracks PayloadCursor.readImportBindings PayloadReader.readImportBindings := by
  refine tracks_readList _ (tracks_readString.bind fun _ => tracks_readU8.bind fun kind => ?_)
  generalize kind.toNat = n
  rcases n with _ | _ | n
  · exact tracks_readString.bind fun _ => tracks_pure _
  · refine (tracks_readList _ ?_).bind fun _ => tracks_pure _
    exact tracks_readString.bind fun _ => (tracks_readNode _).bind fun _ => tracks_pure _
  · exact tracks_fail _

theorem tracks_readImportRebinds :
    Tracks PayloadCursor.readImportRebinds PayloadReader.readImportRebinds :=
  tracks_readList _ (tracks_readString.bind fun _ =>
    (tracks_readList _ tracks_readString).bind fun _ => tracks_pure _)

theorem tracks_readCall : Tracks PayloadCursor.readCall PayloadReader.readCall :=
  tracks_readString.bind fun _ => tracks_readValueBlob.bind fun _ => tracks_pure _

theorem tracks_assertDone : Tracks PayloadCursor.assertDone PayloadReader.assertDone :=
  tracks_remaining.bind fun _ => Tracks.ite (tracks_fail _) (tracks_pure ())

theorem tracks_readPresentBlob : Tracks WireCursor.readPresentBlob WireReader.readPresentBlob :=
  tracks_wireU8.bind fun _ =>
    Tracks.ite (tracks_wireBlob.bind fun blob => tracks_pure (some blob)) (tracks_pure none)

theorem tracks_skipStack : Tracks WireCursor.skipStack WireReader.skipStack :=
  tracks_wireU8.bind fun _ =>
    Tracks.ite (tracks_wireString.bind fun _ => tracks_pure ()) (tracks_pure ())

namespace IndexedPayload

theorem tracks_run : Tracks parseRunPayload Ipc.parseRunPayload :=
  tracks_readU32.bind fun _ => tracks_readString.bind fun _ =>
    tracks_readOptionalString.bind fun _ => (tracks_readResourceLimits _).bind fun _ =>
      tracks_readGlobalDefs.bind fun _ => tracks_readImportBindings.bind fun _ =>
        (tracks_readOptional tracks_readCall).bind fun _ => tracks_assertDone.bind fun _ =>
          tracks_pure _

theorem tracks_precompile : Tracks parsePrecompilePayload Ipc.parsePrecompilePayload :=
  tracks_readU32.bind fun _ => tracks_readString.bind fun _ =>
    tracks_readOptionalString.bind fun _ => (tracks_readResourceLimits _).bind fun _ =>
      tracks_readGlobalDefs.bind fun _ => tracks_readImportBindings.bind fun _ =>
        tracks_assertDone.bind fun _ => tracks_pure _

theorem tracks_prefixRun : Tracks parsePrefixRunPayload Ipc.parsePrefixRunPayload :=
  tracks_readU32.bind fun _ => tracks_readString.bind fun _ =>
    (tracks_readResourceLimits _).bind fun _ => tracks_readGlobalDefs.bind fun _ =>
      tracks_readImportRebinds.bind fun _ => tracks_readCall.bind fun _ =>
        tracks_assertDone.bind fun _ => tracks_pure _

theorem tracks_terminate : Tracks parseTerminatePayload Ipc.parseTerminatePayload := by
  refine tracks_readU32.bind fun _ => tracks_readU8.bind fun b => ?_
  have hdone : ∀ {c : Indexed TerminateMode} {r : PayloadReader.Read TerminateMode} {runId : Nat},
      Tracks c r →
      Tracks (c >>= fun mode => PayloadCursor.assertDone >>= fun _ => pure (runId, mode))
        (r >>= fun mode => PayloadReader.assertDone >>= fun _ => pure (runId, mode)) :=
    fun h => h.bind fun _ => tracks_assertDone.bind fun _ => tracks_pure _
  generalize b.toNat = n
  rcases n with _ | _ | n
  · exact hdone (tracks_pure _)
  · exact hdone (tracks_pure _)
  · exact hdone (tracks_fail _)

theorem tracks_streamEnd : Tracks parseStreamEndPayload Ipc.parseStreamEndPayload := by
  refine tracks_readU32.bind fun _ => tracks_readU32.bind fun _ => tracks_readBool.bind fun ok => ?_
  refine Tracks.ite ?_ ?_
  · exact (tracks_pure none).bind fun _ => tracks_assertDone.bind fun _ => tracks_pure _
  · exact tracks_readOptionalString.bind fun _ => tracks_assertDone.bind fun _ => tracks_pure _

theorem tracks_bridgeResponse : Tracks parseBridgeResponsePayload Ipc.parseBridgeResponsePayload := by
  refine tracks_wireU32.bind fun _ => tracks_wireU32.bind fun _ => tracks_wireU8.bind fun b => ?_
  generalize b.toNat = n
  rcases n with _ | _ | n
  · exact tracks_wireString.bind fun _ => tracks_wireString.bind fun _ =>
      tracks_wireString.bind fun _ => tracks_skipStack.bind fun _ =>
        tracks_readPresentBlob.bind fun _ => tracks_pure _
  · exact tracks_readPresentBlob.bind fun _ => tracks_pure _
  · exact tracks_fail _

/-- A chunk by index: each range is inside the payload. -/
theorem parseStreamChunk_eq (payload : BorrowedBytes) :
    parseStreamChunkPayload payload 0 =
      ((fun p => (p.1, payload.bytes.length)) <$> Ipc.parseStreamChunkPayload payload.bytes).mapError
        Fault.error := by
  obtain ⟨bytes, fits⟩ := payload
  by_cases hlen : bytes.length < 12
  · have hshort : Ipc.parseStreamChunkPayload bytes =
        .error ⟨.invalidData, "payload too short for StreamChunk"⟩ := by
      unfold Ipc.parseStreamChunkPayload
      split
      · simp only [List.length_cons] at hlen
        omega
      · rfl
    rw [hshort]
    exact if_pos hlen
  · obtain ⟨a, b, c, d, e, f, g, h, i, j, k, l, data, rfl⟩ :
        ∃ a b c d e f g h i j k l data,
          bytes = a :: b :: c :: d :: e :: f :: g :: h :: i :: j :: k :: l :: data := by
      iterate 12
        rcases bytes with _ | ⟨_, bytes⟩
        · simp at hlen
      exact ⟨_, _, _, _, _, _, _, _, _, _, _, _, _, rfl⟩
    let payload : BorrowedBytes := ⟨_, fits⟩
    have hid : payload.range 4 8 = (.ok [e, f, g, h] : Except (Fault IoError) Blob) :=
      if_pos ⟨by decide, by simp [payload]⟩
    have hlength : payload.range 8 12 = (.ok [i, j, k, l] : Except (Fault IoError) Blob) :=
      if_pos ⟨by decide, by simp [payload]⟩
    have htotal : payload.bytes.length = 12 + data.length := by
      simp only [payload, List.length_cons]
      omega
    have hdata : payload.range 12 payload.bytes.length = (.ok data : Except (Fault IoError) Blob) := by
      rw [htotal, BorrowedBytes.range_ok (by simp [payload]) (by omega)]
      exact congrArg Except.ok (List.take_of_length_le (Nat.le_refl data.length))
    show parseStreamChunkPayload payload 0 = _
    rw [parseStreamChunkPayload, if_neg hlen]
    have hfrom : ∀ p q r s : UInt8, (BorrowedBytes.fromBeBytes [p, q, r, s] : Except (Fault IoError) Nat) =
        .ok (ofU32be p q r s) := fun _ _ _ _ => rfl
    rw [hid, BorrowedBytes.ok_bind, hfrom, BorrowedBytes.ok_bind, hlength, BorrowedBytes.ok_bind, hfrom, BorrowedBytes.ok_bind]
    show (if streamChunkMaxBytes < ofU32be i j k l then _ else _) =
      Except.mapError Fault.error ((fun p : (Nat × Blob) × Blob => (p.1, payload.bytes.length)) <$>
        (if streamChunkMaxBytes < ofU32be i j k l then _ else _ :
          Except IoError ((Nat × Blob) × Blob)))
    by_cases hcap : streamChunkMaxBytes < ofU32be i j k l
    · rw [if_pos hcap, if_pos hcap]
      rfl
    · have hsum : (BorrowedBytes.add 12 (ofU32be i j k l) : Except (Fault IoError) Nat) =
          .ok (12 + ofU32be i j k l) := by
        refine BorrowedBytes.add_ok ?_
        have hmax : streamChunkMaxBytes ≤ 2 ^ 32 := by decide
        omega
      rw [if_neg hcap, if_neg hcap, hsum, BorrowedBytes.ok_bind]
      by_cases hsize : data.length = ofU32be i j k l
      · have hfits : ¬ payload.bytes.length ≠ 12 + ofU32be i j k l := by
          rw [htotal, hsize]
          exact fun hne => hne rfl
        rw [if_neg hfits, if_neg (fun hne => hne hsize), hdata]
        rfl
      · have hlong : payload.bytes.length ≠ 12 + ofU32be i j k l := by
          rw [htotal]
          omega
        rw [if_pos hlong, if_pos hsize]
        rfl

theorem parse_streamChunk (payload : BorrowedBytes) :
    parse .streamChunk payload = (parsePayload .streamChunk payload.bytes).mapError Fault.error := by
  show (fun p => p.1) <$> (fun p => (ParsedMessage.streamChunk p.1.1 p.1.2, p.2)) <$>
    parseStreamChunkPayload payload 0 = ((fun p => p.1) <$>
      (fun p => (ParsedMessage.streamChunk p.1.1 p.1.2, p.2)) <$>
        Ipc.parseStreamChunkPayload payload.bytes).mapError Fault.error
  rw [parseStreamChunk_eq]
  cases Ipc.parseStreamChunkPayload payload.bytes <;> rfl

/-- Every parser, by index, gives what its reader gives, and faults on no payload. -/
theorem parse_eq (type : MessageType) (payload : BorrowedBytes) :
    parse type payload = (parsePayload type payload.bytes).mapError Fault.error := by
  cases type with
  | run => exact (tracks_run.map _).run payload
  | precompile => exact (tracks_precompile.map _).run payload
  | prefixRun => exact (tracks_prefixRun.map _).run payload
  | disposePrefix =>
    have h : Tracks parseDisposePrefixPayload Ipc.parseDisposePrefixPayload :=
      tracks_readString.bind fun _ => tracks_assertDone.bind fun _ => tracks_pure _
    exact (h.map _).run payload
  | terminate => exact (tracks_terminate.map _).run payload
  | bridgeResponse => exact (tracks_bridgeResponse.map _).run payload
  | streamChunk => exact parse_streamChunk payload
  | streamEnd => exact (tracks_streamEnd.map _).run payload
  | streamPull =>
    have h : Tracks parseStreamPullPayload Ipc.parseStreamPullPayload :=
      tracks_readU32.bind fun _ => tracks_readU32.bind fun _ => tracks_readU32.bind fun _ =>
        tracks_assertDone.bind fun _ => tracks_pure _
    exact (h.map _).run payload
  | streamCancel =>
    have h : Tracks parseStreamCancelPayload Ipc.parseStreamCancelPayload :=
      tracks_readU32.bind fun _ => tracks_readU32.bind fun _ => tracks_readString.bind fun _ =>
        tracks_assertDone.bind fun _ => tracks_pure _
    exact (h.map _).run payload

end IndexedPayload

end Ipc

end Iso4
