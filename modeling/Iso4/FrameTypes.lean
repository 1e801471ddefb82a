/-
Typed frames: the message types of both directions, their encoders and decoders on the host
(`packages/iso4-sandbox/src/ipc.ts`) and their readers in the runtime
(`crates/server/src/ipc.rs`).

The types are listed twice on each side, once as a table of bytes and once as the cases of
the parser.  One list misses two cases: `parseTsToRustMessageType` of the host knows neither
`StreamChunk` nor `StreamEnd`, which the host sends and the runtime reads.

* `decodeFrame_iff`, `readFrame_iff` — what the untyped readers accept;
* `Codec.RoundTrips`, `Codec.Canonical` — the two directions of a round trip;
* `frame_codec_iff` — the types that round trip.
-/
import Iso4.FrameAgreement
import Iso4.Outbox

namespace Iso4

open Wire

namespace Framing

/-! ### Message types -/

inductive TsToRustMessageType where
  | authenticate
  | run
  | precompile
  | prefixRun
  | disposePrefix
  | bridgeResponse
  | terminate
  | stats
  | streamChunk
  | streamEnd
  | streamPull
  | streamCancel
  | close
  deriving DecidableEq, Repr

/-- `TsToRustMessageTypes`, and the discriminants of the enum of the runtime. -/
def TsToRustMessageType.byte : TsToRustMessageType → UInt8
  | .authenticate => 0x01
  | .run => 0x02
  | .precompile => 0x03
  | .prefixRun => 0x04
  | .disposePrefix => 0x05
  | .bridgeResponse => 0x06
  | .terminate => 0x07
  | .stats => 0x08
  | .streamChunk => 0x09
  | .streamEnd => 0x0A
  | .streamPull => 0x0B
  | .streamCancel => 0x0C
  | .close => 0x0D

/-- `formatByte`, and `{byte:#04x}`. -/
def formatByte (byte : UInt8) : String :=
  "0x" ++ String.ofList (List.leftpad 2 '0' (Nat.toDigits 16 byte.toNat))

/-- The `switch` of a parser over its cases. -/
def parseMessageType {T : Type} (cases : List T) (byteOf : T → UInt8) (unknown : String)
    (byte : UInt8) : Except String T :=
  match cases.find? fun t => byteOf t == byte with
  | some t => .ok t
  | none => .error (unknown ++ formatByte byte)

def parseTsToRustMessageType : UInt8 → Except String TsToRustMessageType :=
  parseMessageType
    [.authenticate, .run, .precompile, .prefixRun, .disposePrefix, .bridgeResponse, .terminate,
      .stats, .streamPull, .streamCancel, .close]
    TsToRustMessageType.byte "unknown TS->Rust message type: "

def parseRustToTsMessageType : UInt8 → Except String RustToTsMessageType :=
  parseMessageType
    [.bridgeCall, .result, .precompileResult, .log, .hello, .statsResult, .runComplete,
      .streamPull, .streamCancel, .streamChunk, .streamEnd]
    RustToTsMessageType.byte "unknown Rust->TS message type: "

namespace Runtime

/-- `parse_ts_to_rust_message_type`. -/
def parseTsToRustMessageType (byte : UInt8) : Except String TsToRustMessageType :=
  match byte with
  | 0x01 => .ok .authenticate
  | 0x02 => .ok .run
  | 0x03 => .ok .precompile
  | 0x04 => .ok .prefixRun
  | 0x05 => .ok .disposePrefix
  | 0x06 => .ok .bridgeResponse
  | 0x07 => .ok .terminate
  | 0x08 => .ok .stats
  | 0x09 => .ok .streamChunk
  | 0x0A => .ok .streamEnd
  | 0x0B => .ok .streamPull
  | 0x0C => .ok .streamCancel
  | 0x0D => .ok .close
  | _ => .error ("unknown TS->Rust message type: " ++ formatByte byte)

/-- `parse_rust_to_ts_message_type`. -/
def parseRustToTsMessageType (byte : UInt8) : Except String RustToTsMessageType :=
  match byte with
  | 0x01 => .ok .bridgeCall
  | 0x02 => .ok .result
  | 0x03 => .ok .precompileResult
  | 0x04 => .ok .log
  | 0x05 => .ok .hello
  | 0x06 => .ok .statsResult
  | 0x07 => .ok .runComplete
  | 0x08 => .ok .streamPull
  | 0x09 => .ok .streamCancel
  | 0x0A => .ok .streamChunk
  | 0x0B => .ok .streamEnd
  | _ => .error ("unknown Rust->TS message type: " ++ formatByte byte)

end Runtime

/-! ### Encoders, decoders, readers -/

def encodeFrame (messageType : Int) (payload : List UInt8) (maxFrameLength : Nat) :
    Except String (List UInt8) :=
  if messageType < 0 ∨ 255 < messageType then
    .error ("message type must fit in one byte: " ++ toString messageType)
  else
    let length := payload.length + 1
    if maxFrameLength < length then .error (overlong length maxFrameLength)
    else .ok (u32be length ++ UInt8.ofNat messageType.toNat :: payload)

structure TypedFrame (T : Type) where
  messageType : T
  payload : List UInt8
  deriving DecidableEq

def encodeTsToRustFrame (messageType : TsToRustMessageType) (payload : List UInt8) :
    Except String (List UInt8) :=
  encodeFrame messageType.byte.toNat payload defaultMaxFrameLength

def encodeRustToTsFrame (messageType : RustToTsMessageType) (payload : List UInt8) :
    Except String (List UInt8) :=
  encodeFrame messageType.byte.toNat payload defaultMaxFrameLength

/-- A decoded frame under the parser of its direction. -/
def decodeTyped {T : Type} (parse : UInt8 → Except String T) (bytes : List UInt8) :
    Except String (TypedFrame T) := do
  let frame ← decodeFrame bytes defaultMaxFrameLength
  let messageType ← parse frame.messageType
  return ⟨messageType, frame.payload⟩

def decodeTsToRustFrame : List UInt8 → Except String (TypedFrame TsToRustMessageType) :=
  decodeTyped parseTsToRustMessageType

def decodeRustToTsFrame : List UInt8 → Except String (TypedFrame RustToTsMessageType) :=
  decodeTyped parseRustToTsMessageType

/-- How a typed read of the runtime fails. -/
inductive TypedReadError where
  | frame (e : ReadError)
  | invalidData (message : String)
  deriving DecidableEq

/-- One frame of the runtime under the parser of its direction. -/
def readTyped {T : Type} (parse : UInt8 → Except String T) (maxFrameLength : Nat)
    (reader : Source) : Except TypedReadError (TypedFrame T × Source) := do
  let (frame, reader) ← (readFrameWithLimit maxFrameLength reader).mapError TypedReadError.frame
  let messageType ← (parse frame.messageType).mapError TypedReadError.invalidData
  return (⟨messageType, frame.payload⟩, reader)

def readTsToRustFrameWithLimit (reader : Source) (maxFrameLength : Nat) :
    Except TypedReadError (TypedFrame TsToRustMessageType × Source) :=
  readTyped Runtime.parseTsToRustMessageType maxFrameLength reader

def readTsToRustFrame (reader : Source) :
    Except TypedReadError (TypedFrame TsToRustMessageType × Source) :=
  readTsToRustFrameWithLimit reader defaultMaxFrameLength

def readRustToTsFrame (reader : Source) :
    Except TypedReadError (TypedFrame RustToTsMessageType × Source) :=
  readTyped Runtime.parseRustToTsMessageType defaultMaxFrameLength reader

/-! ### What the untyped readers accept -/

theorem decodeFrame_bytes {max : Nat} {f : Frame} (h : f.Fits max) (hmax : max < 2 ^ 32) :
    decodeFrame f.bytes max = .ok f := by
  have hlen : f.payload.length + 1 < 2 ^ 32 := Nat.lt_of_le_of_lt h hmax
  have hlength : ofU32be (UInt8.ofNat ((f.payload.length + 1) / 16777216))
      (UInt8.ofNat ((f.payload.length + 1) / 65536)) (UInt8.ofNat ((f.payload.length + 1) / 256))
      (UInt8.ofNat (f.payload.length + 1)) = f.payload.length + 1 := ofU32be_u32be hlen
  show (if ofU32be _ _ _ _ = 0 then _ else _) = _
  rw [hlength, if_neg (Nat.succ_ne_zero _), if_neg (Nat.not_lt.mpr h), if_neg (by simp),
    if_neg (by simp)]
  rfl

theorem decodeFrame_ok {max : Nat} {bytes : List UInt8} {f : Frame}
    (h : decodeFrame bytes max = .ok f) : bytes = f.bytes ∧ f.Fits max := by
  rcases front_cases bytes with hshort | ⟨a, b, c, d, body, rfl⟩
  · simp only [decodeFrame] at h
    split at h
    · simp only [List.length_cons] at hshort
      omega
    · simp at h
  · simp only [decodeFrame] at h
    split at h
    · simp at h
    · split at h
      · simp at h
      · next hmax =>
        split at h
        · simp at h
        · split at h
          · simp at h
          · cases body with
            | nil => simp at h
            | cons t payload =>
              simp only [Except.ok.injEq] at h
              subst h
              have hlen : payload.length + 1 = ofU32be a b c d := by
                simp only [List.length_cons] at *
                omega
              constructor
              · show _ = u32be (payload.length + 1) ++ t :: payload
                rw [hlen, u32be_ofU32be]
                simp
              · show payload.length + 1 ≤ max
                omega

theorem decodeFrame_iff {max : Nat} (hmax : max < 2 ^ 32) {bytes : List UInt8} {f : Frame} :
    decodeFrame bytes max = .ok f ↔ bytes = f.bytes ∧ f.Fits max := by
  constructor
  · exact decodeFrame_ok
  · rintro ⟨rfl, hfits⟩
    exact decodeFrame_bytes hfits hmax

theorem readFrame_bytes {max : Nat} {f : Frame} (h : f.Fits max) (hmax : max < 2 ^ 32)
    (rest : List UInt8) (plan : List PartialRead) :
    ∃ plan', readFrameWithLimit max ⟨f.bytes ++ rest, plan⟩ = .ok (f, ⟨rest, plan'⟩) :=
  readFrame_frame plan (parseFrame_bytes h hmax rest)

/-- A read that succeeds took a frame off the front. -/
theorem readFrame_ok {max : Nat} {reader after : Source} {f : Frame}
    (h : readFrameWithLimit max reader = .ok (f, after)) :
    reader.bytes = f.bytes ++ after.bytes ∧ f.Fits max := by
  by_cases hfront : ∃ g rest, parseFrame max reader.bytes = .frame g rest
  · obtain ⟨g, rest, hg⟩ := hfront
    obtain ⟨plan', hread⟩ := readFrame_frame reader.plan hg
    have heq : (Except.ok (g, ⟨rest, plan'⟩) : Except ReadError (Frame × Source)) =
        .ok (f, after) := hread.symm.trans h
    simp only [Except.ok.injEq, Prod.mk.injEq] at heq
    obtain ⟨rfl, rfl⟩ := heq
    exact parseFrame_ok hg
  · obtain ⟨e, he⟩ := readFrame_error reader.plan fun g rest hg => hfront ⟨g, rest, hg⟩
    have heq := he.symm.trans h
    simp at heq

/-! ### The typed codecs -/

theorem encodeFrame_byte (b : UInt8) (payload : List UInt8) (max : Nat) :
    encodeFrame b.toNat payload max =
      if max < payload.length + 1 then .error (overlong (payload.length + 1) max)
      else .ok (Frame.bytes ⟨b, payload⟩) := by
  have hrange : ¬ ((b.toNat : Int) < 0 ∨ 255 < (b.toNat : Int)) := by
    have := b.toNat_lt
    omega
  rw [encodeFrame, if_neg hrange]
  simp [Frame.bytes]

theorem encodeFrame_ok {b : UInt8} {payload bytes : List UInt8} {max : Nat} :
    encodeFrame b.toNat payload max = .ok bytes ↔
      bytes = Frame.bytes ⟨b, payload⟩ ∧ payload.length + 1 ≤ max := by
  rw [encodeFrame_byte]
  split
  · next h =>
    simp only [reduceCtorEq, false_iff, not_and]
    omega
  · next h =>
    simp only [Except.ok.injEq]
    constructor
    · rintro rfl
      exact ⟨rfl, Nat.not_lt.mp h⟩
    · rintro ⟨rfl, -⟩
      rfl

theorem decodeTyped_ok {T : Type} {parse : UInt8 → Except String T} {bytes : List UInt8}
    {t : T} {payload : List UInt8} :
    decodeTyped parse bytes = .ok ⟨t, payload⟩ ↔
      ∃ b, bytes = Frame.bytes ⟨b, payload⟩ ∧ payload.length + 1 ≤ defaultMaxFrameLength ∧
        parse b = .ok t := by
  constructor
  · intro h
    obtain ⟨f, hf, h⟩ := except_bind h
    obtain ⟨t', ht, h⟩ := except_bind h
    cases h
    obtain ⟨rfl, hfits⟩ := decodeFrame_ok hf
    exact ⟨f.messageType, rfl, hfits, ht⟩
  · rintro ⟨b, rfl, hfits, ht⟩
    have hf : decodeFrame (Frame.bytes ⟨b, payload⟩) defaultMaxFrameLength = .ok ⟨b, payload⟩ :=
      decodeFrame_bytes hfits defaultMax_lt
    rw [decodeTyped, hf]
    show (parse b >>= fun messageType => _) = _
    rw [ht]
    rfl

theorem readTyped_ok {T : Type} {parse : UInt8 → Except String T} {max : Nat}
    {reader after : Source} {t : T} {payload : List UInt8}
    (h : readTyped parse max reader = .ok (⟨t, payload⟩, after)) :
    ∃ b, reader.bytes = Frame.bytes ⟨b, payload⟩ ++ after.bytes ∧ payload.length + 1 ≤ max ∧
      parse b = .ok t := by
  obtain ⟨⟨f, r⟩, hf, h⟩ := except_bind h
  obtain ⟨t', ht, h⟩ := except_bind h
  cases h
  have hread : readFrameWithLimit max reader = .ok (f, after) := by
    cases hr : readFrameWithLimit max reader with
    | error e => simp [hr, Except.mapError] at hf
    | ok p => simpa [hr, Except.mapError] using hf
  have hparse : parse f.messageType = .ok t := by
    cases hp : parse f.messageType with
    | error e => simp [hp, Except.mapError] at ht
    | ok t => simpa [hp, Except.mapError] using ht
  obtain ⟨hbytes, hfits⟩ := readFrame_ok hread
  exact ⟨f.messageType, hbytes, hfits, hparse⟩

theorem readTyped_bytes {T : Type} {parse : UInt8 → Except String T} {max : Nat} {b : UInt8}
    {t : T} {payload : List UInt8} (hfits : payload.length + 1 ≤ max) (hmax : max < 2 ^ 32)
    (hparse : parse b = .ok t) (rest : List UInt8) (plan : List PartialRead) :
    ∃ plan', readTyped parse max ⟨Frame.bytes ⟨b, payload⟩ ++ rest, plan⟩ =
      .ok (⟨t, payload⟩, ⟨rest, plan'⟩) := by
  obtain ⟨plan', hread⟩ := readFrame_bytes (f := ⟨b, payload⟩) hfits hmax rest plan
  refine ⟨plan', ?_⟩
  simp only [readTyped, hread, Except.mapError, bind, Except.bind, hparse, pure, Except.pure]

/-- One direction of the protocol: the codec of the host and the reader of the runtime. -/
structure Codec (T : Type) where
  encode : T → List UInt8 → Except String (List UInt8)
  decode : List UInt8 → Except String (TypedFrame T)
  read : Source → Except TypedReadError (TypedFrame T × Source)

def tsToRust : Codec TsToRustMessageType where
  encode := encodeTsToRustFrame
  decode := decodeTsToRustFrame
  read := readTsToRustFrame

def rustToTs : Codec RustToTsMessageType where
  encode := encodeRustToTsFrame
  decode := decodeRustToTsFrame
  read := readRustToTsFrame

namespace Codec

variable {T : Type}

/-- The type and the payload come back, on the host from the bytes and in the runtime from any
source that starts with them. -/
def RoundTrips (c : Codec T) (t : T) (payload : List UInt8) : Prop :=
  ∃ bytes, c.encode t payload = .ok bytes ∧ c.decode bytes = .ok ⟨t, payload⟩ ∧
    ∀ (rest : List UInt8) (plan : List PartialRead), ∃ plan',
      c.read ⟨bytes ++ rest, plan⟩ = .ok (⟨t, payload⟩, ⟨rest, plan'⟩)

/-- What a decoder accepts is what the encoder writes. -/
structure Canonical (c : Codec T) : Prop where
  decoded : ∀ (bytes : List UInt8) (f : TypedFrame T), c.decode bytes = .ok f →
    c.encode f.messageType f.payload = .ok bytes
  read : ∀ (reader after : Source) (f : TypedFrame T), c.read reader = .ok (f, after) →
    ∃ bytes, c.encode f.messageType f.payload = .ok bytes ∧ reader.bytes = bytes ++ after.bytes

end Codec

/-! ### The four lists of types -/

theorem parse_ok_byte {T : Type} {cases : List T} {byteOf : T → UInt8} {unknown : String}
    {b : UInt8} {t : T} (h : parseMessageType cases byteOf unknown b = .ok t) :
    byteOf t = b := by
  unfold parseMessageType at h
  split at h
  · next t' ht =>
    cases h
    simpa using List.find?_some ht
  · cases h

/-- The host parses every type it sends but two. -/
theorem parseTsToRust_byte (t : TsToRustMessageType) :
    parseTsToRustMessageType t.byte = .ok t ↔ t ≠ .streamChunk ∧ t ≠ .streamEnd := by
  cases t <;> decide

theorem parseRustToTs_byte (t : RustToTsMessageType) :
    parseRustToTsMessageType t.byte = .ok t := by
  cases t <;> rfl

theorem Runtime.parseTsToRust_byte (t : TsToRustMessageType) :
    Runtime.parseTsToRustMessageType t.byte = .ok t := by
  cases t <;> rfl

theorem Runtime.parseRustToTs_byte (t : RustToTsMessageType) :
    Runtime.parseRustToTsMessageType t.byte = .ok t := by
  cases t <;> rfl

theorem Runtime.parseTsToRust_ok {b : UInt8} {t : TsToRustMessageType}
    (h : Runtime.parseTsToRustMessageType b = .ok t) : t.byte = b := by
  unfold Runtime.parseTsToRustMessageType at h
  split at h <;> cases h <;> rfl

theorem Runtime.parseRustToTs_ok {b : UInt8} {t : RustToTsMessageType}
    (h : Runtime.parseRustToTsMessageType b = .ok t) : t.byte = b := by
  unfold Runtime.parseRustToTsMessageType at h
  split at h <;> cases h <;> rfl

/-! ### Both directions -/

section Directions

variable {T : Type} {c : Codec T} {byteOf : T → UInt8}
  {hostParse runtimeParse : UInt8 → Except String T}

/-- A codec over the bytes of its types and the two parsers. -/
structure Codec.Over (c : Codec T) (byteOf : T → UInt8)
    (hostParse runtimeParse : UInt8 → Except String T) : Prop where
  encode : ∀ t payload, c.encode t payload =
    encodeFrame (byteOf t).toNat payload defaultMaxFrameLength
  decode : c.decode = decodeTyped hostParse
  read : c.read = readTyped runtimeParse defaultMaxFrameLength
  host : ∀ {b t}, hostParse b = .ok t → byteOf t = b
  runtime : ∀ {b t}, runtimeParse b = .ok t → byteOf t = b

theorem Codec.Over.canonical (h : c.Over byteOf hostParse runtimeParse) : c.Canonical := by
  constructor
  · rintro bytes ⟨t, payload⟩ hdecode
    rw [h.decode] at hdecode
    obtain ⟨b, rfl, hfits, hparse⟩ := decodeTyped_ok.mp hdecode
    rw [h.encode]
    refine encodeFrame_ok.mpr ⟨?_, hfits⟩
    rw [h.host hparse]
  · rintro reader after ⟨t, payload⟩ hread
    rw [h.read] at hread
    obtain ⟨b, hbytes, hfits, hparse⟩ := readTyped_ok hread
    refine ⟨Frame.bytes ⟨b, payload⟩, ?_, hbytes⟩
    rw [h.encode]
    refine encodeFrame_ok.mpr ⟨?_, hfits⟩
    rw [h.runtime hparse]

/-- A type round trips when both parsers know its byte. -/
theorem Codec.Over.roundTrips_iff (h : c.Over byteOf hostParse runtimeParse) {t : T}
    {payload : List UInt8} (hfits : payload.length + 1 ≤ defaultMaxFrameLength) :
    c.RoundTrips t payload ↔
      hostParse (byteOf t) = .ok t ∧ runtimeParse (byteOf t) = .ok t := by
  constructor
  · rintro ⟨bytes, -, hdecode, hread⟩
    rw [h.decode] at hdecode
    obtain ⟨b, -, -, hhost⟩ := decodeTyped_ok.mp hdecode
    obtain ⟨plan', hread⟩ := hread [] []
    rw [h.read] at hread
    obtain ⟨b', -, -, hruntime⟩ := readTyped_ok hread
    constructor
    · rwa [h.host hhost]
    · rwa [h.runtime hruntime]
  · rintro ⟨hhost, hruntime⟩
    refine ⟨Frame.bytes ⟨byteOf t, payload⟩, ?_, ?_, fun rest plan => ?_⟩
    · rw [h.encode]
      exact encodeFrame_ok.mpr ⟨rfl, hfits⟩
    · rw [h.decode]
      exact decodeTyped_ok.mpr ⟨byteOf t, rfl, hfits, hhost⟩
    · rw [h.read]
      exact readTyped_bytes hfits defaultMax_lt hruntime rest plan

end Directions

theorem tsToRust_over : tsToRust.Over TsToRustMessageType.byte parseTsToRustMessageType
    Runtime.parseTsToRustMessageType where
  encode _ _ := rfl
  decode := rfl
  read := rfl
  host := parse_ok_byte
  runtime := Runtime.parseTsToRust_ok

theorem rustToTs_over : rustToTs.Over RustToTsMessageType.byte parseRustToTsMessageType
    Runtime.parseRustToTsMessageType where
  encode _ _ := rfl
  decode := rfl
  read := rfl
  host := parse_ok_byte
  runtime := Runtime.parseRustToTs_ok

/-- For every payload that fits a frame, every type of either direction round trips except
`StreamChunk` and `StreamEnd` of the host; what a decoder accepts encodes to itself. -/
theorem frame_codec_iff {payload : List UInt8}
    (hfits : payload.length + 1 ≤ defaultMaxFrameLength) :
    (∀ t, tsToRust.RoundTrips t payload ↔ t ≠ .streamChunk ∧ t ≠ .streamEnd) ∧
    (∀ t, rustToTs.RoundTrips t payload) ∧
    tsToRust.Canonical ∧ rustToTs.Canonical := by
  refine ⟨fun t => ?_, fun t => ?_, tsToRust_over.canonical, rustToTs_over.canonical⟩
  · rw [tsToRust_over.roundTrips_iff hfits, parseTsToRust_byte]
    simp [Runtime.parseTsToRust_byte]
  · rw [rustToTs_over.roundTrips_iff hfits]
    exact ⟨parseRustToTs_byte t, Runtime.parseRustToTs_byte t⟩

/-- An empty payload fits. -/
theorem frame_codec_empty :
    ([] : List UInt8).length + 1 ≤ defaultMaxFrameLength ∧
    (∀ t, tsToRust.RoundTrips t [] ↔ t ≠ .streamChunk ∧ t ≠ .streamEnd) ∧
    (∀ t, rustToTs.RoundTrips t []) ∧
    tsToRust.Canonical ∧ rustToTs.Canonical :=
  ⟨by decide, frame_codec_iff (by decide)⟩

/-- An empty chunk of the host encodes, and its own decoder refuses the bytes. -/
theorem stream_chunk_undecoded :
    encodeTsToRustFrame .streamChunk [] = .ok [0, 0, 0, 1, 9] ∧
    decodeTsToRustFrame [0, 0, 0, 1, 9] = .error "unknown TS->Rust message type: 0x09" ∧
    ¬ ∀ (t : TsToRustMessageType) (payload : List UInt8),
      payload.length + 1 ≤ defaultMaxFrameLength → tsToRust.RoundTrips t payload := by
  have hencode : encodeTsToRustFrame .streamChunk [] = .ok [0, 0, 0, 1, 9] := by decide
  have hdecode : decodeTsToRustFrame [0, 0, 0, 1, 9] =
      .error "unknown TS->Rust message type: 0x09" := by decide
  refine ⟨hencode, hdecode, fun h => ?_⟩
  obtain ⟨bytes, hbytes, hok, -⟩ := h .streamChunk [] (by decide)
  obtain rfl := Except.ok.inj (hencode.symm.trans hbytes)
  have heq := hdecode.symm.trans hok
  simp at heq

end Framing

end Iso4
