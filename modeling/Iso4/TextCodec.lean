/-
The text codec of the sandbox (`crates/core/src/webtypes.js`): `utf8Encode`, `utf8Decode`,
`TextEncoder.encodeInto` and `TextDecoder.decode`.

* `WebTypes.utf8Encode` — fills a buffer of three bytes for each unit;
* `WebTypes.utf8Decode` — checks a sequence when it has all of it, and gives up one byte when it
  is bad; its units go through a buffer that is emptied at 4096;
* `WebTypes.encodeInto` — a character at a time, into the bytes of another.
-/
import Iso4.Payloads

namespace Iso4

open Ipc (Blob)

/-- A string of the sandbox: its UTF-16 units, with unpaired surrogates in it or not. -/
abbrev Units := List UInt16

namespace WebTypes

/-! ### `utf8Encode` -/

/-- A `Uint8Array` and the index of the next write. -/
structure Out where
  bytes : Blob
  p : Nat

/-- `out[p++] = b`, which stores nothing past the end. -/
def Out.put (out : Out) (b : Nat) : Out := ⟨out.bytes.set out.p (UInt8.ofNat b), out.p + 1⟩

/-- U+FFFD for an unpaired surrogate. -/
def Out.lone (out : Out) : Out := ((out.put 0xEF).put 0xBF).put 0xBD

def utf8EncodeFrom : Units → Out → Out
  | [], out => out
  | u :: rest, out =>
    let c := u.toNat
    if c < 0x80 then utf8EncodeFrom rest (out.put c)
    else if c < 0x800 then
      utf8EncodeFrom rest ((out.put (0xC0 ||| c >>> 6)).put (0x80 ||| c &&& 0x3F))
    else if 0xD800 ≤ c ∧ c ≤ 0xDBFF then
      match rest with
      -- `i + 1 < len` fails, and the next branch of the source takes it.
      | [] => utf8EncodeFrom [] out.lone
      | v :: rest =>
        let next := v.toNat
        if 0xDC00 ≤ next ∧ next ≤ 0xDFFF then
          let c := 0x10000 + ((c - 0xD800) <<< 10) + (next - 0xDC00)
          utf8EncodeFrom rest
            ((((out.put (0xF0 ||| c >>> 18)).put (0x80 ||| (c >>> 12) &&& 0x3F)).put
              (0x80 ||| (c >>> 6) &&& 0x3F)).put (0x80 ||| c &&& 0x3F))
        else utf8EncodeFrom (v :: rest) out.lone
    else if 0xD800 ≤ c ∧ c ≤ 0xDFFF then utf8EncodeFrom rest out.lone
    else
      utf8EncodeFrom rest
        (((out.put (0xE0 ||| c >>> 12)).put (0x80 ||| (c >>> 6) &&& 0x3F)).put
          (0x80 ||| c &&& 0x3F))

/-- The buffer when the loop is over. -/
def utf8EncodeBuffer (str : Units) : Out :=
  utf8EncodeFrom str ⟨List.replicate (str.length * 3) 0, 0⟩

/-- `out.subarray(0, p)`. -/
def utf8Encode (str : Units) : Blob :=
  (utf8EncodeBuffer str).bytes.take (utf8EncodeBuffer str).p

/-! ### `utf8Decode` -/

/-- The text so far and the units that are not in it yet. -/
structure Sink where
  out : Units
  buf : Units

def Sink.flush (s : Sink) : Sink := if 0 < s.buf.length then ⟨s.out ++ s.buf, []⟩ else s

/-- The units that `emit` pushes. -/
def codeUnits (cp : Nat) : Units :=
  if 0xFFFF < cp then
    let v := cp - 0x10000
    [UInt16.ofNat (0xD800 + (v >>> 10)), UInt16.ofNat (0xDC00 + (v &&& 0x3FF))]
  else [UInt16.ofNat cp]

def Sink.emit (s : Sink) (cp : Nat) : Sink :=
  let s : Sink := { s with buf := s.buf ++ codeUnits cp }
  if 4096 ≤ s.buf.length then s.flush else s

/-- What a lead byte says: the first bits, the length of the sequence, and the least code point
of that length. -/
def leadByte (b0 : Nat) : Option (Nat × Nat × Nat) :=
  if b0 < 0x80 then some (b0, 1, 0)
  else if 0xC2 ≤ b0 ∧ b0 ≤ 0xDF then some (b0 &&& 0x1F, 2, 0x80)
  else if 0xE0 ≤ b0 ∧ b0 ≤ 0xEF then some (b0 &&& 0x0F, 3, 0x800)
  else if 0xF0 ≤ b0 ∧ b0 ≤ 0xF4 then some (b0 &&& 0x07, 4, 0x10000)
  else none

/-- `cp` after `k` more bytes, or `ok` is false. -/
def continuation : (k cp : Nat) → Blob → Option Nat
  | 0, cp, _ => some cp
  | _ + 1, _, [] => none
  | k + 1, cp, b :: bs =>
    if b.toNat &&& 0xC0 ≠ 0x80 then none
    else continuation k (cp <<< 6 ||| b.toNat &&& 0x3F) bs

/-- The code point of the sequence at `b0`, and its length. -/
def sequence (b0 : UInt8) (rest : Blob) : Option (Nat × Nat) :=
  match leadByte b0.toNat with
  | none => none
  | some (bits, len, lower) =>
    if rest.length + 1 < len then none
    else
      match continuation (len - 1) bits rest with
      | none => none
      | some cp =>
        if cp < lower ∨ 0x10FFFF < cp ∨ 0xD800 ≤ cp ∧ cp ≤ 0xDFFF then none else some (cp, len)

/-- The loop, on the bytes from `i` on: `i` grows on every turn. -/
def utf8DecodeFrom : (fuel : Nat) → Blob → Sink → Sink
  | 0, _, s => s
  | _ + 1, [], s => s
  | fuel + 1, b0 :: rest, s =>
    match sequence b0 rest with
    | none => utf8DecodeFrom fuel rest (s.emit 0xFFFD)
    | some (cp, len) => utf8DecodeFrom fuel ((b0 :: rest).drop len) (s.emit cp)

def utf8Decode (bytes : Blob) : Units := (utf8DecodeFrom bytes.length bytes ⟨[], []⟩).flush.out

/-! ### `TextEncoder` and `TextDecoder` -/

/-- The loop of `encodeInto`: what was read and written, and the bytes of `dest`. -/
structure Encoded where
  read : Nat
  written : Nat
  dest : Blob
  deriving DecidableEq

/-- The units of the character at the head of a string. -/
def unitsAt : Units → Nat
  | u :: v :: _ =>
    if (0xD800 ≤ u.toNat ∧ u.toNat ≤ 0xDBFF) ∧ 0xDC00 ≤ v.toNat ∧ v.toNat ≤ 0xDFFF then 2 else 1
  | _ => 1

/-- `dest.set(bytes, at)`, where they fit. -/
def setBytes (dest bytes : Blob) (start : Nat) : Blob :=
  dest.take start ++ bytes ++ dest.drop (start + bytes.length)

/-- The loop, on the units from `i` on: `i` grows on every turn. -/
def encodeIntoFrom : (fuel : Nat) → Units → Encoded → Encoded
  | 0, _, e => e
  | _ + 1, [], e => e
  | fuel + 1, u :: rest, e =>
    let units := unitsAt (u :: rest)
    let bytes := utf8Encode ((u :: rest).take units)
    if e.dest.length < e.written + bytes.length then e
    else
      encodeIntoFrom fuel ((u :: rest).drop units)
        ⟨e.read + units, e.written + bytes.length, setBytes e.dest bytes e.written⟩

def encodeInto (str : Units) (dest : Blob) : Encoded :=
  encodeIntoFrom str.length str ⟨0, 0, dest⟩

/-- What `decode` may be given. -/
inductive DecodeInput where
  | undefined
  | uint8Array (bytes : Blob)
  /-- Another view of a buffer: its `byteOffset` and `byteLength`. -/
  | view (buffer : Blob) (byteOffset byteLength : Nat)
  | arrayBuffer (buffer : Blob)
  | other

/-- The bytes that `new Uint8Array` takes from it. -/
def DecodeInput.bytes : DecodeInput → Option Blob
  | .undefined => some []
  | .uint8Array bytes => some bytes
  | .view buffer byteOffset byteLength => some ((buffer.drop byteOffset).take byteLength)
  | .arrayBuffer buffer => some buffer
  | .other => none

/-- `TextDecoder.decode`; nothing where it throws a `TypeError`. -/
def decode : DecodeInput → Option Units
  | .undefined => some []
  | .uint8Array bytes => some (utf8Decode bytes)
  | .view buffer byteOffset byteLength =>
    some (utf8Decode ((buffer.drop byteOffset).take byteLength))
  | .arrayBuffer buffer => some (utf8Decode buffer)
  | .other => none

/-- What `settleBody` gives the body helpers. -/
inductive SettledBody where
  | null
  | text (b : Units)
  | bytes (b : Blob)

/-- `text()`, once the body is settled. -/
def SettledBody.toText : SettledBody → Units
  | .null => []
  | .text b => b
  | .bytes b => utf8Decode b

end WebTypes

end Iso4
