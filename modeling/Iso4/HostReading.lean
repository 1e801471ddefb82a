/-
What the host makes of an instance of the sandbox: `encode` of `crates/core/src/webcodec.rs` and
`readHostType` of `packages/iso4-sandbox/src/web-codec.ts`.

* `FetchTypes.encode` — what is written, or that the instance cannot cross;
* `FetchTypes.readHostType` — what is read, with the classes of Node;
* `FetchTypes.NodeFetch.Rules` — what is relied on of these;
* `FetchTypes.reads_iff` — what is written is read, but for a response whose status text has the
  character U+007F;
* `FetchTypes.delete_not_read` — and a guest can make one.
-/
import Iso4.FetchTypes
import Iso4.Materialize

namespace Iso4

namespace FetchTypes

open Ipc (Blob)
open WebTypes

/-! ### What is written -/

/-- Where a value crosses.  The result of a session run takes streams, each under the next id of
the run's table, and the host binds the ids there. -/
inductive Leg where
  | result (nextId : Nat)
  | other

/-- What a payload is made of: integers and bytes written by hand, and values written by V8. -/
inductive Item where
  | u32 (n : Nat)
  | bytes (b : Blob)
  | list (l : HeaderList)
  | null
  | text (s : Units)
  | array (b : Blob)
  /-- The length and the blob of an object with that `bodyStream`. -/
  | extras (id : Nat)
  deriving DecidableEq

inductive CodecError where
  /-- `Headers instance has no entry list`, and the like. -/
  | missing
  /-- `Headers entry list has an odd length`. -/
  | oddList
  /-- `Headers has … entries, exceeding the 1024 limit`. -/
  | tooManyEntries (n : Nat)
  /-- `a stream body can only be returned as a session call's result …`. -/
  | streamBody
  deriving DecidableEq

/-- `write_v8_string`; an unpaired surrogate is written as U+FFFD.  No string of V8 is so long that
its length would wrap. -/
def writeString (s : Units) : List Item := [.u32 (encoding s).length, .bytes (encoding s)]

def encodeHeaders (list : HeaderList) : Except CodecError (List Item) :=
  if list.length % 2 ≠ 0 then .error .oddList
  else if maxHeaderEntries < list.length / 2 then .error (.tooManyEntries (list.length / 2))
  else .ok [.list list]

/-- The inline body, and the id of a stream. -/
def encodeBody (leg : Leg) : Body → Except CodecError (Item × Option Nat)
  | .null => .ok (.null, none)
  | .text s => .ok (.text s, none)
  | .bytes b => .ok (.array b, none)
  | .stream =>
    match leg with
    | .result nextId => .ok (.null, some nextId)
    | .other => .error .streamBody

def writeExtras : Option Nat → List Item
  | none => [.u32 0]
  | some id => [.extras id]

def encodeRequest (leg : Leg) (list : HeaderList) (r : Request) :
    Except CodecError (List Item) := do
  let headers ← encodeHeaders list
  let (body, bodyStream) ← encodeBody leg r.b
  pure (writeString r.u ++ (writeString r.m ++ (headers ++ body :: writeExtras bodyStream)))

def encodeResponse (leg : Leg) (list : HeaderList) (r : Response) :
    Except CodecError (List Item) := do
  let headers ← encodeHeaders list
  let (body, bodyStream) ← encodeBody leg r.b
  pure (.u32 r.s :: (writeString r.t ++ (headers ++ body :: writeExtras bodyStream)))

/-- One of a guest's instances. -/
inductive Ref where
  | headers (i : Nat)
  | request (i : Nat)
  | response (i : Nat)

/-- An instance, the tag first. -/
def encode (leg : Leg) (w : World) : Ref → Except CodecError (List Item)
  | .headers i =>
    match w.headers[i]? with
    | none => .error .missing
    | some list => (.u32 tagHeaders :: ·) <$> encodeHeaders list
  | .request i =>
    match w.requests[i]? with
    | none => .error .missing
    | some r =>
      match w.headers[r.h]? with
      | none => .error .missing
      | some list => (.u32 tagRequest :: ·) <$> encodeRequest leg list r
  | .response i =>
    match w.responses[i]? with
    | none => .error .missing
    | some r =>
      match w.headers[r.h]? with
      | none => .error .missing
      | some list => (.u32 tagResponse :: ·) <$> encodeResponse leg list r

/-! ### What is read -/

inductive ReadError where
  /-- What comes next is something else; V8 gives up. -/
  | misread
  /-- `[iso4] Headers entry list is malformed`. -/
  | malformedList
  /-- `[iso4] Headers payload declares … entries, exceeding the 1024 limit`. -/
  | tooManyEntries (n : Nat)
  /-- `[iso4] received a body that is neither bytes, a string, nor absent`. -/
  | malformedBody
  /-- `[iso4] a stream body arrived on a leg that cannot carry one`. -/
  | noStreams
  /-- `[iso4] payload carries the reserved invalid type tag`, or a tag that has no type here. -/
  | tag (n : Nat)
  /-- The constructor of Node throws. -/
  | refused
  deriving DecidableEq

/-- A deserializer, on what is left of the payload. -/
abbrev Des (α : Type) := StateT (List Item) (Except ReadError) α

def readUint32 : Des Nat
  | .u32 n :: rest => .ok (n, rest)
  | _ => .error .misread

def readRawBytes (len : Nat) : Des Blob
  | .bytes b :: rest => if b.length = len then .ok (b, rest) else .error .misread
  | _ => .error .misread

def readStr : Des Units := do
  let len ← readUint32
  let bytes ← readRawBytes len
  pure ((Ipc.Utf8State.idle.decode bytes).flatMap Utf16.units)

/-- The entries of a flat list. -/
def pairsOf : HeaderList → Pairs
  | n :: v :: flat => (n, v) :: pairsOf flat
  | _ => []

def readHeaders : Des Pairs
  | .list flat :: rest =>
    if flat.length % 2 ≠ 0 then .error .malformedList
    else if maxHeaderEntries < flat.length / 2 then .error (.tooManyEntries (flat.length / 2))
    else .ok (pairsOf flat, rest)
  | .null :: _ => .error .malformedList
  | .text _ :: _ => .error .malformedList
  | .array _ :: _ => .error .malformedList
  | _ => .error .misread

inductive NodeBody where
  | null
  | text (s : Units)
  | bytes (b : Blob)
  | stream (id : Nat)
  deriving DecidableEq

def readBody : Des NodeBody
  | .null :: rest => .ok (.null, rest)
  | .text s :: rest => .ok (.text s, rest)
  | .array b :: rest => .ok (.bytes b, rest)
  | .list _ :: _ => .error .malformedBody
  | _ => .error .misread

/-- The id in `bodyStream`, where there is a binder for it. -/
def readExtras (leg : Leg) : Des (Option Nat)
  | .u32 0 :: rest => .ok (none, rest)
  | .extras id :: rest =>
    match leg with
    | .result _ => .ok (some id, rest)
    | .other => .error .noStreams
  | _ => .error .misread

/-- Whether the constructors of Node take their arguments. -/
structure NodeFetch where
  headers : Pairs → Bool
  request : (url method : Units) → Pairs → NodeBody → Bool
  response : (status : Nat) → (statusText : Units) → Pairs → NodeBody → Bool

/-- An instance of Node's classes, by the arguments of its constructor. -/
inductive NodeValue where
  | headers (es : Pairs)
  | request (url method : Units) (es : Pairs) (body : NodeBody)
  | response (status : Nat) (statusText : Units) (es : Pairs) (body : NodeBody)
  /-- `Response.error()`. -/
  | error
  deriving DecidableEq

def construct (accepted : Bool) (value : NodeValue) : Des NodeValue :=
  fun rest => if accepted = true then .ok (value, rest) else .error .refused

def bodylessMethods : List Units := [ascii "GET", ascii "HEAD"]

/-- The body that a request is given: no letter but an ASCII one has a letter of `GET` or `HEAD` as
its upper case. -/
def requestBody (method : Units) (body : NodeBody) (bodyStream : Option Nat) : NodeBody :=
  if bodylessMethods.contains (method.map toUpperUnit) = true then .null
  else bodyStream.elim body .stream

def readHostType (node : NodeFetch) (leg : Leg) : Des NodeValue := do
  let tag ← readUint32
  if tag = tagHeaders then
    let es ← readHeaders
    construct (node.headers es) (.headers es)
  else if tag = tagRequest then
    let url ← readStr
    let method ← readStr
    let es ← readHeaders
    let body ← readBody
    let bodyStream ← readExtras leg
    let body := requestBody method body bodyStream
    construct (node.request url method es body) (.request url method es body)
  else if tag = tagResponse then
    let status ← readUint32
    let statusText ← readStr
    let es ← readHeaders
    let body ← readBody
    let bodyStream ← readExtras leg
    if status = 0 then pure .error
    else
      let body := bodyStream.elim body .stream
      construct (node.response status statusText es body) (.response status statusText es body)
  else throw (.tag tag)

/-! ### The rules of Node -/

/-- What no token has. -/
def delimiters : List Nat :=
  [0x22, 0x28, 0x29, 0x2C, 0x2F, 0x3A, 0x3B, 0x3C, 0x3D, 0x3E, 0x3F, 0x40, 0x5B, 0x5C, 0x5D, 0x7B,
    0x7D]

/-- Visible ASCII but for the delimiters. -/
def isTchar (u : UInt16) : Bool :=
  0x21 ≤ u.toNat && u.toNat ≤ 0x7E && !delimiters.contains u.toNat

def isToken (n : Units) : Bool := n ≠ [] && n.all isTchar

/-- HTAB, LF, CR and SP. -/
def isWhitespace (u : UInt16) : Bool := [0x09, 0x0A, 0x0D, 0x20].contains u.toNat

/-- A byte string without NUL, LF, CR and outside whitespace. -/
def isFieldValue (v : Units) : Bool :=
  v.all (fun u => u.toNat ≤ 0xFF && !List.contains [0x00, 0x0A, 0x0D] u.toNat) &&
    v.head?.all (fun u => !isWhitespace u) && v.getLast?.all (fun u => !isWhitespace u)

def areFields (es : Pairs) : Bool := es.all fun e => isToken e.1 && isFieldValue e.2

/-- HTAB, SP, visible ASCII or obs-text. -/
def isReasonUnit (u : UInt16) : Bool :=
  u.toNat = 0x09 || (0x20 ≤ u.toNat && u.toNat ≤ 0x7E) || (0x80 ≤ u.toNat && u.toNat ≤ 0xFF)

def withoutCredentials (ada : Ada) (url : Units) : Bool :=
  match ada.urlParse url none with
  | none => false
  | some parsed => parsed .username = [] && parsed .password = []

def isNodeMethod (method : Units) : Bool :=
  isToken method && !([ascii "CONNECT", ascii "TRACE", ascii "TRACK"].contains
    (method.map toUpperUnit))

/-- What is relied on of the classes of Node; `ada` is the URL parser of both sides. -/
structure NodeFetch.Rules (ada : Ada) (node : NodeFetch) : Prop where
  headers : ∀ es, areFields es = true → node.headers es = true
  request : ∀ url method es body, withoutCredentials ada url = true → isNodeMethod method = true →
    areFields es = true → (body ≠ .null → method.map toUpperUnit ∉ [ascii "GET", ascii "HEAD"]) →
    node.request url method es body = true
  response : ∀ status statusText es body, 200 ≤ status → status ≤ 599 →
    statusText.all isReasonUnit = true → areFields es = true →
    (body ≠ .null → status ∉ [101, 103, 204, 205, 304]) →
    node.response status statusText es body = true
  /-- Another reason phrase is refused. -/
  reason : ∀ status statusText es body, node.response status statusText es body = true →
    statusText.all isReasonUnit = true

/-! ### Reading what was written -/

theorem bind_of_ok {α β : Type} {x : Des α} {f : α → Des β} {items rest : List Item} {a : α}
    (h : x items = .ok (a, rest)) : (x >>= f) items = f a rest := by
  show (x items >>= fun p => f p.1 p.2) = _
  rw [h]
  rfl

theorem decode_encoding {s : Units} (h : Utf16.isWellFormed s = true) :
    (Ipc.Utf8State.idle.decode (encoding s)).flatMap Utf16.units = s := by
  have hpieces := Utf8.pieces_flatMap (Utf16.scalars s) []
  rw [List.append_nil, Utf8.pieces_nil, List.append_nil] at hpieces
  have hchars : (Utf16.scalars s).map (Ipc.Utf8State.ofPiece ∘
      fun c => (some c, (String.utf8EncodeChar c).length)) = Utf16.scalars s :=
    List.map_id'' (fun _ => rfl) _
  rw [Ipc.Utf8State.decode_eq, encoding, hpieces, List.map_map, hchars, Utf16.flatMap_scalars,
    Utf16.toWellFormed_eq h]

/-- A text without an unpaired surrogate is read back. -/
theorem readStr_writeString {s : Units} (h : Utf16.isWellFormed s = true) (rest : List Item) :
    readStr (writeString s ++ rest) = .ok (s, rest) := by
  have hlen : readUint32 (writeString s ++ rest) =
      .ok ((encoding s).length, .bytes (encoding s) :: rest) := rfl
  have hbytes : readRawBytes (encoding s).length (.bytes (encoding s) :: rest) =
      .ok (encoding s, rest) := if_pos rfl
  rw [readStr, bind_of_ok hlen, bind_of_ok hbytes, decode_encoding h]
  rfl

theorem isWellFormed_latin1 {s : Units} (h : ∀ u ∈ s, u.toNat ≤ 0xFF) :
    Utf16.isWellFormed s = true := by
  induction s with
  | nil => rfl
  | cons u s ih =>
    have hu := h u List.mem_cons_self
    have hplain : Utf16.isSurrogate u = false := by
      rw [← Bool.not_eq_true, Utf16.isSurrogate_iff]
      omega
    rw [Utf16.isWellFormed_plain hplain, ih fun v hv => h v (List.mem_cons_of_mem _ hv)]

theorem pairsOf_interleave (es : Pairs) : pairsOf (NameValue.interleave es) = es := by
  induction es with
  | nil => rfl
  | cons e es ih => rw [NameValue.interleave_cons, pairsOf, ih]

theorem readHeaders_encodeHeaders {es : Pairs} {payload : List Item}
    (h : encodeHeaders (NameValue.interleave es) = .ok payload) (rest : List Item) :
    readHeaders (payload ++ rest) = .ok (es, rest) := by
  rw [encodeHeaders] at h
  split at h
  · cases h
  · next hodd =>
    split at h
    · cases h
    · next hmany =>
      obtain rfl := Except.ok.inj h
      rw [List.singleton_append, readHeaders, if_neg hodd, if_neg hmany, pairsOf_interleave]

/-- The inline body and the extras are read back: the body is there just when it was. -/
theorem readBody_encodeBody {leg : Leg} {b : Body} {item : Item} {bodyStream : Option Nat}
    (h : encodeBody leg b = .ok (item, bodyStream)) (rest : List Item) :
    ∃ body, readBody (item :: (writeExtras bodyStream ++ rest)) =
        .ok (body, writeExtras bodyStream ++ rest) ∧
      readExtras leg (writeExtras bodyStream ++ rest) = .ok (bodyStream, rest) ∧
      (bodyStream.elim body .stream ≠ .null → b ≠ .null) := by
  cases b with
  | null =>
    obtain ⟨rfl, rfl⟩ := Prod.mk.inj (Except.ok.inj h)
    exact ⟨.null, rfl, rfl, fun hb => absurd rfl hb⟩
  | text s =>
    obtain ⟨rfl, rfl⟩ := Prod.mk.inj (Except.ok.inj h)
    exact ⟨.text s, rfl, rfl, fun _ => by simp⟩
  | bytes bs =>
    obtain ⟨rfl, rfl⟩ := Prod.mk.inj (Except.ok.inj h)
    exact ⟨.bytes bs, rfl, rfl, fun _ => by simp⟩
  | stream =>
    cases leg with
    | result nextId =>
      obtain ⟨rfl, rfl⟩ := Prod.mk.inj (Except.ok.inj h)
      exact ⟨.null, rfl, rfl, fun _ => by simp⟩
    | other => cases h

/-! ### The rules of the sandbox beside those of Node -/

theorem isTchar_of_isTokenUnit {u : UInt16} (h : isTokenUnit u = true) : isTchar u = true := by
  have hall : ∀ n < 0x80, isTokenUnit (UInt16.ofNat n) = true →
      isTchar (UInt16.ofNat n) = true := by decide +kernel
  have hlt : u.toNat < 0x80 := by
    simp only [isTokenUnit, Bool.or_eq_true, Bool.and_eq_true, decide_eq_true_eq,
      List.contains_iff_mem, List.mem_cons, List.not_mem_nil, or_false] at h
    omega
  have hu := hall u.toNat hlt
  rw [UInt16.ofNat_toNat] at hu
  exact hu h

theorem isToken_of_units {n : Units} (hne : n ≠ []) (h : ∀ u ∈ n, isTokenUnit u = true) :
    isToken n = true := by
  rw [isToken, Bool.and_eq_true, decide_eq_true_eq, List.all_eq_true]
  exact ⟨hne, fun u hu => isTchar_of_isTokenUnit (h u hu)⟩

theorem toNat_ne {u v : UInt16} (h : u ≠ v) : u.toNat ≠ v.toNat :=
  fun heq => h (UInt16.toNat_inj.mp heq)

/-- CR and LF stand in no value, so its outside whitespace could only be blanks. -/
theorem isFieldValue_of_isValue {v : Units} (h : IsValue v) : isFieldValue v = true := by
  have hunit : ∀ u ∈ v, u.toNat ≠ 0x00 ∧ u.toNat ≠ 0x0D ∧ u.toNat ≠ 0x0A := by
    intro u hu
    have hforbidden := (h.allowed u hu).1
    simp only [isForbidden, Bool.or_eq_false_iff, decide_eq_false_iff_not] at hforbidden
    exact ⟨toNat_ne hforbidden.1.1, toNat_ne hforbidden.1.2, toNat_ne hforbidden.2⟩
  have hedge : ∀ u ∈ v, isBlank u = false → isWhitespace u = false := by
    intro u hu hblank
    simp only [isBlank, Bool.or_eq_false_iff, decide_eq_false_iff_not] at hblank
    have htab := toNat_ne hblank.1
    have hspace := toNat_ne hblank.2
    obtain ⟨-, hcr, hlf⟩ := hunit u hu
    rw [isWhitespace, ← Bool.not_eq_true, List.contains_iff_mem]
    simp only [List.mem_cons, List.not_mem_nil, or_false, not_or]
    exact ⟨htab, hlf, hcr, hspace⟩
  simp only [isFieldValue, Bool.and_eq_true, List.all_eq_true, Option.all_eq_true,
    Bool.not_eq_true', decide_eq_true_eq]
  refine ⟨⟨?_, ?_⟩, ?_⟩
  · intro u hu
    obtain ⟨hnul, hcr, hlf⟩ := hunit u hu
    refine ⟨(h.allowed u hu).2, ?_⟩
    rw [← Bool.not_eq_true, List.contains_iff_mem]
    simp only [List.mem_cons, List.not_mem_nil, or_false, not_or]
    exact ⟨hnul, hlf, hcr⟩
  · exact fun u hu => hedge u (List.mem_of_head? hu) (h.head u hu)
  · exact fun u hu => hedge u (List.mem_of_getLast? hu) (h.last u hu)

theorem areFields_of_validEntries {es : Pairs} (h : ValidEntries es) : areFields es = true := by
  rw [areFields, List.all_eq_true]
  intro e he
  obtain ⟨⟨hne, hunits⟩, hvalue⟩ := h e he
  rw [Bool.and_eq_true]
  exact ⟨isToken_of_units hne fun u hu => (hunits u hu).1, isFieldValue_of_isValue hvalue⟩

theorem isNodeMethod_of_isMethod {m : Units} (h : IsMethod m) : isNodeMethod m = true := by
  rw [isNodeMethod, Bool.and_eq_true, h.upper, Bool.not_eq_true', ← Bool.not_eq_true,
    List.contains_iff_mem]
  exact ⟨isToken_of_units h.ne_nil h.token, h.allowed⟩

theorem withoutCredentials_of_soundUrl {ada : Ada} (hada : ada.Documented) {u : Units}
    (h : SoundUrl ada u) : withoutCredentials ada u = true := by
  obtain ⟨url, rfl, husername, hpassword⟩ := h
  obtain ⟨url', hparse, hpart⟩ := hada.reparse url
  have hback : ada.urlParse (ada.components url .href) none = some (ada.components url) := by
    rw [Ada.urlParse, Ada.components, Utf16.scalars_flatMap, Option.map_none, hparse,
      Option.map_some]
    refine congrArg some (funext fun which => ?_)
    rw [Ada.components, Ada.components, hpart]
  rw [withoutCredentials, hback]
  simp [husername, hpassword]

/-- A status text is a reason phrase but for U+007F. -/
theorem isReason_iff {t : Units} (h : ∀ u ∈ t, 0x20 ≤ u.toNat ∧ u.toNat ≤ 0xFF) :
    t.all isReasonUnit = true ↔ 0x7F ∉ t := by
  rw [List.all_eq_true]
  constructor
  · intro hall hmem
    have hdelete := hall 0x7F hmem
    revert hdelete
    decide
  · intro hdelete u hu
    obtain ⟨hlow, hhigh⟩ := h u hu
    have hne : u.toNat ≠ 0x7F := by
      intro heq
      have hu' : u = 0x7F := UInt16.toNat_inj.mp heq
      exact hdelete (hu' ▸ hu)
    simp only [isReasonUnit, Bool.or_eq_true, Bool.and_eq_true, decide_eq_true_eq]
    omega

/-! ### Instances -/

section

variable {ada : Ada} {node : NodeFetch} {leg : Leg} {list : HeaderList} {payload : List Item}

theorem construct_of_accepted {accepted : Bool} (h : accepted = true) (value : NodeValue)
    (rest : List Item) : construct accepted value rest = .ok (value, rest) := if_pos h

theorem reads_headers (hnode : node.Rules ada) (hlist : ValidList list)
    (h : encodeHeaders list = .ok payload) (rest : List Item) :
    ∃ value, readHostType node leg (.u32 tagHeaders :: (payload ++ rest)) = .ok (value, rest) := by
  obtain ⟨es, hes, rfl⟩ := hlist
  have htag : readUint32 (.u32 tagHeaders :: (payload ++ rest)) =
      .ok (tagHeaders, payload ++ rest) := rfl
  refine ⟨.headers es, ?_⟩
  rw [readHostType, bind_of_ok htag, if_pos rfl, bind_of_ok (readHeaders_encodeHeaders h rest)]
  exact construct_of_accepted (hnode.headers es (areFields_of_validEntries hes)) _ rest

theorem reads_request (hada : ada.Documented) (hnode : node.Rules ada) {n : Nat} {r : Request}
    (hr : r.Sound ada n) (hlist : ValidList list) (h : encodeRequest leg list r = .ok payload)
    (rest : List Item) :
    ∃ value, readHostType node leg (.u32 tagRequest :: (payload ++ rest)) = .ok (value, rest) := by
  obtain ⟨es, hes, rfl⟩ := hlist
  obtain ⟨headers, hheaders, h⟩ := Wire.except_bind h
  obtain ⟨⟨item, bodyStream⟩, hbody, h⟩ := Wire.except_bind h
  obtain rfl := Except.ok.inj h
  obtain ⟨body, hread, hextras, -⟩ := readBody_encodeBody hbody rest
  have hurl : Utf16.isWellFormed r.u = true := by
    obtain ⟨url, hurl, -⟩ := hr.url
    rw [← hurl]
    exact Utf16.isWellFormed_flatMap _
  have hmethod : Utf16.isWellFormed r.m = true := by
    have hascii : ∀ u ∈ r.m, u.toNat < 0x80 := by
      intro u hu
      have hchar := isTchar_of_isTokenUnit (hr.method.token u hu)
      simp only [isTchar, Bool.and_eq_true, decide_eq_true_eq] at hchar
      omega
    have happend := isWellFormed_ascii hascii []
    rwa [List.append_nil] at happend
  have hnull : requestBody r.m body bodyStream ≠ .null →
      r.m.map toUpperUnit ∉ [ascii "GET", ascii "HEAD"] := by
    intro hne hmem
    exact hne (if_pos (List.contains_iff_mem.mpr hmem))
  have haccepted := hnode.request r.u r.m es (requestBody r.m body bodyStream)
    (withoutCredentials_of_soundUrl hada hr.url) (isNodeMethod_of_isMethod hr.method)
    (areFields_of_validEntries hes) hnull
  refine ⟨.request r.u r.m es (requestBody r.m body bodyStream), ?_⟩
  simp only [List.append_assoc, List.cons_append]
  rw [readHostType,
    bind_of_ok (show readUint32 (.u32 tagRequest :: _) = .ok (tagRequest, _) from rfl),
    if_neg (by decide), if_pos rfl, bind_of_ok (readStr_writeString hurl _),
    bind_of_ok (readStr_writeString hmethod _),
    bind_of_ok (readHeaders_encodeHeaders hheaders _), bind_of_ok hread, bind_of_ok hextras]
  exact construct_of_accepted haccepted _ rest

theorem reads_response_iff (hnode : node.Rules ada) {n : Nat} {r : Response} (hr : r.Sound n)
    (hlist : ValidList list) (h : encodeResponse leg list r = .ok payload) (rest : List Item) :
    (∃ value, readHostType node leg (.u32 tagResponse :: (payload ++ rest)) =
      .ok (value, rest)) ↔ (r.s = 0 ∨ 0x7F ∉ r.t) := by
  obtain ⟨es, hes, rfl⟩ := hlist
  obtain ⟨headers, hheaders, h⟩ := Wire.except_bind h
  obtain ⟨⟨item, bodyStream⟩, hbody, h⟩ := Wire.except_bind h
  obtain rfl := Except.ok.inj h
  obtain ⟨body, hread, hextras, hnull⟩ := readBody_encodeBody hbody rest
  have htext : Utf16.isWellFormed r.t = true := isWellFormed_latin1 fun u hu => (hr.text u hu).2
  simp only [List.append_assoc, List.cons_append]
  rw [readHostType,
    bind_of_ok (show readUint32 (.u32 tagResponse :: _) = .ok (tagResponse, _) from rfl),
    if_neg (by decide), if_neg (by decide), if_pos rfl,
    bind_of_ok (show readUint32 (.u32 r.s :: _) = .ok (r.s, _) from rfl),
    bind_of_ok (readStr_writeString htext _),
    bind_of_ok (readHeaders_encodeHeaders hheaders _), bind_of_ok hread, bind_of_ok hextras]
  by_cases hzero : r.s = 0
  · rw [if_pos hzero]
    exact ⟨fun _ => Or.inl hzero, fun _ => ⟨.error, rfl⟩⟩
  · rw [if_neg hzero, ← isReason_iff hr.text, or_iff_right hzero]
    obtain ⟨hge, hle, hstatus⟩ := hr.status.resolve_left hzero
    constructor
    · rintro ⟨value, hvalue⟩
      have haccepted : node.response r.s r.t es (bodyStream.elim body .stream) = true := by
        by_contra hrefused
        rw [construct, if_neg hrefused] at hvalue
        cases hvalue
      exact hnode.reason _ _ _ _ haccepted
    · intro hreason
      exact ⟨_, construct_of_accepted (hnode.response _ _ _ _ hge hle hreason
        (areFields_of_validEntries hes) fun hb => hstatus (hnull hb)) _ rest⟩

end

/-! ### Every run -/

/-- A response is that of `Response.error`, or its status text has no U+007F. -/
def Printable (w : World) (ref : Ref) : Prop :=
  ∀ i r, ref = .response i → w.responses[i]? = some r → r.s = 0 ∨ 0x7F ∉ r.t

theorem printable_headers (w : World) (i : Nat) : Printable w (.headers i) := by
  intro i' r hi
  cases hi

theorem printable_request (w : World) (i : Nat) : Printable w (.request i) := by
  intro i' r hi
  cases hi

/-- Whatever a guest does, what is written of its instances is read, up to what follows it, just
when it is printable. -/
theorem reads_iff {ada : Ada} {node : NodeFetch} (hada : ada.Documented) (hnode : node.Rules ada)
    (leg : Leg) (ops : List Op) (ref : Ref) {payload : List Item}
    (h : encode leg (Execution.exec (World.step ada) World.empty ops) ref = .ok payload)
    (rest : List Item) :
    (∃ value, readHostType node leg (payload ++ rest) = .ok (value, rest)) ↔
      Printable (Execution.exec (World.step ada) World.empty ops) ref := by
  have hsound := sound_exec ada ops
  generalize Execution.exec (World.step ada) World.empty ops = w at h hsound ⊢
  cases ref with
  | headers i =>
    cases hlist : w.headers[i]? with
    | none =>
      simp only [encode, hlist] at h
      cases h
    | some list =>
      simp only [encode, hlist] at h
      obtain ⟨payload', hpayload, rfl⟩ := World.ok_of_map h
      have hvalid := hsound.headers list (List.mem_of_getElem? hlist)
      refine ⟨fun _ => printable_headers w i, fun _ => ?_⟩
      rw [List.cons_append]
      exact reads_headers hnode hvalid hpayload rest
  | request i =>
    cases hr : w.requests[i]? with
    | none =>
      simp only [encode, hr] at h
      cases h
    | some r =>
      cases hlist : w.headers[r.h]? with
      | none =>
        simp only [encode, hr, hlist] at h
        cases h
      | some list =>
        simp only [encode, hr, hlist] at h
        obtain ⟨payload', hpayload, rfl⟩ := World.ok_of_map h
        have hvalid := hsound.headers list (List.mem_of_getElem? hlist)
        have hrequest := hsound.requests r (List.mem_of_getElem? hr)
        refine ⟨fun _ => printable_request w i, fun _ => ?_⟩
        rw [List.cons_append]
        exact reads_request hada hnode hrequest hvalid hpayload rest
  | response i =>
    cases hr : w.responses[i]? with
    | none =>
      simp only [encode, hr] at h
      cases h
    | some r =>
      cases hlist : w.headers[r.h]? with
      | none =>
        simp only [encode, hr, hlist] at h
        cases h
      | some list =>
        simp only [encode, hr, hlist] at h
        obtain ⟨payload', hpayload, rfl⟩ := World.ok_of_map h
        have hvalid := hsound.headers list (List.mem_of_getElem? hlist)
        have hresponse := hsound.responses r (List.mem_of_getElem? hr)
        rw [List.cons_append, reads_response_iff hnode hresponse hvalid hpayload rest]
        constructor
        · rintro hprintable i' r' hi' hr'
          obtain rfl : i = i' := Ref.response.inj hi'
          rw [hr, Option.some.injEq] at hr'
          rwa [← hr']
        · exact fun hprintable => hprintable i r rfl hr

/-! ### A response that is not read -/

/-- Classes that take what the rules allow and nothing else. -/
def plainNode : NodeFetch where
  headers := areFields
  request url method es body :=
    withoutCredentials plainAda url && isNodeMethod method && areFields es &&
      (body = .null || !([ascii "GET", ascii "HEAD"].contains (method.map toUpperUnit)))
  response status statusText es body :=
    200 ≤ status && status ≤ 599 && statusText.all isReasonUnit && areFields es &&
      (body = .null || !([101, 103, 204, 205, 304].contains status))

theorem plainNode_rules : plainNode.Rules plainAda where
  headers _ hes := hes
  request url method es body hurl hmethod hes hbody := by
    by_cases hnull : body = .null
    · simp [plainNode, hurl, hmethod, hes, hnull]
    · have hallowed : [ascii "GET", ascii "HEAD"].contains (method.map toUpperUnit) = false := by
        rw [← Bool.not_eq_true, List.contains_iff_mem]
        exact hbody hnull
      simp only [plainNode, hurl, hmethod, hes, hallowed, Bool.not_false, Bool.or_true,
        Bool.and_self]
  response status statusText es body hge hle htext hes hbody := by
    by_cases hnull : body = .null
    · simp [plainNode, hge, hle, htext, hes, hnull]
    · have hallowed : [101, 103, 204, 205, 304].contains status = false := by
        rw [← Bool.not_eq_true, List.contains_iff_mem]
        exact hbody hnull
      simp only [plainNode, hge, hle, htext, hes, hallowed, decide_true, Bool.not_false,
        Bool.or_true, Bool.and_self]
  reason status statusText es body h := by
    simp only [plainNode, Bool.and_eq_true] at h
    exact h.1.1.2

/-- A request with a body and a header, its clone, and a response with the status text `Ok`. -/
def sampleOps : List Op :=
  [.newRequest (ascii "http://a/b") ⟨some (ascii "post"),
      some (.record [(ascii "X-A", ascii " b ")]), .text (ascii "c"), none⟩,
    .cloneRequest 0,
    .headers 1 (.append (ascii "x-d") (ascii "e")),
    .newResponse .stream ⟨some (.int 201), some (ascii "Ok"), .headers 1⟩]

theorem reads_iff_sample : ∃ payload,
    encode (.result 0) (Execution.exec (World.step plainAda) World.empty sampleOps)
      (.response 0) = .ok payload ∧
    ∃ value, readHostType plainNode (.result 0) (payload ++ []) = .ok (value, []) := by
  refine ⟨_, rfl, (reads_iff PlainAda.documented plainNode_rules (.result 0) sampleOps
    (.response 0) rfl []).mpr ?_⟩
  rintro i r hi hr
  obtain rfl := Ref.response.inj hi
  obtain rfl := Option.some.inj hr
  exact Or.inr (by decide)

/-- `new Response(null, { statusText: '\x7F' })` is written, and the host throws. -/
theorem delete_not_read : ∃ (ada : Ada) (node : NodeFetch) (ops : List Op) (payload : List Item),
    ada.Documented ∧ node.Rules ada ∧
      encode .other (Execution.exec (World.step ada) World.empty ops) (.response 0) =
        .ok payload ∧
      readHostType node .other payload = .error .refused := by
  refine ⟨plainAda, plainNode, [.newResponse .absent ⟨none, some [0x7F], .absent⟩], _,
    PlainAda.documented, plainNode_rules, rfl, ?_⟩
  rfl

end FetchTypes

end Iso4
