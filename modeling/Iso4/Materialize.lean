/-
The pre-pass over a host value (`packages/iso4-sandbox/src/web-codec.ts`).

A value with a host type in it is copied: each `Request`, `Response` and `Headers` becomes a plain
object stamped with the session's brand key, its body read into bytes or registered as a stream,
and the objects around it are rebuilt with their identities kept in `seen`.  A value without one is
left as it is.

* `toDescriptor` — the stamped object of an instance;
* `hasHostType` — the scan that decides;
* `transform`, `materializeHostTypes` — the copy.
-/
import Iso4.HostValues
import Iso4.StreamSources

namespace Iso4

open Graph Js

/-! ### The brand key -/

def brandPrefix : String := "__iso4_ht_"

def tagHeaders : Nat := 1
def tagRequest : Nat := 2
def tagResponse : Nat := 3

/-- Two hex digits. -/
def hexByte (b : UInt8) : List Char := [(b.toNat / 16).digitChar, (b.toNat % 16).digitChar]

def brandKeyForToken (token : List UInt8) : String :=
  brandPrefix ++ String.ofList (token.flatMap hexByte)

/-! ### Bodies and header lists -/

/-- A registered body: what was probed, and what its reader still yields. -/
structure BodySource where
  probed : List (List UInt8)
  rest : List (List UInt8)
  failure : Option String
  deriving DecidableEq

/-- The registered bodies of a run, each under an id of its own. -/
structure StreamSourceRegistry where
  nextId : Nat
  sources : List (Nat × BodySource)
  below : ∀ entry ∈ sources, entry.1 < nextId
  nodup : (sources.map Prod.fst).Nodup

namespace StreamSourceRegistry

def new : StreamSourceRegistry := ⟨1, [], by simp, by simp⟩

def register (streams : StreamSourceRegistry) (source : BodySource) : Nat × StreamSourceRegistry :=
  (streams.nextId,
    { nextId := streams.nextId + 1
      sources := streams.sources ++ [(streams.nextId, source)]
      below := by
        intro entry hentry
        rcases List.mem_append.mp hentry with h | h
        · exact Nat.lt_succ_of_lt (streams.below entry h)
        · rw [List.mem_singleton.mp h]
          exact Nat.lt_succ_self _
      nodup := by
        rw [List.map_append, List.nodup_append]
        refine ⟨streams.nodup, by simp, fun id hid other hother heq => ?_⟩
        obtain ⟨entry, hentry, rfl⟩ := List.mem_map.mp hid
        rw [List.map_singleton, List.mem_singleton] at hother
        exact absurd (streams.below entry hentry) (Nat.not_lt.mpr (heq.trans hother).ge) })

end StreamSourceRegistry

def maxHeaderEntries : Nat := 1024

/-- The entries as a flat list, cookies last. -/
def flatHeaders (headers : HostHeaders) : Except String (List String) :=
  let flat := (headers.filter fun entry => entry.1 ≠ "set-cookie") ++
    headers.filter fun entry => entry.1 = "set-cookie"
  if flat.length > maxHeaderEntries then
    .error ("[iso4] Headers has " ++ toString flat.length ++ " entries, exceeding the " ++
      toString maxHeaderEntries ++ " limit")
  else .ok (flat.flatMap fun entry => [entry.1, entry.2])

def maxBodyBytes : Nat := 16 * 1024 * 1024

/-- How reading a body ends. -/
inductive Probe where
  | ended (chunks : List (List UInt8))
  | outgrown (source : BodySource)
  | failed (error : String)
  deriving DecidableEq

/-- Read until the body ends, fails or outgrows the limit. -/
def probe (limit : Nat) (failure : Option String) :
    List (List UInt8) → List (List UInt8) → Probe
  | [], read =>
    match failure with
    | none => .ended read
    | some error => .failed error
  | chunk :: rest, read =>
    let read := read ++ [chunk]
    if read.flatten.length > limit then .outgrown ⟨read, rest, failure⟩
    else probe limit failure rest read

inductive MaterializedBody where
  | null
  | bytes (data : List UInt8)
  | stream (id : Nat)
  deriving DecidableEq

def materializeBody (source : HostBody) (streams : Option StreamSourceRegistry) :
    Except String (MaterializedBody × Option StreamSourceRegistry) :=
  if source.bodyUsed then
    .error ("[iso4] cannot serialize a Request/Response whose body was already read — " ++
      "pass a fresh instance (cache the bytes, not the object)")
  else
    match source.stream with
    | none => .ok (.null, streams)
    | some (chunks, failure) =>
      let limit := if streams.isNone then maxBodyBytes else streamProbeBytes
      match probe limit failure chunks [] with
      | .failed error => .error error
      | .ended read => .ok (if read.flatten = [] then .null else .bytes read.flatten, streams)
      | .outgrown rest =>
        match streams with
        | some streams =>
          let (id, streams) := streams.register rest
          .ok (.stream id, some streams)
        | none =>
          .error ("[iso4] body exceeds " ++ toString maxBodyBytes ++
            " bytes; a Request/Response crossing the " ++
            "boundary must be bounded — buffer and truncate it first")

/-! ### Descriptors -/

inductive Halt where
  | thrown (message : String)
  | fuel
  deriving DecidableEq

/-- The state of a copy; `seen` keeps the stand-in of every object. -/
structure Copying where
  heap : List (JsObject JsValue)
  seen : Nat → Option Nat
  streams : Option StreamSourceRegistry

namespace Copying

def alloc (st : Copying) (o : JsObject JsValue) : Copying := { st with heap := st.heap ++ [o] }

def mark (st : Copying) (a b : Nat) : Copying :=
  { st with seen := fun c => if c = a then some b else st.seen c }

def write (st : Copying) (b : Nat) (o : JsObject JsValue) : Copying :=
  { st with heap := st.heap.set b o }

end Copying

def str (s : String) : JsValue := .prim (.string s)

/-- The own fields of an instance in its descriptor, before its header list. -/
def HostInstance.fields : HostInstance → Nat × List (String × JsValue)
  | .headers _ => (tagHeaders, [])
  | .request url method _ _ => (tagRequest, [("url", str url), ("method", str method)])
  | .response status statusText _ _ =>
    (tagResponse, [("status", .prim (.int status.toNat)), ("statusText", str statusText)])

def HostInstance.entries : HostInstance → HostHeaders
  | .headers entries | .request _ _ entries _ | .response _ _ entries _ => entries

def HostInstance.body : HostInstance → Option HostBody
  | .headers _ => none
  | .request _ _ _ body | .response _ _ _ body => some body

/-- The header list and the body of an instance. -/
def describe (i : HostInstance) (streams : Option StreamSourceRegistry) :
    Except String (List String × MaterializedBody × Option StreamSourceRegistry) := do
  let headers ← flatHeaders i.entries
  match i.body with
  | none => return (headers, .null, streams)
  | some body =>
    let (body, streams) ← materializeBody body streams
    return (headers, body, streams)

/-- Bytes are an object of their own. -/
def bodyFields (st : Copying) : MaterializedBody → List (String × JsValue) × Copying
  | .null => ([("body", .prim .null)], st)
  | .bytes data =>
    ([("body", .ref st.heap.length)], st.alloc (.native (.buffer .uint8Array data)))
  | .stream id => ([("body", .prim .null), ("bodyStream", .prim (.int id))], st)

/-- The stamped object of an instance. -/
def toDescriptor (brandKey : String) (i : HostInstance) (st : Copying) :
    Except Halt (Nat × Copying) :=
  match describe i st.streams with
  | .error message => .error (.thrown message)
  | .ok (headers, body, streams) =>
    let list := st.heap.length
    let st := { st with streams }.alloc (.array (headers.map fun s => some (str s)) [])
    let fields := bodyFields st body
    let props := (brandKey, .prim (.int i.fields.1)) ::
      (i.fields.2 ++ ("headers", .ref list) :: fields.1)
    .ok (fields.2.heap.length, fields.2.alloc (.record true props))

/-! ### The scan -/

/-- A host type, or a proxy: V8 refuses to clone one, and a copy reads through its traps. -/
def JsObject.forcesCopy {V : Type} : JsObject V → Bool
  | .host _ => true
  | .refused proxy _ => proxy
  | _ => false

def refs (values : List JsValue) : List Nat :=
  values.filterMap fun v => match v with
    | .ref a => some a
    | .prim _ => none

/-- One round pops what was seen and scans one object; there are as many as objects. -/
def scan (heap : List (JsObject JsValue)) : Nat → List Nat → List Nat → Bool
  | 0, _, _ => false
  | fuel + 1, stack, seen =>
    match stack.dropWhile fun a => seen.contains a || heap.length ≤ a with
    | [] => false
    | a :: stack =>
      match heap[a]? with
      | none => false
      | some o =>
        if o.forcesCopy then true
        else scan heap fuel ((refs o.walked).reverse ++ stack) (a :: seen)

def hasHostType (heap : List (JsObject JsValue)) (v : JsValue) : Bool :=
  scan heap (heap.length + 1) (refs [v]) []

/-! ### The copy -/

/-- The values of an object, one after the other. -/
def transformAll (visit : JsValue → Copying → Except Halt (JsValue × Copying)) :
    List JsValue → Copying → Except Halt (List JsValue × Copying)
  | [], st => .ok ([], st)
  | v :: rest, st => do
    let (w, st) ← visit v st
    let (ws, st) ← transformAll visit rest st
    return (w :: ws, st)

/-- The stand-in of a value.  The copy of an object is in `seen` before its values are visited, and
is written when they all are: nothing reads it in between. -/
def transform (brandKey : String) : Nat → JsValue → Copying → Except Halt (JsValue × Copying)
  | _, .prim p, st => .ok (.prim p, st)
  | 0, .ref _, _ => .error .fuel
  | fuel + 1, .ref a, st =>
    match st.seen a with
    | some b => .ok (.ref b, st)
    | none =>
      match st.heap[a]? with
      | none => .ok (.ref a, st)
      | some (.host i) => do
        let (b, st) ← toDescriptor brandKey i st
        return (.ref b, st.mark a b)
      | some (.refused _ .throws) =>
        .error (.thrown "entries called on incompatible receiver")
      | some o =>
        if o.isKept then .ok (.ref a, st)
        else do
          let b := st.heap.length
          let (ws, st) ← transformAll (transform brandKey fuel) o.walked
            ((st.alloc (.record false [])).mark a b)
          return (.ref b, st.write b (o.rebuilt ws))

/-- Replace the host types of a value. -/
def materializeHostTypes (brandKey : String) (heap : List (JsObject JsValue)) (v : JsValue)
    (streams : Option StreamSourceRegistry) : Except Halt (JsValue × Copying) :=
  let st : Copying := ⟨heap, fun _ => none, streams⟩
  if !hasHostType heap v then .ok (v, st)
  else transform brandKey (heap.length + 1) v st

end Iso4
