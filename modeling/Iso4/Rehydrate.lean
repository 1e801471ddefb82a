/-
The walk over a received value (`crates/core/src/webcodec.rs`).

In the sandbox every stamped object is replaced by an instance, in place: containers are taken from
a worklist, their values visited, and written back where a value was replaced; a Map or Set is
cleared and filled again in its order.  `seen` maps each object to what stands for it.

* `buildFromDescriptor` — the instance of a stamped object;
* `visit` — one value;
* `rehydrate` — the walk.
-/
import Iso4.Materialize

namespace Iso4

open Graph Js

/-- The errors of the codec. -/
inductive CodecError where
  | unsupported (message : String)
  | malformed (what : String)
  | fuel
  deriving DecidableEq

def CodecError.message : CodecError → String
  | .unsupported message => message
  | .malformed what => "host-type payload is malformed: " ++ what
  | .fuel => ""

/-- The state of a walk; `hydrated` are the streams of the run's table. -/
structure Walking where
  heap : List (JsObject JsValue)
  seen : Nat → Option Nat
  pending : List Nat
  hydrated : List Nat

namespace Walking

def alloc (st : Walking) (o : JsObject JsValue) : Nat × Walking :=
  (st.heap.length, { st with heap := st.heap ++ [o] })

def mark (st : Walking) (a b : Nat) : Walking :=
  { st with seen := fun c => if c = a then some b else st.seen c }

def write (st : Walking) (b : Nat) (o : JsObject JsValue) : Walking :=
  { st with heap := st.heap.set b o }

end Walking

def tagName (tag : Nat) : String :=
  match tag with
  | 1 => "Headers"
  | 2 => "Request"
  | 3 => "Response"
  | 4 => "ReadableStream"
  | 5 => "WritableStream"
  | 6 => "WebSocket"
  | 7 => "AbortSignal"
  | _ => "unknown type"

section Walk

variable (brandKey : String) (running : Bool)

/-! ### Descriptors -/

/-- `value.is_uint32()`, of an own property. -/
def uint32Field (props : List (String × JsValue)) (name : String) : Option Nat :=
  match props.lookup name with
  | some (.prim p) => p.uint32
  | _ => none

/-- The tag of a stamped object. -/
def brandOf : JsObject JsValue → Option Nat
  | .record _ props => uint32Field props brandKey
  | _ => none

def descriptorField (props : List (String × JsValue)) (name : String) : JsValue :=
  (props.lookup name).getD undefined

/-- `value.uint32_value()` of a number. -/
def uint32Value : JsValue → Option Nat
  | .prim (.number x) => some x.toInt32
  | _ => none

def checkBody (heap : List (JsObject JsValue)) (body : JsValue) : Except CodecError JsValue :=
  let ok := match body with
    | .prim .null | .prim .undefined | .prim (.string _) => true
    | .ref a =>
      match heap[a]? with
      | some (.native (.buffer .uint8Array _)) => true
      | _ => false
    | _ => false
  if ok then .ok body
  else .error (.unsupported ("body must be null, a string, or a Uint8Array — a stream cannot cross " ++
    "the sandbox boundary; buffer it first (await res.arrayBuffer())"))

/-- The body of a descriptor: the stream of its handle, or the inline one. -/
def hydratedBody (props : List (String × JsValue)) (st : Walking) :
    Except CodecError (JsValue × Walking) :=
  match uint32Field props "bodyStream" with
  | some id =>
    if !running then
      .error (.unsupported "a streamed body can only be delivered to a running sandbox")
    else
      let (a, st) := { st with hydrated := st.hydrated ++ [id] }.alloc (.bodyStream id)
      .ok (.ref a, st)
  | none => do
    let body ← checkBody st.heap (descriptorField props "body")
    return (body, st)

/-- The flat list of a descriptor's headers, by its length. -/
def headerList (heap : List (JsObject JsValue)) (headers : JsValue) : Except CodecError Unit :=
  match headers with
  | .ref a =>
    match heap[a]? with
    | some (.array elements _) =>
      if elements.length % 2 ≠ 0 then .error (.malformed "descriptor headers has an odd length")
      else if elements.length / 2 > maxHeaderEntries then
        .error (.unsupported ("descriptor declares " ++ toString (elements.length / 2) ++
          " header entries, exceeding the " ++ toString maxHeaderEntries ++ " limit"))
      else .ok ()
    | _ => .error (.malformed "descriptor headers is not an array")
  | _ => .error (.malformed "descriptor headers is not an array")

def buildFromDescriptor (props : List (String × JsValue)) (tag : Nat) (st : Walking) :
    Except CodecError (Nat × Walking) := do
  let list := descriptorField props "headers"
  headerList st.heap list
  let (headers, st) := st.alloc (.headers list)
  match tag with
  | 1 => return (headers, st)
  | 2 =>
    let (body, st) ← hydratedBody running props st
    return st.alloc (.request (descriptorField props "url") (descriptorField props "method")
      (.ref headers) body)
  | 3 =>
    let status := (uint32Value (descriptorField props "status")).getD 200
    let (body, st) ← hydratedBody running props st
    return st.alloc (.response status (descriptorField props "statusText") (.ref headers) body)
  | _ =>
    .error (.unsupported ("received a " ++ tagName tag ++ " descriptor (tag " ++ toString tag ++
      "); this build cannot materialise one"))

/-! ### Values -/

def JsObject.isBuffer {V : Type} : JsObject V → Bool
  | .native (.buffer _ _) => true
  | _ => false

/-- `Some` is the value to write in its place, `None` leaves it. -/
def visit (v : JsValue) (st : Walking) : Except CodecError (Option JsValue × Walking) :=
  match v with
  | .prim _ => .ok (none, st)
  | .ref a =>
    match st.heap[a]? with
    | none => .ok (none, st)
    | some o =>
      if o.isBuffer then .ok (none, st)
      else
        match st.seen a with
        | some b => .ok (if b = a then none else some (.ref b), st)
        | none =>
          match o, brandOf brandKey o with
          | .record _ props, some tag => do
            let (b, st) ← buildFromDescriptor running props tag st
            return (some (.ref b), st.mark a b)
          | _, _ => .ok (none, { st.mark a a with pending := a :: st.pending })

def visitAll : List JsValue → Walking → Except CodecError (List (Option JsValue) × Walking)
  | [], st => .ok ([], st)
  | v :: rest, st => do
    let (w, st) ← visit brandKey running v st
    let (ws, st) ← visitAll rest st
    return (w :: ws, st)

/-! ### Containers -/

/-- The values of an object the walk goes through: its own enumerable properties, the elements of an
array or a Set, the entries of a Map. -/
def JsObject.visited : JsObject JsValue → List JsValue
  | .map entries => entries.flatMap fun entry => [entry.1, entry.2]
  | .set items => items
  | .array elements _ => elements.map fun element => element.getD undefined
  | .record _ props | .boxed _ props => props.map Prod.snd
  | _ => []

/-- The values after the visit. -/
def replaced (values : List JsValue) (stands : List (Option JsValue)) : List JsValue :=
  List.zipWith (fun v stand => stand.getD v) values stands

/-- `obj[key] = replaced`, for a property that is. -/
def replaceProp (props : List (String × JsValue)) (prop : String × JsValue) (stand : Option JsValue) :
    List (String × JsValue) :=
  match stand with
  | none => props
  | some w => setProp props prop.1 w

def replaceProps (props : List (String × JsValue)) (stands : List (Option JsValue)) :
    List (String × JsValue) :=
  (props.zip stands).foldl (fun all entry => replaceProp all entry.1 entry.2) props

/-- The object with the replaced values; a Map or Set of which one is replaced is rebuilt. -/
def JsObject.refilled (o : JsObject JsValue) (stands : List (Option JsValue)) : JsObject JsValue :=
  if stands.all Option.isNone then o
  else
    match o with
    | .map entries =>
      .map ((pairs (replaced (entries.flatMap fun entry => [entry.1, entry.2]) stands)).foldl
        (fun entries entry => mapSet entries entry.1 entry.2) [])
    | .set items => .set ((replaced items stands).foldl setAdd [])
    | .array elements named =>
      .array (List.zipWith (fun element stand => if Option.isSome stand then stand else element)
        elements stands) named
    | .record ordinary props => .record ordinary (replaceProps props stands)
    | .boxed value props => .boxed value (replaceProps props stands)
    | o => o

/-- Take containers from the worklist until it is empty. -/
def walk : Nat → Walking → Except CodecError Walking
  | 0, _ => .error .fuel
  | fuel + 1, st =>
    match st.pending with
    | [] => .ok st
    | a :: rest =>
      match st.heap[a]? with
      | none => walk fuel { st with pending := rest }
      | some o => do
        let (stands, st) ← visitAll brandKey running o.visited { st with pending := rest }
        walk fuel (st.write a (o.refilled stands))

/-- Replace every stamped object of a value. -/
def rehydrate (heap : List (JsObject JsValue)) (v : JsValue) :
    Except CodecError (JsValue × Walking) := do
  let (stand, st) ← visit brandKey running v ⟨heap, fun _ => none, [], []⟩
  match stand with
  | some w => return (w, st)
  | none =>
    let st ← walk brandKey running (heap.length + 1) st
    return (v, st)

end Walk

end Iso4
