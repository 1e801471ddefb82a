/-
`Request` and `Response` of the sandbox (`crates/core/src/webtypes.js`), with the constructor of
`Headers` and the bodies they take.

* `FetchTypes.World` — the instances a guest has made, their `Headers` by address;
* `FetchTypes.World.apply` — the constructors, the setters and `clone`; what throws leaves all as
  it was;
* `FetchTypes.World.Sound` — the form of the lists, URLs, methods, statuses and status texts;
* `FetchTypes.sound_exec` — it holds whatever a guest does.
-/
import Iso4.HeaderLists
import Iso4.LinkedParams
import Iso4.Lib.Execution

namespace Iso4

namespace FetchTypes

open Ipc (Blob)
open WebTypes

/-- The units of an ASCII text. -/
def ascii (s : String) : Units := s.toList.map fun c => UInt16.ofNat c.toNat

/-! ### Errors -/

/-- What `Number` makes of a status. -/
inductive Status where
  | int (n : Int)
  /-- A fraction, an infinity or NaN. -/
  | other
  deriving DecidableEq

/-- What is thrown, with the texts in the message. -/
inductive FetchError where
  | header (e : HeaderError)
  /-- `Headers: each entry must have two elements`. -/
  | entryLength
  /-- `Headers: invalid initializer`. -/
  | initializer
  /-- `Invalid URL`. -/
  | invalidUrl (input : Units)
  /-- `Request cannot be constructed from a URL that includes credentials`. -/
  | credentials
  /-- `Invalid method`. -/
  | invalidMethod (m : Units)
  /-- `… HTTP method is unsupported`. -/
  | unsupportedMethod (m : Units)
  /-- `Request with … method cannot have a body`. -/
  | methodBody (m : Units)
  /-- A `RangeError`: `Response status … is outside the range [200, 599]`. -/
  | statusRange (status : Status)
  /-- `Response with status … cannot have a body`. -/
  | statusBody (status : Nat)
  /-- `Invalid statusText`. -/
  | invalidStatusText (text : Units)
  /-- `A ReadableStream body cannot cross the sandbox boundary — buffer it first`. -/
  | readableStream
  /-- Of `encodeURIComponent`. -/
  | uriError
  /-- `Body has already been consumed`. -/
  | consumed
  /-- `Value is not JSON serializable`. -/
  | notSerializable
  /-- A `RangeError`: `Invalid redirect status`. -/
  | redirectStatus (status : Status)
  deriving DecidableEq

/-! ### `Headers` -/

/-- What a `Headers` is made of. -/
inductive HeadersInit where
  /-- `undefined` or `null`. -/
  | absent
  | headers (h : Nat)
  /-- An array; nothing for an entry that is falsy or has not two elements. -/
  | entries (es : List (Option (Units × Units)))
  | record (es : Pairs)
  /-- No object. -/
  | invalid

/-- Appends the entries one after the other. -/
def appendAll : HeaderList → List (Option (Units × Units)) → Except FetchError HeaderList
  | l, [] => .ok l
  | _, none :: _ => .error .entryLength
  | l, some (name, value) :: es => do
    let l ← (l.append name value).mapError .header
    appendAll l es

/-- The list of a new `Headers`. -/
def newHeaders (lists : List HeaderList) : HeadersInit → Except FetchError HeaderList
  | .absent => .ok []
  | .headers h => .ok (lists.getD h [])
  | .entries es => appendAll [] es
  | .record es => appendAll [] (es.map some)
  | .invalid => .error .initializer

/-! ### Bodies -/

/-- `_b`.  Of an `Iso4BodyStream` the codec asks no more than whether it is one. -/
inductive Body where
  | null
  | text (s : Units)
  | bytes (b : Blob)
  | stream
  deriving DecidableEq

/-- A body that is given to a constructor. -/
inductive BodyInit where
  /-- `undefined` or `null`. -/
  | absent
  | text (s : Units)
  | params (p : Pairs)
  /-- The bytes of a view or an `ArrayBuffer`. -/
  | bytes (b : Blob)
  /-- An `Iso4BodyStream`, or an async iterable, which is wrapped in one. -/
  | stream
  /-- Another object with `getReader`. -/
  | reader
  /-- Anything else, as `String` writes it. -/
  | other (s : Units)
  deriving DecidableEq

def contentType : Units := ascii "content-type"

/-- Sets the content type where there is none. -/
def setContentType (headers : HeaderList) (type : Units) : Except FetchError HeaderList := do
  let has ← (headers.has contentType).mapError .header
  if has = true then pure headers else (headers.set contentType type).mapError .header

def bodyInit (headers : HeaderList) : BodyInit → Except FetchError (Body × HeaderList)
  | .absent => .ok (.null, headers)
  | .text s => do
    let headers ← setContentType headers (ascii "text/plain;charset=UTF-8")
    pure (.text s, headers)
  | .params p => do
    let headers ← setContentType headers
      (ascii "application/x-www-form-urlencoded;charset=UTF-8")
    match toQuery p with
    | none => .error .uriError
    | some s => pure (.text s, headers)
  | .bytes b => .ok (.bytes b, headers)
  | .stream => .ok (.stream, headers)
  | .reader => .error .readableStream
  | .other s => .ok (.text s, headers)

/-! ### Instances -/

structure Request where
  u : Units
  m : Units
  /-- The address of the `Headers`. -/
  h : Nat
  b : Body
  used : Bool
  x : Option Units

structure Response where
  s : Nat
  t : Units
  h : Nat
  b : Body
  used : Bool

/-- What a guest has made. -/
structure World where
  headers : List HeaderList
  requests : List Request
  responses : List Response

def World.empty : World := ⟨[], [], []⟩

/-! ### `Request` -/

def isLower (u : UInt16) : Bool := 0x61 ≤ u.toNat && u.toNat ≤ 0x7A

/-- `toUpperCase`, on a token. -/
def toUpperUnit (u : UInt16) : UInt16 := if isLower u then UInt16.ofNat (u.toNat - 0x20) else u

def forbiddenBodyMethods : List Units := [ascii "GET", ascii "HEAD"]

def forbiddenMethods : List Units := [ascii "CONNECT", ascii "TRACE", ascii "TRACK"]

/-- The second argument; `headers` may be `undefined`. -/
structure RequestInit where
  method : Option Units
  headers : Option HeadersInit
  body : BodyInit
  redirect : Option Units

/-- What the constructor takes from its first argument. -/
structure Input where
  url : Units
  method : Units
  headersInit : HeadersInit
  body : Body

/-- From a string, or what `String` makes of an argument. -/
def urlInput (ada : Ada) (input : Units) : Except FetchError Input :=
  match ada.urlParse input none with
  | none => .error (.invalidUrl input)
  | some parsed =>
    if parsed .username ≠ [] ∨ parsed .password ≠ [] then .error .credentials
    else .ok ⟨parsed .href, ascii "GET", .absent, .null⟩

/-- From a `Request`. -/
def Request.input (r : Request) : Input := ⟨r.u, r.m, .headers r.h, r.b⟩

def initMethod (method : Units) : Option Units → Except FetchError Units
  | none => .ok method
  | some m =>
    if m = [] ∨ m.all isTokenUnit = false then .error (.invalidMethod m)
    else if forbiddenMethods.contains (m.map toUpperUnit) = true then
      .error (.unsupportedMethod (m.map toUpperUnit))
    else .ok (m.map toUpperUnit)

def initBody (method : Units) (headers : HeaderList) (body : Body) (init : BodyInit) :
    Except FetchError (Body × HeaderList) :=
  if init ≠ .absent then
    if forbiddenBodyMethods.contains method = true then .error (.methodBody method)
    else bodyInit headers init
  else if body ≠ .null ∧ forbiddenBodyMethods.contains method = true then .ok (.null, headers)
  else .ok (body, headers)

/-- The constructor: the instance, and the list of its new `Headers`. -/
def newRequest (w : World) (input : Input) (init : RequestInit) :
    Except FetchError (Request × HeaderList) := do
  let method ← initMethod input.method init.method
  let headers ← newHeaders w.headers (init.headers.getD input.headersInit)
  let (body, headers) ← initBody method headers input.body init.body
  pure (⟨input.url, method, w.headers.length, body, false, init.redirect⟩, headers)

/-- `clone`; of a stream both have a branch. -/
def Request.clone (ada : Ada) (w : World) (r : Request) :
    Except FetchError (Request × HeaderList) :=
  if r.used = true then .error .consumed
  else do
    let input ← urlInput ada r.u
    let (copy, headers) ← newRequest w input ⟨some r.m, some (.headers r.h), .absent, none⟩
    pure ({ copy with b := r.b, x := r.x }, headers)

/-! ### `Response` -/

def nullBodyStatus : List Nat := [101, 103, 204, 205, 304]

structure ResponseInit where
  status : Option Status
  statusText : Option Units
  headers : HeadersInit

def checkStatus : Option Status → Except FetchError Nat
  | none => .ok 200
  | some (.int n) =>
    if n < 200 ∨ 599 < n then .error (.statusRange (.int n)) else .ok n.toNat
  | some .other => .error (.statusRange .other)

def newResponse (w : World) (body : BodyInit) (init : ResponseInit) :
    Except FetchError (Response × HeaderList) := do
  let status ← checkStatus init.status
  if body ≠ .absent ∧ status ∈ nullBodyStatus then .error (.statusBody status)
  else
    let statusText := init.statusText.getD []
    if statusText.any (fun u => u.toNat ≤ 0x1F) = true ∨
        statusText.all (fun u => u.toNat ≤ 0xFF) = false then .error (.invalidStatusText statusText)
    else
      let headers ← newHeaders w.headers init.headers
      let (body, headers) ← bodyInit headers body
      pure (⟨status, statusText, w.headers.length, body, false⟩, headers)

def Response.clone (w : World) (r : Response) : Except FetchError (Response × HeaderList) :=
  if r.used = true then .error .consumed
  else do
    let status := if r.s = 0 then 200 else r.s
    let (copy, headers) ← newResponse w .absent ⟨some (.int status), some r.t, .headers r.h⟩
    pure ({ copy with s := r.s, b := r.b }, headers)

/-- `Response.error`. -/
def errorResponse (w : World) : Except FetchError (Response × HeaderList) := do
  let (r, headers) ← newResponse w .absent ⟨some (.int 200), none, .absent⟩
  pure ({ r with s := 0 }, headers)

/-- `Response.redirect`. -/
def redirect (ada : Ada) (w : World) (url : Units) (status : Option Status) :
    Except FetchError (Response × HeaderList) :=
  let status := status.getD (.int 302)
  if status ∉ [301, 302, 303, 307, 308].map Status.int then .error (.redirectStatus status)
  else
    match ada.urlParse url none with
    | none => .error (.invalidUrl url)
    | some parsed =>
      newResponse w .absent ⟨some status, none, .record [(ascii "location", parsed .href)]⟩

/-! ### What a guest does -/

inductive Op where
  | newHeaders (init : HeadersInit)
  /-- A method of the `Headers` at an address. -/
  | headers (h : Nat) (call : HeadersCall)
  | newRequest (input : Units) (init : RequestInit)
  /-- The constructor, on the request at an address. -/
  | fromRequest (i : Nat) (init : RequestInit)
  | cloneRequest (i : Nat)
  /-- `text`, `json`, `bytes` or `arrayBuffer`. -/
  | consumeRequest (i : Nat)
  | newResponse (body : BodyInit) (init : ResponseInit)
  | cloneResponse (i : Nat)
  | consumeResponse (i : Nat)
  /-- `Response.json`, with what `JSON.stringify` gives. -/
  | json (data : Option Units) (init : ResponseInit)
  | error
  | redirect (url : Units) (status : Option Status)

namespace World

def addRequest (w : World) (made : Request × HeaderList) : World :=
  { w with headers := w.headers ++ [made.2], requests := w.requests ++ [made.1] }

def addResponse (w : World) (made : Response × HeaderList) : World :=
  { w with headers := w.headers ++ [made.2], responses := w.responses ++ [made.1] }

/-- `Response.json`; the `Headers` it makes first are copied by the constructor. -/
def json (w : World) (data : Option Units) (init : ResponseInit) : Except FetchError World :=
  match data with
  | none => .error .notSerializable
  | some body => do
    let headers ← FetchTypes.newHeaders w.headers init.headers
    let headers ← setContentType headers (ascii "application/json")
    let w' : World := { w with headers := w.headers ++ [headers] }
    let made ← FetchTypes.newResponse w' (.text body)
      { init with headers := .headers w.headers.length }
    pure (w'.addResponse made)

/-- At an address that no instance has there is nothing to do. -/
def apply (ada : Ada) (w : World) : Op → Except FetchError World
  | .newHeaders init => do
    let l ← FetchTypes.newHeaders w.headers init
    pure { w with headers := w.headers ++ [l] }
  | .headers h call =>
    .ok { w with headers := w.headers.modify h fun l => (l.step call).1 }
  | .newRequest input init => do
    let input ← urlInput ada input
    let made ← FetchTypes.newRequest w input init
    pure (w.addRequest made)
  | .fromRequest i init =>
    match w.requests[i]? with
    | none => .ok w
    | some r => w.addRequest <$> FetchTypes.newRequest w r.input init
  | .cloneRequest i =>
    match w.requests[i]? with
    | none => .ok w
    | some r => w.addRequest <$> r.clone ada w
  | .consumeRequest i =>
    match w.requests[i]? with
    | none => .ok w
    | some r =>
      if r.used = true then .error .consumed
      else .ok { w with requests := w.requests.set i { r with used := true, b := .null } }
  | .newResponse body init => w.addResponse <$> FetchTypes.newResponse w body init
  | .cloneResponse i =>
    match w.responses[i]? with
    | none => .ok w
    | some r => w.addResponse <$> r.clone w
  | .consumeResponse i =>
    match w.responses[i]? with
    | none => .ok w
    | some r =>
      if r.used = true then .error .consumed
      else .ok { w with responses := w.responses.set i { r with used := true, b := .null } }
  | .json data init => w.json data init
  | .error => w.addResponse <$> errorResponse w
  | .redirect url status => w.addResponse <$> FetchTypes.redirect ada w url status

/-- What throws makes nothing. -/
def step (ada : Ada) (w : World) (op : Op) : World :=
  match w.apply ada op with
  | .ok w' => w'
  | .error _ => w

end World

/-! ### The form of the instances -/

/-- A flat list of names and values. -/
def ValidList (l : HeaderList) : Prop := ∃ es, ValidEntries es ∧ l = NameValue.interleave es

/-- The `href` of a URL without credentials. -/
def SoundUrl (ada : Ada) (u : Units) : Prop :=
  ∃ url, ada.components url .href = u ∧ ada.components url .username = [] ∧
    ada.components url .password = []

/-- A token in upper case that is not forbidden. -/
structure IsMethod (m : Units) : Prop where
  ne_nil : m ≠ []
  token : ∀ u ∈ m, isTokenUnit u = true
  upper : m.map toUpperUnit = m
  allowed : m ∉ forbiddenMethods

/-- With `n` lists there are. -/
structure Request.Sound (ada : Ada) (n : Nat) (r : Request) : Prop where
  url : SoundUrl ada r.u
  method : IsMethod r.m
  headers : r.h < n

/-- Status 0 is that of `Response.error`. -/
structure Response.Sound (n : Nat) (r : Response) : Prop where
  status : r.s = 0 ∨ 200 ≤ r.s ∧ r.s ≤ 599 ∧ (r.b ≠ .null → r.s ∉ nullBodyStatus)
  text : ∀ u ∈ r.t, 0x20 ≤ u.toNat ∧ u.toNat ≤ 0xFF
  headers : r.h < n

structure World.Sound (ada : Ada) (w : World) : Prop where
  headers : ∀ l ∈ w.headers, ValidList l
  requests : ∀ r ∈ w.requests, r.Sound ada w.headers.length
  responses : ∀ r ∈ w.responses, r.Sound w.headers.length

/-! ### Lists -/

theorem validList_nil : ValidList [] := ⟨[], by simp [ValidEntries], rfl⟩

theorem validList_step {l : HeaderList} (h : ValidList l) (c : HeadersCall) :
    ValidList (l.step c).1 := by
  obtain ⟨es, hes, rfl⟩ := h
  refine ⟨_, validEntries_step hes c, ?_⟩
  rw [HeaderList.step_eq hes c]

theorem validList_append {l l' : HeaderList} {name value : Units} (h : ValidList l)
    (hl : l.append name value = .ok l') : ValidList l' := by
  have hstep := validList_step h (.append name value)
  rwa [HeaderList.step, hl] at hstep

theorem validList_set {l l' : HeaderList} {name value : Units} (h : ValidList l)
    (hl : l.set name value = .ok l') : ValidList l' := by
  have hstep := validList_step h (.set name value)
  rwa [HeaderList.step, hl] at hstep

theorem ok_of_mapError {ε ε' α : Type} {f : ε → ε'} {x : Except ε α} {a : α}
    (h : x.mapError f = .ok a) : x = .ok a := by
  cases x with
  | error e => cases h
  | ok b =>
    have hb : (Except.ok b : Except ε' α) = .ok a := h
    rw [Except.ok.inj hb]

theorem validList_appendAll {l l' : HeaderList} {es : List (Option (Units × Units))}
    (h : ValidList l) (hl : appendAll l es = .ok l') : ValidList l' := by
  induction es generalizing l with
  | nil =>
    obtain rfl := Except.ok.inj hl
    exact h
  | cons e es ih =>
    cases e with
    | none => cases hl
    | some e =>
      obtain ⟨l'', happend, hl⟩ := Wire.except_bind hl
      exact ih (validList_append h (ok_of_mapError happend)) hl

theorem validList_newHeaders {lists : List HeaderList} {init : HeadersInit} {l : HeaderList}
    (h : ∀ l ∈ lists, ValidList l) (hl : newHeaders lists init = .ok l) : ValidList l := by
  cases init with
  | absent =>
    obtain rfl := Except.ok.inj hl
    exact validList_nil
  | headers i =>
    obtain rfl := Except.ok.inj hl
    rw [List.getD_eq_getElem?_getD]
    cases hi : lists[i]? with
    | none => exact validList_nil
    | some l => exact h l (List.mem_of_getElem? hi)
  | entries es => exact validList_appendAll validList_nil hl
  | record es => exact validList_appendAll validList_nil hl
  | invalid => cases hl

theorem validList_setContentType {l l' : HeaderList} {type : Units} (h : ValidList l)
    (hl : setContentType l type = .ok l') : ValidList l' := by
  obtain ⟨has, -, hl⟩ := Wire.except_bind hl
  cases has with
  | true =>
    obtain rfl := Except.ok.inj hl
    exact h
  | false => exact validList_set h (ok_of_mapError hl)

/-- A body leaves a valid list, and only the absent one is null. -/
theorem bodyInit_spec {l l' : HeaderList} {init : BodyInit} {b : Body} (h : ValidList l)
    (hl : bodyInit l init = .ok (b, l')) : ValidList l' ∧ (b ≠ .null → init ≠ .absent) := by
  cases init with
  | absent =>
    obtain ⟨rfl, rfl⟩ := Prod.mk.inj (Except.ok.inj hl)
    exact ⟨h, fun hb => absurd rfl hb⟩
  | text s =>
    obtain ⟨l'', htype, hl⟩ := Wire.except_bind hl
    obtain ⟨rfl, rfl⟩ := Prod.mk.inj (Except.ok.inj hl)
    exact ⟨validList_setContentType h htype, fun _ => by simp⟩
  | params p =>
    obtain ⟨l'', htype, hl⟩ := Wire.except_bind hl
    cases hp : toQuery p with
    | none =>
      rw [hp] at hl
      cases hl
    | some s =>
      rw [hp] at hl
      obtain ⟨rfl, rfl⟩ := Prod.mk.inj (Except.ok.inj hl)
      exact ⟨validList_setContentType h htype, fun _ => by simp⟩
  | bytes bs =>
    obtain ⟨rfl, rfl⟩ := Prod.mk.inj (Except.ok.inj hl)
    exact ⟨h, fun _ => by simp⟩
  | stream =>
    obtain ⟨rfl, rfl⟩ := Prod.mk.inj (Except.ok.inj hl)
    exact ⟨h, fun _ => by simp⟩
  | reader => cases hl
  | other s =>
    obtain ⟨rfl, rfl⟩ := Prod.mk.inj (Except.ok.inj hl)
    exact ⟨h, fun _ => by simp⟩

/-! ### Requests -/

theorem toUpperUnit_spec {u : UInt16} (h : isTokenUnit u = true) :
    isTokenUnit (toUpperUnit u) = true ∧ toUpperUnit (toUpperUnit u) = toUpperUnit u := by
  unfold toUpperUnit
  by_cases hlower : isLower u = true
  · rw [if_pos hlower]
    simp only [isLower, Bool.and_eq_true, decide_eq_true_eq] at hlower
    have hnat : (UInt16.ofNat (u.toNat - 0x20)).toNat = u.toNat - 0x20 :=
      Utf16.toNat_ofNat_of_lt (by omega)
    have hupper : isLower (UInt16.ofNat (u.toNat - 0x20)) = false := by
      rw [isLower, hnat, Bool.and_eq_false_iff, decide_eq_false_iff_not]
      exact Or.inl (by omega)
    rw [hupper]
    refine ⟨?_, rfl⟩
    simp only [isTokenUnit, hnat, Bool.or_eq_true, Bool.and_eq_true, decide_eq_true_eq]
    omega
  · rw [if_neg hlower, if_neg hlower]
    exact ⟨h, rfl⟩

theorem isMethod_get : IsMethod (ascii "GET") where
  ne_nil := by decide
  token := List.all_eq_true.mp (show (ascii "GET").all isTokenUnit = true by decide)
  upper := rfl
  allowed := by decide

theorem isMethod_initMethod {method m : Units} {init : Option Units} (h : IsMethod method)
    (hm : initMethod method init = .ok m) : IsMethod m := by
  cases init with
  | none =>
    obtain rfl := Except.ok.inj hm
    exact h
  | some m' =>
    rw [initMethod] at hm
    split at hm
    · cases hm
    · next htoken =>
      rw [not_or, Bool.not_eq_false, List.all_eq_true] at htoken
      split at hm
      · cases hm
      · next hallowed =>
        obtain rfl := Except.ok.inj hm
        constructor
        · simpa using htoken.1
        · intro u hu
          obtain ⟨u', hu', rfl⟩ := List.mem_map.mp hu
          exact (toUpperUnit_spec (htoken.2 u' hu')).1
        · rw [List.map_map]
          refine List.map_congr_left fun u hu => ?_
          exact (toUpperUnit_spec (htoken.2 u hu)).2
        · rwa [List.contains_iff_mem] at hallowed

section

variable {ada : Ada} {w : World}

theorem sound_urlInput {input : Units} {made : Input} (h : urlInput ada input = .ok made) :
    SoundUrl ada made.url ∧ IsMethod made.method := by
  rw [urlInput] at h
  cases hparse : ada.parse (Utf16.scalars input) none with
  | none =>
    rw [Ada.urlParse, Option.map_none, hparse, Option.map_none] at h
    cases h
  | some url =>
    rw [Ada.urlParse, Option.map_none, hparse, Option.map_some] at h
    dsimp only at h
    split at h
    · cases h
    · next hcredentials =>
      rw [not_or, not_not, not_not] at hcredentials
      obtain rfl := Except.ok.inj h
      exact ⟨⟨url, rfl, hcredentials⟩, isMethod_get⟩

theorem sound_newRequest {input : Input} {init : RequestInit} {r : Request} {l : HeaderList}
    (hw : w.Sound ada) (hurl : SoundUrl ada input.url) (hmethod : IsMethod input.method)
    (h : newRequest w input init = .ok (r, l)) :
    r.Sound ada (w.headers.length + 1) ∧ ValidList l := by
  obtain ⟨m, hm, h⟩ := Wire.except_bind h
  obtain ⟨l', hl', h⟩ := Wire.except_bind h
  obtain ⟨⟨b, l''⟩, hb, h⟩ := Wire.except_bind h
  obtain ⟨rfl, rfl⟩ := Prod.mk.inj (Except.ok.inj h)
  have hvalid := validList_newHeaders hw.headers hl'
  refine ⟨⟨hurl, isMethod_initMethod hmethod hm, Nat.lt_succ_self _⟩, ?_⟩
  rw [initBody] at hb
  split at hb
  · split at hb
    · cases hb
    · exact (bodyInit_spec hvalid hb).1
  · split at hb
    · obtain ⟨-, rfl⟩ := Prod.mk.inj (Except.ok.inj hb)
      exact hvalid
    · obtain ⟨-, rfl⟩ := Prod.mk.inj (Except.ok.inj hb)
      exact hvalid

theorem sound_cloneRequest {r copy : Request} {l : HeaderList} (hw : w.Sound ada)
    (h : r.clone ada w = .ok (copy, l)) :
    copy.Sound ada (w.headers.length + 1) ∧ ValidList l := by
  rw [Request.clone] at h
  split at h
  · cases h
  · obtain ⟨input, hinput, h⟩ := Wire.except_bind h
    obtain ⟨⟨made, l'⟩, hmade, h⟩ := Wire.except_bind h
    obtain ⟨rfl, rfl⟩ := Prod.mk.inj (Except.ok.inj h)
    obtain ⟨hurl, hmethod⟩ := sound_urlInput hinput
    obtain ⟨hsound, hvalid⟩ := sound_newRequest hw hurl hmethod hmade
    exact ⟨⟨hsound.url, hsound.method, hsound.headers⟩, hvalid⟩

/-! ### Responses -/

theorem checkStatus_range {status : Option Status} {n : Nat} (h : checkStatus status = .ok n) :
    200 ≤ n ∧ n ≤ 599 := by
  cases status with
  | none =>
    obtain rfl := Except.ok.inj h
    omega
  | some status =>
    cases status with
    | int n' =>
      rw [checkStatus] at h
      split at h
      · cases h
      · obtain rfl := Except.ok.inj h
        omega
    | other => cases h

theorem sound_newResponse {body : BodyInit} {init : ResponseInit} {r : Response} {l : HeaderList}
    (hw : ∀ l ∈ w.headers, ValidList l) (h : newResponse w body init = .ok (r, l)) :
    r.Sound (w.headers.length + 1) ∧ ValidList l := by
  obtain ⟨status, hstatus, h⟩ := Wire.except_bind h
  obtain ⟨hge, hle⟩ := checkStatus_range hstatus
  dsimp only at h
  split at h
  · cases h
  · next hbody =>
    split at h
    · cases h
    · next htext =>
      obtain ⟨l', hl', h⟩ := Wire.except_bind h
      obtain ⟨⟨b, l''⟩, hb, h⟩ := Wire.except_bind h
      obtain ⟨rfl, rfl⟩ := Prod.mk.inj (Except.ok.inj h)
      obtain ⟨hvalid, hnull⟩ := bodyInit_spec (validList_newHeaders hw hl') hb
      refine ⟨⟨Or.inr ⟨hge, hle, ?_⟩, ?_, Nat.lt_succ_self _⟩, hvalid⟩
      · exact fun hb hs => hbody ⟨hnull hb, hs⟩
      · rw [not_or, Bool.not_eq_false, List.all_eq_true] at htext
        intro u hu
        have hlow : ¬ u.toNat ≤ 0x1F := by
          intro hlow
          exact htext.1 (List.any_eq_true.mpr ⟨u, hu, decide_eq_true hlow⟩)
        exact ⟨by omega, of_decide_eq_true (htext.2 u hu)⟩

theorem sound_cloneResponse {r copy : Response} {l : HeaderList}
    (hw : ∀ l ∈ w.headers, ValidList l) (hr : r.Sound w.headers.length)
    (h : r.clone w = .ok (copy, l)) : copy.Sound (w.headers.length + 1) ∧ ValidList l := by
  rw [Response.clone] at h
  split at h
  · cases h
  · obtain ⟨⟨made, l'⟩, hmade, h⟩ := Wire.except_bind h
    obtain ⟨rfl, rfl⟩ := Prod.mk.inj (Except.ok.inj h)
    obtain ⟨hsound, hvalid⟩ := sound_newResponse hw hmade
    exact ⟨⟨hr.status, hsound.text, hsound.headers⟩, hvalid⟩

theorem sound_errorResponse {r : Response} {l : HeaderList} (hw : ∀ l ∈ w.headers, ValidList l)
    (h : errorResponse w = .ok (r, l)) : r.Sound (w.headers.length + 1) ∧ ValidList l := by
  obtain ⟨⟨made, l'⟩, hmade, h⟩ := Wire.except_bind h
  obtain ⟨rfl, rfl⟩ := Prod.mk.inj (Except.ok.inj h)
  obtain ⟨hsound, hvalid⟩ := sound_newResponse hw hmade
  exact ⟨⟨Or.inl rfl, hsound.text, hsound.headers⟩, hvalid⟩

theorem sound_redirect {url : Units} {status : Option Status} {r : Response} {l : HeaderList}
    (hw : ∀ l ∈ w.headers, ValidList l) (h : redirect ada w url status = .ok (r, l)) :
    r.Sound (w.headers.length + 1) ∧ ValidList l := by
  simp only [redirect] at h
  split at h
  · cases h
  · cases hparse : ada.urlParse url none with
    | none =>
      rw [hparse] at h
      cases h
    | some parsed =>
      rw [hparse] at h
      exact sound_newResponse hw h

end

/-! ### Whatever a guest does -/

namespace World

variable {ada : Ada} {w : World}

theorem sound_empty : empty.Sound ada := by
  constructor <;> simp [empty]

theorem validList_concat {l : HeaderList} (h : ∀ l ∈ w.headers, ValidList l) (hl : ValidList l) :
    ∀ l' ∈ w.headers ++ [l], ValidList l' := by
  intro l' hl'
  obtain hl' | hl' := List.mem_append.mp hl'
  · exact h l' hl'
  · rwa [List.mem_singleton.mp hl']

/-- A list more. -/
theorem sound_addList {l : HeaderList} (h : w.Sound ada) (hl : ValidList l) :
    ({ w with headers := w.headers ++ [l] } : World).Sound ada := by
  have hlt : w.headers.length ≤ (w.headers ++ [l]).length := by
    rw [List.length_append]
    omega
  refine ⟨validList_concat h.headers hl, ?_, ?_⟩
  · intro r hr
    have hsound := h.requests r hr
    exact ⟨hsound.url, hsound.method, hsound.headers.trans_le hlt⟩
  · intro r hr
    have hsound := h.responses r hr
    exact ⟨hsound.status, hsound.text, hsound.headers.trans_le hlt⟩

theorem sound_addRequest {made : Request × HeaderList} (h : w.Sound ada)
    (hr : made.1.Sound ada (w.headers.length + 1)) (hl : ValidList made.2) :
    (w.addRequest made).Sound ada := by
  have hadd := sound_addList h hl
  refine ⟨hadd.headers, ?_, hadd.responses⟩
  intro r hmem
  obtain hmem | hmem := List.mem_append.mp hmem
  · exact hadd.requests r hmem
  · rw [List.mem_singleton.mp hmem]
    show made.1.Sound ada (w.headers ++ [made.2]).length
    rwa [List.length_append]

theorem sound_addResponse {made : Response × HeaderList} (h : w.Sound ada)
    (hr : made.1.Sound (w.headers.length + 1)) (hl : ValidList made.2) :
    (w.addResponse made).Sound ada := by
  have hadd := sound_addList h hl
  refine ⟨hadd.headers, hadd.requests, ?_⟩
  intro r hmem
  obtain hmem | hmem := List.mem_append.mp hmem
  · exact hadd.responses r hmem
  · rw [List.mem_singleton.mp hmem]
    show made.1.Sound (w.headers ++ [made.2]).length
    rwa [List.length_append]

theorem ok_of_map {ε α β : Type} {f : α → β} {x : Except ε α} {b : β} (h : f <$> x = .ok b) :
    ∃ a, x = .ok a ∧ f a = b := by
  cases x with
  | error e => cases h
  | ok a => exact ⟨a, rfl, Except.ok.inj h⟩

theorem sound_json {data : Option Units} {init : ResponseInit} {w' : World} (h : w.Sound ada)
    (hw : w.json data init = .ok w') : w'.Sound ada := by
  cases data with
  | none => cases hw
  | some body =>
    obtain ⟨l, hl, hw⟩ := Wire.except_bind hw
    obtain ⟨l', hl', hw⟩ := Wire.except_bind hw
    obtain ⟨made, hmade, hw⟩ := Wire.except_bind hw
    obtain rfl := Except.ok.inj hw
    have hvalid := validList_setContentType (validList_newHeaders h.headers hl) hl'
    have hadd := sound_addList h hvalid
    obtain ⟨hr, hlist⟩ := sound_newResponse hadd.headers hmade
    exact sound_addResponse hadd hr hlist

/-- A method of a `Headers` changes one list. -/
theorem sound_headers (h : w.Sound ada) (i : Nat) (call : HeadersCall) :
    ({ w with headers := w.headers.modify i fun l => (l.step call).1 } : World).Sound ada := by
  have hlen : (w.headers.modify i fun l => (l.step call).1).length = w.headers.length :=
    List.length_modify _ _ _
  refine ⟨?_, ?_, ?_⟩
  · intro l hl
    obtain ⟨j, hj, hget⟩ := List.mem_iff_getElem.mp hl
    rw [List.getElem_modify] at hget
    have hold := h.headers _ (List.getElem_mem (hlen ▸ hj))
    split at hget
    · rw [← hget]
      exact validList_step hold call
    · rwa [← hget]
  · intro r hr
    show r.Sound ada (w.headers.modify i fun l => (l.step call).1).length
    rw [hlen]
    exact h.requests r hr
  · intro r hr
    show r.Sound (w.headers.modify i fun l => (l.step call).1).length
    rw [hlen]
    exact h.responses r hr

theorem sound_apply {op : Op} {w' : World} (h : w.Sound ada) (hw : w.apply ada op = .ok w') :
    w'.Sound ada := by
  cases op with
  | newHeaders init =>
    obtain ⟨l, hl, hw⟩ := Wire.except_bind hw
    obtain rfl := Except.ok.inj hw
    exact sound_addList h (validList_newHeaders h.headers hl)
  | headers i call =>
    obtain rfl := Except.ok.inj hw
    exact sound_headers h i call
  | newRequest input init =>
    obtain ⟨input', hinput, hw⟩ := Wire.except_bind hw
    obtain ⟨made, hmade, hw⟩ := Wire.except_bind hw
    obtain rfl := Except.ok.inj hw
    obtain ⟨hurl, hmethod⟩ := sound_urlInput hinput
    obtain ⟨hr, hl⟩ := sound_newRequest h hurl hmethod hmade
    exact sound_addRequest h hr hl
  | fromRequest i init =>
    rw [apply] at hw
    split at hw
    · obtain rfl := Except.ok.inj hw
      exact h
    · next r hr =>
      obtain ⟨made, hmade, rfl⟩ := ok_of_map hw
      have hsound := h.requests r (List.mem_of_getElem? hr)
      obtain ⟨hr, hl⟩ := sound_newRequest h hsound.url hsound.method hmade
      exact sound_addRequest h hr hl
  | cloneRequest i =>
    rw [apply] at hw
    split at hw
    · obtain rfl := Except.ok.inj hw
      exact h
    · obtain ⟨made, hmade, rfl⟩ := ok_of_map hw
      obtain ⟨hr, hl⟩ := sound_cloneRequest h hmade
      exact sound_addRequest h hr hl
  | consumeRequest i =>
    rw [apply] at hw
    split at hw
    · obtain rfl := Except.ok.inj hw
      exact h
    · next r hr =>
      split at hw
      · cases hw
      · obtain rfl := Except.ok.inj hw
        have hsound := h.requests r (List.mem_of_getElem? hr)
        refine ⟨h.headers, ?_, h.responses⟩
        intro r' hr'
        obtain hr' | rfl := List.mem_or_eq_of_mem_set hr'
        · exact h.requests r' hr'
        · exact ⟨hsound.url, hsound.method, hsound.headers⟩
  | newResponse body init =>
    obtain ⟨made, hmade, rfl⟩ := ok_of_map hw
    obtain ⟨hr, hl⟩ := sound_newResponse h.headers hmade
    exact sound_addResponse h hr hl
  | cloneResponse i =>
    rw [apply] at hw
    split at hw
    · obtain rfl := Except.ok.inj hw
      exact h
    · next r hr =>
      obtain ⟨made, hmade, rfl⟩ := ok_of_map hw
      have hsound := h.responses r (List.mem_of_getElem? hr)
      obtain ⟨hr, hl⟩ := sound_cloneResponse h.headers hsound hmade
      exact sound_addResponse h hr hl
  | consumeResponse i =>
    rw [apply] at hw
    split at hw
    · obtain rfl := Except.ok.inj hw
      exact h
    · next r hr =>
      split at hw
      · cases hw
      · obtain rfl := Except.ok.inj hw
        have hsound := h.responses r (List.mem_of_getElem? hr)
        refine ⟨h.headers, h.requests, ?_⟩
        intro r' hr'
        obtain hr' | rfl := List.mem_or_eq_of_mem_set hr'
        · exact h.responses r' hr'
        · refine ⟨?_, hsound.text, hsound.headers⟩
          -- a body that is gone suits every status
          obtain hzero | ⟨hge, hle, -⟩ := hsound.status
          · exact Or.inl hzero
          · exact Or.inr ⟨hge, hle, fun hb => absurd rfl hb⟩
  | json data init => exact sound_json h hw
  | error =>
    obtain ⟨made, hmade, rfl⟩ := ok_of_map hw
    obtain ⟨hr, hl⟩ := sound_errorResponse h.headers hmade
    exact sound_addResponse h hr hl
  | redirect url status =>
    obtain ⟨made, hmade, rfl⟩ := ok_of_map hw
    obtain ⟨hr, hl⟩ := sound_redirect h.headers hmade
    exact sound_addResponse h hr hl

theorem sound_step (h : w.Sound ada) (op : Op) : (w.step ada op).Sound ada := by
  cases hw : w.apply ada op with
  | error e =>
    rw [step, hw]
    exact h
  | ok w' =>
    rw [step, hw]
    exact sound_apply h hw

end World

theorem sound_exec (ada : Ada) (ops : List Op) :
    (Execution.exec (World.step ada) World.empty ops).Sound ada :=
  Execution.exec_invariant (I := World.Sound ada) (fun _ op h => World.sound_step h op)
    World.sound_empty ops

end FetchTypes

end Iso4
