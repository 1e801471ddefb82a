/-
Following redirects in the hardened fetch (`packages/iso4-fetch/src/index.ts`).

`safeFetch` checks the request, lets middleware change its context and then runs
`hops`: send, and on a redirect strip headers, check the destination and go on.
What the servers answer is an input, one answer for each request sent.

* `redirect_authorized_iff` — a hop is sent as it was approved unless its method
  changes;
* `credentials_stripped_iff` — the strip covers the names in lower case.
-/
import Iso4.FetchRules

namespace Iso4

open Text

/-! ### The request and its context -/

inductive FetchBody where
  | bytes (data : List UInt8)
  | text (data : String)
  deriving DecidableEq

structure HostFetchRequest where
  url : String
  method : String
  headers : HeaderRecord
  body : Option FetchBody

namespace HeaderRecord

/-- `record[name] = value`. -/
def set (record : HeaderRecord) (name value : String) : HeaderRecord :=
  if record.any (·.1 == name) then
    record.map fun p => if p.1 == name then (name, value) else p
  else record ++ [(name, value)]

/-- `delete record[name]`. -/
def remove (record : HeaderRecord) (name : String) : HeaderRecord := record.filter (·.1 != name)

end HeaderRecord

/-- The request side of the middleware context. -/
structure FetchContext where
  url : String
  body : Option FetchBody
  headers : HeaderRecord

/-- What middleware does to the context before it calls `next`. -/
inductive ContextOp where
  | header (name value : String)
  /-- `ctx.req.headers[name] = value`. -/
  | assignHeader (name value : String)
  | deleteHeader (name : String)
  | setUrl (url : String)
  | setBody (body : Option FetchBody)

def makeFetchContext (url : String) (headers : HeaderRecord) (body : Option FetchBody) : FetchContext :=
  ⟨url, body, headers⟩

namespace FetchContext

def apply (ctx : FetchContext) : ContextOp → FetchContext
  | .header name value => { ctx with headers := HeaderRecord.set ctx.headers (toLowerCase name) value }
  | .assignHeader name value => { ctx with headers := HeaderRecord.set ctx.headers name value }
  | .deleteHeader name => { ctx with headers := HeaderRecord.remove ctx.headers name }
  | .setUrl url => { ctx with url }
  | .setBody body => { ctx with body }

end FetchContext

/-! ### One hop -/

/-- The loop variables of `finalNext`: the request to send. -/
structure Outgoing where
  url : String
  method : String
  body : Option FetchBody
  headers : HeaderRecord
  hop : Nat

structure ServerResponse where
  status : Nat
  /-- The `location` header. -/
  location : Option String

inductive ServerAnswer where
  | responded (response : ServerResponse)
  /-- The request rejects: the network, the deadline, a body over the cap. -/
  | failed (message : String)

/-- A redirect that was followed. -/
structure Redirect where
  currentUrl : Url
  nextUrl : Url
  status : Nat
  method : String

def redirectStatuses : List Nat := [301, 302, 303, 307, 308]

def methodChanges (status : Nat) (method : String) : Bool :=
  status == 303 || ((status == 301 || status == 302) && method == "POST")

def Redirect.crossOrigin (r : Redirect) : Bool := r.nextUrl.origin != r.currentUrl.origin

def Redirect.methodChanges (r : Redirect) : Bool := Iso4.methodChanges r.status r.method

def isCredential (name : String) : Bool :=
  name == "authorization" || name == "cookie" || name == "proxy-authorization"

def isContent (name : String) : Bool := startsWith name "content-"

/-- The header hygiene of a hop. -/
def stripHeaders (crossOrigin methodChanges : Bool) (headers : HeaderRecord) : HeaderRecord :=
  let headers := if crossOrigin then
    HeaderRecord.remove (HeaderRecord.remove (HeaderRecord.remove headers "authorization") "cookie")
      "proxy-authorization" else headers
  if methodChanges then headers.filter (!isContent ·.1) else headers

/-- What the loop does with a response. -/
inductive NextHop where
  | respond
  | throws (message : String)
  | follow (redirect : Redirect) (req : SafeFetchRequest) (next : Outgoing)

inductive FetchEvent where
  | approved (req : SafeFetchRequest)
  | redirected (redirect : Redirect)
  | sent (out : Outgoing)

inductive FetchOutcome where
  | responded (response : ServerResponse)
  | threw (message : String)
  /-- The last request sent has no answer yet. -/
  | waiting

section Loop
variable (lib : WebLib) (options : SafeFetchOptions)

/-- The checks of `httpRequest` before it sends. -/
def httpRequestCheck (out : Outgoing) : Except String Unit :=
  match lib.parse out.url with
  | none => .error "fetch: invalid URL"
  | some target =>
    if target.username ≠ "" ∨ target.password ≠ "" then
      .error "fetch: URL must not contain credentials"
    else if !lib.validHeaders out.headers then .error "fetch: invalid header name or value"
    else .ok ()

def nextHop (out : Outgoing) (response : ServerResponse) : NextHop :=
  if !redirectStatuses.contains response.status || options.maxRedirects ≤ out.hop then .respond
  else match response.location with
    | none => .respond
    | some location =>
      match lib.resolve location out.url with
      | none => .respond
      | some nextUrl =>
        match lib.parse out.url with
        | none => .throws "Invalid URL"
        | some currentUrl =>
          let r : Redirect := ⟨currentUrl, nextUrl, response.status, out.method⟩
          let headers := stripHeaders r.crossOrigin r.methodChanges out.headers
          -- The destination is checked with the method of the hop before.
          match buildSafeFetchRequest lib options nextUrl out.method headers (out.hop + 1) with
          | .error message => .throws message
          | .ok req =>
            match checkRequest lib options req with
            | .error message => .throws message
            | .ok _ =>
              .follow r req
                { url := nextUrl.href
                  method := if r.methodChanges then "GET" else out.method
                  body := if r.methodChanges then none else out.body
                  headers
                  hop := out.hop + 1 }

/-- The loop of `finalNext`. -/
def hops (out : Outgoing) (answers : List ServerAnswer) : List FetchEvent × FetchOutcome :=
  match httpRequestCheck lib out with
  | .error message => ([], .threw message)
  | .ok () =>
    match answers with
    | [] => ([.sent out], .waiting)
    | .failed message :: _ => ([.sent out], .threw message)
    | .responded response :: rest =>
      match nextHop lib options out response with
      | .respond => ([.sent out], .responded response)
      | .throws message => ([.sent out], .threw message)
      | .follow r req next =>
        let later := hops next rest
        (.sent out :: .approved req :: .redirected r :: later.1, later.2)

/-- `finalNext`: the loop, from the context as middleware left it. -/
def finalNext (ctx : FetchContext) (method : String) (answers : List ServerAnswer) :
    List FetchEvent × FetchOutcome :=
  hops lib options ⟨ctx.url, method, ctx.body, ctx.headers, 0⟩ answers

/-- One call of the handler: `ops` is what the middleware does before `next`. -/
def safeFetch (hostRequest : HostFetchRequest) (ops : List ContextOp) (answers : List ServerAnswer) :
    List FetchEvent × FetchOutcome :=
  match lib.parse hostRequest.url with
  | none => ([], .threw "fetch: invalid URL")
  | some parsedUrl =>
    if parsedUrl.username ≠ "" ∨ parsedUrl.password ≠ "" then
      ([], .threw "fetch: URL must not contain credentials")
    else
      let baseHeaders := if options.allowCompressedResponses then hostRequest.headers
        else HeaderRecord.set hostRequest.headers "accept-encoding" "identity"
      let baseHeaders := HeaderRecord.remove baseHeaders "host"
      let method := toUpperCase hostRequest.method
      match buildSafeFetchRequest lib options parsedUrl method baseHeaders 0 with
      | .error message => ([], .threw message)
      | .ok req =>
        match checkRequest lib options req with
        | .error message => ([], .threw message)
        | .ok _ =>
          let ctx := ops.foldl FetchContext.apply (makeFetchContext parsedUrl.href baseHeaders hostRequest.body)
          let run := finalNext lib options ctx method answers
          (.approved req :: run.1, run.2)

/-- The redirects of the chain from `out` whose next request goes out. -/
def followed : Outgoing → List ServerAnswer → List Redirect
  | _, [] => []
  | _, .failed _ :: _ => []
  | out, .responded response :: rest =>
    match httpRequestCheck lib out, nextHop lib options out response with
    | .ok (), .follow r _ next =>
      match httpRequestCheck lib next with
      | .ok () => r :: followed next rest
      | .error _ => []
    | _, _ => []

/-- The redirects that `finalNext` follows. -/
def redirectChain (ctx : FetchContext) (method : String) (answers : List ServerAnswer) : List Redirect :=
  followed lib options ⟨ctx.url, method, ctx.body, ctx.headers, 0⟩ answers

end Loop

/-! ### What a followed redirect does -/

section Hop
variable {lib : WebLib} {options : SafeFetchOptions} {out next : Outgoing}
  {response : ServerResponse} {r : Redirect} {req : SafeFetchRequest}

/-- The request approved for a hop and the request that is then sent. -/
structure Follows (lib : WebLib) (options : SafeFetchOptions) (out : Outgoing) (r : Redirect)
    (req : SafeFetchRequest) (next : Outgoing) : Prop where
  approved : ∃ found, checkRequest lib options req = .ok found
  redirectMethod : r.method = out.method
  reqHop : req.hop = out.hop + 1
  reqUrl : req.url = next.url
  reqMethod : req.method = out.method
  nextHop : next.hop = out.hop + 1
  nextMethod : next.method = if r.methodChanges then "GET" else out.method
  nextHeaders : next.headers = stripHeaders r.crossOrigin r.methodChanges out.headers

theorem buildSafeFetchRequest_ok {parsedUrl : Url} {method : String} {headers : HeaderRecord}
    {hop : Nat} (h : buildSafeFetchRequest lib options parsedUrl method headers hop = .ok req) :
    req.url = parsedUrl.href ∧ req.method = method ∧ req.hop = hop := by
  unfold buildSafeFetchRequest at h
  dsimp only at h
  split at h
  · cases h
  · split at h
    · cases h
    · obtain rfl := Except.ok.inj h
      exact ⟨rfl, rfl, rfl⟩

theorem nextHop_follows (h : nextHop lib options out response = .follow r req next) :
    Follows lib options out r req next := by
  unfold nextHop at h
  split at h
  · cases h
  split at h
  · cases h
  split at h
  · cases h
  split at h
  · cases h
  dsimp only at h
  split at h
  · cases h
  · next hbuilt =>
    split at h
    · cases h
    · next found hchecked =>
      obtain ⟨hurl, hmethod, hhop⟩ := buildSafeFetchRequest_ok hbuilt
      injection h with hr hreq hnext
      subst hr hreq hnext
      exact ⟨⟨found, hchecked⟩, rfl, hhop, hurl, hmethod, rfl, rfl, rfl⟩

/-- The loop starts by sending, or sends nothing. -/
theorem hops_refused {answers : List ServerAnswer} {message : String}
    (h : httpRequestCheck lib out = .error message) :
    (hops lib options out answers).1 = [] := by
  rw [hops.eq_def, h]

theorem hops_follow {rest : List ServerAnswer} (h : httpRequestCheck lib out = .ok ())
    (hn : nextHop lib options out response = .follow r req next) :
    (hops lib options out (.responded response :: rest)).1 =
      .sent out :: .approved req :: .redirected r :: (hops lib options next rest).1 := by
  rw [hops.eq_def, h]
  simp only [hn]

/-- A redirect is followed when the request after it passes the checks before
sending. -/
theorem followed_follow {rest : List ServerAnswer} (h : httpRequestCheck lib out = .ok ())
    (hn : nextHop lib options out response = .follow r req next)
    (hnext : httpRequestCheck lib next = .ok ()) :
    followed lib options out (.responded response :: rest) = r :: followed lib options next rest := by
  simp [followed, h, hn, hnext]

theorem followed_refused {rest : List ServerAnswer} {message : String}
    (hn : nextHop lib options out response = .follow r req next)
    (hnext : httpRequestCheck lib next = .error message) :
    followed lib options out (.responded response :: rest) = [] := by
  cases h : httpRequestCheck lib out <;> simp [followed, h, hn, hnext]

variable (lib options) in
/-- The induction rule of the loop: nothing is sent, the last request is sent, or
a redirect is approved and the loop goes on. -/
theorem hops_rule {P : Outgoing → List ServerAnswer → Prop}
    (refused : ∀ out answers, (hops lib options out answers).1 = [] →
      followed lib options out answers = [] → P out answers)
    (stopped : ∀ out answers, (hops lib options out answers).1 = [.sent out] →
      followed lib options out answers = [] → P out answers)
    (follow : ∀ out response rest r req next, httpRequestCheck lib out = .ok () →
      nextHop lib options out response = .follow r req next → P next rest →
      P out (.responded response :: rest))
    (out : Outgoing) (answers : List ServerAnswer) : P out answers := by
  induction answers generalizing out with
  | nil =>
    cases h : httpRequestCheck lib out with
    | error message => exact refused _ _ (hops_refused h) rfl
    | ok _ => exact stopped _ _ (by rw [hops.eq_def, h]) rfl
  | cons answer rest ih =>
    cases h : httpRequestCheck lib out with
    | error message =>
      refine refused _ _ (hops_refused h) ?_
      cases answer <;> simp [followed, h]
    | ok _ =>
      cases answer with
      | failed message => exact stopped _ _ (by rw [hops.eq_def, h]) rfl
      | responded response =>
        cases hn : nextHop lib options out response with
        | respond =>
          exact stopped _ _ (by rw [hops.eq_def, h]; simp only [hn]) (by simp [followed, h, hn])
        | throws message =>
          exact stopped _ _ (by rw [hops.eq_def, h]; simp only [hn]) (by simp [followed, h, hn])
        | follow r req next => exact follow _ _ _ _ _ _ h hn (ih next)

end Hop

/-! ### Authorization -/

section Authorization
variable {lib : WebLib} {options : SafeFetchOptions}

variable (lib options) in
/-- Hops count up from the one the loop starts at, which is sent first. -/
theorem hops_ordered (out : Outgoing) (answers : List ServerAnswer) :
    (∀ t, .sent t ∈ (hops lib options out answers).1 → t = out ∨ out.hop < t.hop) ∧
    ∀ req, .approved req ∈ (hops lib options out answers).1 → out.hop < req.hop := by
  induction out, answers using hops_rule lib options with
  | refused out answers he _ => simp [he]
  | stopped out answers he _ => simp [he]
  | follow out response rest r req next h hn ih =>
    have hf := nextHop_follows hn
    have hhop := hf.nextHop
    have hreq := hf.reqHop
    rw [hops_follow h hn]
    constructor
    · intro t ht
      rcases List.mem_cons.mp ht with ht | ht
      · exact .inl (FetchEvent.sent.inj ht)
      · right
        rcases ih.1 t (by simpa using ht) with rfl | hlt
        · omega
        · omega
    · intro req' hr
      rcases (by simpa using hr : req' = req ∨ .approved req' ∈ (hops lib options next rest).1) with
        rfl | hr
      · omega
      · have := ih.2 req' hr
        omega

/-- The loop starts with its request, when that passes the checks. -/
theorem hops_sends {out : Outgoing} (answers : List ServerAnswer)
    (h : httpRequestCheck lib out = .ok ()) :
    ∃ later, (hops lib options out answers).1 = .sent out :: later := by
  rw [hops.eq_def, h]
  dsimp only
  split
  · exact ⟨_, rfl⟩
  · exact ⟨_, rfl⟩
  · split <;> exact ⟨_, rfl⟩

theorem sent_mem_hops {out : Outgoing} (answers : List ServerAnswer)
    (h : httpRequestCheck lib out = .ok ()) : .sent out ∈ (hops lib options out answers).1 := by
  obtain ⟨later, he⟩ : ∃ later, (hops lib options out answers).1 = .sent out :: later :=
    hops_sends answers h
  simp [he]

/-- `t` is sent as it was approved among `events`. -/
def SentAsApproved (lib : WebLib) (options : SafeFetchOptions) (events : List FetchEvent)
    (t : Outgoing) : Prop :=
  (∃ req found, .approved req ∈ events ∧ checkRequest lib options req = .ok found ∧
    req.hop = t.hop) ∧
  ∀ req, .approved req ∈ events → req.hop = t.hop → (req.method, req.url) = (t.method, t.url)

/-- Behind an approval for an earlier hop. -/
theorem sentAsApproved_later {out t : Outgoing} {req : SafeFetchRequest} {r : Redirect}
    {events : List FetchEvent} (hlt : req.hop < t.hop) :
    SentAsApproved lib options (.sent out :: .approved req :: .redirected r :: events) t ↔
      SentAsApproved lib options events t := by
  have hmem : ∀ q : SafeFetchRequest, q.hop = t.hop →
      (.approved q ∈ (.sent out :: .approved req :: .redirected r :: events : List FetchEvent) ↔
        .approved q ∈ events) := by
    intro q hq
    have hne : q ≠ req := by
      rintro rfl
      omega
    simp [hne]
  constructor
  · rintro ⟨⟨q, found, hq, hok, hhop⟩, hall⟩
    exact ⟨⟨q, found, (hmem q hhop).mp hq, hok, hhop⟩,
      fun q hq hhop => hall q ((hmem q hhop).mpr hq) hhop⟩
  · rintro ⟨⟨q, found, hq, hok, hhop⟩, hall⟩
    exact ⟨⟨q, found, (hmem q hhop).mpr hq, hok, hhop⟩,
      fun q hq hhop => hall q ((hmem q hhop).mp hq) hhop⟩

/-- The request right after an approval has the approved pair exactly if its
method was kept. -/
theorem sentAsApproved_next {out next : Outgoing} {req : SafeFetchRequest} {r : Redirect}
    {events : List FetchEvent} (hf : Follows lib options out r req next)
    (hlater : ∀ q, .approved q ∈ events → next.hop < q.hop) :
    SentAsApproved lib options (.sent out :: .approved req :: .redirected r :: events) next ↔
      (r.methodChanges = true → r.method = "GET") := by
  have hhop : req.hop = next.hop := by rw [hf.reqHop, hf.nextHop]
  have hpair : (req.method, req.url) = (next.method, next.url) ↔
      (r.methodChanges = true → r.method = "GET") := by
    rw [hf.reqMethod, hf.reqUrl, hf.nextMethod, hf.redirectMethod]
    split <;> simp [*]
  rw [← hpair]
  constructor
  · rintro ⟨-, hall⟩
    exact hall req (by simp) hhop
  · intro heq
    obtain ⟨found, hok⟩ := hf.approved
    refine ⟨⟨req, found, by simp, hok, hhop⟩, ?_⟩
    intro q hq hqhop
    rcases (by simpa using hq : q = req ∨ .approved q ∈ events) with rfl | hq
    · exact heq
    · have := hlater q hq
      omega

/-- The loop sends every later request as approved exactly if no redirect it
follows changes a method other than GET. -/
theorem hops_authorized_iff (out : Outgoing) (answers : List ServerAnswer) :
    (∀ t, .sent t ∈ (hops lib options out answers).1 → out.hop < t.hop →
      SentAsApproved lib options (hops lib options out answers).1 t) ↔
    ∀ r ∈ followed lib options out answers, r.methodChanges = true → r.method = "GET" := by
  induction out, answers using hops_rule lib options with
  | refused out answers he hf => simp [he, hf]
  | stopped out answers he hf =>
    simp only [he, hf, List.mem_singleton, FetchEvent.sent.injEq, List.not_mem_nil,
      false_implies, implies_true, iff_true]
    rintro t rfl hlt
    omega
  | follow out response rest r req next h hn ih =>
    have hf := nextHop_follows hn
    have hhop := hf.nextHop
    have hreq := hf.reqHop
    have hord := hops_ordered lib options next rest
    rw [hops_follow h hn]
    cases hnext : httpRequestCheck lib next with
    | error message =>
      rw [followed_refused hn hnext, hops_refused hnext]
      simp only [List.mem_cons, FetchEvent.sent.injEq, reduceCtorEq, List.not_mem_nil, or_false,
        false_implies, implies_true, iff_true]
      rintro t rfl hlt
      omega
    | ok _ =>
      rw [followed_follow h hn hnext, List.forall_mem_cons, ← ih,
        ← sentAsApproved_next hf hord.2]
      constructor
      · intro hall
        refine ⟨hall next (by simp [sent_mem_hops rest hnext]) (by omega), ?_⟩
        intro t ht hlt
        exact (sentAsApproved_later (by omega)).mp (hall t (by simp [ht]) (by omega))
      · rintro ⟨hfirst, hall⟩ t ht hlt
        rcases List.mem_cons.mp ht with ht | ht
        · obtain rfl := FetchEvent.sent.inj ht
          omega
        · have ht : .sent t ∈ (hops lib options next rest).1 := by simpa using ht
          rcases hord.1 t ht with rfl | hlater
          · exact hfirst
          · exact (sentAsApproved_later (by omega)).mpr (hall t ht hlater)

variable (lib options) in
/-- Every request that `finalNext` sends after the first hop has the pair approved
for its hop, exactly if no redirect that is followed changes the method of a
request other than GET: the destination is checked with the old method. -/
theorem redirect_authorized_iff (ctx : FetchContext) (method : String) (answers : List ServerAnswer) :
    (∀ out, .sent out ∈ (finalNext lib options ctx method answers).1 → 1 ≤ out.hop →
      SentAsApproved lib options (finalNext lib options ctx method answers).1 out) ↔
    ∀ r ∈ redirectChain lib options ctx method answers, r.methodChanges = true → r.method = "GET" :=
  hops_authorized_iff _ answers

end Authorization

/-- A service whose `/jobs` takes POST only. -/
def jobsUrl : Url :=
  { protocol := "https:", username := "", password := "", hostname := "api.example.com", port := ""
    pathname := "/jobs", search := "", origin := "https://api.example.com"
    href := "https://api.example.com/jobs" }

def jobsLib : WebLib where
  parse url := if url = jobsUrl.href then some jobsUrl else none
  resolve location _ := if location = "/jobs" then some jobsUrl else none
  findRoute router method path :=
    (router.find? fun entry => (entry.1 = "" ∨ entry.1 = method) ∧ entry.2.1 = path).map (·.2.2, [])
  validHeaders _ := true
  isReservedIp _ := false

def jobsOptions : SafeFetchOptions where
  rules := some (.one ⟨.one "api.example.com", none, none, [⟨"/jobs", .listed (.one "POST")⟩]⟩)
  policy := none
  pinDns := true
  maxRedirects := 1
  allowCompressedResponses := false

/-- A POST answered with 303 goes on as the GET that the rules deny. -/
theorem method_change_unapproved :
    let ctx := makeFetchContext jobsUrl.href [] (some (.text "job"))
    let events := (finalNext jobsLib jobsOptions ctx "POST" [.responded ⟨303, some "/jobs"⟩]).1
    ∃ out, .sent out ∈ events ∧ out.hop = 1 ∧ out.method = "GET" ∧ out.url = jobsUrl.href ∧
      ¬ SentAsApproved jobsLib jobsOptions events out ∧
      ∀ req found, buildSafeFetchRequest jobsLib jobsOptions jobsUrl "GET" out.headers 1 = .ok req →
        checkRequest jobsLib jobsOptions req ≠ .ok found := by
  intro ctx events
  refine ⟨⟨jobsUrl.href, "GET", none, [], 1⟩, ?_, rfl, rfl, rfl, ?_, ?_⟩
  · exact List.mem_of_getElem? (show events[3]? = _ from rfl)
  · intro h
    let approved : SafeFetchRequest :=
      ⟨jobsUrl.href, "https", "api.example.com", 443, "/jobs", "POST", [], none, 1⟩
    have happroved : .approved approved ∈ events :=
      List.mem_of_getElem? (show events[1]? = _ from rfl)
    have hpair := h.2 approved happroved rfl
    exact absurd (congrArg Prod.fst hpair) (by decide)
  · rintro req found hreq
    obtain rfl := Except.ok.inj hreq
    intro hok
    have hdenied : checkRequest jobsLib jobsOptions
        ⟨jobsUrl.href, "https", "api.example.com", 443, "/jobs", "GET", [], none, 1⟩ =
        .error "fetch: request denied — no matching route for GET /jobs on api.example.com" := rfl
    exact absurd (hdenied.symm.trans hok) (by simp)

/-! ### Header hygiene -/

/-- After a redirect to another origin no request carries a credential, and the
request after a change of method no `content-` header, whatever the case of the
names. -/
def HeadersStripped (events : List FetchEvent) : Prop :=
  ∀ before r after, events = before ++ .redirected r :: after →
    (r.crossOrigin = true → ∀ out, .sent out ∈ after →
      ∀ p ∈ out.headers, isCredential (toLowerCase p.1) = false) ∧
    (r.methodChanges = true → ∀ out rest, after = .sent out :: rest →
      ∀ p ∈ out.headers, isContent (toLowerCase p.1) = false)

theorem isContent_toLowerCase {name : String} (h : isContent name = true) :
    isContent (toLowerCase name) = true := by
  obtain ⟨tail, ht⟩ := List.isPrefixOf_iff_prefix.mp h
  refine List.isPrefixOf_iff_prefix.mpr ⟨tail.map Char.toLower, ?_⟩
  have hlower : (toLowerCase name).toList = name.toList.map Char.toLower := String.toList_ofList
  rw [hlower, ← ht, List.map_append]
  rfl

theorem isCredential_cases {name : String} (h : isCredential name = true) :
    name = "authorization" ∨ name = "cookie" ∨ name = "proxy-authorization" := by
  simpa [isCredential, or_assoc] using h

/-- No name is both. -/
theorem isContent_of_isCredential {name : String} (h : isCredential name = true) :
    isContent name = false := by
  rcases isCredential_cases h with rfl | rfl | rfl <;> rfl

theorem isCredential_toLowerCase {name : String} (h : isCredential name = true) :
    toLowerCase name = name := by
  rcases isCredential_cases h with rfl | rfl | rfl <;> rfl

/-- A credential that is not in lower case is not a `content-` header either. -/
theorem isContent_of_credential_toLowerCase {name : String}
    (h : isCredential (toLowerCase name) = true) : isContent name = false := by
  cases hc : isContent name with
  | false => rfl
  | true => rw [← isContent_toLowerCase hc, isContent_of_isCredential h]

theorem isCredential_of_content_toLowerCase {name : String}
    (h : isContent (toLowerCase name) = true) : isCredential name = false := by
  cases hc : isCredential name with
  | false => rfl
  | true => rw [← h, isCredential_toLowerCase hc, isContent_of_isCredential hc]

theorem mem_stripHeaders {crossOrigin methodChanges : Bool} {headers : HeaderRecord}
    {p : String × String} :
    p ∈ stripHeaders crossOrigin methodChanges headers ↔
      p ∈ headers ∧ (crossOrigin = true → isCredential p.1 = false) ∧
        (methodChanges = true → isContent p.1 = false) := by
  cases crossOrigin <;> cases methodChanges <;>
    simp [stripHeaders, HeaderRecord.remove, isCredential, and_assoc] <;> tauto

section Hygiene
variable {lib : WebLib} {options : SafeFetchOptions}

/-- The loop only takes headers away. -/
theorem hops_headers (out : Outgoing) (answers : List ServerAnswer) {t : Outgoing}
    (ht : .sent t ∈ (hops lib options out answers).1) : ∀ p ∈ t.headers, p ∈ out.headers := by
  induction out, answers using hops_rule lib options with
  | refused out answers he _ => simp [he] at ht
  | stopped out answers he _ =>
    obtain rfl : t = out := by simpa [he] using ht
    exact fun _ hp => hp
  | follow out response rest r req next h hn ih =>
    rw [hops_follow h hn] at ht
    rcases (by simpa using ht : t = out ∨ .sent t ∈ (hops lib options next rest).1) with rfl | ht
    · exact fun _ hp => hp
    · intro p hp
      have hp := ih ht p hp
      rw [(nextHop_follows hn).nextHeaders] at hp
      exact (mem_stripHeaders.mp hp).1

/-- What is not a lower-case name of either kind is carried along every redirect
that is followed. -/
theorem followed_sends {out : Outgoing} {answers : List ServerAnswer} {r : Redirect}
    (hr : r ∈ followed lib options out answers) :
    ∃ before t after, (hops lib options out answers).1 = before ++ .redirected r :: .sent t :: after ∧
      ∀ p ∈ out.headers, isCredential p.1 = false → isContent p.1 = false → p ∈ t.headers := by
  induction out, answers using hops_rule lib options with
  | refused out answers _ hf => simp [hf] at hr
  | stopped out answers _ hf => simp [hf] at hr
  | follow out response rest r' req next h hn ih =>
    have hheaders := (nextHop_follows hn).nextHeaders
    rw [hops_follow h hn]
    cases hnext : httpRequestCheck lib next with
    | error message => simp [followed_refused hn hnext] at hr
    | ok _ =>
      rw [followed_follow h hn hnext] at hr
      rcases List.mem_cons.mp hr with rfl | hr
      · obtain ⟨after, hafter⟩ := hops_sends rest hnext
        refine ⟨[.sent out, .approved req], next, after, by rw [hafter]; rfl, ?_⟩
        intro p hp hcred hcont
        rw [hheaders]
        exact mem_stripHeaders.mpr ⟨hp, fun _ => hcred, fun _ => hcont⟩
      · obtain ⟨before, t, after, he, hall⟩ := ih hr
        refine ⟨.sent out :: .approved req :: .redirected r' :: before, t, after, by rw [he]; rfl, ?_⟩
        intro p hp hcred hcont
        refine hall p ?_ hcred hcont
        rw [hheaders]
        exact mem_stripHeaders.mpr ⟨hp, fun _ => hcred, fun _ => hcont⟩

/-- Behind a redirect the lower-case names of its kind are gone. -/
theorem redirected_strips {out : Outgoing} {answers : List ServerAnswer}
    {before after : List FetchEvent} {r : Redirect} {t : Outgoing}
    (he : (hops lib options out answers).1 = before ++ .redirected r :: after)
    (ht : .sent t ∈ after) :
    r ∈ followed lib options out answers ∧ ∀ p ∈ t.headers, p ∈ out.headers ∧
      (r.crossOrigin = true → isCredential p.1 = false) ∧
      (r.methodChanges = true → isContent p.1 = false) := by
  induction out, answers using hops_rule lib options generalizing before with
  | refused out answers hnil _ => simp [hnil] at he
  | stopped out answers hone _ =>
    rw [hone] at he
    rcases before with _ | ⟨_, _ | ⟨_, _⟩⟩ <;> simp at he
  | follow out response rest r' req next h hn ih =>
    have hheaders := (nextHop_follows hn).nextHeaders
    rw [hops_follow h hn] at he
    have hnext : httpRequestCheck lib next = .ok () := by
      cases hnext : httpRequestCheck lib next with
      | ok _ => rfl
      | error message =>
        exfalso
        rw [hops_refused hnext] at he
        rcases before with _ | ⟨_, _ | ⟨_, _ | ⟨_, _⟩⟩⟩ <;> simp at he
        obtain ⟨-, -, -, rfl⟩ := he
        simp at ht
    rw [followed_follow h hn hnext]
    rcases before with _ | ⟨_, _ | ⟨_, _ | ⟨_, before⟩⟩⟩
    · simp at he
    · simp at he
    · obtain ⟨-, -, rfl, rfl⟩ : _ ∧ _ ∧ r' = r ∧ (hops lib options next rest).1 = after := by
        simpa using he
      refine ⟨List.mem_cons_self, fun p hp => ?_⟩
      have hp := hops_headers next rest ht p hp
      rw [hheaders] at hp
      exact mem_stripHeaders.mp hp
    · have he : (hops lib options next rest).1 = before ++ .redirected r :: after := by
        simp only [List.cons_append, List.cons.injEq] at he
        exact he.2.2.2
      obtain ⟨hr, hall⟩ := ih he
      refine ⟨List.mem_cons_of_mem _ hr, fun p hp => ?_⟩
      obtain ⟨hmem, hcred, hcont⟩ := hall p hp
      rw [hheaders] at hmem
      exact ⟨(mem_stripHeaders.mp hmem).1, hcred, hcont⟩

variable (lib options) in
/-- Whatever middleware leaves behind: the headers are stripped exactly if every
credential among them is in lower case or no redirect that is followed leaves the
origin, and every `content-` name starts in lower case or none of them changes the
method. -/
theorem credentials_stripped_iff (url : String) (headers : HeaderRecord) (body : Option FetchBody)
    (ops : List ContextOp) (method : String) (answers : List ServerAnswer) :
    let ctx := ops.foldl FetchContext.apply (makeFetchContext url headers body)
    let chain := redirectChain lib options ctx method answers
    HeadersStripped (finalNext lib options ctx method answers).1 ↔
      ((∃ r ∈ chain, r.crossOrigin = true) → ∀ p ∈ ctx.headers,
        isCredential (toLowerCase p.1) = true → isCredential p.1 = true) ∧
      ((∃ r ∈ chain, r.methodChanges = true) → ∀ p ∈ ctx.headers,
        isContent (toLowerCase p.1) = true → isContent p.1 = true) := by
  intro ctx chain
  constructor
  · intro h
    constructor
    · rintro ⟨r, hr, hcross⟩ p hp hlower
      obtain ⟨before, t, after, he, hcarried⟩ := followed_sends hr
      by_contra hname
      have hname : isCredential p.1 = false := by simpa using hname
      have hleak := (h before r _ he).1 hcross t List.mem_cons_self p
        (hcarried p hp hname (isContent_of_credential_toLowerCase hlower))
      rw [hlower] at hleak
      cases hleak
    · rintro ⟨r, hr, hmethod⟩ p hp hlower
      obtain ⟨before, t, after, he, hcarried⟩ := followed_sends hr
      by_contra hname
      have hname : isContent p.1 = false := by simpa using hname
      have hleak := (h before r _ he).2 hmethod t after rfl p
        (hcarried p hp (isCredential_of_content_toLowerCase hlower) hname)
      rw [hlower] at hleak
      cases hleak
  · rintro ⟨hcred, hcont⟩ before r after he
    constructor
    · intro hcross t ht p hp
      obtain ⟨hr, hall⟩ := redirected_strips he ht
      obtain ⟨hmem, hstripped, -⟩ := hall p hp
      by_contra hlower
      have hexact := hcred ⟨r, hr, hcross⟩ p hmem (by simpa using hlower)
      rw [hstripped hcross] at hexact
      cases hexact
    · rintro hmethod t rest rfl p hp
      obtain ⟨hr, hall⟩ := redirected_strips he List.mem_cons_self
      obtain ⟨hmem, -, hstripped⟩ := hall p hp
      by_contra hlower
      have hexact := hcont ⟨r, hr, hmethod⟩ p hmem (by simpa using hlower)
      rw [hstripped hmethod] at hexact
      cases hexact

end Hygiene

/-- Two origins. -/
def siteUrl (host : String) : Url :=
  { protocol := "https:", username := "", password := "", hostname := host, port := ""
    pathname := "/", search := "", origin := "https://" ++ host, href := "https://" ++ host ++ "/" }

def siteLib : WebLib where
  parse url := if url = (siteUrl "a.test").href then some (siteUrl "a.test")
    else if url = (siteUrl "b.test").href then some (siteUrl "b.test") else none
  resolve location _ := if location = (siteUrl "b.test").href then some (siteUrl "b.test") else none
  findRoute _ _ _ := none
  validHeaders _ := true
  isReservedIp _ := false

def siteOptions : SafeFetchOptions where
  rules := none
  policy := some fun _ => .answered true
  pinDns := true
  maxRedirects := 1
  allowCompressedResponses := false

/-- Middleware assigns `ctx.req.headers['Authorization']`, and the first origin
redirects to the second, which receives it. -/
theorem credential_crosses_origin :
    let ctx := [ContextOp.assignHeader "Authorization" "Bearer secret"].foldl FetchContext.apply
      (makeFetchContext (siteUrl "a.test").href [] none)
    ¬ HeadersStripped (finalNext siteLib siteOptions ctx "GET"
      [.responded ⟨302, some "https://b.test/"⟩]).1 := by
  intro ctx h
  let events := (finalNext siteLib siteOptions ctx "GET" [.responded ⟨302, some "https://b.test/"⟩]).1
  have he : events = events.take 2 ++ .redirected ⟨siteUrl "a.test", siteUrl "b.test", 302, "GET"⟩ ::
      [.sent ⟨"https://b.test/", "GET", none, [("Authorization", "Bearer secret")], 1⟩] := rfl
  have hleak := (h _ _ _ he).1 rfl _ List.mem_cons_self _ List.mem_cons_self
  cases hleak

end Iso4
