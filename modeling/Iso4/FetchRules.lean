/-
The allow list of the hardened fetch (`packages/iso4-fetch/src/index.ts`).

Rules name origins and their routes; a request is matched against the rules with
an exact host first, then against the wildcard ones, and what no rule claims is
left to the policy.  The URL parser, the rou3 router and the table of reserved
addresses are given functions (`WebLib`).

* `checkRequest` — the decision on one request;
* `buildSafeFetchRequest` — the request it is taken on.
-/
import Mathlib.Data.List.Basic
import Mathlib.Tactic.Common

namespace Iso4

/-! ### Texts -/

namespace Text

/-- `toLowerCase`, on the ASCII names the code applies it to. -/
def toLowerCase (s : String) : String := String.ofList (s.toList.map Char.toLower)

def toUpperCase (s : String) : String := String.ofList (s.toList.map Char.toUpper)

def startsWith (s start : String) : Bool := start.toList.isPrefixOf s.toList

def endsWith (s tail : String) : Bool := tail.toList.isSuffixOf s.toList

/-- `split('.')`. -/
def dotted (s : String) : List (List Char) := s.toList.splitOn '.'

/-- `parseInt(s, 10)` of a string of digits. -/
def parseDigits (s : String) : Nat := s.toList.foldl (fun n c => 10 * n + (c.toNat - '0'.toNat)) 0

end Text

open Text

/-! ### Rules -/

/-- `T | T[]`. -/
inductive OneOrMany (α : Type) where
  | one (a : α)
  | many (as : List α)

def OneOrMany.toList {α : Type} : OneOrMany α → List α
  | .one a => [a]
  | .many as => as

/-- The methods of a route: absent or `'*'`, one, or a list. -/
inductive RouteMethods where
  | any
  | listed (methods : OneOrMany String)

structure FetchRouteRule where
  path : String
  methods : RouteMethods

structure FetchOriginRule where
  host : OneOrMany String
  httpsOnly : Option Bool
  port : Option (OneOrMany Nat)
  routes : List FetchRouteRule

/-- What was added to a rou3 router: method (empty = any), path and rule. -/
abbrev Router := List (String × String × FetchRouteRule)

structure CompiledRule where
  rule : FetchOriginRule
  hosts : List String
  router : Router

def routeMethodsToRou3 : RouteMethods → List String
  | .any => [""]
  | .listed methods => methods.toList.map toUpperCase

def buildRouter (routes : List FetchRouteRule) : Router :=
  routes.flatMap fun route => (routeMethodsToRou3 route.methods).map fun method =>
    (method, route.path, route)

def compileRules (rules : OneOrMany FetchOriginRule) : List CompiledRule :=
  rules.toList.map fun rule => ⟨rule, rule.host.toList, buildRouter rule.routes⟩

/-! ### Requests -/

/-- A parsed URL, as far as the code reads it. -/
structure Url where
  protocol : String
  username : String
  password : String
  hostname : String
  port : String
  pathname : String
  search : String
  origin : String
  href : String
  deriving DecidableEq

/-- An object of header names and values, in insertion order. -/
abbrev HeaderRecord := List (String × String)

structure SafeFetchRequest where
  url : String
  protocol : String
  host : String
  port : Nat
  path : String
  method : String
  headers : HeaderRecord
  resolvedIp : Option String
  hop : Nat

/-- What the code takes from elsewhere: `URL.parse`, `new URL(url, base)`, rou3's
`findRoute` on a built router, the check of header names and values by
`new Headers`, and `isReservedIp`. -/
structure WebLib where
  parse : String → Option Url
  resolve : String → String → Option Url
  findRoute : Router → String → String → Option (FetchRouteRule × List (String × String))
  validHeaders : HeaderRecord → Bool
  isReservedIp : String → Bool

/-- The outcome of the policy callback; `threw` carries the message the caller
sees. -/
inductive PolicyAnswer where
  | answered (allowed : Bool)
  | threw (message : String)

structure SafeFetchOptions where
  rules : Option (OneOrMany FetchOriginRule)
  policy : Option (SafeFetchRequest → PolicyAnswer)
  pinDns : Bool
  maxRedirects : Nat
  allowCompressedResponses : Bool

/-! ### Matching -/

def hostExact (requestHost ruleHost : String) : Bool :=
  !startsWith ruleHost "*." && requestHost == ruleHost

def hostWildcard (requestHost ruleHost : String) : Bool :=
  if !startsWith ruleHost "*." then false
  else
    let domain := String.ofList (ruleHost.toList.drop 2)
    let expectedSegments := (dotted domain).length + 1
    (dotted requestHost).length == expectedSegments && endsWith requestHost ("." ++ domain)

structure RouteMatch where
  originRule : FetchOriginRule
  matchedRule : FetchRouteRule
  params : List (String × String)

inductive MatchResult where
  | allow (found : RouteMatch)
  | denyRoute
  | noOrigin

section Matching
variable (lib : WebLib)

/-- Scheme and port of a rule whose host matched. -/
def schemeAndPortOk (req : SafeFetchRequest) (rule : FetchOriginRule) : Bool :=
  let standardPort := if req.protocol = "https" then 443 else 80
  (rule.httpsOnly == some false || req.protocol == "https") &&
    match rule.port with
    | some port => port.toList.contains req.port
    | none => req.port == standardPort

/-- What a rule says once host, scheme and port match. -/
def matchRoute (req : SafeFetchRequest) (compiled : CompiledRule) : Except String MatchResult :=
  if compiled.rule.routes.isEmpty then .ok .denyRoute
  else match lib.parse req.url with
    | none => .error "Invalid URL"
    | some url =>
      match lib.findRoute compiled.router req.method url.pathname with
      | none => .ok .denyRoute
      | some (route, params) => .ok (.allow ⟨compiled.rule, route, params⟩)

/-- One pass over the rules; the flag says that some host matched. -/
def matchPass (hostOk : String → String → Bool) (req : SafeFetchRequest) :
    List CompiledRule → Bool → Except String (Option MatchResult × Bool)
  | [], hostMatched => .ok (none, hostMatched)
  | compiled :: rest, hostMatched =>
    if !compiled.hosts.any (hostOk req.host) then matchPass hostOk req rest hostMatched
    else if !schemeAndPortOk req compiled.rule then matchPass hostOk req rest true
    else do
      let result ← matchRoute lib req compiled
      .ok (some result, true)

def matchRules (req : SafeFetchRequest) (compiled : List CompiledRule) : Except String MatchResult := do
  match ← matchPass lib hostExact req compiled false with
  | (some result, _) => .ok result
  | (none, hostMatched) =>
    match ← matchPass lib hostWildcard req compiled hostMatched with
    | (some result, _) => .ok result
    | (none, hostMatched) => .ok (if hostMatched then .denyRoute else .noOrigin)

variable (options : SafeFetchOptions)

def SafeFetchOptions.compiled (options : SafeFetchOptions) : List CompiledRule :=
  (options.rules.map compileRules).getD []

/-- Absent policies allow nothing. -/
def checkPolicy (req : SafeFetchRequest) : Except String (Option RouteMatch) :=
  match options.policy with
  | none => .error "fetch: request denied by policy"
  | some policy =>
    match policy req with
    | .threw message => .error message
    | .answered true => .ok none
    | .answered false => .error "fetch: request denied by policy"

/-- Allow or deny one request; `none` = allowed by the policy. -/
def checkRequest (req : SafeFetchRequest) : Except String (Option RouteMatch) :=
  if options.compiled.isEmpty then checkPolicy options req
  else do
    match ← matchRules lib req options.compiled with
    | .allow found => .ok (some found)
    | .denyRoute =>
      .error ("fetch: request denied — no matching route for " ++ req.method ++ " " ++ req.path ++
        " on " ++ req.host)
    | .noOrigin => checkPolicy options req

/-- `/^\d{1,3}(?:\.\d{1,3}){3}$/` or a bracketed address. -/
def isIpLiteral (host : String) : Bool :=
  ((dotted host).length == 4 &&
    (dotted host).all fun part => 1 ≤ part.length && part.length ≤ 3 && part.all Char.isDigit) ||
  startsWith host "["

/-- `host.replace(/^\[|\]$/g, '')`. -/
def unbracket (host : String) : String :=
  let inner := if startsWith host "[" then host.toList.drop 1 else host.toList
  String.ofList (if inner.getLast? = some ']' then inner.dropLast else inner)

def buildSafeFetchRequest (parsedUrl : Url) (method : String) (headers : HeaderRecord) (hop : Nat) :
    Except String SafeFetchRequest :=
  let protocol := String.ofList parsedUrl.protocol.toList.dropLast
  if protocol ≠ "http" ∧ protocol ≠ "https" then
    .error ("fetch: unsupported protocol \"" ++ parsedUrl.protocol ++ "\"")
  else
    let host := toLowerCase parsedUrl.hostname
    let port := if parsedUrl.port ≠ "" then parseDigits parsedUrl.port
      else if protocol = "https" then 443 else 80
    if options.pinDns && isIpLiteral host && lib.isReservedIp (unbracket host) then
      .error ("fetch: request blocked — IP literal " ++ host ++ " is private/reserved")
    else
      .ok { url := parsedUrl.href, protocol, host, port,
            path := parsedUrl.pathname ++ parsedUrl.search, method, headers, resolvedIp := none, hop }

end Matching

end Iso4
