/-
The decision of the allow list (`packages/iso4-fetch/src/index.ts`).

* `decidingRule` — the rule that decides a request: the first exact one whose scheme and port
  pass, else the first wildcard one;
* `decision` — the decision the two passes of `matchRules` are meant to take;
* `hostWildcard_iff` — the names a wildcard covers;
* `fetch_rule_decision` — `checkRequest` takes that decision, and a wildcard rule may be moved
  past an exact one.
-/
import Iso4.FetchRules

namespace Iso4

open Text

/-! ### Wildcard hosts -/

theorem length_splitOn_eq_one {l : List Char} : (l.splitOn '.').length = 1 ↔ '.' ∉ l := by
  constructor
  · intro hone hmem
    obtain ⟨before, after, rfl⟩ := List.append_of_mem hmem
    rw [List.splitOn_append_cons_self, List.length_append] at hone
    have hbefore := List.length_pos_iff.mpr (List.splitOn_ne_nil '.' before)
    have hafter := List.length_pos_iff.mpr (List.splitOn_ne_nil '.' after)
    omega
  · intro hnot
    rw [List.splitOn_eq_singleton hnot]
    rfl

theorem startsWith_append (s t : String) : startsWith (s ++ t) s = true := by
  unfold startsWith
  rw [List.isPrefixOf_iff_prefix, String.toList_append]
  exact List.prefix_append _ _

theorem hostWildcard_append (host domain : String) :
    hostWildcard host ("*." ++ domain) = true ↔
      ∃ label : List Char, '.' ∉ label ∧ host.toList = label ++ '.' :: domain.toList := by
  have hdomain : String.ofList (("*." ++ domain).toList.drop 2) = domain := by
    rw [String.toList_append]
    exact String.ofList_toList
  unfold hostWildcard
  rw [startsWith_append, hdomain]
  simp only [Bool.not_true, Bool.false_eq_true, if_false, Bool.and_eq_true, beq_iff_eq]
  unfold endsWith dotted
  rw [List.isSuffixOf_iff_suffix, String.toList_append]
  constructor
  · rintro ⟨hlen, label, hlabel⟩
    refine ⟨label, length_splitOn_eq_one.mp ?_, hlabel.symm⟩
    have hsplit : (label ++ '.' :: domain.toList).splitOn '.' =
        label.splitOn '.' ++ domain.toList.splitOn '.' := List.splitOn_append_cons_self _ _
    rw [← hlabel] at hlen
    have hlen : ((label ++ '.' :: domain.toList).splitOn '.').length =
      (domain.toList.splitOn '.').length + 1 := hlen
    rw [hsplit, List.length_append] at hlen
    omega
  · rintro ⟨label, hnot, heq⟩
    rw [heq]
    refine ⟨?_, label, rfl⟩
    rw [List.splitOn_append_cons_self, List.length_append, length_splitOn_eq_one.mpr hnot,
      Nat.add_comm]

/-- A wildcard covers the names with one more label than its domain, and nothing else does. -/
theorem hostWildcard_iff (host ruleHost : String) :
    hostWildcard host ruleHost = true ↔
      ∃ domain label, ruleHost = "*." ++ domain ∧ '.' ∉ label ∧
        host.toList = label ++ '.' :: domain.toList := by
  constructor
  · intro h
    have hstar : startsWith ruleHost "*." = true := by
      unfold hostWildcard at h
      by_contra hnot
      simp [hnot] at h
    obtain ⟨domain, hdomain⟩ := List.isPrefixOf_iff_prefix.mp hstar
    have hrule : ruleHost = "*." ++ String.ofList domain := by
      rw [← String.toList_inj, String.toList_append, ← hdomain]
      exact congrArg (_ ++ ·) String.toList_ofList.symm
    rw [hrule] at h
    obtain ⟨label, hlabel⟩ := (hostWildcard_append host _).mp h
    exact ⟨String.ofList domain, label, hrule, hlabel⟩
  · rintro ⟨domain, label, rfl, hlabel⟩
    exact (hostWildcard_append host domain).mpr ⟨label, hlabel⟩

/-! ### The reference decision -/

section Decision

variable (lib : WebLib)

def exactHost (req : SafeFetchRequest) (rule : FetchOriginRule) : Bool :=
  rule.host.toList.any (hostExact req.host)

def wildcardHost (req : SafeFetchRequest) (rule : FetchOriginRule) : Bool :=
  rule.host.toList.any (hostWildcard req.host)

/-- The rule that decides the request. -/
def decidingRule (rules : List FetchOriginRule) (req : SafeFetchRequest) : Option FetchOriginRule :=
  (rules.find? fun rule => exactHost req rule && schemeAndPortOk req rule).or
    (rules.find? fun rule => wildcardHost req rule && schemeAndPortOk req rule)

/-- Some rule's host matches, whatever its scheme and port. -/
def originClaimed (rules : List FetchOriginRule) (req : SafeFetchRequest) : Bool :=
  rules.any fun rule => exactHost req rule || wildcardHost req rule

/-- The path that is matched, as it will be sent. -/
def sentPath (req : SafeFetchRequest) : Except String String :=
  match lib.parse req.url with
  | some url => .ok url.pathname
  | none => .error "Invalid URL"

def denied (req : SafeFetchRequest) : Except String (Option RouteMatch) :=
  .error ("fetch: request denied — no matching route for " ++ req.method ++ " " ++ req.path ++
    " on " ++ req.host)

/-- The deciding rule allows exactly when it has a route for the request. -/
def ruleDecision (req : SafeFetchRequest) (rule : FetchOriginRule) :
    Except String (Option RouteMatch) :=
  if rule.routes.isEmpty then denied req
  else do
    let pathname ← sentPath lib req
    match lib.findRoute (buildRouter rule.routes) req.method pathname with
    | some (route, params) => .ok (some ⟨rule, route, params⟩)
    | none => denied req

/-- Without an approving policy a request is denied. -/
def policyDecision (policy : Option (SafeFetchRequest → PolicyAnswer)) (req : SafeFetchRequest) :
    Except String (Option RouteMatch) :=
  match policy with
  | none => .error "fetch: request denied by policy"
  | some policy =>
    match policy req with
    | .answered true => .ok none
    | .answered false => .error "fetch: request denied by policy"
    | .threw message => .error message

/-- A rule decides; or its origin is claimed, and the request is denied; or the policy is asked. -/
def decision (rules : List FetchOriginRule) (policy : Option (SafeFetchRequest → PolicyAnswer))
    (req : SafeFetchRequest) : Except String (Option RouteMatch) :=
  match decidingRule rules req with
  | some rule => ruleDecision lib req rule
  | none => if originClaimed rules req then denied req else policyDecision policy req

def SafeFetchOptions.ruleList (options : SafeFetchOptions) : List FetchOriginRule :=
  (options.rules.map OneOrMany.toList).getD []

def compiledRule (rule : FetchOriginRule) : CompiledRule :=
  ⟨rule, rule.host.toList, buildRouter rule.routes⟩

theorem compiled_eq (options : SafeFetchOptions) :
    options.compiled = options.ruleList.map compiledRule := by
  unfold SafeFetchOptions.compiled SafeFetchOptions.ruleList
  cases options.rules with
  | none => rfl
  | some rules => rfl

/-! ### The two passes -/

/-- Host, scheme and port of a rule pass, the host in the way of one pass. -/
def rulePasses (hostOk : String → String → Bool) (req : SafeFetchRequest) (rule : FetchOriginRule) :
    Bool :=
  rule.host.toList.any (hostOk req.host) && schemeAndPortOk req rule

theorem matchPass_cons (hostOk : String → String → Bool) (req : SafeFetchRequest)
    (rule : FetchOriginRule) (rules : List FetchOriginRule) (hostMatched : Bool)
    (h : rulePasses hostOk req rule = false) :
    matchPass lib hostOk req ((rule :: rules).map compiledRule) hostMatched =
      matchPass lib hostOk req (rules.map compiledRule)
        (hostMatched || rule.host.toList.any (hostOk req.host)) := by
  rw [List.map_cons, matchPass]
  have hhosts : (compiledRule rule).hosts.any (hostOk req.host) =
      rule.host.toList.any (hostOk req.host) := rfl
  have hrule : (compiledRule rule).rule = rule := rfl
  unfold rulePasses at h
  rw [hhosts, hrule]
  cases hhost : rule.host.toList.any (hostOk req.host) with
  | false => simp
  | true =>
    rw [hhost, Bool.true_and] at h
    simp [h]

/-- The first rule that passes answers for the pass. -/
theorem matchPass_found (hostOk : String → String → Bool) (req : SafeFetchRequest)
    {rules : List FetchOriginRule} {rule : FetchOriginRule} (hostMatched : Bool)
    (h : rules.find? (rulePasses hostOk req) = some rule) :
    matchPass lib hostOk req (rules.map compiledRule) hostMatched =
      (matchRoute lib req (compiledRule rule)).map fun result => (some result, true) := by
  induction rules generalizing hostMatched with
  | nil => cases h
  | cons first rules ih =>
    cases hfirst : rulePasses hostOk req first with
    | false =>
      rw [List.find?_cons_of_neg (by rw [hfirst]; decide)] at h
      rw [matchPass_cons lib hostOk req first rules hostMatched hfirst]
      exact ih _ h
    | true =>
      rw [List.find?_cons_of_pos hfirst] at h
      obtain rfl := Option.some.inj h
      unfold rulePasses at hfirst
      obtain ⟨hhost, hport⟩ := (Bool.and_eq_true _ _).mp hfirst
      have hhost : (compiledRule first).hosts.any (hostOk req.host) = true := hhost
      have hport : schemeAndPortOk req (compiledRule first).rule = true := hport
      rw [List.map_cons, matchPass, hhost, hport]
      cases matchRoute lib req (compiledRule first) with
      | error message => rfl
      | ok result => rfl

/-- With no rule that passes, the pass says whether a host matched. -/
theorem matchPass_none (hostOk : String → String → Bool) (req : SafeFetchRequest)
    {rules : List FetchOriginRule} (hostMatched : Bool)
    (h : rules.find? (rulePasses hostOk req) = none) :
    matchPass lib hostOk req (rules.map compiledRule) hostMatched =
      .ok (none, hostMatched || rules.any fun rule => rule.host.toList.any (hostOk req.host)) := by
  induction rules generalizing hostMatched with
  | nil => rw [List.any_nil, Bool.or_false]; rfl
  | cons first rules ih =>
    have hall := List.find?_eq_none.mp h
    have hfirst : rulePasses hostOk req first = false := by simpa using hall first List.mem_cons_self
    have hrest : rules.find? (rulePasses hostOk req) = none :=
      List.find?_eq_none.mpr fun rule hrule => hall rule (List.mem_cons_of_mem _ hrule)
    rw [matchPass_cons lib hostOk req first rules hostMatched hfirst, ih _ hrest, List.any_cons,
      Bool.or_assoc]

theorem matchRules_exact {req : SafeFetchRequest} {rules : List FetchOriginRule}
    {rule : FetchOriginRule} (h : rules.find? (rulePasses hostExact req) = some rule) :
    matchRules lib req (rules.map compiledRule) = matchRoute lib req (compiledRule rule) := by
  unfold matchRules
  rw [matchPass_found lib hostExact req false h]
  cases matchRoute lib req (compiledRule rule) with
  | error message => rfl
  | ok result => rfl

theorem matchRules_wildcard {req : SafeFetchRequest} {rules : List FetchOriginRule}
    {rule : FetchOriginRule} (hexact : rules.find? (rulePasses hostExact req) = none)
    (h : rules.find? (rulePasses hostWildcard req) = some rule) :
    matchRules lib req (rules.map compiledRule) = matchRoute lib req (compiledRule rule) := by
  unfold matchRules
  rw [matchPass_none lib hostExact req false hexact]
  show (matchPass lib hostWildcard req (rules.map compiledRule) _ >>= _) = _
  rw [matchPass_found lib hostWildcard req _ h]
  cases matchRoute lib req (compiledRule rule) with
  | error message => rfl
  | ok result => rfl

theorem matchRules_none {req : SafeFetchRequest} {rules : List FetchOriginRule}
    (hexact : rules.find? (rulePasses hostExact req) = none)
    (hwildcard : rules.find? (rulePasses hostWildcard req) = none) :
    matchRules lib req (rules.map compiledRule) =
      .ok (if originClaimed rules req then .denyRoute else .noOrigin) := by
  have hclaimed : (false || (rules.any fun rule => rule.host.toList.any (hostExact req.host)) ||
      rules.any fun rule => rule.host.toList.any (hostWildcard req.host)) = originClaimed rules req := by
    rw [Bool.false_or, Bool.eq_iff_iff]
    unfold originClaimed exactHost wildcardHost
    simp only [Bool.or_eq_true, List.any_eq_true]
    constructor
    · rintro (⟨rule, hrule, hhost⟩ | ⟨rule, hrule, hhost⟩)
      · exact ⟨rule, hrule, .inl hhost⟩
      · exact ⟨rule, hrule, .inr hhost⟩
    · rintro ⟨rule, hrule, hhost | hhost⟩
      · exact .inl ⟨rule, hrule, hhost⟩
      · exact .inr ⟨rule, hrule, hhost⟩
  unfold matchRules
  rw [matchPass_none lib hostExact req false hexact]
  show (matchPass lib hostWildcard req (rules.map compiledRule) _ >>= _) = _
  rw [matchPass_none lib hostWildcard req _ hwildcard, hclaimed]
  rfl

/-- The answer of the deciding rule becomes its decision. -/
theorem checkRequest_decided {options : SafeFetchOptions} {req : SafeFetchRequest}
    {rule : FetchOriginRule} (hne : options.compiled.isEmpty = false)
    (h : matchRules lib req options.compiled = matchRoute lib req (compiledRule rule)) :
    checkRequest lib options req = ruleDecision lib req rule := by
  unfold checkRequest
  rw [hne, h]
  unfold matchRoute ruleDecision sentPath
  have hrule : (compiledRule rule).rule = rule := rfl
  have hrouter : (compiledRule rule).router = buildRouter rule.routes := rfl
  rw [hrule, hrouter]
  cases rule.routes.isEmpty with
  | true => rfl
  | false =>
    cases hurl : lib.parse req.url with
    | none => rfl
    | some url =>
      cases hroute : lib.findRoute (buildRouter rule.routes) req.method url.pathname with
      | none => simp [hroute, denied, bind, Except.bind]
      | some found => simp [hroute, bind, Except.bind]

theorem checkPolicy_eq (options : SafeFetchOptions) (req : SafeFetchRequest) :
    checkPolicy options req = policyDecision options.policy req := by
  unfold checkPolicy policyDecision
  cases options.policy with
  | none => rfl
  | some policy =>
    dsimp only
    cases policy req with
    | answered allowed => cases allowed <;> rfl
    | threw message => rfl

theorem checkRequest_eq (options : SafeFetchOptions) (req : SafeFetchRequest) :
    checkRequest lib options req = decision lib options.ruleList options.policy req := by
  have hcompiled := compiled_eq options
  cases hrules : options.ruleList with
  | nil =>
    rw [hrules] at hcompiled
    unfold checkRequest
    rw [hcompiled]
    exact checkPolicy_eq options req
  | cons first rules =>
    rw [hrules] at hcompiled
    have hne : options.compiled.isEmpty = false := by
      rw [hcompiled]
      rfl
    generalize first :: rules = all at hcompiled
    unfold decision decidingRule
    cases hexact : all.find? fun rule => exactHost req rule && schemeAndPortOk req rule with
    | some rule =>
      refine checkRequest_decided lib hne ?_
      rw [hcompiled]
      exact matchRules_exact lib hexact
    | none =>
      cases hwildcard : all.find? fun rule => wildcardHost req rule && schemeAndPortOk req rule with
      | some rule =>
        refine checkRequest_decided lib hne ?_
        rw [hcompiled]
        exact matchRules_wildcard lib hexact hwildcard
      | none =>
        unfold checkRequest
        rw [hne, hcompiled, matchRules_none lib hexact hwildcard]
        show _ = if originClaimed all req then denied req else policyDecision options.policy req
        cases originClaimed all req with
        | true => rfl
        | false => exact checkPolicy_eq options req

/-! ### Order -/

/-- Every host of the rule is a wildcard. -/
def PurelyWildcard (rule : FetchOriginRule) : Prop :=
  ∀ host ∈ rule.host.toList, startsWith host "*." = true

/-- No host of the rule is a wildcard. -/
def PurelyExact (rule : FetchOriginRule) : Prop :=
  ∀ host ∈ rule.host.toList, startsWith host "*." = false

theorem exactHost_wildcard {rule : FetchOriginRule} (h : PurelyWildcard rule)
    (req : SafeFetchRequest) : exactHost req rule = false := by
  unfold exactHost
  rw [List.any_eq_false]
  intro host hhost
  unfold hostExact
  rw [h host hhost]
  simp

theorem wildcardHost_exact {rule : FetchOriginRule} (h : PurelyExact rule)
    (req : SafeFetchRequest) : wildcardHost req rule = false := by
  unfold wildcardHost
  rw [List.any_eq_false]
  intro host hhost
  unfold hostWildcard
  rw [h host hhost]
  simp

theorem find?_swap {α : Type} (p : α → Bool) (before after : List α) {x y : α}
    (h : p x = false ∨ p y = false) :
    (before ++ x :: y :: after).find? p = (before ++ y :: x :: after).find? p := by
  rw [List.find?_append, List.find?_append, List.find?_cons, List.find?_cons, List.find?_cons,
    List.find?_cons]
  rcases h with hx | hy
  · rw [hx]
  · rw [hy]

theorem decision_swap (policy : Option (SafeFetchRequest → PolicyAnswer)) (req : SafeFetchRequest)
    (before after : List FetchOriginRule) {w x : FetchOriginRule} (hw : PurelyWildcard w)
    (hx : PurelyExact x) :
    decision lib (before ++ w :: x :: after) policy req =
      decision lib (before ++ x :: w :: after) policy req := by
  have hexact := find?_swap (fun rule => exactHost req rule && schemeAndPortOk req rule) before after
    (x := w) (y := x) (.inl (by rw [exactHost_wildcard hw, Bool.false_and]))
  have hwildcard := find?_swap (fun rule => wildcardHost req rule && schemeAndPortOk req rule) before
    after (x := w) (y := x) (.inr (by rw [wildcardHost_exact hx, Bool.false_and]))
  have hclaimed : originClaimed (before ++ w :: x :: after) req =
      originClaimed (before ++ x :: w :: after) req :=
    ((List.Perm.swap x w after).append_left before).any_eq
  unfold decision decidingRule
  rw [hexact, hwildcard, hclaimed]

/-- For every rules, policy and request: `checkRequest` takes the decision; a host is covered by
a wildcard exactly when it has one label more than the domain; and a wildcard rule may be moved
past an exact one. -/
theorem fetch_rule_decision (options : SafeFetchOptions) (req : SafeFetchRequest) :
    checkRequest lib options req = decision lib options.ruleList options.policy req ∧
      (∀ host ruleHost, hostWildcard host ruleHost = true ↔
        ∃ domain label, ruleHost = "*." ++ domain ∧ '.' ∉ label ∧
          host.toList = label ++ '.' :: domain.toList) ∧
      ∀ before w x after, PurelyWildcard w → PurelyExact x →
        checkRequest lib { options with rules := some (.many (before ++ w :: x :: after)) } req =
          checkRequest lib { options with rules := some (.many (before ++ x :: w :: after)) } req := by
  refine ⟨checkRequest_eq lib options req, hostWildcard_iff, fun before w x after hw hx => ?_⟩
  rw [checkRequest_eq, checkRequest_eq]
  exact decision_swap lib options.policy req before after hw hx

end Decision

end Iso4
