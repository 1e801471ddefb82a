/-
`URL` of the sandbox and its `searchParams` (`crates/core/src/webtypes.js`), over the callbacks of
`crates/core/src/url.rs` and the parser of ada.

* `WebTypes.Ada` — the parser, of which the callbacks are written;
* `WebTypes.UrlObject.step` — the setters of the URL and the operations of its `searchParams`;
* `WebTypes.UrlObject.parse_sync` — a query that is written is the one that is parsed back;
* `WebTypes.UrlObject.always_in_step_iff` — the list and the URL stay in step through just the
  runs that append and set well-formed strings.
-/
import Iso4.SearchParamsCodec
import Iso4.SearchParamsList

namespace Iso4

namespace WebTypes

/-! ### `url.rs` -/

/-- The component strings, in the order of the `U_…` constants. -/
inductive Component where
  | href
  | protocol
  | username
  | password
  | host
  | hostname
  | port
  | pathname
  | search
  | hash
  | origin
  deriving DecidableEq

/-- `ada_url::Url`, on the texts of Rust. -/
structure Ada where
  Url : Type
  parse : (input : List Char) → (base : Option (List Char)) → Option Url
  part : Url → Component → List Char
  /-- Nothing where the value is no URL. -/
  setHref : Url → List Char → Option Url
  /-- The other `set_…`, which leave the URL where the value is no good. -/
  set : Component → Url → Option (List Char) → Url

namespace Ada

variable (ada : Ada)

/-- `components`: new strings of JavaScript. -/
def components (url : ada.Url) (which : Component) : Units := (ada.part url which).flatMap Utf16.units

/-- `url_parse_callback`; `arg_string` reads an unpaired surrogate as U+FFFD. -/
def urlParse (input : Units) (base : Option Units) : Option (Component → Units) :=
  (ada.parse (Utf16.scalars input) (base.map Utf16.scalars)).map ada.components

/-- The empty string removes. -/
def orNone (value : List Char) : Option (List Char) := if value = [] then none else some value

/-- `url_set_callback`. -/
def urlSet (href : Units) (which : Component) (value : Units) : Option (Component → Units) :=
  match ada.parse (Utf16.scalars href) none with
  | none => none
  | some url =>
    let value := Utf16.scalars value
    match which with
    | .href => (ada.setHref url value).map ada.components
    | .protocol => some (ada.components (ada.set .protocol url (some value)))
    | .username => some (ada.components (ada.set .username url (some value)))
    | .password => some (ada.components (ada.set .password url (some value)))
    | .host => some (ada.components (ada.set .host url (some value)))
    | .hostname => some (ada.components (ada.set .hostname url (some value)))
    | .port => some (ada.components (ada.set .port url (orNone value)))
    | .pathname => some (ada.components (ada.set .pathname url (some value)))
    | .search => some (ada.components (ada.set .search url (orNone value)))
    | .hash => some (ada.components (ada.set .hash url (orNone value)))
    | .origin => none

end Ada

/-! ### `URL` -/

/-- `_c`, and the list of `_sp` once there is one. -/
structure UrlObject where
  c : Component → Units
  sp : Option Pairs

/-- The setters that do no more than `_apply`. -/
inductive PlainSetter where
  | protocol
  | username
  | password
  | host
  | hostname
  | port
  | pathname
  | hash

def PlainSetter.which : PlainSetter → Component
  | .protocol => .protocol
  | .username => .username
  | .password => .password
  | .host => .host
  | .hostname => .hostname
  | .port => .port
  | .pathname => .pathname
  | .hash => .hash

inductive UrlCall where
  | href (v : Units)
  | search (v : Units)
  | plain (setter : PlainSetter) (v : Units)
  /-- The getter, which makes `_sp` the first time. -/
  | searchParams
  | append (name value : Units)
  | delete (name : Units)
  | set (name value : Units)
  | sort

/-- The strings that are appended and set have no unpaired surrogate. -/
def UrlCall.Clean : UrlCall → Prop
  | .append name value => Utf16.isWellFormed name = true ∧ Utf16.isWellFormed value = true
  | .set name value => Utf16.isWellFormed name = true ∧ Utf16.isWellFormed value = true
  | _ => True

inductive Outcome where
  | done
  /-- `Invalid URL`, with the text in the message. -/
  | typeError (v : Units)
  | uriError
  deriving DecidableEq

namespace UrlObject

/-- The list of `url.searchParams`. -/
def params (u : UrlObject) : Pairs := u.sp.getD (parse (u.c .search))

section

variable (ada : Ada)

/-- `_apply`, and whether it gave `null`. -/
def apply (u : UrlObject) (which : Component) (value : Units) : UrlObject × Bool :=
  match ada.urlSet (u.c .href) which value with
  | none => (u, true)
  | some c => ({ u with c := c }, false)

/-- `_resyncSearchParams`. -/
def resync (u : UrlObject) : UrlObject :=
  match u.sp with
  | none => u
  | some _ => { u with sp := some (parse (u.c .search)) }

/-- An operation that has made the list `p`, from its `_sync` on. -/
def sync (u : UrlObject) (p : Pairs) : UrlObject × Outcome :=
  match toQuery p with
  | none => ({ u with sp := some p }, .uriError)
  | some query => ((apply ada { u with sp := some p } .search query).1, .done)

def step (u : UrlObject) : UrlCall → UrlObject × Outcome
  | .href v =>
    match apply ada u .href v with
    | (u, true) => (u, .typeError v)
    | (u, false) => (resync u, .done)
  | .search v => (resync (apply ada u .search v).1, .done)
  | .plain setter v => ((apply ada u setter.which v).1, .done)
  | .searchParams => ({ u with sp := some u.params }, .done)
  | .append name value => sync ada u (u.params.append name value)
  | .delete name => sync ada u (u.params.delete name)
  | .set name value => sync ada u (u.params.set name value)
  | .sort => sync ada u u.params.sort

end

end UrlObject

/-! ### What is relied on -/

/-- The query of a serialized URL, as `search` gives it. -/
def queryOf (href : List Char) : List Char :=
  let query := (href.takeWhile (· ≠ '#')).dropWhile (· ≠ '?')
  if query = ['?'] then [] else query

/-- A character of a query that `URLSearchParams` writes. -/
def isEncoded (c : Char) : Bool :=
  c.toNat < 0x80 && (isQueryUnit (UInt16.ofNat c.toNat) || c = '&' || c = '=')

/-- What is relied on of ada. -/
structure Ada.Documented (ada : Ada) : Prop where
  /-- A serialized URL is parsed back. -/
  reparse : ∀ url, ∃ url', ada.parse (ada.part url .href) none = some url' ∧
    ada.part url' = ada.part url
  /-- `search` is the query that stands in `href`. -/
  search_href : ∀ url, ada.part url .search = queryOf (ada.part url .href)
  /-- The setters of other components leave the query. -/
  keeps : ∀ (setter : PlainSetter) url value,
    ada.part (ada.set setter.which url value) .search = ada.part url .search
  clears : ∀ url, ada.part (ada.set .search url none) .search = []
  /-- A query that is encoded already is stored unchanged. -/
  stores : ∀ url (query : List Char), query ≠ [] → query.all isEncoded = true →
    ada.part (ada.set .search url (some query)) .search = '?' :: query

namespace UrlObject

/-! ### Setters -/

section

variable {ada : Ada} {u : UrlObject} {url : ada.Url}

/-- The components are those of a URL of ada. -/
def Serialized (ada : Ada) (u : UrlObject) : Prop := ∃ url, u.c = ada.components url

theorem parse_href (h : ada.Documented) (hu : u.c = ada.components url) :
    ∃ url', ada.parse (Utf16.scalars (u.c .href)) none = some url' ∧
      ada.part url' = ada.part url := by
  obtain ⟨url', hparse, hpart⟩ := h.reparse url
  refine ⟨url', ?_, hpart⟩
  rw [hu, Ada.components, Utf16.scalars_flatMap, hparse]

theorem urlSet_plain (setter : PlainSetter) {href : Units}
    (hparse : ada.parse (Utf16.scalars href) none = some url) (v : Units) :
    ∃ value, ada.urlSet href setter.which v =
      some (ada.components (ada.set setter.which url value)) := by
  cases setter with
  | protocol => exact ⟨some (Utf16.scalars v),
    by simp only [Ada.urlSet, hparse, PlainSetter.which]⟩
  | username => exact ⟨some (Utf16.scalars v),
    by simp only [Ada.urlSet, hparse, PlainSetter.which]⟩
  | password => exact ⟨some (Utf16.scalars v),
    by simp only [Ada.urlSet, hparse, PlainSetter.which]⟩
  | host => exact ⟨some (Utf16.scalars v),
    by simp only [Ada.urlSet, hparse, PlainSetter.which]⟩
  | hostname => exact ⟨some (Utf16.scalars v),
    by simp only [Ada.urlSet, hparse, PlainSetter.which]⟩
  | port => exact ⟨Ada.orNone (Utf16.scalars v),
    by simp only [Ada.urlSet, hparse, PlainSetter.which]⟩
  | pathname => exact ⟨some (Utf16.scalars v),
    by simp only [Ada.urlSet, hparse, PlainSetter.which]⟩
  | hash => exact ⟨Ada.orNone (Utf16.scalars v),
    by simp only [Ada.urlSet, hparse, PlainSetter.which]⟩

/-- A setter of another component leaves the query and the list. -/
theorem apply_plain (h : ada.Documented) (hu : u.c = ada.components url) (setter : PlainSetter)
    (v : Units) : ∃ url', (apply ada u setter.which v).1 = { u with c := ada.components url' } ∧
      ada.components url' .search = u.c .search := by
  obtain ⟨url', hparse, hpart⟩ := parse_href h hu
  obtain ⟨value, hset⟩ := urlSet_plain setter hparse v
  refine ⟨ada.set setter.which url' value, ?_, ?_⟩
  · simp only [apply, hset]
  · rw [hu, Ada.components, Ada.components, h.keeps, hpart]

theorem apply_search (h : ada.Documented) (hu : u.c = ada.components url) (v : Units) :
    ∃ url', (apply ada u .search v).1 =
      { u with c := ada.components (ada.set .search url' (Ada.orNone (Utf16.scalars v))) } := by
  obtain ⟨url', hparse, -⟩ := parse_href h hu
  exact ⟨url', by simp only [apply, Ada.urlSet, hparse]⟩

theorem apply_href (h : ada.Documented) (hu : u.c = ada.components url) (v : Units) :
    apply ada u .href v = (u, true) ∨
      ∃ url', apply ada u .href v = ({ u with c := ada.components url' }, false) := by
  obtain ⟨url', hparse, -⟩ := parse_href h hu
  cases hset : ada.setHref url' (Utf16.scalars v) with
  | none => exact Or.inl (by simp only [apply, Ada.urlSet, hparse, hset, Option.map_none])
  | some url'' =>
    exact Or.inr ⟨url'', by simp only [apply, Ada.urlSet, hparse, hset, Option.map_some]⟩

end

/-! ### A query that is written -/

theorem lt_of_isQueryUnit {v : UInt16} (h : isQueryUnit v = true) : v.toNat < 0x80 := by
  simp only [isQueryUnit, Bool.or_eq_true, Bool.and_eq_true, decide_eq_true_eq,
    List.contains_iff_mem, List.mem_cons, List.not_mem_nil, or_false] at h
  omega

/-- The units of a written query. -/
theorem mem_written_query {p : Pairs} {v : UInt16}
    (h : v ∈ [0x26].intercalate (p.map writtenPair)) :
    isQueryUnit v = true ∨ v = 0x26 ∨ v = 0x3D := by
  have hpair : ∀ kv : Units × Units, v ∈ writtenPair kv →
      isQueryUnit v = true ∨ v = 0x26 ∨ v = 0x3D := by
    intro kv hv
    rw [writtenPair, List.mem_append, List.mem_cons] at hv
    obtain hv | hv | hv := hv
    · exact Or.inl (isQueryUnit_written hv)
    · exact Or.inr (Or.inr hv)
    · exact Or.inl (isQueryUnit_written hv)
  induction p with
  | nil => cases h
  | cons kv p ih =>
    rw [List.map_cons] at h
    cases hp : p.map writtenPair with
    | nil =>
      rw [hp, List.intercalate_singleton] at h
      exact hpair kv h
    | cons part parts =>
      rw [hp, List.intercalate_cons_cons, List.append_assoc, List.mem_append,
        List.singleton_append, List.mem_cons] at h
      obtain h | h | h := h
      · exact hpair kv h
      · exact Or.inr (Or.inl h)
      · exact ih (by rw [hp]; exact h)

theorem scalars_ascii {us : Units} (h : ∀ v ∈ us, v.toNat < 0x80) :
    Utf16.scalars us = us.map fun v => Char.ofNat v.toNat := by
  induction us with
  | nil => rfl
  | cons v us ih =>
    have hv := h v List.mem_cons_self
    rw [Utf16.scalars_cons (isHigh_of_lt hv), Utf16.unit_plain (Percent.isSurrogate_of_lt hv),
      ih fun x hx => h x (List.mem_cons_of_mem _ hx), List.map_cons]

theorem isEncoded_written {p : Pairs} :
    (Utf16.scalars ([0x26].intercalate (p.map writtenPair))).all isEncoded = true ∧
      Utf16.isWellFormed ([0x26].intercalate (p.map writtenPair)) = true := by
  have hlt : ∀ v ∈ [0x26].intercalate (p.map writtenPair), v.toNat < 0x80 := by
    intro v hv
    obtain h | rfl | rfl := mem_written_query hv
    · exact lt_of_isQueryUnit h
    · decide
    · decide
  constructor
  · rw [scalars_ascii hlt, List.all_map, List.all_eq_true]
    intro v hv
    have hv' := hlt v hv
    have hnat : (Char.ofNat v.toNat).toNat = v.toNat := Utf8.toNat_ofNat_of_valid (by omega)
    rw [Function.comp_apply, isEncoded, hnat, decide_eq_true hv', Bool.true_and,
      UInt16.ofNat_toNat]
    obtain h | rfl | rfl := mem_written_query hv
    · rw [h]
      rfl
    · rfl
    · rfl
  · have happend := isWellFormed_ascii hlt []
    rwa [List.append_nil] at happend

theorem query_eq_nil_iff (p : Pairs) : [0x26].intercalate (p.map writtenPair) = [] ↔ p = [] := by
  constructor
  · intro h
    cases p with
    | nil => rfl
    | cons kv p =>
      exfalso
      rw [List.map_cons] at h
      cases hp : p.map writtenPair with
      | nil =>
        rw [hp, List.intercalate_singleton] at h
        exact writtenPair_ne_nil kv h
      | cons part parts =>
        rw [hp, List.intercalate_cons_cons] at h
        simp at h
  · rintro rfl
    rfl

/-- The query that `_sync` sets is parsed back into the list. -/
theorem parse_sync {ada : Ada} (h : ada.Documented) {p : Pairs} (hp : p.WellFormed) {query : Units}
    (hquery : toQuery p = some query) (url : ada.Url) :
    parse (ada.components (ada.set .search url (Ada.orNone (Utf16.scalars query))) .search) =
      p := by
  rw [toQuery_eq hp, Option.some.injEq] at hquery
  obtain ⟨hencoded, hwf⟩ := isEncoded_written (p := p)
  rw [hquery] at hencoded hwf
  have hback : (Utf16.scalars query).flatMap Utf16.units = query := by
    rw [Utf16.flatMap_scalars, Utf16.toWellFormed_eq hwf]
  by_cases hnil : Utf16.scalars query = []
  · have hempty : query = [] := by
      rw [hnil] at hback
      exact hback.symm
    have hlist : p = [] := by
      rw [← query_eq_nil_iff, hquery, hempty]
    rw [Ada.orNone, if_pos hnil, Ada.components, h.clears, hlist]
    rfl
  · rw [Ada.orNone, if_neg hnil, Ada.components, h.stores _ _ hnil hencoded, List.flatMap_cons,
      hback]
    refine parse_written hp ?_
    rw [hquery]
    rfl

/-! ### In step -/

/-- The list is the parse of `search`, and `search` is the query in `href`. -/
structure InStep (u : UrlObject) : Prop where
  params_eq : u.params = parse (u.c .search)
  search_eq : u.c .search = (queryOf (Utf16.scalars (u.c .href))).flatMap Utf16.units

/-- A call ends in step, and one that throws changes nothing. -/
def Keeps (u : UrlObject) (r : UrlObject × Outcome) : Prop :=
  InStep r.1 ∧ (r.2 ≠ .done → r.1.params = u.params ∧ r.1.c = u.c)

/-- Every call of a run ends in step, and those that throw change nothing. -/
def AlwaysInStep (ada : Ada) : UrlObject → List UrlCall → Prop
  | u, [] => InStep u
  | u, call :: calls => Keeps u (step ada u call) ∧ AlwaysInStep ada (step ada u call).1 calls

/-- What holds between calls. -/
structure Good (ada : Ada) (u : UrlObject) : Prop where
  serialized : Serialized ada u
  params_eq : u.params = parse (u.c .search)

section

variable {ada : Ada} {u : UrlObject}

theorem Good.inStep (h : ada.Documented) (hu : Good ada u) : InStep u := by
  obtain ⟨url, hurl⟩ := hu.serialized
  refine ⟨hu.params_eq, ?_⟩
  rw [hurl, Ada.components, Ada.components, Utf16.scalars_flatMap, h.search_href]

theorem Good.wellFormed (hu : Good ada u) : u.params.WellFormed := by
  obtain ⟨url, hurl⟩ := hu.serialized
  rw [hu.params_eq]
  refine parse_wellFormed ?_
  rw [hurl]
  exact Utf16.isWellFormed_flatMap _

theorem good_resync (hu : Serialized ada u) : Good ada (resync u) := by
  unfold resync
  cases hsp : u.sp with
  | none => exact ⟨hu, by rw [params, hsp, Option.getD_none]⟩
  | some p => exact ⟨hu, rfl⟩

theorem good_keeps (h : ada.Documented) {r : UrlObject} (hr : Good ada r) :
    Good ada r ∧ Keeps u (r, .done) :=
  ⟨hr, hr.inStep h, fun hne => absurd rfl hne⟩

/-- An operation that leaves well-formed pairs sets a query that is parsed back into them. -/
theorem good_sync (h : ada.Documented) (hu : Good ada u) {p : Pairs} (hp : p.WellFormed) :
    Good ada (sync ada u p).1 ∧ Keeps u (sync ada u p) := by
  obtain ⟨url, hurl⟩ := hu.serialized
  have hquery := toQuery_eq hp
  have hsync : sync ada u p = ((apply ada { u with sp := some p } .search
      ([0x26].intercalate (p.map writtenPair))).1, .done) := by
    simp only [sync, hquery]
  obtain ⟨url', happly⟩ := apply_search (u := { u with sp := some p }) h hurl
    ([0x26].intercalate (p.map writtenPair))
  rw [hsync, happly]
  exact good_keeps h ⟨⟨_, rfl⟩, (parse_sync h hp hquery url').symm⟩

/-- An operation that leaves a pair which cannot be encoded throws with the list changed. -/
theorem not_keeps_sync (hu : Good ada u) {p : Pairs} {kv : Units × Units} (hmem : kv ∈ p)
    (hkv : ¬ (Utf16.isWellFormed kv.1 = true ∧ Utf16.isWellFormed kv.2 = true)) :
    ¬ Keeps u (sync ada u p) := by
  have hill : Utf16.isWellFormed kv.1 = false ∨ Utf16.isWellFormed kv.2 = false := by
    rwa [not_and_or, Bool.not_eq_true, Bool.not_eq_true] at hkv
  have hsync : sync ada u p = ({ u with sp := some p }, .uriError) := by
    simp only [sync, toQuery_eq_none hmem hill]
  intro hkeeps
  rw [hsync] at hkeeps
  have hsame : p = u.params := (hkeeps.2 (by simp)).1
  exact hkv (hu.wellFormed kv (hsame ▸ hmem))

theorem wellFormed_append {p : Pairs} (hp : p.WellFormed) {name value : Units}
    (hname : Utf16.isWellFormed name = true) (hvalue : Utf16.isWellFormed value = true) :
    (p.append name value).WellFormed := by
  intro kv hkv
  obtain hkv | hkv := List.mem_append.mp hkv
  · exact hp kv hkv
  · rw [List.mem_singleton.mp hkv]
    exact ⟨hname, hvalue⟩

theorem wellFormed_set {p : Pairs} (hp : p.WellFormed) {name value : Units}
    (hname : Utf16.isWellFormed name = true) (hvalue : Utf16.isWellFormed value = true) :
    (p.set name value).WellFormed := by
  intro kv hkv
  rw [Pairs.set_eq] at hkv
  obtain hkv | rfl := NameValue.mem_of_mem_replace hkv
  · exact hp kv hkv
  · exact ⟨hname, hvalue⟩

theorem wellFormed_delete {p : Pairs} (hp : p.WellFormed) (name : Units) :
    (p.delete name).WellFormed := by
  intro kv hkv
  rw [Pairs.delete_eq] at hkv
  exact hp kv (NameValue.mem_of_mem_remove hkv)

theorem wellFormed_sort {p : Pairs} (hp : p.WellFormed) : p.sort.WellFormed := by
  intro kv hkv
  exact hp kv ((List.mergeSort_perm p _).mem_iff.mp hkv)

/-- A clean call keeps the list and the URL in step. -/
theorem step_keeps (h : ada.Documented) (hu : Good ada u) {call : UrlCall} (hclean : call.Clean) :
    Good ada (step ada u call).1 ∧ Keeps u (step ada u call) := by
  obtain ⟨url, hurl⟩ := hu.serialized
  cases call with
  | href v =>
    obtain hnull | ⟨url', hset⟩ := apply_href h hurl v
    · have hstep : step ada u (.href v) = (u, .typeError v) := by simp only [step, hnull]
      rw [hstep]
      exact ⟨hu, hu.inStep h, fun _ => ⟨rfl, rfl⟩⟩
    · have hstep : step ada u (.href v) =
          (resync { u with c := ada.components url' }, .done) := by
        simp only [step, hset]
      rw [hstep]
      exact good_keeps h (good_resync ⟨url', rfl⟩)
  | search v =>
    obtain ⟨url', hset⟩ := apply_search h hurl v
    have hstep : step ada u (.search v) = (resync (apply ada u .search v).1, .done) := rfl
    rw [hstep, hset]
    exact good_keeps h (good_resync ⟨_, rfl⟩)
  | plain setter v =>
    obtain ⟨url', hset, hsearch⟩ := apply_plain h hurl setter v
    have hstep : step ada u (.plain setter v) = ((apply ada u setter.which v).1, .done) := rfl
    rw [hstep, hset]
    refine good_keeps h ⟨⟨url', rfl⟩, ?_⟩
    show u.sp.getD (parse (ada.components url' .search)) = parse (ada.components url' .search)
    rw [hsearch]
    exact hu.params_eq
  | searchParams => exact good_keeps h ⟨⟨url, hurl⟩, hu.params_eq⟩
  | append name value => exact good_sync h hu (wellFormed_append hu.wellFormed hclean.1 hclean.2)
  | delete name => exact good_sync h hu (wellFormed_delete hu.wellFormed name)
  | set name value => exact good_sync h hu (wellFormed_set hu.wellFormed hclean.1 hclean.2)
  | sort => exact good_sync h hu (wellFormed_sort hu.wellFormed)

/-- And no other call does. -/
theorem clean_of_keeps (hu : Good ada u) {call : UrlCall} (hkeeps : Keeps u (step ada u call)) :
    call.Clean := by
  cases call with
  | append name value =>
    by_contra hclean
    have hmem : (name, value) ∈ u.params.append name value :=
      List.mem_append_right _ (List.mem_singleton_self _)
    exact not_keeps_sync hu hmem hclean hkeeps
  | set name value =>
    by_contra hclean
    have hmem : (name, value) ∈ u.params.set name value := by
      rw [Pairs.set_eq]
      exact NameValue.mem_replace _ _ _
    exact not_keeps_sync hu hmem hclean hkeeps
  | href v => trivial
  | search v => trivial
  | plain setter v => trivial
  | searchParams => trivial
  | delete name => trivial
  | sort => trivial

theorem alwaysInStep_iff (h : ada.Documented) (hu : Good ada u) (calls : List UrlCall) :
    AlwaysInStep ada u calls ↔ ∀ call ∈ calls, call.Clean := by
  induction calls generalizing u with
  | nil =>
    rw [AlwaysInStep]
    exact ⟨fun _ call hcall => absurd hcall List.not_mem_nil, fun _ => hu.inStep h⟩
  | cons call calls ih =>
    rw [AlwaysInStep, List.forall_mem_cons]
    constructor
    · rintro ⟨hkeeps, halways⟩
      have hclean := clean_of_keeps hu hkeeps
      exact ⟨hclean, (ih (step_keeps h hu hclean).1).mp halways⟩
    · rintro ⟨hclean, hcalls⟩
      obtain ⟨hgood, hkeeps⟩ := step_keeps h hu hclean
      exact ⟨hkeeps, (ih hgood).mpr hcalls⟩

end

/-- A new URL. -/
def create (ada : Ada) (input : Units) (base : Option Units) : Option UrlObject :=
  (ada.urlParse input base).map fun c => ⟨c, none⟩

theorem good_create {ada : Ada} {input : Units} {base : Option Units} {u : UrlObject}
    (h : create ada input base = some u) : Good ada u := by
  obtain ⟨c, hc, rfl⟩ := Option.map_eq_some_iff.mp h
  obtain ⟨url, -, rfl⟩ := Option.map_eq_some_iff.mp hc
  exact ⟨⟨url, rfl⟩, rfl⟩

/-- The list and the URL stay in step, and what throws changes nothing, through just the runs that
append and set strings without an unpaired surrogate. -/
theorem always_in_step_iff {ada : Ada} (h : ada.Documented) {input : Units} {base : Option Units}
    {u : UrlObject} (hu : create ada input base = some u) (calls : List UrlCall) :
    AlwaysInStep ada u calls ↔ ∀ call ∈ calls, call.Clean :=
  alwaysInStep_iff h (good_create hu) calls

end UrlObject

/-! ### A parser of serialized URLs -/

namespace PlainAda

/-- Before the query. -/
def front (url : List Char) : List Char := (url.takeWhile (· ≠ '#')).takeWhile (· ≠ '?')

/-- From the number sign on. -/
def fragment (url : List Char) : List Char := url.dropWhile (· ≠ '#')

/-- What stands after the two slashes. -/
def rest (url : List Char) : List Char := ((front url).dropWhile (· ≠ '/')).drop 2

/-- The components of `scheme://host/path?query#hash`. -/
def part (url : List Char) : Component → List Char
  | .href => url
  | .protocol => url.takeWhile (· ≠ ':') ++ [':']
  | .host => (rest url).takeWhile (· ≠ '/')
  | .hostname => (rest url).takeWhile (· ≠ '/')
  | .pathname => (rest url).dropWhile (· ≠ '/')
  | .search => queryOf url
  | .hash => if fragment url = ['#'] then [] else fragment url
  | .origin => url.takeWhile (· ≠ ':') ++ [':', '/', '/'] ++ (rest url).takeWhile (· ≠ '/')
  | _ => []

/-- The query and the fragment are set; the values of the others are no good. -/
def set : Component → List Char → Option (List Char) → List Char
  | .search, url, none => front url ++ fragment url
  | .search, url, some query => front url ++ '?' :: query.filter (· ≠ '#') ++ fragment url
  | .hash, url, none => url.takeWhile (· ≠ '#')
  | .hash, url, some hash => url.takeWhile (· ≠ '#') ++ '#' :: hash
  | _, url, _ => url

end PlainAda

/-- A parser that does what ada does with `scheme://host/path?query#hash`, serialized already. -/
def plainAda : Ada where
  Url := List Char
  parse input _ := some input
  part := PlainAda.part
  setHref _ value := some value
  set := PlainAda.set

namespace PlainAda

theorem takeWhile_append_sign {a b : List Char} (ha : '#' ∉ a) (hb : ∀ c ∈ b.head?, c = '#') :
    (a ++ b).takeWhile (· ≠ '#') = a := by
  have hall : ∀ c ∈ a, decide (c ≠ '#') = true := by
    intro c hc
    rw [decide_eq_true_eq]
    rintro rfl
    exact ha hc
  rw [List.takeWhile_append_of_pos hall]
  cases b with
  | nil => rw [List.takeWhile_nil, List.append_nil]
  | cons c b =>
    rw [hb c rfl, List.takeWhile_cons_of_neg (by simp), List.append_nil]

theorem fragment_head (url : List Char) : ∀ c ∈ (fragment url).head?, c = '#' := by
  intro c hc
  have hne : url.dropWhile (· ≠ '#') ≠ [] := by
    intro hnil
    rw [fragment, hnil] at hc
    cases hc
  have hnot := List.head_dropWhile_not (fun c : Char => decide (c ≠ '#')) hne
  rw [fragment, List.head?_eq_some_head hne, Option.mem_some_iff] at hc
  rw [hc] at hnot
  simpa using hnot

theorem sign_not_mem (url : List Char) : '#' ∉ url.takeWhile (· ≠ '#') := by
  intro h
  have hnot := List.all_eq_true.mp List.all_takeWhile '#' h
  simp at hnot

theorem sign_not_mem_front (url : List Char) : '#' ∉ front url :=
  fun h => sign_not_mem url ((List.takeWhile_prefix _).subset h)

theorem mark_not_mem_front (url : List Char) : '?' ∉ front url := by
  intro h
  have hnot := List.all_eq_true.mp List.all_takeWhile '?' h
  simp at hnot

theorem dropWhile_mark {a b : List Char} (ha : '?' ∉ a) (hb : ∀ c ∈ b.head?, c = '?') :
    (a ++ b).dropWhile (· ≠ '?') = b := by
  have hall : ∀ c ∈ a, decide (c ≠ '?') = true := by
    intro c hc
    rw [decide_eq_true_eq]
    rintro rfl
    exact ha hc
  rw [List.dropWhile_append_of_pos hall]
  cases b with
  | nil => rfl
  | cons c b => rw [hb c rfl, List.dropWhile_cons_of_neg (by simp)]

theorem ne_sign_of_isEncoded {c : Char} (h : isEncoded c = true) : c ≠ '#' := by
  rintro rfl
  revert h
  decide

theorem documented : plainAda.Documented where
  reparse url := ⟨url, rfl, rfl⟩
  search_href _ := rfl
  keeps setter url value := by
    cases setter with
    | hash =>
      cases value with
      | none =>
        show queryOf (url.takeWhile (· ≠ '#')) = queryOf url
        have hcut := takeWhile_append_sign (b := []) (sign_not_mem url) (by simp)
        rw [List.append_nil] at hcut
        simp only [queryOf, hcut]
      | some v =>
        show queryOf (url.takeWhile (· ≠ '#') ++ '#' :: v) = queryOf url
        have hcut := takeWhile_append_sign (b := '#' :: v) (sign_not_mem url) (by simp)
        simp only [queryOf, hcut]
    | protocol => rfl
    | username => rfl
    | password => rfl
    | host => rfl
    | hostname => rfl
    | port => rfl
    | pathname => rfl
  clears url := by
    show queryOf (front url ++ fragment url) = []
    have hdrop := dropWhile_mark (b := []) (mark_not_mem_front url) (by simp)
    rw [List.append_nil] at hdrop
    rw [queryOf, takeWhile_append_sign (sign_not_mem_front url) (fragment_head url), hdrop]
    simp
  stores url query hne hencoded := by
    show queryOf (front url ++ '?' :: query.filter (· ≠ '#') ++ fragment url) = '?' :: query
    have hall := List.all_eq_true.mp hencoded
    have hfilter : query.filter (· ≠ '#') = query :=
      List.filter_eq_self.mpr fun c hc => decide_eq_true (ne_sign_of_isEncoded (hall c hc))
    have hsign : '#' ∉ front url ++ '?' :: query := by
      rw [List.mem_append, List.mem_cons, not_or, not_or]
      exact ⟨sign_not_mem_front url, by decide,
        fun h => ne_sign_of_isEncoded (hall _ h) rfl⟩
    rw [hfilter, queryOf, takeWhile_append_sign hsign (fragment_head url),
      dropWhile_mark (mark_not_mem_front url) (by simp)]
    rw [if_neg (by simpa using hne)]

end PlainAda

/-- `http://h/?a=1`. -/
def sampleUrl : Units :=
  [0x68, 0x74, 0x74, 0x70, 0x3A, 0x2F, 0x2F, 0x68, 0x2F, 0x3F, 0x61, 0x3D, 0x31]

namespace UrlObject

theorem always_in_step_iff_sample :
    AlwaysInStep plainAda ⟨plainAda.components (Utf16.scalars sampleUrl), none⟩
        [.append [0x62] [0x20], .delete [0x61], .search [0x63], .sort] ↔
      ∀ call ∈ [UrlCall.append [0x62] [0x20], .delete [0x61], .search [0x63], .sort],
        call.Clean :=
  always_in_step_iff PlainAda.documented
    (show create plainAda sampleUrl none = some ⟨_, none⟩ from rfl) _

/-- An unpaired surrogate that is appended stays in the list, although `append` throws, and the
URL does not get it. -/
theorem append_not_in_step :
    ∃ ada : Ada, ada.Documented ∧ ∃ u, create ada sampleUrl none = some u ∧
      ¬ AlwaysInStep ada u [.append [0xD800] []] ∧
      (step ada u (.append [0xD800] [])).2 = .uriError ∧
      (step ada u (.append [0xD800] [])).1.params = [([0x61], [0x31]), ([0xD800], [])] ∧
      parse ((step ada u (.append [0xD800] [])).1.c .search) = [([0x61], [0x31])] := by
  have hthrows : toQuery [([0x61], [0x31]), ([0xD800], [])] = none := by decide +kernel
  have hparams : parse ((plainAda.components (Utf16.scalars sampleUrl)) .search) =
      [([0x61], [0x31])] := by decide +kernel
  have hstep : step plainAda ⟨plainAda.components (Utf16.scalars sampleUrl), none⟩
      (.append [0xD800] []) = (⟨plainAda.components (Utf16.scalars sampleUrl),
        some [([0x61], [0x31]), ([0xD800], [])]⟩, .uriError) := by
    show sync plainAda _ ((parse ((plainAda.components (Utf16.scalars sampleUrl)) .search)) ++
      [([0xD800], [])]) = _
    rw [hparams, List.singleton_append]
    simp only [sync, hthrows]
  refine ⟨plainAda, PlainAda.documented, _, rfl, ?_, ?_, ?_, ?_⟩
  · rintro ⟨⟨hinstep, -⟩, -⟩
    have hparse := hinstep.params_eq
    rw [hstep] at hparse
    exact absurd (hparse.trans hparams) (by decide)
  · rw [hstep]
  · rw [hstep]
    rfl
  · rw [hstep]
    exact hparams

end UrlObject

end WebTypes

end Iso4
