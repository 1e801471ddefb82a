/-
The globals of a prefix call: `packages/iso4-sandbox/src/globals.ts`, beside the check of
the runtime.

The same map of globals is read three times: `processGlobals` lowers it to the wire,
`declareGlobals` keeps its shape for the calls to come, and the runtime keeps the names
bridge calls go out under.  A call sends its stubs from the kept shape.

* `classify_alike` — the two readings of the host agree on every value;
* `global_rebinds` — the stubs of a call, and whom their calls reach.
-/
import Iso4.Imports
import Iso4.PayloadRoundTrip
import Iso4.PrefixRebinds

namespace Iso4

open Ipc Imports

/-! ### The values of globals -/

/-- The properties `globals.ts` looks for in an object; `kind` only when it is a string. -/
structure KindObject (F : Type) where
  kind : Option String
  handler : F
  expr : String
  value : Blob
  shim : String
  enumerable : Option Bool

inductive HostGlobalValue (F : Type) where
  | function (f : F)
  | text (s : String)
  | object (o : KindObject F)
  /-- `null`, a number, and the like. -/
  | other

/-- `typeof v === 'object' && v !== null && v.kind === kind`. -/
def HostGlobalValue.ofKind {F : Type} (kind : String) : HostGlobalValue F → Option (KindObject F)
  | .object o => if o.kind = some kind then some o else none
  | _ => none

def isBridgeWithShim {F : Type} (v : HostGlobalValue F) : Option (KindObject F) := v.ofKind "bridge-with-shim"

def isDataGlobal {F : Type} (v : HostGlobalValue F) : Option (KindObject F) := v.ofKind "data"

def isBridgeGlobal {F : Type} (v : HostGlobalValue F) : Option (KindObject F) := v.ofKind "bridge"

def isStringGlobal {F : Type} (v : HostGlobalValue F) : Option (KindObject F) := v.ofKind "string"

/-- A map of globals: no name twice. -/
structure HostGlobals (F : Type) where
  entries : List (JsString × HostGlobalValue F)
  names_nodup : (entries.map Prod.fst).Nodup

def shimHandlerName (name : String) : String := s!"__iso4_{name}_h"

/-- `RUNTIME_OWNED_GLOBALS`. -/
def runtimeOwnedGlobals : List String :=
  ["console", "waitUntil", "setTimeout", "clearTimeout", "Headers", "Request", "Response",
    "TextEncoder", "TextDecoder", "URL", "URLSearchParams", "NaN", "undefined", "Infinity",
    "__proto__"]

inductive GlobalsError where
  | notWellFormed (units : List UInt16)
  /-- A `setupError`. -/
  | setup (code : SetupErrorCode) (message : String)

section Host

variable {F : Type}

/-! ### Dispatch maps -/

/-- `dispatch[name] = handler`. -/
def setDispatch (dispatch : List (String × F)) (name : String) (f : F) : List (String × F) :=
  dispatch.filter (·.1 ≠ name) ++ [(name, f)]

/-! ### `processGlobals` -/

structure ProcessedGlobals (F : Type) where
  defs : List GlobalDefPayload
  dispatch : List (String × F)

def ProcessedGlobals.empty : ProcessedGlobals F := ⟨[], []⟩

/-- Push a def, and set its handler if it has one. -/
def ProcessedGlobals.push (p : ProcessedGlobals F) (d : GlobalDefPayload)
    (handler : Option (String × F)) : ProcessedGlobals F :=
  ⟨p.defs ++ [d], handler.elim p.dispatch fun h => setDispatch p.dispatch h.1 h.2⟩

/-- What one entry becomes: its def, and the name and handler of its bridge calls. -/
def lowerGlobal (name : String) (value : HostGlobalValue F) :
    Option (GlobalDefPayload × Option (String × F)) :=
  match value with
  | .function f => some (⟨name, .bridge, some true⟩, some (name, f))
  | .text s => some (⟨name, .string s, some true⟩, none)
  | value =>
    if let some o := isBridgeGlobal value then
      some (⟨name, .bridge, some (o.enumerable.getD true)⟩, some (name, o.handler))
    else if let some o := isStringGlobal value then
      some (⟨name, .string o.expr, some (o.enumerable.getD true)⟩, none)
    else if let some o := isDataGlobal value then
      some (⟨name, .data o.value, some (o.enumerable.getD true)⟩, none)
    else if let some o := isBridgeWithShim value then
      some (⟨name, .shim o.shim (shimHandlerName name), some (o.enumerable.getD true)⟩,
        some (shimHandlerName name, o.handler))
    else none

def reservedGlobal (name : String) : String :=
  s!"global '{name}' is reserved by the runtime and cannot be provided by the host"

/-- The loop of `processGlobals`. -/
def processGlobalEntries :
    List (JsString × HostGlobalValue F) → ProcessedGlobals F → Except GlobalsError (ProcessedGlobals F)
  | [], p => .ok p
  | (.illFormed units, _) :: _, _ => .error (.notWellFormed units)
  | (.wellFormed name, value) :: rest, p =>
    if name ∈ runtimeOwnedGlobals then .error (.setup .reservedName (reservedGlobal name))
    else
      match lowerGlobal name value with
      | some (d, handler) => processGlobalEntries rest (p.push d handler)
      | none => processGlobalEntries rest p

def processGlobals (globals : HostGlobals F) : Except GlobalsError (ProcessedGlobals F) :=
  processGlobalEntries globals.entries .empty

/-! ### `declareGlobals` -/

inductive DeclaredGlobal (F : Type) where
  | value
  | bridge (handler : F) (enumerable : Bool)
  | shim (handler : F)

def declareGlobal (value : HostGlobalValue F) : Option (DeclaredGlobal F) :=
  match value with
  | .function f => some (.bridge f true)
  | .text _ => some .value
  | value =>
    if (isStringGlobal value).isSome || (isDataGlobal value).isSome then some .value
    else if let some o := isBridgeWithShim value then some (.shim o.handler)
    else if let some o := isBridgeGlobal value then
      some (.bridge o.handler (o.enumerable.getD true))
    else none

/-- The loop of `declareGlobals`; a name that is not well formed was refused before. -/
def declareGlobalEntries : List (JsString × HostGlobalValue F) → List (String × DeclaredGlobal F)
  | [] => []
  | (.illFormed _, _) :: rest => declareGlobalEntries rest
  | (.wellFormed name, value) :: rest =>
    match declareGlobal value with
    | some shape => (name, shape) :: declareGlobalEntries rest
    | none => declareGlobalEntries rest

def declareGlobals (globals : HostGlobals F) : List (String × DeclaredGlobal F) :=
  declareGlobalEntries globals.entries

/-! ### `extractBridgeGlobals` -/

/-- A value of an override map: a function, or something else with its `typeof` (`null` for
`null`). -/
inductive OverrideValue (F : Type) where
  | function (f : F)
  | other (kind : String)

structure OverrideGlobals (F : Type) where
  entries : List (JsString × OverrideValue F)
  names_nodup : (entries.map Prod.fst).Nodup

def invalidGlobal (name kind : String) : String :=
  s!"global '{name}' can only be rebound with a function; got {kind}"

/-- The first loop: every override is of a declared function global, and a function. -/
def checkOverrides (declared : List (String × DeclaredGlobal F)) :
    List (JsString × OverrideValue F) → Except GlobalsError Unit
  | [] => .ok ()
  | (.illFormed units, _) :: _ => .error (.notWellFormed units)
  | (.wellFormed name, override) :: rest =>
    match declared.find? (·.1 = name) with
    | none => .error (.setup .undeclaredBinding (undeclaredGlobal name))
    | some (_, .value) => .error (.setup .frozenBinding (frozenGlobal name))
    | some _ =>
      match override with
      | .other kind => .error (.setup .invalidRebind (invalidGlobal name kind))
      | .function _ => checkOverrides declared rest

/-- `Object.hasOwn(overrides, name) ? overrides[name] : undefined`. -/
def overrideOf (overrides : List (JsString × OverrideValue F)) (name : String) : Option F :=
  match overrides.find? (·.1 = .wellFormed name) with
  | some (_, .function f) => some f
  | _ => none

/-- The name bridge calls of a declared global go out under, and its default handler. -/
def DeclaredGlobal.stub (name : String) : DeclaredGlobal F → Option (String × F)
  | .value => none
  | .bridge handler _ => some (name, handler)
  | .shim handler => some (shimHandlerName name, handler)

/-- The handler stub of a shim is enumerable, whatever the shim is. -/
def DeclaredGlobal.stubEnumerable : DeclaredGlobal F → Bool
  | .value => false
  | .bridge _ enumerable => enumerable
  | .shim _ => true

/-- The second loop: the stubs of the declared function globals. -/
def bridgeStubs (overrides : List (JsString × OverrideValue F)) :
    List (String × DeclaredGlobal F) → ProcessedGlobals F → ProcessedGlobals F
  | [], p => p
  | (name, shape) :: rest, p =>
    match shape.stub name with
    | none => bridgeStubs overrides rest p
    | some (stub, handler) =>
      bridgeStubs overrides rest
        (p.push ⟨stub, .bridge, some shape.stubEnumerable⟩
          (some (stub, (overrideOf overrides name).getD handler)))

def extractBridgeGlobals (runGlobals : OverrideGlobals F) (declared : List (String × DeclaredGlobal F)) :
    Except GlobalsError (ProcessedGlobals F) := do
  checkOverrides declared runGlobals.entries
  .ok (bridgeStubs runGlobals.entries declared .empty)

/-! ### The two readings of the host -/

/-- An entry lowered and declared as one and the same kind. -/
inductive Alike (name : String) :
    Option (GlobalDefPayload × Option (String × F)) → Option (DeclaredGlobal F) → Prop where
  | ignored : Alike name none none
  | value {d : GlobalDefPayload} (hname : d.name = name) (hkind : d.kind.isValue = true) :
    Alike name (some (d, none)) (some .value)
  | bridge (f : F) (enumerable : Bool) :
    Alike name (some (⟨name, .bridge, some enumerable⟩, some (name, f))) (some (.bridge f enumerable))
  | shim (f : F) (shim : String) (enumerable : Option Bool) :
    Alike name (some (⟨name, .shim shim (shimHandlerName name), enumerable⟩,
      some (shimHandlerName name, f))) (some (.shim f))

theorem ofKind_object {o : KindObject F} {kind : String} :
    (HostGlobalValue.object o).ofKind kind = if o.kind = some kind then some o else none := rfl

theorem classify_alike (name : String) (value : HostGlobalValue F) :
    Alike name (lowerGlobal name value) (declareGlobal value) := by
  cases value with
  | function f => exact .bridge f true
  | text s => exact .value rfl rfl
  | other => exact .ignored
  | object o =>
    unfold lowerGlobal declareGlobal isBridgeGlobal isStringGlobal isDataGlobal isBridgeWithShim
    simp only [ofKind_object]
    by_cases hbridge : o.kind = some "bridge"
    · simp [hbridge, Alike.bridge]
    · by_cases hstring : o.kind = some "string"
      · simp only [hstring]
        exact .value rfl rfl
      · by_cases hdata : o.kind = some "data"
        · simp only [hdata]
          exact .value rfl rfl
        · by_cases hshim : o.kind = some "bridge-with-shim"
          · simp [hshim, Alike.shim]
          · simp [hbridge, hstring, hdata, hshim, Alike.ignored]

/-! ### All entries -/

/-- The stubs of the declared function globals, with the default handlers. -/
def stubsOf (declared : List (String × DeclaredGlobal F)) : List (String × F) :=
  declared.filterMap fun e => e.2.stub e.1

theorem stubsOf_cons (e : String × DeclaredGlobal F) (rest : List (String × DeclaredGlobal F)) :
    stubsOf (e :: rest) = (e.2.stub e.1).toList ++ stubsOf rest := by
  unfold stubsOf
  rw [List.filterMap_cons]
  cases e.2.stub e.1 <;> rfl

theorem mem_stubsOf {declared : List (String × DeclaredGlobal F)} {s : String × F} :
    s ∈ stubsOf declared ↔ ∃ e ∈ declared, e.2.stub e.1 = some s := List.mem_filterMap

/-- The names the runtime keeps from the defs of a prepare. -/
def declaredStubs (defs : List HostGlobalDef) : List String := defs.filterMap HostGlobalDef.bridgeStubName

theorem Alike.stub {name : String} {d : GlobalDefPayload} {handler : Option (String × F)}
    {shape : DeclaredGlobal F} (h : Alike name (some (d, handler)) (some shape)) :
    d.received.bridgeStubName = (shape.stub name).map Prod.fst := by
  obtain ⟨dname, kind, enumerable⟩ := d
  cases h with
  | value hname hkind =>
    cases kind with
    | string _ => rfl
    | data _ => rfl
    | bridge => cases hkind
    | shim _ _ => cases hkind
  | bridge f e => rfl
  | shim f text e => rfl

/-- The runtime and the host keep the same stub names. -/
theorem processGlobalEntries_stubs {entries : List (JsString × HostGlobalValue F)}
    {p processed : ProcessedGlobals F} (h : processGlobalEntries entries p = .ok processed) :
    declaredStubs (processed.defs.map GlobalDefPayload.received) =
      declaredStubs (p.defs.map GlobalDefPayload.received) ++
        (stubsOf (declareGlobalEntries entries)).map Prod.fst := by
  induction entries generalizing p with
  | nil =>
    cases h
    exact (List.append_nil _).symm
  | cons e rest ih =>
    obtain ⟨key, value⟩ := e
    cases key with
    | illFormed units => cases h
    | wellFormed name =>
      rw [processGlobalEntries] at h
      rw [declareGlobalEntries]
      have halike := classify_alike name value
      split at h
      · cases h
      · split at h
        · next d handler hlower =>
          rw [hlower] at halike
          cases hshape : declareGlobal value with
          | none =>
            rw [hshape] at halike
            cases halike
          | some shape =>
            rw [hshape] at halike
            rw [ih h]
            have hone : declaredStubs [d.received] = (shape.stub name).toList.map Prod.fst := by
              unfold declaredStubs
              rw [List.filterMap_cons, halike.stub]
              cases shape.stub name <;> rfl
            show declaredStubs ((p.defs ++ [d]).map GlobalDefPayload.received) ++ _ = _ ++
              (stubsOf ((name, shape) :: declareGlobalEntries rest)).map Prod.fst
            rw [stubsOf_cons, List.map_append, List.map_append, ← hone]
            unfold declaredStubs
            rw [List.filterMap_append, List.append_assoc]
            rfl
        · next hlower =>
          rw [hlower] at halike
          cases hshape : declareGlobal value with
          | none => exact ih h
          | some shape =>
            rw [hshape] at halike
            cases halike

theorem mem_declareGlobalEntries {entries : List (JsString × HostGlobalValue F)} {name : String}
    {shape : DeclaredGlobal F} :
    (name, shape) ∈ declareGlobalEntries entries ↔
      ∃ value, (.wellFormed name, value) ∈ entries ∧ declareGlobal value = some shape := by
  induction entries with
  | nil => simp [declareGlobalEntries]
  | cons e rest ih =>
    obtain ⟨key, value⟩ := e
    cases key with
    | illFormed units =>
      rw [declareGlobalEntries, ih]
      simp
    | wellFormed n =>
      rw [declareGlobalEntries]
      cases hshape : declareGlobal value with
      | none =>
        dsimp only
        rw [ih]
        constructor
        · rintro ⟨v, hmem, hv⟩
          exact ⟨v, List.mem_cons_of_mem _ hmem, hv⟩
        · rintro ⟨v, hmem, hv⟩
          rcases List.mem_cons.mp hmem with heq | hmem
          · cases heq
            rw [hshape] at hv
            cases hv
          · exact ⟨v, hmem, hv⟩
      | some s =>
        dsimp only
        rw [List.mem_cons, ih]
        constructor
        · rintro (heq | ⟨v, hmem, hv⟩)
          · cases heq
            exact ⟨value, List.mem_cons_self, hshape⟩
          · exact ⟨v, List.mem_cons_of_mem _ hmem, hv⟩
        · rintro ⟨v, hmem, hv⟩
          rcases List.mem_cons.mp hmem with heq | hmem
          · cases heq
            rw [hshape] at hv
            exact Or.inl (by rw [Option.some.inj hv])
          · exact Or.inr ⟨v, hmem, hv⟩

theorem declareGlobalEntries_nodup {entries : List (JsString × HostGlobalValue F)}
    (h : (entries.map Prod.fst).Nodup) : ((declareGlobalEntries entries).map Prod.fst).Nodup := by
  induction entries with
  | nil => exact List.nodup_nil
  | cons e rest ih =>
    obtain ⟨key, value⟩ := e
    obtain ⟨hnot, hrest⟩ := List.nodup_cons.mp h
    cases key with
    | illFormed units => exact ih hrest
    | wellFormed name =>
      rw [declareGlobalEntries]
      split
      · refine List.nodup_cons.mpr ⟨fun hmem => ?_, ih hrest⟩
        obtain ⟨⟨n, s⟩, he, heq⟩ := List.mem_map.mp hmem
        obtain ⟨v, hv, -⟩ := mem_declareGlobalEntries.mp he
        have heq : n = name := heq
        rw [heq] at hv
        exact hnot (List.mem_map.mpr ⟨_, hv, rfl⟩)
      · exact ih hrest

/-! ### Stub names -/

/-- The name is in the runtime's own namespace. -/
def ReservedPrefix (name : String) : Prop := "__iso4_".toList <+: name.toList

theorem shimHandlerName_toList (name : String) :
    (shimHandlerName name).toList = "__iso4_".toList ++ name.toList ++ "_h".toList := by
  show ("__iso4_" ++ name ++ "_h").toList = _
  rw [String.toList_append, String.toList_append]

theorem shimHandlerName_reserved (name : String) : ReservedPrefix (shimHandlerName name) := by
  unfold ReservedPrefix
  rw [shimHandlerName_toList, List.append_assoc]
  exact List.prefix_append _ _

theorem shimHandlerName_injective {name name' : String}
    (h : shimHandlerName name = shimHandlerName name') : name = name' := by
  have hlist : (shimHandlerName name).toList = (shimHandlerName name').toList := by rw [h]
  rw [shimHandlerName_toList, shimHandlerName_toList, List.append_assoc, List.append_assoc] at hlist
  exact String.toList_inj.mp (List.append_cancel_right (List.append_cancel_left hlist))

/-- A stub name tells the global it is of. -/
theorem stub_name_injective {name name' : String} {shape shape' : DeclaredGlobal F}
    {stub : String} {f f' : F} (hname : ¬ ReservedPrefix name) (hname' : ¬ ReservedPrefix name')
    (h : shape.stub name = some (stub, f)) (h' : shape'.stub name' = some (stub, f')) :
    name = name' := by
  cases shape with
  | value => cases h
  | bridge g e =>
    cases h
    cases shape' with
    | value => cases h'
    | bridge g' e' =>
      cases h'
      rfl
    | shim g' =>
      cases h'
      exact absurd (shimHandlerName_reserved name') hname
  | shim g =>
    cases h
    cases shape' with
    | value => cases h'
    | bridge g' e' =>
      cases h'
      exact absurd (shimHandlerName_reserved name) hname'
    | shim g' =>
      have heq := (Prod.mk.inj (Option.some.inj h')).1
      exact (shimHandlerName_injective heq).symm

theorem stubsOf_nodup {declared : List (String × DeclaredGlobal F)}
    (h : (declared.map Prod.fst).Nodup) (hnames : ∀ e ∈ declared, ¬ ReservedPrefix e.1) :
    ((stubsOf declared).map Prod.fst).Nodup := by
  induction declared with
  | nil => exact List.nodup_nil
  | cons e rest ih =>
    obtain ⟨hnot, hrest⟩ := List.nodup_cons.mp h
    have hlater := ih hrest fun e he => hnames e (List.mem_cons_of_mem _ he)
    rw [stubsOf_cons]
    cases hstub : e.2.stub e.1 with
    | none => exact hlater
    | some s =>
      refine List.nodup_cons.mpr ⟨fun hmem => ?_, hlater⟩
      obtain ⟨⟨stub, f⟩, hs, heq⟩ := List.mem_map.mp hmem
      obtain ⟨e', he', hstub'⟩ := mem_stubsOf.mp hs
      have heq : stub = s.1 := heq
      subst heq
      have hsame := stub_name_injective (hnames e' (List.mem_cons_of_mem _ he'))
        (hnames e List.mem_cons_self) hstub' hstub
      exact hnot (List.mem_map.mpr ⟨e', he', hsame⟩)

/-! ### The stubs of a call -/

theorem find_setDispatch_self (dispatch : List (String × F)) (name : String) (f : F) :
    (setDispatch dispatch name f).find? (·.1 = name) = some (name, f) := by
  have hnone : (dispatch.filter (·.1 ≠ name)).find? (·.1 = name) = none := by
    rw [List.find?_eq_none]
    intro l hl
    simpa using (List.mem_filter.mp hl).2
  unfold setDispatch
  rw [List.find?_append, hnone]
  simp

theorem find_setDispatch_of_ne (dispatch : List (String × F)) {name name' : String} (f : F)
    (hne : name' ≠ name) :
    (setDispatch dispatch name f).find? (·.1 = name') = dispatch.find? (·.1 = name') := by
  unfold setDispatch
  rw [List.find?_append, List.find?_filter]
  have hsame : (dispatch.find? fun l => decide (decide (l.1 ≠ name) = true ∧ decide (l.1 = name') = true)) =
      dispatch.find? (·.1 = name') := by
    congr 1
    funext l
    by_cases hl : l.1 = name'
    · simp [hl, hne]
    · simp [hl]
  rw [hsame]
  simp [Ne.symm hne]

theorem bridgeStubs_defs (overrides : List (JsString × OverrideValue F))
    (declared : List (String × DeclaredGlobal F)) (p : ProcessedGlobals F) :
    (bridgeStubs overrides declared p).defs.map GlobalDefPayload.name =
        p.defs.map GlobalDefPayload.name ++ (stubsOf declared).map Prod.fst ∧
      ((∀ d ∈ p.defs, d.kind = .bridge) → ∀ d ∈ (bridgeStubs overrides declared p).defs, d.kind = .bridge) := by
  induction declared generalizing p with
  | nil => exact ⟨(List.append_nil _).symm, fun h => h⟩
  | cons e rest ih =>
    obtain ⟨name, shape⟩ := e
    rw [bridgeStubs, stubsOf_cons]
    dsimp only
    cases hstub : shape.stub name with
    | none => exact ih p
    | some s =>
      obtain ⟨hnames, hkinds⟩ := ih (p.push ⟨s.1, .bridge, some shape.stubEnumerable⟩
        (some (s.1, (overrideOf overrides name).getD s.2)))
      refine ⟨?_, fun h => hkinds ?_⟩
      · dsimp only
        rw [hnames]
        simp [ProcessedGlobals.push]
      · intro d hd
        rcases List.mem_append.mp hd with hd | hd
        · exact h d hd
        · rw [List.mem_singleton.mp hd]

/-- A stub set before and not set again is still what it was. -/
theorem bridgeStubs_keeps (overrides : List (JsString × OverrideValue F))
    (declared : List (String × DeclaredGlobal F)) (p : ProcessedGlobals F) {stub : String}
    (h : stub ∉ (stubsOf declared).map Prod.fst) :
    (bridgeStubs overrides declared p).dispatch.find? (·.1 = stub) = p.dispatch.find? (·.1 = stub) := by
  induction declared generalizing p with
  | nil => rfl
  | cons e rest ih =>
    obtain ⟨name, shape⟩ := e
    rw [stubsOf_cons] at h
    rw [bridgeStubs]
    dsimp only at h
    cases hstub : shape.stub name with
    | none =>
      rw [hstub] at h
      exact ih p h
    | some s =>
      rw [hstub] at h
      obtain ⟨hne, hlater⟩ := not_or.mp fun hor => h (List.mem_cons.mpr hor)
      dsimp only
      rw [ih _ hlater]
      exact find_setDispatch_of_ne _ _ hne

/-- The stub of a declared function global is dispatched to its override, or to its default. -/
theorem bridgeStubs_dispatch (overrides : List (JsString × OverrideValue F))
    (declared : List (String × DeclaredGlobal F)) (p : ProcessedGlobals F)
    (hnodup : ((stubsOf declared).map Prod.fst).Nodup) {name stub : String}
    {shape : DeclaredGlobal F} {f : F} (hmem : (name, shape) ∈ declared)
    (hstub : shape.stub name = some (stub, f)) :
    (bridgeStubs overrides declared p).dispatch.find? (·.1 = stub) =
      some (stub, (overrideOf overrides name).getD f) := by
  induction declared generalizing p with
  | nil => exact absurd hmem List.not_mem_nil
  | cons e rest ih =>
    obtain ⟨n, s⟩ := e
    rw [stubsOf_cons] at hnodup
    rw [bridgeStubs]
    dsimp only at hnodup
    cases hs : s.stub n with
    | none =>
      rw [hs] at hnodup
      rcases List.mem_cons.mp hmem with heq | hmem
      · cases heq
        rw [hs] at hstub
        cases hstub
      · exact ih p hnodup hmem
    | some r =>
      rw [hs] at hnodup
      obtain ⟨hnot, hlater⟩ := List.nodup_cons.mp hnodup
      rcases List.mem_cons.mp hmem with heq | hmem
      · cases heq
        rw [hs] at hstub
        cases hstub
        dsimp only
        rw [bridgeStubs_keeps _ _ _ hnot]
        exact find_setDispatch_self _ _ _
      · exact ih _ hlater hmem

theorem overrideOf_mem {runGlobals : OverrideGlobals F} {name : String} {f : F}
    (h : (.wellFormed name, .function f) ∈ runGlobals.entries) :
    overrideOf runGlobals.entries name = some f := by
  unfold overrideOf
  cases hfind : runGlobals.entries.find? (·.1 = .wellFormed name) with
  | none =>
    have hnone := List.find?_eq_none.mp hfind _ h
    simp at hnone
  | some e =>
    have hkey : e.1 = .wellFormed name := by simpa using List.find?_some hfind
    have heq := List.inj_on_of_nodup_map runGlobals.names_nodup (List.mem_of_find?_eq_some hfind) h hkey
    rw [heq]

theorem overrideOf_none {runGlobals : OverrideGlobals F} {name : String}
    (h : ∀ o, (.wellFormed name, o) ∉ runGlobals.entries) :
    overrideOf runGlobals.entries name = none := by
  unfold overrideOf
  cases hfind : runGlobals.entries.find? (·.1 = .wellFormed name) with
  | none => rfl
  | some e =>
    have hkey : e.1 = .wellFormed name := by simpa using List.find?_some hfind
    have hmem := List.mem_of_find?_eq_some hfind
    obtain ⟨k, o⟩ := e
    have hkey : k = .wellFormed name := hkey
    rw [hkey] at hmem
    exact absurd hmem (h o)

theorem extractBridgeGlobals_ok {runGlobals : OverrideGlobals F} {declared : List (String × DeclaredGlobal F)}
    {sent : ProcessedGlobals F} (h : extractBridgeGlobals runGlobals declared = .ok sent) :
    sent = bridgeStubs runGlobals.entries declared .empty := by
  obtain ⟨_, -, h⟩ := Wire.except_bind h
  exact (Except.ok.inj h).symm

/-- For every prepared map of globals outside the runtime's namespace and every override map that
is accepted: the runtime accepts the definitions sent; they are one bridge stub for each declared
function global, in order and under different names, and none for a value global; a bridge call of
a stub reaches the override if there is one and the default otherwise.  Every entry was lowered and
declared alike. -/
theorem global_rebinds {globals : HostGlobals F} {processed : ProcessedGlobals F}
    (hprepared : processGlobals globals = .ok processed)
    (hnames : ∀ name value, (.wellFormed name, value) ∈ globals.entries → ¬ ReservedPrefix name)
    {runGlobals : OverrideGlobals F} {sent : ProcessedGlobals F}
    (hsent : extractBridgeGlobals runGlobals (declareGlobals globals) = .ok sent) :
    validateGlobalRebinds (sent.defs.map GlobalDefPayload.received)
        (declaredStubs (processed.defs.map GlobalDefPayload.received))
        (processed.defs.map GlobalDefPayload.received) = .ok () ∧
      ((∀ d ∈ sent.defs, d.kind = .bridge) ∧
        sent.defs.map GlobalDefPayload.name = (stubsOf (declareGlobals globals)).map Prod.fst ∧
        (sent.defs.map GlobalDefPayload.name).Nodup ∧
        ∀ name, (name, .value) ∈ declareGlobals globals →
          name ∉ sent.defs.map GlobalDefPayload.name ∧
            shimHandlerName name ∉ sent.defs.map GlobalDefPayload.name) ∧
      (∀ name shape stub f, (name, shape) ∈ declareGlobals globals → shape.stub name = some (stub, f) →
        ∀ imports : HandlerMap F,
          (∀ g, (.wellFormed name, .function g) ∈ runGlobals.entries →
            dispatch sent.dispatch imports (.global stub) = .ok g) ∧
          ((∀ o, (.wellFormed name, o) ∉ runGlobals.entries) →
            dispatch sent.dispatch imports (.global stub) = .ok f)) ∧
      ∀ name value, (.wellFormed name, value) ∈ globals.entries →
        Alike name (lowerGlobal name value) (declareGlobal value) := by
  obtain rfl := extractBridgeGlobals_ok hsent
  have hdeclared : ∀ e ∈ declareGlobals globals, ¬ ReservedPrefix e.1 := by
    intro e he
    obtain ⟨value, hvalue, -⟩ := mem_declareGlobalEntries.mp he
    exact hnames e.1 value hvalue
  have hkeys : ((declareGlobals globals).map Prod.fst).Nodup := declareGlobalEntries_nodup globals.names_nodup
  have hnodup := stubsOf_nodup hkeys hdeclared
  have hdefs := bridgeStubs_defs runGlobals.entries (declareGlobals globals) .empty
  have hsentNames : (bridgeStubs runGlobals.entries (declareGlobals globals) .empty).defs.map
      GlobalDefPayload.name = (stubsOf (declareGlobals globals)).map Prod.fst := hdefs.1
  have hbridges := hdefs.2 fun d hd => absurd hd List.not_mem_nil
  refine ⟨?_, ⟨hbridges, hsentNames, ?_, ?_⟩, ?_, fun name value _ => classify_alike name value⟩
  · rw [validateGlobalRebinds_ok, processGlobalEntries_stubs hprepared]
    intro d hd
    obtain ⟨d, hmem, rfl⟩ := List.mem_map.mp hd
    refine ⟨hbridges d hmem, ?_⟩
    have hname : d.name ∈ (stubsOf (declareGlobals globals)).map Prod.fst := by
      rw [← hsentNames]
      exact List.mem_map_of_mem hmem
    exact hname
  · rw [hsentNames]
    exact hnodup
  · -- The stub of another global would tell its name.
    intro name hvalue
    rw [hsentNames]
    have hnot : ∀ stub, (∀ f : F, ∃ shape : DeclaredGlobal F, shape.stub name = some (stub, f)) →
        stub ∉ (stubsOf (declareGlobals globals)).map Prod.fst := by
      intro stub hlike hmem
      obtain ⟨⟨stub, f⟩, hs, rfl⟩ := List.mem_map.mp hmem
      obtain ⟨⟨n, s⟩, hn, hstub'⟩ := mem_stubsOf.mp hs
      obtain ⟨shape, hstub⟩ := hlike f
      obtain rfl := stub_name_injective (hdeclared _ hvalue) (hdeclared _ hn) hstub hstub'
      have heq := List.inj_on_of_nodup_map hkeys hvalue hn rfl
      cases heq
      cases hstub'
    exact ⟨hnot _ fun f => ⟨.bridge f true, rfl⟩, hnot _ fun f => ⟨.shim f, rfl⟩⟩
  · intro name shape stub f hmem hstub imports
    have hfind := bridgeStubs_dispatch runGlobals.entries (declareGlobals globals) .empty hnodup hmem hstub
    constructor
    · intro g hg
      rw [overrideOf_mem hg] at hfind
      dsimp only [dispatch]
      rw [hfind]
      rfl
    · intro hnone
      rw [overrideOf_none hnone] at hfind
      dsimp only [dispatch]
      rw [hfind]
      rfl

end Host

/-- A function `log`, a shim `db` over a handler, and a value `limit`. -/
def sampleGlobals : HostGlobals Nat where
  entries := [(.wellFormed "log", .function 0),
    (.wellFormed "db", .object ⟨some "bridge-with-shim", 1, "", [], "(h) => h", none⟩),
    (.wellFormed "limit", .object ⟨some "data", 0, "", [], "", none⟩)]
  names_nodup := by decide

/-- Another handler for `db`. -/
def sampleOverride : OverrideGlobals Nat := ⟨[(.wellFormed "db", .function 7)], by decide⟩

theorem sampleGlobals_names (name : String) (value : HostGlobalValue Nat)
    (h : (.wellFormed name, value) ∈ sampleGlobals.entries) : ¬ ReservedPrefix name := by
  have hname : name = "log" ∨ name = "db" ∨ name = "limit" := by
    simpa [sampleGlobals] using (List.mem_map_of_mem (f := Prod.fst) h)
  unfold ReservedPrefix
  rcases hname with rfl | rfl | rfl <;> decide

/-- The calls of `log` reach its default, and those of the shim `db` the override. -/
theorem global_rebinds_sample : ∃ sent : ProcessedGlobals Nat,
    extractBridgeGlobals sampleOverride (declareGlobals sampleGlobals) = .ok sent ∧
      dispatch sent.dispatch [] (.global "log") = .ok 0 ∧
      dispatch sent.dispatch [] (.global "__iso4_db_h") = .ok 7 := by
  have hdeclared : declareGlobals sampleGlobals =
      [("log", .bridge 0 true), ("db", .shim 1), ("limit", .value)] := rfl
  obtain ⟨processed, hprepared⟩ : ∃ p, processGlobals sampleGlobals = .ok p := ⟨_, rfl⟩
  obtain ⟨sent, hsent⟩ : ∃ sent,
    extractBridgeGlobals sampleOverride (declareGlobals sampleGlobals) = .ok sent := ⟨_, rfl⟩
  obtain ⟨-, -, hcalls, -⟩ := global_rebinds hprepared sampleGlobals_names hsent
  refine ⟨sent, hsent, ?_, ?_⟩
  · refine (hcalls "log" (.bridge 0 true) "log" 0 (by simp [hdeclared]) rfl []).2 fun o ho => ?_
    have heq := List.mem_singleton.mp ho
    simp at heq
  · exact (hcalls "db" (.shim 1) "__iso4_db_h" 1 (by simp [hdeclared]) rfl []).1 7 List.mem_cons_self

end Iso4
