/-
The checks of a prefix run against the shape declared at prepare
(`crates/core/src/prefix.rs`).

A run may give a new function to a declared function global or to a function leaf of a
declared host module, and to nothing else.

* `findHostNode_ok` — the path walk finds what `nodeAt` says stands there;
* `validateImportRebind_refusal` — a rebind is judged by its declared location;
* `validateImportRebinds_ok`, `validateGlobalRebinds_ok` — what is accepted.
-/
import Iso4.RuntimePayloads

namespace Iso4

open Ipc

/-- The refusals of the two checks, of `sandbox::RunError`. -/
inductive BindingError where
  | undeclaredBinding (message : String)
  | frozenBinding (message : String)
  deriving DecidableEq

/-- The codes of setup refusals. -/
inductive SetupErrorCode where
  | undeclaredBinding
  | frozenBinding
  | invalidRebind
  | reservedName
  deriving DecidableEq

/-- The code a refusal has in `to_payload`. -/
def BindingError.code : BindingError → SetupErrorCode
  | .undeclaredBinding _ => .undeclaredBinding
  | .frozenBinding _ => .frozenBinding

/-! ### Globals -/

/-- `bridge_stub_name`: the name bridge calls of the global go out under. -/
def Ipc.HostGlobalDef.bridgeStubName (d : HostGlobalDef) : Option String :=
  match d.kind with
  | .bridge => some d.name
  | .shim _ handlerName => some handlerName
  | .string _ => none
  | .data _ => none

def Ipc.GlobalKind.isBridge : GlobalKind → Bool
  | .bridge => true
  | _ => false

/-- A string or data global. -/
def Ipc.GlobalKind.isValue : GlobalKind → Bool
  | .string _ => true
  | .data _ => true
  | _ => false

def frozenGlobal (name : String) : String :=
  s!"global '{name}' is a value global, frozen with the prefix — "
    ++ "only function globals can be rebound"

def undeclaredGlobal (name : String) : String :=
  s!"global '{name}' was not declared at precompile time"

def validateGlobalRebinds (globals : List HostGlobalDef) (declaredStubs : List String)
    (declared : List HostGlobalDef) : Except BindingError Unit :=
  match globals with
  | [] => .ok ()
  | d :: rest =>
    if d.kind.isBridge && declaredStubs.any (· = d.name) then
      validateGlobalRebinds rest declaredStubs declared
    else
      let frozen := declared.any fun g => g.kind.isValue && decide (g.name = d.name)
      .error (if frozen then .frozenBinding (frozenGlobal d.name)
        else .undeclaredBinding (undeclaredGlobal d.name))

/-! ### Imports -/

def Ipc.HostModuleNode.children : HostModuleNode → List (String × HostModuleNode)
  | .object entries => entries
  | _ => []

/-- The entry under a key: the first one. -/
def entryUnder (entries : List (String × HostModuleNode)) (key : String) : Option HostModuleNode :=
  (entries.find? (·.1 = key)).map Prod.snd

/-- The loop of `find_host_node`: `i` segments are behind it, `node` is the last one found
and `entries` are the entries of the last object found. -/
def findHostNodeLoop (length : Nat) : List String → Nat → List (String × HostModuleNode) →
    Option HostModuleNode → Except Nat HostModuleNode
  | [], _, _, some node => .ok node
  | [], _, _, none => .error length
  | segment :: rest, i, entries, _ =>
    match entryUnder entries segment with
    | none => .error (i + 1)
    | some (.object children) =>
      findHostNodeLoop length rest (i + 1) children (some (.object children))
    | some found =>
      if i + 1 < length then .error length
      else findHostNodeLoop length rest (i + 1) entries (some found)

/-- `find_host_node`; the error is how much of the path its message shows. -/
def findHostNode (entries : List (String × HostModuleNode)) (path : List String) :
    Except Nat HostModuleNode := findHostNodeLoop path.length path 0 entries none

def undeclaredImport (specifier : String) : String :=
  s!"import '{specifier}' was not declared at precompile time"

def sourceImport (specifier : String) : String :=
  s!"import '{specifier}' is a source module — source imports are frozen with the prefix "
    ++ "and cannot be rebound at prefix.call() time"

def undeclaredPath (specifier : String) (path : List String) : String :=
  let joined := String.intercalate "." path
  s!"import '{specifier}'.{joined} was not declared at precompile time"

def dataLeaf (specifier : String) (path : List String) : String :=
  let joined := String.intercalate "." path
  s!"import '{specifier}'.{joined} is a data leaf, not a function — data leaves cannot be rebound"

/-- The body of the loop over the rebinds. -/
def validateImportRebind (declared : List ImportBinding) (rb : ImportRebind) :
    Except BindingError Unit :=
  match declared.find? (·.specifier = rb.specifier) with
  | none => .error (.undeclaredBinding (undeclaredImport rb.specifier))
  | some binding =>
    match binding.module with
    | .source _ => .error (.frozenBinding (sourceImport rb.specifier))
    | .host exports =>
      match findHostNode exports rb.path with
      | .ok .function => .ok ()
      | .ok (.data _) => .error (.frozenBinding (dataLeaf rb.specifier rb.path))
      | .ok (.object _) => .error (.undeclaredBinding (undeclaredPath rb.specifier rb.path))
      | .error depth =>
        .error (.undeclaredBinding (undeclaredPath rb.specifier (rb.path.take depth)))

def validateImportRebinds (rebinds : List ImportRebind) (declared : List ImportBinding) :
    Except BindingError Unit :=
  match rebinds with
  | [] => .ok ()
  | rb :: rest => do
    validateImportRebind declared rb
    validateImportRebinds rest declared

/-! ### Declared locations -/

/-- What stands at a path below a node. -/
def nodeAt : List String → HostModuleNode → Option HostModuleNode
  | [], node => some node
  | key :: path, .object entries => (entryUnder entries key).bind (nodeAt path)
  | _ :: _, _ => none

/-- What a location of the declared imports is. -/
inductive Location where
  | undeclared
  | sourceModule
  | node (node : HostModuleNode)

/-- The location of a path below an object. -/
def Location.ofNode : Option HostModuleNode → Location
  | some found => .node found
  | none => .undeclared

/-- The location of a path under a specifier; the empty path is the module. -/
def locationAt (declared : List ImportBinding) (specifier : String) (path : List String) : Location :=
  match declared.find? (·.specifier = specifier) with
  | none => .undeclared
  | some binding =>
    match binding.module with
    | .source _ => .sourceModule
    | .host exports => .ofNode (nodeAt path (.object exports))

/-- The code a rebind of a location is refused with. -/
def Location.refusal : Location → Option SetupErrorCode
  | .undeclared => some .undeclaredBinding
  | .sourceModule => some .frozenBinding
  | .node .function => none
  | .node (.data _) => some .frozenBinding
  | .node (.object _) => some .undeclaredBinding

def refusalOf (r : Except BindingError Unit) : Option SetupErrorCode :=
  match r with
  | .ok _ => none
  | .error e => some e.code

theorem nodeAt_leaf {node found : HostModuleNode} (hleaf : ∀ entries, node ≠ .object entries)
    {path : List String} (h : nodeAt path node = some found) : path = [] ∧ found = node := by
  cases path with
  | nil => exact ⟨rfl, (Option.some.inj h).symm⟩
  | cons key path =>
    cases node with
    | object entries => exact absurd rfl (hleaf entries)
    | function => cases h
    | data _ => cases h

theorem nodeAt_append (p q : List String) (node : HostModuleNode) :
    nodeAt (p ++ q) node = (nodeAt p node).bind (nodeAt q) := by
  induction p generalizing node with
  | nil => rfl
  | cons key p ih =>
    cases node with
    | object entries =>
      show (entryUnder entries key).bind (nodeAt (p ++ q)) =
        ((entryUnder entries key).bind (nodeAt p)).bind (nodeAt q)
      rw [Option.bind_assoc]
      congr 1
      funext child
      exact ih child
    | function => rfl
    | data _ => rfl

/-- The loop, with `path` left and the whole path `length` long. -/
theorem findHostNodeLoop_ok {length : Nat} (path : List String) {i : Nat}
    {entries : List (String × HostModuleNode)} {last : Option HostModuleNode} {node : HostModuleNode}
    (hlen : i + path.length = length) :
    findHostNodeLoop length path i entries last = .ok node ↔
      (path = [] ∧ last = some node) ∨ (path ≠ [] ∧ nodeAt path (.object entries) = some node) := by
  induction path generalizing i entries last with
  | nil => cases last <;> simp [findHostNodeLoop]
  | cons segment rest ih =>
    have hnext : i + 1 + rest.length = length := by
      rw [List.length_cons] at hlen
      omega
    unfold findHostNodeLoop
    simp only [reduceCtorEq, false_and, ne_eq, not_false_eq_true, true_and, false_or]
    show _ ↔ (entryUnder entries segment).bind (nodeAt rest) = some node
    split
    · next hnone => simp [hnone]
    · next children hfound =>
      rw [ih hnext, hfound]
      cases rest with
      | nil => simp [nodeAt]
      | cons key rest => simp
    · next found hleaf hfound =>
      have hdeep : ∀ {path}, path ≠ [] → nodeAt path found ≠ some node :=
        fun hne hat => hne (nodeAt_leaf hleaf hat).1
      rw [hfound, Option.bind_some]
      split
      · next hlt =>
        have hne : rest ≠ [] := by
          rintro rfl
          simp only [List.length_nil] at hnext
          omega
        simp [hdeep hne]
      · next hge =>
        have hnil : rest = [] := by
          rw [← List.length_eq_zero_iff]
          omega
        subst hnil
        rw [ih hnext]
        simp [nodeAt]

theorem findHostNode_ok {entries : List (String × HostModuleNode)} {path : List String}
    {node : HostModuleNode} :
    findHostNode entries path = .ok node ↔ path ≠ [] ∧ nodeAt path (.object entries) = some node := by
  unfold findHostNode
  rw [findHostNodeLoop_ok path (Nat.zero_add _)]
  simp

/-- A rebind is refused as its declared location is. -/
theorem validateImportRebind_refusal (declared : List ImportBinding) (rb : ImportRebind) :
    refusalOf (validateImportRebind declared rb) =
      (locationAt declared rb.specifier rb.path).refusal := by
  unfold validateImportRebind locationAt
  split
  · rfl
  · next binding _ =>
    split
    · rfl
    · next exports _ =>
      cases hwalk : findHostNode exports rb.path with
      | ok node =>
        rw [(findHostNode_ok.mp hwalk).2]
        cases node <;> rfl
      | error depth =>
        cases hat : nodeAt rb.path (.object exports) with
        | none => rfl
        | some node =>
          -- The walk finds what is there, but for the empty path.
          by_cases hnil : rb.path = []
          · rw [hnil] at hat
            cases hat
            rfl
          · rw [findHostNode_ok.mpr ⟨hnil, hat⟩] at hwalk
            cases hwalk

theorem refusal_eq_none {l : Location} : l.refusal = none ↔ l = .node .function := by
  cases l with
  | undeclared => simp [Location.refusal]
  | sourceModule => simp [Location.refusal]
  | node node => cases node <;> simp [Location.refusal]

theorem refusalOf_eq_none {r : Except BindingError Unit} : refusalOf r = none ↔ r = .ok () := by
  cases r <;> simp [refusalOf]

/-- Exactly the function leaves can be rebound. -/
theorem validateImportRebinds_ok {rebinds : List ImportRebind} {declared : List ImportBinding} :
    validateImportRebinds rebinds declared = .ok () ↔
      ∀ rb ∈ rebinds, locationAt declared rb.specifier rb.path = .node .function := by
  induction rebinds with
  | nil => simp [validateImportRebinds]
  | cons rb rest ih =>
    rw [List.forall_mem_cons, ← ih, ← refusal_eq_none, ← validateImportRebind_refusal,
      refusalOf_eq_none, validateImportRebinds]
    cases validateImportRebind declared rb <;> simp [Bind.bind, Except.bind]

/-- Exactly the declared stubs can be installed again. -/
theorem validateGlobalRebinds_ok {globals declared : List HostGlobalDef} {declaredStubs : List String} :
    validateGlobalRebinds globals declaredStubs declared = .ok () ↔
      ∀ d ∈ globals, d.kind = .bridge ∧ d.name ∈ declaredStubs := by
  induction globals with
  | nil => simp [validateGlobalRebinds]
  | cons d rest ih =>
    have hstub : (d.kind.isBridge && declaredStubs.any (· = d.name)) = true ↔
        d.kind = .bridge ∧ d.name ∈ declaredStubs := by
      rw [Bool.and_eq_true]
      refine and_congr ?_ (by simp)
      cases d.kind <;> simp [GlobalKind.isBridge]
    rw [List.forall_mem_cons, ← ih, ← hstub, validateGlobalRebinds]
    split
    · next h => simp [h]
    · next h => simp [h]

end Iso4
