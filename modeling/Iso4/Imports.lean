/-
Host imports, from the config of a caller to a call of a guest: `processImports` of
`packages/iso4-sandbox/src/imports.ts`, the handle table of
`crates/core/src/v8/bridge.rs`, the modules of `crates/core/src/v8/modules.rs` and the
dispatcher of `packages/iso4-sandbox/src/client.ts`.

A host module is a tree; its functions stay on the host.  The host keeps them under the
wire bytes of specifier and path.  The runtime numbers them in the order of its walk
over the declared imports and gives each trampoline its number; the number of a call is
looked up in the table and goes back as specifier and path.

* `processImports` — bindings and handlers;
* `collectImportHandles`, `hostModuleBaseId`, `buildHostValue` — the walks of the runtime;
* `resolve`, `dispatchTarget`, `dispatch` — a module is resolved, a call of it answered.
-/
import Iso4.Lib.Execution
import Iso4.Lib.KeyTree
import Iso4.RuntimePayloads

namespace Iso4

open Wire Ipc

namespace Imports

/-! ### The config of the caller -/

/-- A string of the host. -/
inductive JsString where
  | wellFormed (s : String)
  /-- The UTF-16 units of a string with a lone surrogate. -/
  | illFormed (units : List UInt16)
  deriving DecidableEq

/-- A value that is not a plain object. -/
inductive Leaf (F : Type) where
  | undefined
  | function (f : F)
  /-- Anything else: its `describeKind` and its serialization. -/
  | data (kind : String) (blob : Blob)

/-- A value as the walk over it sees it. -/
abbrev Shape (F : Type) := KeyTree JsString (Leaf F)

/-- The value of one specifier. -/
inductive ModuleConfig (F : Type) where
  | source (text : String)
  | value (shape : Shape F)

def ModuleConfig.Distinct {F : Type} : ModuleConfig F → Prop
  | .source _ => True
  | .value shape => shape.Distinct

/-- A config: `Object.entries` gives no key twice. -/
structure Config (F : Type) where
  entries : List (JsString × ModuleConfig F)
  specifiers_nodup : (entries.map Prod.fst).Nodup
  keys_distinct : ∀ e ∈ entries, e.2.Distinct

/-- A path of the host, from the texts it is on the wire. -/
def hostPath (path : List String) : List JsString := path.map .wellFormed

/-- The config has the function `f` at a path of a module. -/
def Config.LeafAt {F : Type} (c : Config F) (specifier : String) (path : List String) (f : F) : Prop :=
  ∃ shape, (.wellFormed specifier, .value shape) ∈ c.entries ∧
    KeyTree.follow (hostPath path) shape = some (.function f)

/-- A `Map` keyed by the bytes of keys. -/
abbrev HandlerMap (F : Type) := List (Blob × F)

namespace HandlerMap

variable {F : Type}

def set (m : HandlerMap F) (key : Blob) (f : F) : HandlerMap F := m.filter (·.1 ≠ key) ++ [(key, f)]

def get (m : HandlerMap F) (key : Blob) : Option F := (m.find? (·.1 = key)).map Prod.snd

end HandlerMap

/-! ### `processImports` -/

inductive ImportsError where
  | specifierNotWellFormed (units : List UInt16)
  | notModule (specifier kind : String)
  | badExportName (specifier : String) (name : JsString)
  | tooDeep (specifier : String) (path : List String)
  | keyNotWellFormed (units : List UInt16)
  /-- A key too long for the wire. -/
  | unencodable

/-- `typeof`, but for `null` and arrays. -/
def describeKind {F : Type} : Shape F → String
  | .leaf .undefined => "undefined"
  | .leaf (.function _) => "function"
  | .leaf (.data kind _) => kind
  | .node _ => "object"

def importHandlerKey (specifier : String) (path : List String) : Except ImportsError Blob :=
  match encodeImportKey specifier path with
  | some key => .ok key
  | none => .error .unencodable

section Host

variable {F : Type}

mutual

/-- `lowerNode`: the wire shape of a node, its functions set in the handler map. -/
def lowerNode (specifier : String) :
    Shape F → List String → HandlerMap F → Except ImportsError (HostModuleNode × HandlerMap F)
  | value, path, handlers =>
    if maxHostModuleDepth < path.length then .error (.tooDeep specifier path)
    else match value with
      | .leaf (.function f) => do
        let key ← importHandlerKey specifier path
        .ok (.function, handlers.set key f)
      | .node children => do
        let (entries, handlers) ← lowerEntries specifier children path handlers
        .ok (.object entries, handlers)
      | .leaf (.data _ blob) => .ok (.data blob, handlers)
      | .leaf .undefined => .ok (.data undefinedBlob, handlers)

/-- The loop over the entries of a plain object. -/
def lowerEntries (specifier : String) : List (JsString × Shape F) → List String → HandlerMap F →
    Except ImportsError (List (String × HostModuleNode) × HandlerMap F)
  | [], _, handlers => .ok ([], handlers)
  | (_, .leaf .undefined) :: rest, path, handlers => lowerEntries specifier rest path handlers
  | (.illFormed units, _) :: _, _, _ => .error (.keyNotWellFormed units)
  | (.wellFormed key, child) :: rest, path, handlers => do
    let (node, handlers) ← lowerNode specifier child (path ++ [key]) handlers
    let (entries, handlers) ← lowerEntries specifier rest path handlers
    .ok ((key, node) :: entries, handlers)

end

variable (isValidExportName : String → Bool)

/-- The loop over the exports of a host module. -/
def lowerExports (specifier : String) : List (JsString × Shape F) → HandlerMap F →
    Except ImportsError (List (String × HostModuleNode) × HandlerMap F)
  | [], handlers => .ok ([], handlers)
  | (_, .leaf .undefined) :: rest, handlers => lowerExports specifier rest handlers
  | (.illFormed units, _) :: _, _ => .error (.badExportName specifier (.illFormed units))
  | (.wellFormed name, child) :: rest, handlers =>
    if isValidExportName name then do
      let (node, handlers) ← lowerNode specifier child [name] handlers
      let (module, handlers) ← lowerExports specifier rest handlers
      .ok ((name, node) :: module, handlers)
    else .error (.badExportName specifier (.wellFormed name))

structure ProcessedImports (F : Type) where
  bindings : List ImportBinding
  handlers : HandlerMap F

/-- The loop over the specifiers. -/
def processEntries : List (JsString × ModuleConfig F) → HandlerMap F →
    Except ImportsError (ProcessedImports F)
  | [], handlers => .ok ⟨[], handlers⟩
  | (.illFormed units, _) :: _, _ => .error (.specifierNotWellFormed units)
  | (.wellFormed specifier, .source text) :: rest, handlers => do
    let processed ← processEntries rest handlers
    .ok ⟨⟨specifier, .source text⟩ :: processed.bindings, processed.handlers⟩
  | (.wellFormed specifier, .value (.leaf l)) :: _, _ =>
    .error (.notModule specifier (describeKind (.leaf l)))
  | (.wellFormed specifier, .value (.node children)) :: rest, handlers => do
    let (module, handlers) ← lowerExports isValidExportName specifier children handlers
    let processed ← processEntries rest handlers
    .ok ⟨⟨specifier, .host module⟩ :: processed.bindings, processed.handlers⟩

/-- `processImports`; no config is no entries. -/
def processImports (imports : Config F) : Except ImportsError (ProcessedImports F) :=
  processEntries isValidExportName imports.entries []

end Host

/-! ### The handle table -/

structure ImportHandleEntry where
  specifier : String
  path : List String
  recordName : String
  deriving DecidableEq

def recordName (specifier : String) (path : List String) : String :=
  specifier ++ "." ++ String.intercalate "." path

mutual

/-- `walk`: the entries of one level, pushed on `out`. -/
def walk (specifier : String) : List (String × HostModuleNode) → List String →
    List ImportHandleEntry → List ImportHandleEntry
  | [], _, out => out
  | (key, node) :: rest, path, out => walk specifier rest path (walkNode specifier node (path ++ [key]) out)

def walkNode (specifier : String) : HostModuleNode → List String →
    List ImportHandleEntry → List ImportHandleEntry
  | .function, path, out => out ++ [⟨specifier, path, recordName specifier path⟩]
  | .object children, path, out => walk specifier children path out
  | .data _, _, out => out

end

def collectImportHandles (imports : List ImportBinding) : List ImportHandleEntry :=
  imports.foldl
    (fun out binding =>
      match binding.module with
      | .host exports => walk binding.specifier exports [] out
      | .source _ => out) []

mutual

def countFunctionLeaves : List (String × HostModuleNode) → Nat
  | [] => 0
  | (_, node) :: rest => countNodeLeaves node + countFunctionLeaves rest

def countNodeLeaves : HostModuleNode → Nat
  | .function => 1
  | .object children => countFunctionLeaves children
  | .data _ => 0

end

def moduleLeaves : ImportModule → Nat
  | .host exports => countFunctionLeaves exports
  | .source _ => 0

/-- `host_module_base_id`: the leaves of the bindings before the specifier's.  The
counter of the code is a `u32`; a frame holds no more leaves than bytes. -/
def hostModuleBaseId : List ImportBinding → String → Nat
  | [], _ => 0
  | binding :: rest, specifier =>
    if binding.specifier = specifier then 0
    else moduleLeaves binding.module + hostModuleBaseId rest specifier

/-! ### The modules of the runtime -/

/-- What V8 does with what it is given. -/
structure Engine (V : Type) where
  deserializeValue : Blob → Option V
  /-- A call of the trampoline factory returns. -/
  callFactory : Nat → Bool
  /-- `v8::String::new` has room for the text. -/
  internString : String → Bool
  /-- Source text of a module compiles, or fails with a message. -/
  compileModule : String → String → Option String

/-- What stands at the end of a path of a built module. -/
inductive GuestLeaf (V : Type) where
  | trampoline (id : Nat)
  | data (v : V)

abbrev GuestValue (V : Type) := KeyTree String (GuestLeaf V)

inductive ResolveError where
  | import (message : String)
  | internal (message : String)
  | runtime (message : String)
  | moduleNotFound (message : String)

section Runtime

variable {V : Type} (engine : Engine V)

/-- `create_data_property`: an own property, replaced if it is there. -/
def createDataProperty (object : List (String × GuestValue V)) (key : String) (v : GuestValue V) :
    List (String × GuestValue V) := object.filter (·.1 ≠ key) ++ [(key, v)]

mutual

/-- `build_host_value`: the value, and the next handle id. -/
def buildHostValue (specifier : String) : HostModuleNode → Nat → Except ResolveError (GuestValue V × Nat)
  | .function, nextId =>
    if engine.callFactory nextId then .ok (.leaf (.trampoline nextId), nextId + 1)
    else .error (.internal ("failed to build import trampoline in host module '" ++ specifier ++ "'"))
  | .data blob, nextId =>
    match engine.deserializeValue blob with
    | some v => .ok (.leaf (.data v), nextId)
    | none => .error (.internal ("failed to materialise data leaf in host module '" ++ specifier ++ "'"))
  | .object entries, nextId => do
    let (object, nextId) ← buildEntries specifier entries [] nextId
    .ok (.node object, nextId)

/-- The loop over the entries of an object. -/
def buildEntries (specifier : String) : List (String × HostModuleNode) → List (String × GuestValue V) →
    Nat → Except ResolveError (List (String × GuestValue V) × Nat)
  | [], object, nextId => .ok (object, nextId)
  | (key, child) :: rest, object, nextId => do
    let (v, nextId) ← buildHostValue specifier child nextId
    if engine.internString key then
      buildEntries specifier rest (createDataProperty object key v) nextId
    else .error (.internal ("failed to intern object key in host module '" ++ specifier ++ "'"))

end

/-- The loop of `build_host_module` over the exports: the values array under the names
the source text gives its elements. -/
def buildExports (specifier : String) : List (String × HostModuleNode) → Nat →
    Except ResolveError (List (String × GuestValue V))
  | [], _ => .ok []
  | (name, node) :: rest, nextId => do
    let (v, nextId) ← buildHostValue engine specifier node nextId
    let values ← buildExports specifier rest nextId
    .ok ((name, v) :: values)

def exportLine (i : Nat) (name : String) : String :=
  if name = "default" then "export default import.meta.__iso4[" ++ toString i ++ "];\n"
  else "export const " ++ name ++ " = import.meta.__iso4[" ++ toString i ++ "];\n"

/-- The source text of a host module. -/
def hostModuleSource (exports : List (String × HostModuleNode)) : String :=
  String.join (exports.zipIdx.map fun e => exportLine e.2 e.1.1)

/-- A module as its importers see it: the exports of a host module. -/
inductive Module (V : Type) where
  | source (text : String)
  | host (exports : List (String × GuestValue V))

def compileSourceModule (specifier source : String) (module : Module V) : Except ResolveError (Module V) :=
  match engine.compileModule specifier source with
  | none => .ok module
  | some message =>
    .error (.runtime ("failed to compile source import '" ++ specifier ++ "': " ++ message))

variable (isValidExportIdentifier : String → Bool)

def invalidExport (specifier name : String) : String :=
  "host module '" ++ specifier ++ "': top-level key '" ++ name ++
    "' is not a valid JavaScript identifier and cannot be exported as a named ESM export"

def buildHostModule (bindings : List ImportBinding) (specifier : String)
    (exports : List (String × HostModuleNode)) : Except ResolveError (Module V) := do
  match exports.find? fun e => !isValidExportIdentifier e.1 with
  | some e => .error (.import (invalidExport specifier e.1))
  | none =>
    let values ← buildExports engine specifier exports (hostModuleBaseId bindings specifier)
    compileSourceModule engine specifier (hostModuleSource exports) (.host values)

structure ResolverContext (V : Type) where
  bindings : List ImportBinding
  moduleCache : List (String × Module V)
  /-- The first error wins. -/
  resolveError : Option ResolveError

-- The modules the runtime has itself: `node:async_hooks` and `iso4:runtime`.
variable (builtin : String → Option String)

def recordResolveError (ctx : ResolverContext V) (e : ResolveError) : ResolverContext V :=
  if ctx.resolveError.isSome then ctx else { ctx with resolveError := some e }

def lookupBinding (ctx : ResolverContext V) (specifier : String) : Option ImportBinding :=
  match ctx.bindings.find? (·.specifier = specifier) with
  | some binding => some binding
  | none => (builtin specifier).map fun text => ⟨specifier, .source text⟩

def buildModule (bindings : List ImportBinding) (specifier : String) :
    ImportModule → Except ResolveError (Module V)
  | .source text => compileSourceModule engine specifier text (.source text)
  | .host exports => buildHostModule engine isValidExportIdentifier bindings specifier exports

/-- `module_resolver_callback`, with the module that asks. -/
def resolve (ctx : ResolverContext V) (request : String × Option String) : ResolverContext V :=
  if (ctx.moduleCache.find? (·.1 = request.1)).isSome then ctx
  else
    match lookupBinding builtin ctx request.1 with
    | none =>
      recordResolveError ctx (.moduleNotFound
        ("Cannot find module '" ++ request.1 ++ "'" ++
          (match request.2 with
            | some importer => " imported from '" ++ importer ++ "'"
            | none => "")))
    | some binding =>
      match buildModule engine isValidExportIdentifier ctx.bindings request.1 binding.module with
      | .ok m => { ctx with moduleCache := ctx.moduleCache ++ [(request.1, m)] }
      | .error e => recordResolveError ctx e

def ResolverContext.new (bindings : List ImportBinding) : ResolverContext V := ⟨bindings, [], none⟩

/-- The modules after some requests, in their order. -/
def resolved (bindings : List ImportBinding) (requests : List (String × Option String)) :
    ResolverContext V :=
  Execution.exec (resolve engine isValidExportIdentifier builtin) (.new bindings) requests

/-- The module the guest got for a specifier. -/
def ResolverContext.cacheGet (ctx : ResolverContext V) (specifier : String) : Option (Module V) :=
  (ctx.moduleCache.find? (·.1 = specifier)).map Prod.snd

def Module.at (path : List String) : Module V → Option (GuestLeaf V)
  | .host exports => KeyTree.follow path (.node exports)
  | .source _ => none

/-- What the guest finds at a path of an imported module. -/
def ResolverContext.guestAt (ctx : ResolverContext V) (specifier : String) (path : List String) :
    Option (GuestLeaf V) := (ctx.cacheGet specifier).bind (Module.at path)

end Runtime

/-! ### A call -/

/-- The target of a call of the dispatcher stub, and its record name. -/
def dispatchTarget (table : List ImportHandleEntry) (handle : Nat) : Option (BridgeTarget × String) :=
  (table[handle]?).map fun entry => (.import entry.specifier entry.path, entry.recordName)

/-- The handler of a call, or why there is none. -/
def dispatch {F : Type} (globals : List (String × F)) (imports : HandlerMap F) :
    DecodedTarget → Except String F
  | .importKey key =>
    match imports.get key with
    | some handler => .ok handler
    | none =>
      match decodeImportKey key with
      | .ok (specifier, path) => .error ("no handler configured for host import '" ++ specifier ++ "'." ++
        String.intercalate "." path)
      | .error _ => .error "undecodable import key"
  | .global exportName =>
    match globals.find? (·.1 = exportName) with
    | some g => .ok g.2
    | none => .error ("no handler configured for bridge global '" ++ exportName ++ "'")

end Imports

end Iso4
