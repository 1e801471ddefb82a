/-
The modules of a run, linked: `instantiate_module` with the resolver of
`crates/core/src/v8/modules.rs`.

V8 compiles the root module, asks `module_resolver_callback` for each specifier a compiled module
imports, and stops when the callback has no module for one.  Which request it asks for next is its
own affair, so a run of the linker is given by the choices V8 makes.

* `Linker`, `Linkage.ask` — the requests that wait, those that were answered, one answer;
* `linking_sound` — in every order of the requests each import gets the one module of its specifier,
  what was loaded is what the root needs, and a failure is reported by the first import that failed;
* `linking_settles` — every order ends, and all orders end alike.
-/
import Iso4.ImportCalls
import Iso4.Lib.Worklist

namespace Iso4

namespace Imports

open Ipc Execution Relation Worklist

/-! ### What a run is linked with -/

/-- The modules the runtime has itself, by the texts it has for them. -/
def builtinModule (asyncHooksSrc iso4RuntimeSrc specifier : String) : Option String :=
  if specifier = "node:async_hooks" then some asyncHooksSrc
  else if specifier = "iso4:runtime" then some iso4RuntimeSrc
  else none

/-- V8 and the check of export names, the texts of the runtime's own modules, the specifiers V8
finds in the text of a module, and the bindings of the run. -/
structure Linkage (V : Type) where
  engine : Engine V
  isValidExportIdentifier : String → Bool
  asyncHooksSrc : String
  iso4RuntimeSrc : String
  moduleRequests : String → List String
  bindings : List ImportBinding

/-- The text V8 compiles for a binding. -/
def moduleText : ImportModule → String
  | .source text => text
  | .host exports => hostModuleSource exports

/-- The line of a request that finds no binding. -/
def notFoundMessage (request : String × Option String) : String :=
  "Cannot find module '" ++ request.1 ++ "'" ++
    (match request.2 with
      | some importer => " imported from '" ++ importer ++ "'"
      | none => "")

namespace Linkage

variable {V : Type} (L : Linkage V)

def builtin : String → Option String := builtinModule L.asyncHooksSrc L.iso4RuntimeSrc

def binding (specifier : String) : Option ImportBinding :=
  lookupBinding L.builtin (.new L.bindings : ResolverContext V) specifier

/-- The module a request gets when none is in the cache, or the error that is recorded. -/
def load (request : String × Option String) : Except ResolveError (Module V) :=
  match L.binding request.1 with
  | none => .error (.moduleNotFound (notFoundMessage request))
  | some binding =>
    buildModule L.engine L.isValidExportIdentifier L.bindings request.1 binding.module

/-- The imports of the module of a specifier. -/
def importsOf (specifier : String) : List String :=
  match L.binding specifier with
  | some binding => L.moduleRequests (moduleText binding.module)
  | none => []

/-- The imports of a module: of the root (`none`), or of the module of a specifier. -/
def requests (root : String) : Option String → List String
  | none => L.moduleRequests root
  | some specifier => L.importsOf specifier

/-- One module imports another. -/
def Edge (root : String) (importer imported : Option String) : Prop :=
  ∃ specifier ∈ L.requests root importer, imported = some specifier

/-- The root, or what it imports, through others or not. -/
def Needed (root : String) : Option String → Prop := ReflTransGen (L.Edge root) none

/-- The specifier has a binding, and a module can be made of it. -/
def Loads (specifier : String) : Prop :=
  ∃ m, L.load (specifier, none) = .ok m

end Linkage

/-! ### The linker -/

/-- `waiting` are the imports of compiled modules that V8 has not asked for, each with the module
that imports it; `linked` what the others got. -/
structure Linker (V : Type) where
  ctx : ResolverContext V
  waiting : List (String × Option String)
  linked : List ((String × Option String) × Module V)
  failed : Bool

variable {V : Type}

def ResolverContext.Cached (ctx : ResolverContext V) (specifier : String) : Prop :=
  ∃ m, ctx.cacheGet specifier = some m

/-- The importers of requests: the root, and the modules in the cache. -/
def ResolverContext.Importer (ctx : ResolverContext V) : Option String → Prop
  | none => True
  | some specifier => ctx.Cached specifier

namespace Linkage

variable (L : Linkage V)

/-- The root is compiled; a resolver context is installed for the run. -/
def start (root : String) : Linker V :=
  ⟨.new L.bindings, (L.moduleRequests root).map fun s => (s, none), [], false⟩

/-- V8 asks for one of the requests that wait.  A module that was not in the cache brings its own. -/
def ask (l : Linker V) (k : Nat) : Linker V :=
  if l.failed then l
  else
    match l.waiting[k]? with
    | none => l
    | some request =>
      let ctx := resolve L.engine L.isValidExportIdentifier L.builtin l.ctx request
      match ctx.cacheGet request.1 with
      | none => { l with ctx, waiting := l.waiting.eraseIdx k, failed := true }
      | some m =>
        let brought :=
          if (l.ctx.cacheGet request.1).isSome then []
          else (L.importsOf request.1).map fun s => (s, some request.1)
        ⟨ctx, l.waiting.eraseIdx k ++ brought, l.linked ++ [(request, m)], false⟩

/-! ### What one answer does -/

section Ask

variable {L} {l : Linker V} {request : String × Option String}

theorem cacheGet_append {ctx : ResolverContext V} {specifier : String} (hnew : ctx.cacheGet specifier = none)
    (m : Module V) (s : String) :
    ResolverContext.cacheGet { ctx with moduleCache := ctx.moduleCache ++ [(specifier, m)] } s =
      if s = specifier then some m else ctx.cacheGet s := by
  have hfind : ctx.moduleCache.find? (·.1 = specifier) = none := by
    simpa [ResolverContext.cacheGet] using hnew
  unfold ResolverContext.cacheGet
  rw [List.find?_append]
  split
  · next heq =>
    subst heq
    simp [hfind]
  · next hne =>
    have hrest : [(specifier, m)].find? (·.1 = s) = none := by simpa using fun h => hne h.symm
    rw [hrest, Option.or_none]

@[simp] theorem recordResolveError_moduleCache (ctx : ResolverContext V) (e : ResolveError) :
    (recordResolveError ctx e).moduleCache = ctx.moduleCache := by
  unfold recordResolveError
  split <;> rfl

@[simp] theorem recordResolveError_bindings (ctx : ResolverContext V) (e : ResolveError) :
    (recordResolveError ctx e).bindings = ctx.bindings := by
  unfold recordResolveError
  split <;> rfl

@[simp] theorem recordResolveError_cacheGet (ctx : ResolverContext V) (e : ResolveError) (s : String) :
    (recordResolveError ctx e).cacheGet s = ctx.cacheGet s := by
  simp only [ResolverContext.cacheGet, recordResolveError_moduleCache]

/-- The resolver: the module of the cache, else what the specifier loads. -/
theorem resolve_eq {ctx : ResolverContext V} (hctx : ctx.bindings = L.bindings) :
    resolve L.engine L.isValidExportIdentifier L.builtin ctx request =
      if (ctx.cacheGet request.1).isSome then ctx
      else
        match L.load request with
        | .ok m => { ctx with moduleCache := ctx.moduleCache ++ [(request.1, m)] }
        | .error e => recordResolveError ctx e := by
  have hlookup : lookupBinding L.builtin ctx request.1 = L.binding request.1 := by
    simp only [binding, lookupBinding, ResolverContext.new, hctx]
  have hcached : (ctx.moduleCache.find? (·.1 = request.1)).isSome = (ctx.cacheGet request.1).isSome := by
    simp only [ResolverContext.cacheGet, Option.isSome_map]
  simp only [resolve, hcached, hlookup, load, hctx]
  split
  · rfl
  · cases L.binding request.1 with
    | none => rfl
    | some binding => rfl

/-- The ways an answer goes. -/
inductive Asked (L : Linkage V) (l : Linker V) (k : Nat) : Linker V → Prop where
  /-- Nothing is asked: linking failed, or there is no such request. -/
  | idle : (l.failed = true ∨ l.waiting.length ≤ k) → Asked L l k l
  | known (request m) : l.failed = false → l.waiting[k]? = some request →
      l.ctx.cacheGet request.1 = some m →
      Asked L l k { l with waiting := l.waiting.eraseIdx k, linked := l.linked ++ [(request, m)] }
  | loaded (request m) : l.failed = false → l.waiting[k]? = some request →
      l.ctx.cacheGet request.1 = none → L.load request = .ok m →
      Asked L l k
        ⟨{ l.ctx with moduleCache := l.ctx.moduleCache ++ [(request.1, m)] },
          l.waiting.eraseIdx k ++ (L.importsOf request.1).map fun s => (s, some request.1),
          l.linked ++ [(request, m)], false⟩
  | refused (request e) : l.failed = false → l.waiting[k]? = some request →
      l.ctx.cacheGet request.1 = none → L.load request = .error e →
      Asked L l k
        { l with ctx := recordResolveError l.ctx e, waiting := l.waiting.eraseIdx k, failed := true }

theorem ask_cases (hctx : l.ctx.bindings = L.bindings) (k : Nat) : Asked L l k (L.ask l k) := by
  cases hfailed : l.failed with
  | true =>
    rw [ask, if_pos hfailed]
    exact .idle (.inl hfailed)
  | false =>
    cases hrequest : l.waiting[k]? with
    | none =>
      simp only [ask, hfailed, hrequest]
      exact .idle (.inr (List.getElem?_eq_none_iff.mp hrequest))
    | some request =>
      simp only [ask, hfailed, hrequest, resolve_eq hctx, Bool.false_eq_true, if_false]
      cases hget : l.ctx.cacheGet request.1 with
      | some m =>
        simp only [Option.isSome_some, if_true, hget, List.append_nil]
        have hasked : Asked L l k _ := .known request m hfailed hrequest hget
        rwa [hfailed] at hasked
      | none =>
        cases hload : L.load request with
        | error e =>
          simp only [Option.isSome_none, Bool.false_eq_true, if_false, recordResolveError_cacheGet, hget]
          exact .refused request e hfailed hrequest hget hload
        | ok m =>
          simp only [Option.isSome_none, Bool.false_eq_true, if_false, cacheGet_append hget, if_true]
          exact .loaded request m hfailed hrequest hget hload

end Ask

/-! ### The invariant -/

variable {L} {root : String}

theorem load_ok_iff {specifier : String} {importer : Option String} {m : Module V} :
    L.load (specifier, importer) = .ok m ↔ L.load (specifier, none) = .ok m := by
  unfold load
  cases L.binding specifier with
  | none => exact ⟨nofun, nofun⟩
  | some binding => exact Iff.rfl

/-- What holds of a linker at any time. -/
structure Sound (L : Linkage V) (root : String) (l : Linker V) : Prop where
  bindings : l.ctx.bindings = L.bindings
  cached : ∀ s m, l.ctx.cacheGet s = some m → L.load (s, none) = .ok m ∧ L.Needed root (some s)
  waiting : ∀ s importer, (s, importer) ∈ l.waiting → s ∈ L.requests root importer ∧ l.ctx.Importer importer
  linked : ∀ s importer m, ((s, importer), m) ∈ l.linked →
    s ∈ L.requests root importer ∧ l.ctx.cacheGet s = some m
  /-- No import is forgotten. -/
  all : l.failed = false → ∀ importer, l.ctx.Importer importer → ∀ s ∈ L.requests root importer,
    (s, importer) ∈ l.waiting ∨ ∃ m, ((s, importer), m) ∈ l.linked
  clean : l.failed = false → l.ctx.resolveError = none
  error : l.failed = true → ∃ s importer e, L.Needed root importer ∧ s ∈ L.requests root importer ∧
    L.load (s, importer) = .error e ∧ l.ctx.resolveError = some e

variable {l l' : Linker V}

theorem Sound.needed (h : Sound L root l) {importer : Option String} (hi : l.ctx.Importer importer) :
    L.Needed root importer := by
  cases importer with
  | none => exact .refl
  | some s =>
    obtain ⟨m, hm⟩ := hi
    exact (h.cached s m hm).2

theorem mem_eraseIdx_or {α : Type*} {xs : List α} {k : Nat} {x y : α} (hk : xs[k]? = some x) (hy : y ∈ xs) :
    y = x ∨ y ∈ xs.eraseIdx k := by
  obtain ⟨i, hi⟩ := List.mem_iff_getElem?.mp hy
  by_cases heq : i = k
  · subst heq
    exact .inl (Option.some.inj (hi.symm.trans hk))
  · exact .inr (List.mem_eraseIdx_iff_getElem?.mpr ⟨i, heq, hi⟩)

theorem start_sound : Sound L root (L.start root) where
  bindings := rfl
  cached s m hm := by cases hm
  waiting s importer hmem := by
    obtain ⟨s', hs', heq⟩ := List.mem_map.mp hmem
    cases heq
    exact ⟨hs', trivial⟩
  linked s importer m hmem := absurd hmem List.not_mem_nil
  all _ importer hi s hs := by
    cases importer with
    | none => exact .inl (List.mem_map.mpr ⟨s, hs, rfl⟩)
    | some specifier =>
      obtain ⟨m, hm⟩ := hi
      cases hm
  clean _ := rfl
  error hfailed := by cases hfailed

/-- An import of a module that is in the cache. -/
theorem Sound.known (h : Sound L root l) {k : Nat} {s : String} {importer : Option String} {m : Module V}
    (hfailed : l.failed = false) (hk : l.waiting[k]? = some (s, importer)) (hget : l.ctx.cacheGet s = some m) :
    Sound L root
      { l with waiting := l.waiting.eraseIdx k, linked := l.linked ++ [((s, importer), m)] } := by
  refine { h with waiting := ?_, linked := ?_, all := ?_ }
  · intro s' importer' hmem
    exact h.waiting s' importer' (List.mem_of_mem_eraseIdx hmem)
  · intro s' importer' m' hmem
    obtain hmem | hmem := List.mem_append.mp hmem
    · exact h.linked s' importer' m' hmem
    · cases List.mem_singleton.mp hmem
      exact ⟨(h.waiting s importer (List.mem_of_getElem? hk)).1, hget⟩
  · intro _ importer' hi s' hs'
    obtain hmem | ⟨m', hmem⟩ := h.all hfailed importer' hi s' hs'
    · obtain heq | hmem := mem_eraseIdx_or hk hmem
      · cases heq
        exact .inr ⟨m, List.mem_append_right _ List.mem_cons_self⟩
      · exact .inl hmem
    · exact .inr ⟨m', List.mem_append_left _ hmem⟩

theorem importer_append {ctx : ResolverContext V} {s : String} (hget : ctx.cacheGet s = none) (m : Module V)
    (importer : Option String) :
    ResolverContext.Importer { ctx with moduleCache := ctx.moduleCache ++ [(s, m)] } importer ↔
      importer = some s ∨ ctx.Importer importer := by
  cases importer with
  | none => exact ⟨fun _ => .inr trivial, fun _ => trivial⟩
  | some i =>
    simp only [ResolverContext.Importer, ResolverContext.Cached, cacheGet_append hget, Option.some.injEq]
    by_cases heq : i = s
    · simp [heq]
    · simp [heq]

/-- The module of a specifier that is imported for the first time. -/
theorem Sound.loaded (h : Sound L root l) {k : Nat} {s : String} {importer : Option String} {m : Module V}
    (hfailed : l.failed = false) (hk : l.waiting[k]? = some (s, importer)) (hget : l.ctx.cacheGet s = none)
    (hload : L.load (s, importer) = .ok m) :
    Sound L root
      ⟨{ l.ctx with moduleCache := l.ctx.moduleCache ++ [(s, m)] },
        l.waiting.eraseIdx k ++ (L.importsOf s).map fun s' => (s', some s),
        l.linked ++ [((s, importer), m)], false⟩ := by
  obtain ⟨hreq, hi⟩ := h.waiting s importer (List.mem_of_getElem? hk)
  have hold : ∀ s' m', l.ctx.cacheGet s' = some m' → s' ≠ s := by
    rintro s' m' hm' rfl
    rw [hget] at hm'
    cases hm'
  refine ⟨h.bindings, ?_, ?_, ?_, ?_, fun _ => h.clean hfailed, nofun⟩
  · intro s' m' hm'
    rw [cacheGet_append hget] at hm'
    split at hm'
    · next heq =>
      cases hm'
      subst heq
      exact ⟨load_ok_iff.mp hload, (h.needed hi).tail ⟨s', hreq, rfl⟩⟩
    · exact h.cached s' m' hm'
  · intro s' importer' hmem
    rw [importer_append hget]
    obtain hmem | hmem := List.mem_append.mp hmem
    · obtain ⟨hreq', hi'⟩ := h.waiting s' importer' (List.mem_of_mem_eraseIdx hmem)
      exact ⟨hreq', .inr hi'⟩
    · obtain ⟨s'', hs'', heq⟩ := List.mem_map.mp hmem
      cases heq
      exact ⟨hs'', .inl rfl⟩
  · intro s' importer' m' hmem
    rw [cacheGet_append hget]
    obtain hmem | hmem := List.mem_append.mp hmem
    · obtain ⟨hreq', hm'⟩ := h.linked s' importer' m' hmem
      rw [if_neg (hold s' m' hm')]
      exact ⟨hreq', hm'⟩
    · cases List.mem_singleton.mp hmem
      rw [if_pos rfl]
      exact ⟨hreq, rfl⟩
  · intro _ importer' hi' s' hs'
    obtain rfl | hi' := (importer_append hget m importer').mp hi'
    · exact .inl (List.mem_append_right _ (List.mem_map.mpr ⟨s', hs', rfl⟩))
    · obtain hmem | ⟨m', hmem⟩ := h.all hfailed importer' hi' s' hs'
      · obtain heq | hmem := mem_eraseIdx_or hk hmem
        · cases heq
          exact .inr ⟨m, List.mem_append_right _ List.mem_cons_self⟩
        · exact .inl (List.mem_append_left _ hmem)
      · exact .inr ⟨m', List.mem_append_left _ hmem⟩

theorem importer_recorded (ctx : ResolverContext V) (e : ResolveError) (importer : Option String) :
    (recordResolveError ctx e).Importer importer ↔ ctx.Importer importer := by
  cases importer with
  | none => exact Iff.rfl
  | some i => simp only [ResolverContext.Importer, ResolverContext.Cached, recordResolveError_cacheGet]

/-- The first import that gets no module ends the linking, and its error is the one recorded. -/
theorem Sound.refused (h : Sound L root l) {k : Nat} {s : String} {importer : Option String} {e : ResolveError}
    (hfailed : l.failed = false) (hk : l.waiting[k]? = some (s, importer))
    (hload : L.load (s, importer) = .error e) :
    Sound L root
      { l with ctx := recordResolveError l.ctx e, waiting := l.waiting.eraseIdx k, failed := true } := by
  obtain ⟨hreq, hi⟩ := h.waiting s importer (List.mem_of_getElem? hk)
  have hrecorded : (recordResolveError l.ctx e).resolveError = some e := by
    simp [recordResolveError, h.clean hfailed]
  refine ⟨?_, ?_, ?_, ?_, nofun, nofun, fun _ => ⟨s, importer, e, h.needed hi, hreq, hload, hrecorded⟩⟩
  · rw [recordResolveError_bindings]
    exact h.bindings
  · intro s' m' hm'
    rw [recordResolveError_cacheGet] at hm'
    exact h.cached s' m' hm'
  · intro s' importer' hmem
    rw [importer_recorded]
    exact h.waiting s' importer' (List.mem_of_mem_eraseIdx hmem)
  · intro s' importer' m' hmem
    rw [recordResolveError_cacheGet]
    exact h.linked s' importer' m' hmem

theorem ask_sound (h : Sound L root l) (k : Nat) : Sound L root (L.ask l k) := by
  have hasked := ask_cases h.bindings k
  generalize L.ask l k = l' at hasked
  cases hasked with
  | idle => exact h
  | known request m hfailed hk hget => exact h.known hfailed hk hget
  | loaded request m hfailed hk hget hload => exact h.loaded hfailed hk hget hload
  | refused request e hfailed hk _ hload => exact h.refused hfailed hk hload

theorem run_sound (L : Linkage V) (root : String) (choices : List Nat) :
    Sound L root (exec L.ask (L.start root) choices) :=
  exec_invariant (I := Sound L root) (fun _ k h => ask_sound h k) start_sound choices

/-! ### Every order of the requests -/

/-- What the run reports when linking failed: the recorded error, or else what V8 says. -/
def reported (message : String) (ctx : ResolverContext V) : ResolveError :=
  ctx.resolveError.getD (.import message)

/-- Nothing waits, so every import of what is needed was answered. -/
theorem Sound.frontier (h : Sound L root l) (hfailed : l.failed = false) (hwaiting : l.waiting = [])
    {importer : Option String} (hneeded : L.Needed root importer) : l.ctx.Importer importer := by
  induction hneeded with
  | refl => trivial
  | tail _ hedge hi =>
    obtain ⟨s, hs, rfl⟩ := hedge
    obtain hmem | ⟨m, hmem⟩ := h.all hfailed _ hi s hs
    · rw [hwaiting] at hmem
      cases hmem
    · exact ⟨m, (h.linked s _ m hmem).2⟩

/-- In whatever order V8 asks: each import gets the one module of its specifier, made of the first
binding that has it; when nothing waits, the modules are those the root needs and every import of
theirs has got one; and a failure is reported by an import of a module that is needed. -/
theorem linking_sound (L : Linkage V) (root : String) (choices : List Nat) :
    let l := exec L.ask (L.start root) choices
    (∀ s importer m, ((s, importer), m) ∈ l.linked →
      s ∈ L.requests root importer ∧ l.ctx.cacheGet s = some m ∧ L.load (s, importer) = .ok m) ∧
    (l.failed = false → l.waiting = [] →
      (∀ s, l.ctx.Cached s ↔ L.Needed root (some s)) ∧
      ∀ importer, L.Needed root importer → ∀ s ∈ L.requests root importer, ∃ m, ((s, importer), m) ∈ l.linked) ∧
    (l.failed = true → ∃ s importer, L.Needed root importer ∧ s ∈ L.requests root importer ∧
      ∀ message, L.load (s, importer) = .error (reported message l.ctx)) := by
  intro l
  have h : Sound L root l := run_sound L root choices
  refine ⟨?_, ?_, ?_⟩
  · intro s importer m hmem
    obtain ⟨hreq, hget⟩ := h.linked s importer m hmem
    exact ⟨hreq, hget, load_ok_iff.mpr (h.cached s m hget).1⟩
  · intro hfailed hwaiting
    have hneeded : ∀ s, l.ctx.Cached s → L.Needed root (some s) := fun _ hi => h.needed hi
    refine ⟨fun s => ⟨hneeded s, h.frontier hfailed hwaiting⟩, ?_⟩
    intro importer hneeded s hs
    obtain hmem | hlinked := h.all hfailed importer (h.frontier hfailed hwaiting hneeded) s hs
    · rw [hwaiting] at hmem
      cases hmem
    · exact hlinked
  · intro hfailed
    obtain ⟨s, importer, e, hneeded, hs, hload, hrecorded⟩ := h.error hfailed
    refine ⟨s, importer, hneeded, hs, fun message => ?_⟩
    rw [hload, reported, hrecorded]
    rfl

/-- The specifiers there can be modules for. -/
def names (L : Linkage V) : Finset String :=
  (L.bindings.map ImportBinding.specifier ++ ["node:async_hooks", "iso4:runtime"]).toFinset

/-- The imports of all modules there can be, and of the root. -/
def work (L : Linkage V) (root : String) : Nat :=
  (L.moduleRequests root).length + ∑ s ∈ L.names, (L.importsOf s).length

/-- The imports of modules that were not loaded. -/
def unloaded (L : Linkage V) (ctx : ResolverContext V) : Nat :=
  ∑ s ∈ L.names with ctx.cacheGet s = none, (L.importsOf s).length

/-- The imports that may still come. -/
def left (L : Linkage V) (l : Linker V) : Nat := l.waiting.length + L.unloaded l.ctx

/-- The choice is one V8 has. -/
def Pending (l : Linker V) (k : Nat) : Prop := l.failed = false ∧ k < l.waiting.length

theorem mem_names {s : String} {importer : Option String} {m : Module V}
    (hload : L.load (s, importer) = .ok m) : s ∈ L.names := by
  have hbound : L.binding s ≠ none := by
    intro hnone
    simp only [load, hnone] at hload
    cases hload
  simp only [names, List.mem_toFinset, List.mem_append, List.mem_map, List.mem_cons, List.not_mem_nil, or_false]
  cases hfind : L.bindings.find? (·.specifier = s) with
  | some binding =>
    exact .inl ⟨binding, List.mem_of_find?_eq_some hfind, by simpa using List.find?_some hfind⟩
  | none =>
    right
    by_contra hno
    push Not at hno
    refine hbound ?_
    simp only [binding, lookupBinding, ResolverContext.new, hfind, builtin, builtinModule, if_neg hno.1,
      if_neg hno.2, Option.map_none]

/-- A module is loaded once: its imports are not to come any more. -/
theorem unloaded_append {ctx : ResolverContext V} (hget : ctx.cacheGet request.1 = none) {m : Module V}
    (hload : L.load request = .ok m) :
    L.unloaded { ctx with moduleCache := ctx.moduleCache ++ [(request.1, m)] } +
      (L.importsOf request.1).length = L.unloaded ctx := by
  have hmem : request.1 ∈ L.names.filter fun s => ctx.cacheGet s = none :=
    Finset.mem_filter.mpr ⟨mem_names hload, hget⟩
  have herase : (L.names.filter fun s => ResolverContext.cacheGet
      { ctx with moduleCache := ctx.moduleCache ++ [(request.1, m)] } s = none) =
      (L.names.filter fun s => ctx.cacheGet s = none).erase request.1 := by
    ext s
    simp only [Finset.mem_filter, Finset.mem_erase, cacheGet_append hget]
    by_cases heq : s = request.1
    · simp [heq]
    · simp [heq]
  rw [unloaded, herase]
  exact Finset.sum_erase_add _ _ hmem

theorem ask_left (h : Sound L root l) {k : Nat} (hk : Pending l k) : L.left (L.ask l k) < L.left l := by
  have hasked := ask_cases h.bindings k
  generalize L.ask l k = l' at hasked
  have herase : (l.waiting.eraseIdx k).length + 1 = l.waiting.length := by
    rw [List.length_eraseIdx_of_lt hk.2]
    have := hk.2
    omega
  cases hasked with
  | idle hidle =>
    obtain ⟨hfailed, hlt⟩ := hk
    rw [hfailed] at hidle
    simp only [Bool.false_eq_true, false_or] at hidle
    omega
  | known request m hfailed hk hget =>
    simp only [left]
    omega
  | loaded request m hfailed hk hget hload =>
    have hbrought := unloaded_append hget hload
    simp only [left, List.length_append, List.length_map]
    omega
  | refused request e hfailed hk hget hload =>
    have hsame : L.unloaded (recordResolveError l.ctx e) = L.unloaded l.ctx := by
      simp only [unloaded, recordResolveError_cacheGet]
    simp only [left, hsame]
    omega

/-- V8 has at most as many requests as there are imports, in whatever order it asks; and when it is
done it has failed or not with any order as with any other: it has not if and only if there is a
module for all that the root needs. -/
theorem linking_settles (L : Linkage V) (root : String) (choices : List Nat) :
    let l := exec L.ask (L.start root) choices
    (Along L.ask Pending (L.start root) choices → choices.length ≤ L.work root) ∧
    (l.failed = true ∨ l.waiting = [] →
      (l.failed = false ↔ ∀ s, L.Needed root (some s) → L.Loads s)) := by
  intro l
  have h : Sound L root l := run_sound L root choices
  constructor
  · intro hpending
    have hle := hpending.length_le (I := Sound L root) (f := L.left)
      (fun l k h hk => ⟨ask_sound h k, ask_left h hk⟩) start_sound
    refine hle.trans ?_
    simp only [left, start, work, List.length_map]
    exact Nat.add_le_add_left (Finset.sum_le_sum_of_subset (Finset.filter_subset _ _)) _
  · intro hended
    constructor
    · intro hfailed s hneeded
      have hwaiting : l.waiting = [] := hended.resolve_left (by simp [hfailed])
      obtain ⟨m, hm⟩ := h.frontier hfailed hwaiting hneeded
      exact ⟨m, (h.cached s m hm).1⟩
    · intro hloads
      by_contra hfailed
      obtain ⟨s, importer, e, hneeded, hs, hload, -⟩ := h.error (by simpa using hfailed)
      obtain ⟨m, hm⟩ := hloads s (hneeded.tail ⟨s, hs, rfl⟩)
      rw [load_ok_iff.mpr hm] at hload
      cases hload

end Linkage

end Imports

end Iso4
