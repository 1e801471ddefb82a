/-
A call of an imported function reaches its own handler.

The host lowers a config, the runtime numbers its functions and builds the modules, and
a call of a module's function goes back by the number to specifier and path.  All four
walks list the functions of a tree in one order, `KeyTree.leaves`; the numbers are places
in that list, and the keys of the handlers tell all specifiers and paths apart.

* `lowerNode_spec`, `walk_eq`, `buildHostValue_spec` — the walks, against `KeyTree.leaves`;
* `keyed_injective` — the keys;
* `import_calls` — a call of a leaf reaches the handler of that leaf and no other.
-/
import Iso4.Imports
import Iso4.RuntimeRoundTrip
import Mathlib.Data.List.Induction
import Mathlib.Data.List.Forall2

namespace Iso4

open Wire Ipc Ipc.RuntimeWriter

namespace Imports

/-! ### The keys of the handlers -/

/-- The texts of a key fit their fields. -/
structure Keyed (specifier : String) (path : List String) : Prop where
  specifier_fits : (utf8 specifier).length < 2 ^ 32
  count_fits : path.length < 2 ^ 32
  segment_fits : ∀ s ∈ path, (utf8 s).length < 2 ^ 32

theorem written_append {v w : Written} {bs : Blob} (h : v ++ w = some bs) :
    ∃ as cs, v = some as ∧ w = some cs ∧ bs = as ++ cs := by
  rcases v with _ | as
  · cases h
  rcases w with _ | cs
  · cases h
  exact ⟨as, cs, rfl, rfl, (Option.some.inj h).symm⟩

theorem writeU32_some {n : Nat} {bs : Blob} (h : writeU32 n = some bs) : n < 2 ^ 32 ∧ bs = u32be n := by
  by_cases hlt : n < 2 ^ 32
  · rw [writeU32_fits hlt] at h
    exact ⟨hlt, (Option.some.inj h).symm⟩
  · have hnone : writeU32 n = none := if_neg hlt
    rw [hnone] at h
    cases h

theorem writeString_some {s : String} {bs : Blob} (h : PayloadWriter.writeString s = some bs) :
    (utf8 s).length < 2 ^ 32 ∧ bs = encodeString s := by
  obtain ⟨as, cs, hlen, hbytes, rfl⟩ := written_append h
  obtain ⟨hlt, rfl⟩ := writeU32_some hlen
  cases hbytes
  exact ⟨hlt, rfl⟩

theorem importHandlerKey_ok {specifier : String} {path : List String} {key : Blob}
    (h : importHandlerKey specifier path = .ok key) :
    Keyed specifier path ∧ key = importKey specifier path := by
  unfold importHandlerKey at h
  split at h
  · next k heq =>
    cases h
    obtain ⟨as, rest, hspecifier, hrest, rfl⟩ := written_append heq
    obtain ⟨hs, rfl⟩ := writeString_some hspecifier
    obtain ⟨bs, cs, hcount, hpath, rfl⟩ := written_append hrest
    obtain ⟨hc, rfl⟩ := writeU32_some hcount
    have hsegments : (∀ s ∈ path, (utf8 s).length < 2 ^ 32) ∧ cs = path.flatMap encodeString := by
      clear heq hrest hcount hc hspecifier
      induction path generalizing cs with
      | nil =>
        cases hpath
        exact ⟨fun s hs => absurd hs List.not_mem_nil, rfl⟩
      | cons s path ih =>
        obtain ⟨as, cs', hfirst, hlater, rfl⟩ := written_append hpath
        obtain ⟨hlt, rfl⟩ := writeString_some hfirst
        obtain ⟨hlts, rfl⟩ := ih cs' hlater
        refine ⟨fun t ht => ?_, rfl⟩
        rcases List.mem_cons.mp ht with rfl | ht
        · exact hlt
        · exact hlts t ht
    obtain ⟨hlts, rfl⟩ := hsegments
    exact ⟨⟨hs, hc, hlts⟩, rfl⟩
  · cases h

theorem Keyed.importHandlerKey {specifier : String} {path : List String} (h : Keyed specifier path) :
    importHandlerKey specifier path = .ok (importKey specifier path) := by
  unfold Imports.importHandlerKey
  rw [encodeImportKey_of_fits h.specifier_fits h.count_fits h.segment_fits]

theorem takes_u32 {n : Nat} (h : n < 2 ^ 32) : Takes (u32be n) HostReader.readU32 n :=
  (decodes_u32 _ h).takes (by simp)

theorem takes_readString {s : String} (h : (utf8 s).length < 2 ^ 32) :
    Takes (encodeString s) HostReader.readString s := by
  refine (takes_u32 h).bind ?_
  refine ((decodes_readRawBytes (utf8 s)).takes h).map fun left => ?_
  rw [bufferToString_utf8]
  rfl

theorem takes_skipString {s : String} (h : (utf8 s).length < 2 ^ 32) :
    Takes (encodeString s) HostReader.skipString () := by
  refine (takes_u32 h).bind ?_
  exact ((decodes_readRawBytes (utf8 s)).fmap fun _ => ()).takes h

variable {specifier : String} {path : List String}

theorem Keyed.takes_readImportKey (h : Keyed specifier path) :
    Takes (importKey specifier path) HostReader.readImportKey (importKey specifier path) := by
  have hskip : Takes (importKey specifier path) HostReader.skipImportKey () := by
    refine (takes_skipString h.specifier_fits).bind ?_
    refine (takes_u32 h.count_fits).bind ?_
    have htimes : Takes (path.flatMap encodeString) (Reader.times HostReader.skipString path.length)
        (path.map fun _ => ()) := Takes.times fun s hs => takes_skipString (h.segment_fits s hs)
    exact htimes.map fun _ => rfl
  intro left
  show (HostReader.skipImportKey (importKey specifier path ++ left) >>= _) = _
  rw [hskip]
  simp [Bind.bind, Except.bind]

/-- Keys tell specifiers and paths apart. -/
theorem keyed_injective {specifier' : String} {path' : List String} (h : Keyed specifier path)
    (h' : Keyed specifier' path') (heq : importKey specifier path = importKey specifier' path') :
    specifier = specifier' ∧ path = path' := by
  have hread : ∀ {s p}, Keyed s p → Takes (importKey s p) (do
      let specifier ← HostReader.readString
      let path ← HostReader.readStringList
      pure (specifier, path)) (s, p) := by
    intro s p hk
    refine (takes_readString hk.specifier_fits).bind ?_
    have htimes : Takes (p.flatMap encodeString) (Reader.times HostReader.readString p.length)
        (p.map id) := Takes.times fun t ht => takes_readString (hk.segment_fits t ht)
    rw [List.map_id] at htimes
    exact Takes.map ((takes_u32 hk.count_fits).bind htimes) fun _ => rfl
  have hpair := (hread h).unique (hread h') heq
  cases hpair
  exact ⟨rfl, rfl⟩

/-- Whatever the arguments, the target read from a header is the one written. -/
theorem Keyed.header_target {V : Type} (codec : ValueCodec V) (h : Keyed specifier path)
    {runId callId argsBlobLen : UInt32} {args : Blob} {call : BridgeCallInfo V}
    (hread : decodeBridgeCallPayload codec
      (encodeBridgeCallHeader runId callId (.import specifier path) argsBlobLen ++ args) = .ok call) :
    call.target = .importKey (importKey specifier path) := by
  obtain ⟨rest, hrun⟩ := Reader.run_ok hread
  have hbytes : encodeBridgeCallHeader runId callId (.import specifier path) argsBlobLen ++ args =
      encodeU32 runId ++ (encodeU32 callId ++ ([1] ++ ([1] ++ (importKey specifier path ++
        (encodeU32 argsBlobLen ++ args))))) := by
    simp [encodeBridgeCallHeader, encodeBridgeTarget, importKey]
  have hword : ∀ n : UInt32, Takes (encodeU32 n) HostReader.readU32 n.toNat :=
    fun n => takes_u32 n.toNat_lt
  have hone : Takes [1] HostReader.readU8 (1 : UInt8) := fun _ => rfl
  have htarget : Takes ([1] ++ importKey specifier path) (readTarget 1)
      (.importKey (importKey specifier path)) := by
    refine hone.bind ?_
    exact h.takes_readImportKey.map fun _ => rfl
  rw [hbytes] at hrun
  unfold readBridgeCall at hrun
  rw [(hword runId).then, (hword callId).then, hone.then, if_neg (by decide), ← List.append_assoc,
    htarget.then] at hrun
  obtain ⟨⟨decoded, blobBytes⟩, left, _, hrun⟩ := Reader.bind_ok hrun
  obtain ⟨args', left', _, hrun⟩ := Reader.bind_ok hrun
  cases hrun
  rfl

/-! ### Lowering -/

def Leaf.function? {F : Type} : Leaf F → Option F
  | .function f => some f
  | .undefined => none
  | .data _ _ => none

mutual

/-- The paths of the functions of a wire shape, in the order of the walks. -/
def functionPaths : HostModuleNode → List (List String)
  | .function => [[]]
  | .data _ => []
  | .object entries => entryPaths entries

def entryPaths : List (String × HostModuleNode) → List (List String)
  | [] => []
  | (key, node) :: rest => (functionPaths node).map (key :: ·) ++ entryPaths rest

end

mutual

/-- No object of a wire shape has a key twice. -/
def NodeDistinct : HostModuleNode → Prop
  | .function => True
  | .data _ => True
  | .object entries => (entries.map Prod.fst).Nodup ∧ EntriesDistinct entries

def EntriesDistinct : List (String × HostModuleNode) → Prop
  | [] => True
  | (_, node) :: rest => NodeDistinct node ∧ EntriesDistinct rest

end

section Host

variable {F : Type} {handlers handlers' : HandlerMap F}

/-- The handler map after the functions `ls` below `path` were set. -/
def setLeaves (specifier : String) (path : List String) (handlers : HandlerMap F)
    (ls : List (List String × F)) : HandlerMap F :=
  ls.foldl (fun m l => m.set (importKey specifier (path ++ l.1)) l.2) handlers

/-- The functions of a shape went to the wire and into the map, one after the other. -/
def Lowered (specifier : String) (path : List String) (functions : List (List JsString × F))
    (paths : List (List String)) (handlers handlers' : HandlerMap F) : Prop :=
  ∃ ls : List (List String × F), functions = ls.map (fun l => (hostPath l.1, l.2)) ∧
    paths = ls.map Prod.fst ∧ (∀ l ∈ ls, Keyed specifier (path ++ l.1)) ∧
    handlers' = setLeaves specifier path handlers ls

theorem Lowered.none : Lowered specifier path [] [] handlers handlers :=
  ⟨[], rfl, rfl, fun _ hl => absurd hl List.not_mem_nil, rfl⟩

theorem Lowered.cons {key : String} {functions functions' : List (List JsString × F)}
    {paths paths' : List (List String)} {handlers'' : HandlerMap F}
    (h : Lowered specifier (path ++ [key]) functions paths handlers handlers')
    (h' : Lowered specifier path functions' paths' handlers' handlers'') :
    Lowered specifier path (functions.map (fun l => (.wellFormed key :: l.1, l.2)) ++ functions')
      (paths.map (key :: ·) ++ paths') handlers handlers'' := by
  obtain ⟨ls, rfl, rfl, hkeyed, rfl⟩ := h
  obtain ⟨ls', rfl, rfl, hkeyed', rfl⟩ := h'
  refine ⟨ls.map (fun l => (key :: l.1, l.2)) ++ ls', ?_, ?_, ?_, ?_⟩
  · simp [hostPath, Function.comp_def]
  · simp [Function.comp_def]
  · intro l hl
    rcases List.mem_append.mp hl with hl | hl
    · obtain ⟨l', hl', rfl⟩ := List.mem_map.mp hl
      have hk := hkeyed l' hl'
      rwa [List.append_assoc] at hk
    · exact hkeyed' l hl
  · simp [setLeaves, List.foldl_append, List.foldl_map]

/-- The keys of what was lowered are keys of what was to be lowered. -/
def KeysFrom (entries : List (String × HostModuleNode)) (children : List (JsString × Shape F)) : Prop :=
  List.Sublist (hostPath (entries.map Prod.fst)) (children.map Prod.fst)

theorem KeysFrom.nodup {entries : List (String × HostModuleNode)} {children : List (JsString × Shape F)}
    (h : KeysFrom entries children) (hnodup : (children.map Prod.fst).Nodup) :
    (entries.map Prod.fst).Nodup := (hnodup.sublist h).of_map _

theorem lowerEntries_illFormed {units : List UInt16} {child : Shape F} {rest : List (JsString × Shape F)}
    (h : child ≠ .leaf .undefined) :
    lowerEntries specifier ((.illFormed units, child) :: rest) path handlers =
      .error (.keyNotWellFormed units) :=
  lowerEntries.eq_3 specifier path handlers units child rest h

theorem lowerEntries_wellFormed {key : String} {child : Shape F} {rest : List (JsString × Shape F)}
    (h : child ≠ .leaf .undefined) :
    lowerEntries specifier ((.wellFormed key, child) :: rest) path handlers = (do
      let (node, handlers) ← lowerNode specifier child (path ++ [key]) handlers
      let (entries, handlers) ← lowerEntries specifier rest path handlers
      .ok ((key, node) :: entries, handlers)) :=
  lowerEntries.eq_4 specifier path handlers key child rest h

mutual

theorem lowerNode_spec : (v : Shape F) → (path : List String) → (handlers : HandlerMap F) →
    (node : HostModuleNode) → (handlers' : HandlerMap F) →
    lowerNode specifier v path handlers = .ok (node, handlers') → v.Distinct →
    NodeDistinct node ∧
      Lowered specifier path (v.leaves Leaf.function?) (functionPaths node) handlers handlers'
  | .leaf (.function f), path, handlers, node, handlers', h, _ => by
    rw [lowerNode] at h
    split at h
    · cases h
    · obtain ⟨key, hkey, h⟩ := except_bind h
      cases h
      obtain ⟨hkeyed, rfl⟩ := importHandlerKey_ok hkey
      refine ⟨trivial, [([], f)], rfl, rfl, ?_, ?_⟩
      · intro l hl
        rw [List.mem_singleton.mp hl, List.append_nil]
        exact hkeyed
      · simp [setLeaves]
  | .leaf (.data _ _), path, handlers, node, handlers', h, _ => by
    rw [lowerNode] at h
    split at h
    · cases h
    · cases h
      exact ⟨trivial, .none⟩
  | .leaf .undefined, path, handlers, node, handlers', h, _ => by
    rw [lowerNode] at h
    split at h
    · cases h
    · cases h
      exact ⟨trivial, .none⟩
  | .node children, path, handlers, node, handlers', h, hdistinct => by
    rw [lowerNode] at h
    split at h
    · cases h
    · obtain ⟨⟨entries, handlers₁⟩, hentries, h⟩ := except_bind h
      cases h
      obtain ⟨hdist, hkeys, hlowered⟩ :=
        lowerEntries_spec children path handlers entries handlers' hentries hdistinct.2
      exact ⟨⟨hkeys.nodup hdistinct.1, hdist⟩, hlowered⟩

theorem lowerEntries_spec : (children : List (JsString × Shape F)) → (path : List String) →
    (handlers : HandlerMap F) → (entries : List (String × HostModuleNode)) →
    (handlers' : HandlerMap F) →
    lowerEntries specifier children path handlers = .ok (entries, handlers') →
    KeyTree.ChildrenDistinct children → EntriesDistinct entries ∧ KeysFrom entries children ∧
      Lowered specifier path (KeyTree.childLeaves Leaf.function? children) (entryPaths entries)
        handlers handlers'
  | [], path, handlers, entries, handlers', h, _ => by
    rw [lowerEntries] at h
    cases h
    exact ⟨trivial, List.Sublist.slnil, .none⟩
  | (key, child) :: rest, path, handlers, entries, handlers', h, hdistinct => by
    by_cases hundefined : child = .leaf .undefined
    · subst hundefined
      rw [lowerEntries] at h
      obtain ⟨hdist, hkeys, hlowered⟩ :=
        lowerEntries_spec rest path handlers entries handlers' h hdistinct.2
      exact ⟨hdist, hkeys.cons _, hlowered⟩
    cases key with
    | illFormed units =>
      rw [lowerEntries_illFormed hundefined] at h
      cases h
    | wellFormed key =>
      rw [lowerEntries_wellFormed hundefined] at h
      obtain ⟨⟨node, handlers₁⟩, hnode, h⟩ := except_bind h
      obtain ⟨⟨entries', handlers₂⟩, hentries, h⟩ := except_bind h
      cases h
      obtain ⟨hfirst, hlower⟩ := lowerNode_spec child _ _ _ _ hnode hdistinct.1
      obtain ⟨hdist, hkeys, hlowered⟩ :=
        lowerEntries_spec rest path _ _ _ hentries hdistinct.2
      exact ⟨⟨hfirst, hdist⟩, hkeys.cons_cons _, hlower.cons hlowered⟩

end

theorem lowerExports_spec {isValidExportName : String → Bool} (children : List (JsString × Shape F))
    {handlers handlers' : HandlerMap F} {module : List (String × HostModuleNode)}
    (h : lowerExports isValidExportName specifier children handlers = .ok (module, handlers'))
    (hdistinct : KeyTree.ChildrenDistinct children) :
    EntriesDistinct module ∧ KeysFrom module children ∧
      Lowered specifier [] (KeyTree.childLeaves Leaf.function? children) (entryPaths module)
        handlers handlers' := by
  induction children generalizing handlers module with
  | nil =>
    rw [lowerExports] at h
    cases h
    exact ⟨trivial, List.Sublist.slnil, .none⟩
  | cons c rest ih =>
    obtain ⟨key, child⟩ := c
    by_cases hundefined : child = .leaf .undefined
    · subst hundefined
      rw [lowerExports] at h
      obtain ⟨hdist, hkeys, hlowered⟩ := ih h hdistinct.2
      exact ⟨hdist, hkeys.cons _, hlowered⟩
    cases key with
    | illFormed units =>
      rw [lowerExports.eq_3 _ _ _ _ _ _ hundefined] at h
      cases h
    | wellFormed name =>
      rw [lowerExports.eq_4 _ _ _ _ _ _ hundefined] at h
      split at h
      · obtain ⟨⟨node, handlers₁⟩, hnode, h⟩ := except_bind h
        obtain ⟨⟨module', handlers₂⟩, hrest, h⟩ := except_bind h
        cases h
        obtain ⟨hfirst, hlower⟩ := lowerNode_spec child _ _ _ _ hnode hdistinct.1
        obtain ⟨hdist, hkeys, hlowered⟩ := ih hrest hdistinct.2
        have hone : Lowered specifier ([] ++ [name]) _ _ _ _ := hlower
        exact ⟨⟨hfirst, hdist⟩, hkeys.cons_cons _, hone.cons hlowered⟩
      · cases h

/-! ### The handler map -/

theorem HandlerMap.get_set_self (m : HandlerMap F) (key : Blob) (f : F) :
    (m.set key f).get key = some f := by
  have hnone : (m.filter (·.1 ≠ key)).find? (·.1 = key) = none := by
    rw [List.find?_eq_none]
    intro l hl
    simpa using (List.mem_filter.mp hl).2
  unfold HandlerMap.get HandlerMap.set
  rw [List.find?_append, hnone]
  simp

theorem HandlerMap.get_set_of_ne (m : HandlerMap F) {key key' : Blob} (f : F) (hne : key' ≠ key) :
    (m.set key f).get key' = m.get key' := by
  unfold HandlerMap.get HandlerMap.set
  rw [List.find?_append, List.find?_filter]
  have hsame : (m.find? fun l => decide (decide (l.1 ≠ key) = true ∧ decide (l.1 = key') = true)) =
      m.find? (·.1 = key') := by
    congr 1
    funext l
    by_cases hl : l.1 = key'
    · simp [hl, hne]
    · simp [hl]
  rw [hsame]
  simp [Ne.symm hne]

/-- A function of the config: its specifier and path, and itself. -/
abbrev Placed (F : Type) := (String × List String) × F

def setPlaced (handlers : HandlerMap F) (all : List (Placed F)) : HandlerMap F :=
  all.foldl (fun m l => m.set (importKey l.1.1 l.1.2) l.2) handlers

/-- The functions that share a key are one function: it is the handler. -/
theorem get_setPlaced {all : List (Placed F)} {key : Blob} {f : F}
    (hmem : ∃ l ∈ all, importKey l.1.1 l.1.2 = key)
    (hone : ∀ l ∈ all, importKey l.1.1 l.1.2 = key → l.2 = f) :
    (setPlaced handlers all).get key = some f := by
  induction all using List.reverseRecOn with
  | nil =>
    obtain ⟨l, hl, _⟩ := hmem
    exact absurd hl List.not_mem_nil
  | append_singleton all l ih =>
    unfold setPlaced
    rw [List.foldl_append]
    show ((setPlaced handlers all).set (importKey l.1.1 l.1.2) l.2).get key = some f
    by_cases hkey : importKey l.1.1 l.1.2 = key
    · rw [hkey, HandlerMap.get_set_self, hone l (by simp) hkey]
    · rw [HandlerMap.get_set_of_ne _ _ (Ne.symm hkey)]
      obtain ⟨l', hl', heq⟩ := hmem
      have hl'' : l' ∈ all := by
        rcases List.mem_append.mp hl' with hl' | hl'
        · exact hl'
        · rw [List.mem_singleton.mp hl'] at heq
          exact absurd heq hkey
      exact ih ⟨l', hl'', heq⟩ fun l hl => hone l (List.mem_append_left _ hl)

/-! ### The bindings -/

/-- The binding an entry becomes. -/
inductive Binds : JsString × ModuleConfig F → ImportBinding → Prop where
  | source (specifier text : String) :
    Binds (.wellFormed specifier, .source text) ⟨specifier, .source text⟩
  | host {specifier : String} {children : List (JsString × Shape F)}
    {module : List (String × HostModuleNode)}
    (paths : ∃ ls : List (List String × F),
      KeyTree.childLeaves Leaf.function? children = ls.map (fun l => (hostPath l.1, l.2)) ∧
        entryPaths module = ls.map Prod.fst)
    (keys : (module.map Prod.fst).Nodup) (distinct : EntriesDistinct module) :
    Binds (.wellFormed specifier, .value (.node children)) ⟨specifier, .host module⟩

/-- The functions of an entry. -/
def placed (entry : JsString × ModuleConfig F) (l : Placed F) : Prop :=
  ∃ children, entry = (.wellFormed l.1.1, .value (.node children)) ∧
    (hostPath l.1.2, l.2) ∈ KeyTree.childLeaves Leaf.function? children

theorem hostPath_injective {p q : List String} (h : hostPath p = hostPath q) : p = q :=
  List.map_injective_iff.mpr (fun _ _ heq => JsString.wellFormed.inj heq) h

theorem processEntries_spec {isValidExportName : String → Bool}
    {entries : List (JsString × ModuleConfig F)} {handlers : HandlerMap F}
    {processed : ProcessedImports F}
    (h : processEntries isValidExportName entries handlers = .ok processed)
    (hdistinct : ∀ e ∈ entries, e.2.Distinct) :
    List.Forall₂ Binds entries processed.bindings ∧
      ∃ all : List (Placed F), (∀ l ∈ all, Keyed l.1.1 l.1.2) ∧
        (∀ l, l ∈ all ↔ ∃ e ∈ entries, placed e l) ∧ processed.handlers = setPlaced handlers all := by
  induction entries generalizing handlers processed with
  | nil =>
    rw [processEntries] at h
    cases h
    refine ⟨.nil, [], fun l hl => absurd hl List.not_mem_nil, ?_, rfl⟩
    intro l
    simp
  | cons e rest ih =>
    have hrestd : ∀ e ∈ rest, e.2.Distinct := fun e he => hdistinct e (List.mem_cons_of_mem _ he)
    obtain ⟨key, config⟩ := e
    cases key with
    | illFormed units =>
      rw [processEntries] at h
      cases h
    | wellFormed specifier =>
      cases config with
      | source text =>
        rw [processEntries] at h
        obtain ⟨later, hlater, h⟩ := except_bind h
        cases h
        obtain ⟨hbinds, all, hkeyed, hall, heq⟩ := ih hlater hrestd
        refine ⟨.cons (.source _ _) hbinds, all, hkeyed, ?_, heq⟩
        intro l
        rw [hall l]
        constructor
        · rintro ⟨e, he, hplaced⟩
          exact ⟨e, List.mem_cons_of_mem _ he, hplaced⟩
        · rintro ⟨e, he, hplaced⟩
          rcases List.mem_cons.mp he with rfl | he
          · obtain ⟨children, hentry, _⟩ := hplaced
            cases hentry
          · exact ⟨e, he, hplaced⟩
      | value shape =>
        cases shape with
        | leaf l =>
          rw [processEntries] at h
          cases h
        | node children =>
          rw [processEntries] at h
          obtain ⟨⟨module, handlers₁⟩, hmodule, h⟩ := except_bind h
          obtain ⟨later, hlater, h⟩ := except_bind h
          cases h
          have hshape : (KeyTree.node children).Distinct := hdistinct _ List.mem_cons_self
          obtain ⟨hdist, hkeys, ls, hleaves, hpaths, hlskeyed, hset⟩ :=
            lowerExports_spec children hmodule hshape.2
          obtain ⟨hbinds, all, hkeyed, hall, heq⟩ := ih hlater hrestd
          refine ⟨.cons (.host ⟨ls, hleaves, hpaths⟩ (hkeys.nodup hshape.1) hdist) hbinds,
            ls.map (fun l => ((specifier, l.1), l.2)) ++ all, ?_, ?_, ?_⟩
          · intro l hl
            rcases List.mem_append.mp hl with hl | hl
            · obtain ⟨l', hl', rfl⟩ := List.mem_map.mp hl
              exact hlskeyed l' hl'
            · exact hkeyed l hl
          · intro l
            rw [List.mem_append, hall l]
            constructor
            · rintro (hl | ⟨e, he, hplaced⟩)
              · obtain ⟨l', hl', rfl⟩ := List.mem_map.mp hl
                refine ⟨_, List.mem_cons_self, children, rfl, ?_⟩
                rw [hleaves]
                exact List.mem_map_of_mem hl'
              · exact ⟨e, List.mem_cons_of_mem _ he, hplaced⟩
            · rintro ⟨e, he, hplaced⟩
              rcases List.mem_cons.mp he with rfl | he
              · obtain ⟨⟨specifier', path⟩, f⟩ := l
                obtain ⟨children', hentry, hmem⟩ := hplaced
                cases hentry
                rw [hleaves] at hmem
                obtain ⟨⟨p, f'⟩, hl', heq'⟩ := List.mem_map.mp hmem
                obtain ⟨hpath, hf⟩ := Prod.mk.inj heq'
                dsimp only at hpath hf
                cases hostPath_injective hpath
                cases hf
                exact Or.inl (List.mem_map.mpr ⟨_, hl', rfl⟩)
              · exact Or.inr ⟨e, he, hplaced⟩
          · rw [heq, hset]
            unfold setPlaced setLeaves
            rw [List.foldl_append, List.foldl_map]
            rfl

end Host

/-! ### The handle table -/

def entryAt (specifier : String) (path : List String) : ImportHandleEntry :=
  ⟨specifier, path, recordName specifier path⟩

mutual

theorem walk_eq (specifier : String) : (entries : List (String × HostModuleNode)) → (path : List String) →
    (out : List ImportHandleEntry) → walk specifier entries path out =
      out ++ (entryPaths entries).map fun p => entryAt specifier (path ++ p)
  | [], path, out => by simp [walk, entryPaths]
  | (key, node) :: rest, path, out => by
    rw [walk, walkNode_eq specifier node, walk_eq specifier rest, entryPaths]
    simp [Function.comp_def]

theorem walkNode_eq (specifier : String) : (node : HostModuleNode) → (path : List String) →
    (out : List ImportHandleEntry) → walkNode specifier node path out =
      out ++ (functionPaths node).map fun p => entryAt specifier (path ++ p)
  | .function, path, out => by simp [walkNode, functionPaths, entryAt]
  | .data _, path, out => by simp [walkNode, functionPaths]
  | .object entries, path, out => by
    rw [walkNode, walk_eq specifier entries, functionPaths]

end

mutual

theorem countFunctionLeaves_eq : (entries : List (String × HostModuleNode)) →
    countFunctionLeaves entries = (entryPaths entries).length
  | [] => rfl
  | (key, node) :: rest => by
    rw [countFunctionLeaves, countNodeLeaves_eq node, countFunctionLeaves_eq rest, entryPaths,
      List.length_append, List.length_map]

theorem countNodeLeaves_eq : (node : HostModuleNode) →
    countNodeLeaves node = (functionPaths node).length
  | .function => rfl
  | .data _ => rfl
  | .object entries => by rw [countNodeLeaves, countFunctionLeaves_eq entries, functionPaths]

end

/-- The part of the table that belongs to a binding. -/
def bindingHandles (binding : ImportBinding) : List ImportHandleEntry :=
  match binding.module with
  | .host exports => (entryPaths exports).map (entryAt binding.specifier)
  | .source _ => []

theorem foldl_eq_append {α β : Type} {f : List β → α → List β} {g : α → List β}
    (h : ∀ out a, f out a = out ++ g a) (as : List α) (out : List β) :
    as.foldl f out = out ++ as.flatMap g := by
  induction as generalizing out with
  | nil => simp
  | cons a as ih => rw [List.foldl_cons, h, ih, List.flatMap_cons, List.append_assoc]

theorem collectImportHandles_eq (imports : List ImportBinding) :
    collectImportHandles imports = imports.flatMap bindingHandles := by
  unfold collectImportHandles
  refine foldl_eq_append (fun out binding => ?_) imports []
  obtain ⟨specifier, module⟩ := binding
  cases module with
  | source text => exact (List.append_nil out).symm
  | host exports => exact walk_eq specifier exports [] out

theorem moduleLeaves_eq (binding : ImportBinding) :
    moduleLeaves binding.module = (bindingHandles binding).length := by
  obtain ⟨specifier, module⟩ := binding
  cases module with
  | source text => rfl
  | host exports => simp [moduleLeaves, bindingHandles, countFunctionLeaves_eq]

/-- The numbers that start at the base of a specifier are the places of its functions. -/
theorem handle_at {imports : List ImportBinding} (hnodup : (imports.map ImportBinding.specifier).Nodup)
    {specifier : String} {exports : List (String × HostModuleNode)}
    (hmem : ⟨specifier, .host exports⟩ ∈ imports) {i : Nat} {path : List String}
    (hpath : (entryPaths exports)[i]? = some path) :
    (collectImportHandles imports)[hostModuleBaseId imports specifier + i]? =
      some (entryAt specifier path) := by
  rw [collectImportHandles_eq]
  induction imports with
  | nil => exact absurd hmem List.not_mem_nil
  | cons binding rest ih =>
    obtain ⟨hnot, hrest⟩ := List.nodup_cons.mp hnodup
    rw [List.flatMap_cons, hostModuleBaseId]
    rcases List.mem_cons.mp hmem with heq | hmem
    · subst heq
      have hlt : i < ((entryPaths exports).map (entryAt specifier)).length := by
        rw [List.length_map]
        exact (List.getElem?_eq_some_iff.mp hpath).1
      rw [if_pos rfl, Nat.zero_add, bindingHandles, List.getElem?_append_left hlt, List.getElem?_map,
        hpath]
      rfl
    · have hne : binding.specifier ≠ specifier := by
        intro heq
        refine hnot ?_
        rw [heq]
        exact List.mem_map.mpr ⟨_, hmem, rfl⟩
      rw [if_neg hne, moduleLeaves_eq, Nat.add_assoc,
        List.getElem?_append_right (Nat.le_add_right _ _), Nat.add_sub_cancel_left]
      exact ih hrest hmem

/-! ### The modules -/

section Runtime

variable {V : Type} {engine : Engine V}

def GuestLeaf.handle? : GuestLeaf V → Option Nat
  | .trampoline id => some id
  | .data _ => none

theorem zipIdx_keyed (key : String) (paths : List (List String)) (n : Nat) :
    (paths.map (key :: ·)).zipIdx n = (paths.zipIdx n).map fun l => (key :: l.1, l.2) := by
  rw [List.zipIdx_map]
  rfl

theorem createDataProperty_fresh {object : List (String × GuestValue V)} {key : String}
    (v : GuestValue V) (h : key ∉ object.map Prod.fst) :
    createDataProperty object key v = object ++ [(key, v)] := by
  have hall : ∀ l ∈ object, decide (l.1 ≠ key) = true := by
    intro l hl
    refine decide_eq_true fun heq => h ?_
    rw [← heq]
    exact List.mem_map_of_mem hl
  rw [createDataProperty, List.filter_eq_self.mpr hall]

/-- A built value holds its trampolines at the paths of its functions, numbered from `nextId`. -/
structure Numbered (values : List (String × GuestValue V)) (entries : List (String × HostModuleNode))
    (nextId : Nat) : Prop where
  keys : values.map Prod.fst = entries.map Prod.fst
  distinct : KeyTree.ChildrenDistinct values
  handles : KeyTree.childLeaves GuestLeaf.handle? values = (entryPaths entries).zipIdx nextId

theorem Numbered.cons {key : String} {node : HostModuleNode} {v : GuestValue V}
    {values : List (String × GuestValue V)} {entries : List (String × HostModuleNode)} {nextId : Nat}
    (hdistinct : v.Distinct)
    (hhandles : v.leaves GuestLeaf.handle? = (functionPaths node).zipIdx nextId)
    (h : Numbered values entries (nextId + (functionPaths node).length)) :
    Numbered ((key, v) :: values) ((key, node) :: entries) nextId where
  keys := congrArg (key :: ·) h.keys
  distinct := ⟨hdistinct, h.distinct⟩
  handles := by
    rw [KeyTree.childLeaves, hhandles, h.handles, entryPaths, List.zipIdx_append, zipIdx_keyed,
      List.length_map, Nat.add_comm]

mutual

theorem buildHostValue_spec (specifier : String) : (node : HostModuleNode) → (nextId : Nat) →
    (v : GuestValue V) → (nextId' : Nat) →
    buildHostValue engine specifier node nextId = .ok (v, nextId') → NodeDistinct node →
    v.Distinct ∧ v.leaves GuestLeaf.handle? = (functionPaths node).zipIdx nextId ∧
      nextId' = nextId + (functionPaths node).length
  | .function, nextId, v, nextId', h, _ => by
    rw [buildHostValue] at h
    split at h
    · cases h
      exact ⟨trivial, rfl, rfl⟩
    · cases h
  | .data blob, nextId, v, nextId', h, _ => by
    rw [buildHostValue] at h
    split at h
    · cases h
      exact ⟨trivial, rfl, rfl⟩
    · cases h
  | .object entries, nextId, v, nextId', h, hdistinct => by
    rw [buildHostValue] at h
    obtain ⟨⟨object, nextId₁⟩, hentries, h⟩ := except_bind h
    cases h
    obtain ⟨values, rfl, hnumbered, hnext⟩ :=
      buildEntries_spec specifier entries [] nextId object nextId' hentries hdistinct.2 hdistinct.1
    refine ⟨⟨?_, hnumbered.distinct⟩, hnumbered.handles, hnext⟩
    rw [hnumbered.keys]
    exact hdistinct.1

theorem buildEntries_spec (specifier : String) : (entries : List (String × HostModuleNode)) →
    (object : List (String × GuestValue V)) → (nextId : Nat) →
    (object' : List (String × GuestValue V)) → (nextId' : Nat) →
    buildEntries engine specifier entries object nextId = .ok (object', nextId') →
    EntriesDistinct entries → (object.map Prod.fst ++ entries.map Prod.fst).Nodup →
    ∃ values, object' = object ++ values ∧ Numbered values entries nextId ∧
      nextId' = nextId + (entryPaths entries).length
  | [], object, nextId, object', nextId', h, _, _ => by
    rw [buildEntries] at h
    cases h
    exact ⟨[], (List.append_nil _).symm, ⟨rfl, trivial, rfl⟩, rfl⟩
  | (key, child) :: rest, object, nextId, object', nextId', h, hdistinct, hnodup => by
    rw [buildEntries] at h
    obtain ⟨⟨v, nextId₁⟩, hv, h⟩ := except_bind h
    dsimp only at h
    split at h
    · obtain ⟨hvd, hvh, rfl⟩ := buildHostValue_spec specifier child nextId v nextId₁ hv hdistinct.1
      have hsplit : (object.map Prod.fst ++ [key] ++ rest.map Prod.fst).Nodup := by
        rw [List.append_assoc]
        exact hnodup
      have hfresh : key ∉ object.map Prod.fst := by
        intro hmem
        have hpre := (List.nodup_append.mp hsplit).1
        exact (List.nodup_append.mp hpre).2.2 key hmem key (List.mem_singleton.mpr rfl) rfl
      rw [createDataProperty_fresh v hfresh] at h
      obtain ⟨values, rfl, hnumbered, rfl⟩ :=
        buildEntries_spec specifier rest _ _ object' nextId' h hdistinct.2 (by
          rw [List.map_append]
          exact hsplit)
      refine ⟨(key, v) :: values, by simp, hnumbered.cons hvd hvh, ?_⟩
      rw [entryPaths, List.length_append, List.length_map, Nat.add_assoc]
    · cases h

end

theorem buildExports_spec (specifier : String) (entries : List (String × HostModuleNode)) {nextId : Nat}
    {values : List (String × GuestValue V)} (h : buildExports engine specifier entries nextId = .ok values)
    (hdistinct : EntriesDistinct entries) : Numbered values entries nextId := by
  induction entries generalizing nextId values with
  | nil =>
    rw [buildExports] at h
    cases h
    exact ⟨rfl, trivial, rfl⟩
  | cons e rest ih =>
    obtain ⟨name, node⟩ := e
    rw [buildExports] at h
    obtain ⟨⟨v, nextId₁⟩, hv, h⟩ := except_bind h
    obtain ⟨values', hvalues, h⟩ := except_bind h
    cases h
    obtain ⟨hvd, hvh, rfl⟩ := buildHostValue_spec specifier node nextId v nextId₁ hv hdistinct.1
    exact (ih hvalues hdistinct.2).cons hvd hvh

theorem Numbered.nodup {values : List (String × GuestValue V)}
    {entries : List (String × HostModuleNode)} {nextId : Nat} (h : Numbered values entries nextId)
    (hnodup : (entries.map Prod.fst).Nodup) : (KeyTree.node values).Distinct := by
  refine ⟨?_, h.distinct⟩
  rw [h.keys]
  exact hnodup

/-- The trampoline at a path is the one of the function at that path. -/
theorem Numbered.follow_iff {values : List (String × GuestValue V)}
    {entries : List (String × HostModuleNode)} {nextId id : Nat} {path : List String}
    (h : Numbered values entries nextId) (hnodup : (entries.map Prod.fst).Nodup) :
    KeyTree.follow path (.node values) = some (.trampoline id) ↔
      ∃ i, (entryPaths entries)[i]? = some path ∧ id = nextId + i := by
  have hleaves : (path, id) ∈ KeyTree.leaves GuestLeaf.handle? (KeyTree.node values) ↔
      KeyTree.follow path (.node values) = some (.trampoline id) := by
    rw [KeyTree.mem_leaves_iff (h.nodup hnodup)]
    constructor
    · rintro ⟨a, hfollow, ha⟩
      cases a with
      | trampoline id' =>
        cases ha
        exact hfollow
      | data v => cases ha
    · exact fun hfollow => ⟨_, hfollow, rfl⟩
  rw [← hleaves, KeyTree.leaves, h.handles, List.mk_mem_zipIdx_iff_le_and_getElem?_sub]
  constructor
  · rintro ⟨hle, hget⟩
    exact ⟨id - nextId, hget, by omega⟩
  · rintro ⟨i, hget, rfl⟩
    exact ⟨Nat.le_add_right _ _, by rwa [Nat.add_sub_cancel_left]⟩

variable {isValidExportIdentifier : String → Bool} {builtin : String → Option String}

/-- A module in the cache was built from the binding of its specifier. -/
def CacheBuilt (engine : Engine V) (isValidExportIdentifier : String → Bool)
    (builtin : String → Option String) (bindings : List ImportBinding) (ctx : ResolverContext V) : Prop :=
  ctx.bindings = bindings ∧ ∀ specifier m, (specifier, m) ∈ ctx.moduleCache →
    ∃ binding, lookupBinding builtin (.new bindings : ResolverContext V) specifier = some binding ∧
      buildModule engine isValidExportIdentifier bindings specifier binding.module = .ok m

theorem recordResolveError_cacheBuilt {bindings : List ImportBinding} {ctx : ResolverContext V}
    (h : CacheBuilt engine isValidExportIdentifier builtin bindings ctx) (e : ResolveError) :
    CacheBuilt engine isValidExportIdentifier builtin bindings (recordResolveError ctx e) := by
  unfold recordResolveError
  split
  · exact h
  · exact h

theorem resolve_cacheBuilt {bindings : List ImportBinding} {ctx : ResolverContext V}
    (request : String × Option String)
    (h : CacheBuilt engine isValidExportIdentifier builtin bindings ctx) :
    CacheBuilt engine isValidExportIdentifier builtin bindings
      (resolve engine isValidExportIdentifier builtin ctx request) := by
  obtain ⟨rfl, hcache⟩ := h
  unfold resolve
  split
  · exact ⟨rfl, hcache⟩
  · split
    · exact recordResolveError_cacheBuilt ⟨rfl, hcache⟩ _
    · next binding hlookup =>
      split
      · next m hbuild =>
        refine ⟨rfl, fun specifier m' hmem => ?_⟩
        rcases List.mem_append.mp hmem with hmem | hmem
        · exact hcache specifier m' hmem
        · cases List.mem_singleton.mp hmem
          exact ⟨binding, hlookup, hbuild⟩
      · exact recordResolveError_cacheBuilt ⟨rfl, hcache⟩ _

theorem resolved_cacheBuilt (bindings : List ImportBinding) (requests : List (String × Option String)) :
    CacheBuilt engine isValidExportIdentifier builtin bindings
      (resolved engine isValidExportIdentifier builtin bindings requests) :=
  Execution.exec_invariant (I := CacheBuilt engine isValidExportIdentifier builtin bindings)
    (fun _ request h => resolve_cacheBuilt request h)
    ⟨rfl, fun _ _ hmem => absurd hmem List.not_mem_nil⟩ requests

theorem cacheGet_mem {ctx : ResolverContext V} {specifier : String} {m : Module V}
    (h : ctx.cacheGet specifier = some m) : (specifier, m) ∈ ctx.moduleCache := by
  obtain ⟨⟨s, m'⟩, hfind, heq⟩ := Option.map_eq_some_iff.mp h
  have hkey : s = specifier := by simpa using List.find?_some hfind
  subst heq
  rw [← hkey]
  exact List.mem_of_find?_eq_some hfind

theorem lookupBinding_mem {bindings : List ImportBinding}
    (hnodup : (bindings.map ImportBinding.specifier).Nodup) {binding : ImportBinding}
    (hmem : binding ∈ bindings) :
    lookupBinding builtin (.new bindings : ResolverContext V) binding.specifier = some binding := by
  have hfind : bindings.find? (·.specifier = binding.specifier) = some binding := by
    induction bindings with
    | nil => exact absurd hmem List.not_mem_nil
    | cons b rest ih =>
      obtain ⟨hnot, hrest⟩ := List.nodup_cons.mp hnodup
      rcases List.mem_cons.mp hmem with rfl | hmem
      · simp
      · have hne : b.specifier ≠ binding.specifier := by
          intro heq
          refine hnot ?_
          rw [heq]
          exact List.mem_map_of_mem hmem
        rw [List.find?_cons_of_neg (by simpa using hne)]
        exact ih hrest hmem
  unfold lookupBinding
  dsimp only [ResolverContext.new]
  rw [hfind]

/-- A host module that was resolved, in whatever order, is numbered from its base. -/
theorem resolved_host {bindings : List ImportBinding}
    (hnodup : (bindings.map ImportBinding.specifier).Nodup) {requests : List (String × Option String)}
    {specifier : String} {exports : List (String × HostModuleNode)}
    (hmem : ⟨specifier, .host exports⟩ ∈ bindings) (hdistinct : EntriesDistinct exports) {m : Module V}
    (h : (resolved engine isValidExportIdentifier builtin bindings requests).cacheGet specifier = some m) :
    ∃ values, m = .host values ∧ Numbered values exports (hostModuleBaseId bindings specifier) := by
  obtain ⟨binding, hlookup, hbuild⟩ := (resolved_cacheBuilt bindings requests).2 _ _ (cacheGet_mem h)
  rw [lookupBinding_mem hnodup hmem] at hlookup
  cases hlookup
  change buildHostModule engine isValidExportIdentifier bindings specifier exports = .ok m at hbuild
  unfold buildHostModule at hbuild
  split at hbuild
  · cases hbuild
  · obtain ⟨values, hvalues, hcompile⟩ := except_bind hbuild
    unfold compileSourceModule at hcompile
    split at hcompile
    · cases hcompile
      exact ⟨values, rfl, buildExports_spec specifier exports hvalues hdistinct⟩
    · cases hcompile

end Runtime

/-! ### The numbers fit -/

mutual

theorem node_paths_le : (node : HostModuleNode) → (bs : Blob) →
    PayloadWriter.writeHostModuleNode node = some bs → (functionPaths node).length ≤ bs.length
  | .function, bs, h => by
    cases h
    exact Nat.le_refl 1
  | .data _, bs, _ => Nat.zero_le _
  | .object entries, bs, h => by
    obtain ⟨kind, rest, _, hrest, rfl⟩ := written_append h
    obtain ⟨count, cs, _, hentries, rfl⟩ := written_append hrest
    have hle := entry_paths_le entries cs hentries
    rw [functionPaths, List.length_append, List.length_append]
    omega

theorem entry_paths_le : (entries : List (String × HostModuleNode)) → (bs : Blob) →
    PayloadWriter.writeEntries entries = some bs → (entryPaths entries).length ≤ bs.length
  | [], bs, _ => Nat.zero_le _
  | (key, child) :: rest, bs, h => by
    obtain ⟨as, cs, hfirst, hrest, rfl⟩ := written_append h
    obtain ⟨ks, ns, _, hnode, rfl⟩ := written_append hfirst
    have hchild := node_paths_le child ns hnode
    have hlater := entry_paths_le rest cs hrest
    rw [entryPaths, List.length_append, List.length_append, List.length_append, List.length_map]
    omega

end

/-- A payload has no fewer bytes than its imports have functions. -/
theorem handles_le {imports : List ImportBinding} {bs : Blob}
    (h : PayloadWriter.writeImports imports = some bs) :
    (collectImportHandles imports).length ≤ bs.length := by
  obtain ⟨count, rest, -, hrest, rfl⟩ := written_append h
  suffices hle : (collectImportHandles imports).length ≤ rest.length by
    rw [List.length_append]
    omega
  rw [collectImportHandles_eq]
  clear h
  induction imports generalizing rest with
  | nil => exact Nat.zero_le _
  | cons binding imports ih =>
    obtain ⟨as, cs, hfirst, hlater, rfl⟩ := written_append hrest
    have hcs := ih cs hlater
    obtain ⟨ss, ms, _, hmodule, rfl⟩ := written_append hfirst
    have hbinding : (bindingHandles binding).length ≤ ms.length := by
      obtain ⟨specifier, module⟩ := binding
      cases module with
      | source text => exact Nat.zero_le _
      | host exports =>
        obtain ⟨kind, es, _, hexports, rfl⟩ := written_append hmodule
        obtain ⟨n, es', _, hentries, rfl⟩ := written_append hexports
        have hle := entry_paths_le exports es' hentries
        rw [bindingHandles, List.length_map, List.length_append, List.length_append]
        omega
    rw [List.flatMap_cons, List.length_append, List.length_append, List.length_append]
    omega

/-! ### Calls -/

section Calls

variable {F V : Type} {isValidExportName : String → Bool} {c : Config F} {processed : ProcessedImports F}

/-- What `processImports` made of a config it accepted. -/
structure Accepted (c : Config F) (processed : ProcessedImports F) : Prop where
  binds : List.Forall₂ Binds c.entries processed.bindings
  leaves : ∃ all : List (Placed F), (∀ l ∈ all, Keyed l.1.1 l.1.2) ∧
    (∀ l, l ∈ all ↔ c.LeafAt l.1.1 l.1.2 l.2) ∧ processed.handlers = setPlaced [] all

theorem Forall₂.left_mem {α β : Type} {R : α → β → Prop} {as : List α} {bs : List β}
    (h : List.Forall₂ R as bs) {a : α} (ha : a ∈ as) : ∃ b ∈ bs, R a b := by
  induction h with
  | nil => exact absurd ha List.not_mem_nil
  | cons hr _ ih =>
    rcases List.mem_cons.mp ha with rfl | ha
    · exact ⟨_, List.mem_cons_self, hr⟩
    · obtain ⟨b, hb, hrel⟩ := ih ha
      exact ⟨b, List.mem_cons_of_mem _ hb, hrel⟩

theorem Binds.specifier_eq {e : JsString × ModuleConfig F} {b : ImportBinding} (h : Binds e b) :
    e.1 = .wellFormed b.specifier := by
  cases h with
  | source => rfl
  | host => rfl

/-- The leaves of a shape that was lowered are its functions. -/
theorem placed_iff {children : List (JsString × Shape F)} (h : (KeyTree.node children).Distinct)
    {path : List String} {f : F} :
    (hostPath path, f) ∈ KeyTree.childLeaves Leaf.function? children ↔
      KeyTree.follow (hostPath path) (.node children) = some (.function f) := by
  have hleaves := KeyTree.mem_leaves_iff (g := Leaf.function?) h (p := hostPath path) (b := f)
  rw [KeyTree.leaves] at hleaves
  rw [hleaves]
  constructor
  · rintro ⟨a, hfollow, ha⟩
    cases a with
    | function f' =>
      cases ha
      exact hfollow
    | undefined => cases ha
    | data _ _ => cases ha
  · exact fun hfollow => ⟨_, hfollow, rfl⟩

theorem processImports_accepted (h : processImports isValidExportName c = .ok processed) :
    Accepted c processed := by
  obtain ⟨hbinds, all, hkeyed, hall, hset⟩ := processEntries_spec h c.keys_distinct
  refine ⟨hbinds, all, hkeyed, fun l => ?_, hset⟩
  rw [hall l]
  constructor
  · rintro ⟨e, he, children, rfl, hmem⟩
    exact ⟨.node children, he, (placed_iff (c.keys_distinct _ he)).mp hmem⟩
  · rintro ⟨shape, he, hfollow⟩
    obtain ⟨b, _, hb⟩ := Forall₂.left_mem hbinds he
    cases hb with
    | host _ _ _ => exact ⟨_, he, _, rfl, (placed_iff (c.keys_distinct _ he)).mpr hfollow⟩

theorem Accepted.specifiers_nodup (h : Accepted c processed) :
    (processed.bindings.map ImportBinding.specifier).Nodup := by
  have hkeys : c.entries.map Prod.fst =
      (processed.bindings.map ImportBinding.specifier).map JsString.wellFormed := by
    have hbinds := h.binds
    generalize c.entries = entries at hbinds
    generalize processed.bindings = bindings at hbinds
    induction hbinds with
    | nil => rfl
    | cons hb _ ih =>
      rw [List.map_cons, List.map_cons, List.map_cons, ih, hb.specifier_eq]
  have hnodup := c.specifiers_nodup
  rw [hkeys] at hnodup
  exact hnodup.of_map _

/-- The shape under a specifier went to the wire as a host module with its functions. -/
theorem Accepted.host (h : Accepted c processed) {specifier : String} {shape : Shape F}
    (he : (.wellFormed specifier, .value shape) ∈ c.entries) :
    ∃ exports, ⟨specifier, .host exports⟩ ∈ processed.bindings ∧ (exports.map Prod.fst).Nodup ∧
      EntriesDistinct exports ∧
      ∀ path, path ∈ entryPaths exports ↔ ∃ f, KeyTree.follow (hostPath path) shape = some (.function f) := by
  obtain ⟨b, hmem, hb⟩ := Forall₂.left_mem h.binds he
  have hshape : shape.Distinct := c.keys_distinct _ he
  cases hb with
  | @host _ children exports hpaths hkeys hdistinct =>
    refine ⟨exports, hmem, hkeys, hdistinct, fun path => ?_⟩
    obtain ⟨ls, hleaves, hentry⟩ := hpaths
    rw [hentry, List.mem_map]
    constructor
    · rintro ⟨⟨p, f⟩, hl, rfl⟩
      refine ⟨f, (placed_iff hshape).mp ?_⟩
      rw [hleaves]
      exact List.mem_map_of_mem (f := fun l : List String × F => (hostPath l.1, l.2)) hl
    · rintro ⟨f, hfollow⟩
      have hin := (placed_iff hshape).mpr hfollow
      rw [hleaves] at hin
      obtain ⟨⟨p, f'⟩, hl, heq⟩ := List.mem_map.mp hin
      exact ⟨(p, f'), hl, hostPath_injective (Prod.mk.inj heq).1⟩

/-- The functions of one place are one function. -/
theorem Config.leafAt_unique {specifier : String} {path : List String} {f g : F}
    (hf : c.LeafAt specifier path f) (hg : c.LeafAt specifier path g) : f = g := by
  obtain ⟨shape, he, hfollow⟩ := hf
  obtain ⟨shape', he', hfollow'⟩ := hg
  have hsame : shape = shape' := by
    have hpair := List.inj_on_of_nodup_map c.specifiers_nodup he he' rfl
    cases hpair
    rfl
  subst hsame
  rw [hfollow] at hfollow'
  cases hfollow'
  rfl

/-- The handler under the key of a leaf is the function of that leaf. -/
theorem Accepted.handler (h : Accepted c processed) {specifier : String} {path : List String} {f : F}
    (hleaf : c.LeafAt specifier path f) :
    Keyed specifier path ∧ processed.handlers.get (importKey specifier path) = some f := by
  obtain ⟨all, hkeyed, hall, hset⟩ := h.leaves
  have hmem := (hall ((specifier, path), f)).mpr hleaf
  refine ⟨hkeyed _ hmem, ?_⟩
  rw [hset]
  refine get_setPlaced ⟨_, hmem, rfl⟩ fun l hl heq => ?_
  obtain ⟨hs, hp⟩ := keyed_injective (hkeyed l hl) (hkeyed _ hmem) heq
  have hother := (hall l).mp hl
  dsimp only at hs hp
  rw [hs, hp] at hother
  exact Config.leafAt_unique hother hleaf

variable {engine : Engine V} {isValidExportIdentifier : String → Bool} {builtin : String → Option String}
  {requests : List (String × Option String)}

/-- What the guest finds in a host module: a trampoline is at the place of a function, and its
number is the place of that function in the table. -/
theorem Accepted.guest (h : Accepted c processed) {specifier : String} {shape : Shape F}
    (he : (.wellFormed specifier, .value shape) ∈ c.entries)
    (hcached : ((resolved engine isValidExportIdentifier builtin processed.bindings requests).cacheGet
      specifier).isSome) (path : List String) :
    (∀ f, KeyTree.follow (hostPath path) shape = some (.function f) →
      ∃ id, (resolved engine isValidExportIdentifier builtin processed.bindings requests).guestAt
        specifier path = some (.trampoline id)) ∧
    ∀ id, (resolved engine isValidExportIdentifier builtin processed.bindings requests).guestAt
        specifier path = some (.trampoline id) →
      (collectImportHandles processed.bindings)[id]? = some (entryAt specifier path) ∧
        ∃ f, KeyTree.follow (hostPath path) shape = some (.function f) := by
  obtain ⟨exports, hmem, hkeys, hdistinct, hpaths⟩ := h.host he
  obtain ⟨m, hm⟩ := Option.isSome_iff_exists.mp hcached
  obtain ⟨values, rfl, hnumbered⟩ := resolved_host h.specifiers_nodup hmem hdistinct hm
  have hguest : (resolved engine isValidExportIdentifier builtin processed.bindings requests).guestAt
      specifier path = KeyTree.follow path (.node values) := by
    unfold ResolverContext.guestAt
    rw [hm]
    rfl
  rw [hguest]
  constructor
  · intro f hfollow
    obtain ⟨i, hi⟩ := List.getElem?_of_mem ((hpaths path).mpr ⟨f, hfollow⟩)
    exact ⟨_, (hnumbered.follow_iff hkeys).mpr ⟨i, hi, rfl⟩⟩
  · intro id hid
    obtain ⟨i, hi, rfl⟩ := (hnumbered.follow_iff hkeys).mp hid
    exact ⟨handle_at h.specifiers_nodup hmem hi, (hpaths path).mp (List.mem_of_getElem? hi)⟩

/-- A module with something in it was declared with a value. -/
theorem Accepted.declared (h : Accepted c processed) {specifier : String} {path : List String}
    {l : GuestLeaf V}
    (hl : (resolved engine isValidExportIdentifier builtin processed.bindings requests).guestAt
      specifier path = some l) :
    ∃ shape, (.wellFormed specifier, .value shape) ∈ c.entries := by
  obtain ⟨m, hm, hat⟩ := Option.bind_eq_some_iff.mp hl
  obtain ⟨binding, hlookup, hbuild⟩ :=
    (resolved_cacheBuilt processed.bindings requests).2 _ _ (cacheGet_mem hm)
  obtain ⟨spec, module⟩ := binding
  cases module with
  | source text =>
    change compileSourceModule engine specifier text (.source text) = .ok m at hbuild
    unfold compileSourceModule at hbuild
    split at hbuild
    · cases hbuild
      cases hat
    · cases hbuild
  | host exports =>
    unfold lookupBinding at hlookup
    dsimp only [ResolverContext.new] at hlookup
    split at hlookup
    · next b hfind =>
      cases hlookup
      have hspec : spec = specifier := by simpa using List.find?_some hfind
      obtain ⟨e, he, hb⟩ := Forall₂.left_mem h.binds.flip (List.mem_of_find?_eq_some hfind)
      rw [← hspec]
      cases hb with
      | host => exact ⟨_, he⟩
    · obtain ⟨text, _, heq⟩ := Option.map_eq_some_iff.mp hlookup
      cases heq

/-- For every config that is accepted and every order in which modules are resolved: the
handle of a function's trampoline is the place of its specifier and path in the table, the
key read from a call with that target is the key of the function, and the handler under
that key is the function.  What is a trampoline in the guest is a function of the config;
two functions share neither key nor handle, and the handles of imports that fit a payload
fit 32 bits. -/
theorem import_calls (h : processImports isValidExportName c = .ok processed) (engine : Engine V)
    (isValidExportIdentifier : String → Bool) (builtin : String → Option String)
    (requests : List (String × Option String)) :
    (∀ specifier path f, c.LeafAt specifier path f →
      ∃ key, importHandlerKey specifier path = .ok key ∧
        (∀ globals, dispatch globals processed.handlers (.importKey key) = .ok f) ∧
        (∀ {W : Type} (codec : ValueCodec W) (runId callId argsBlobLen : UInt32) (args : Blob) call,
          decodeBridgeCallPayload codec
            (encodeBridgeCallHeader runId callId (.import specifier path) argsBlobLen ++ args) = .ok call →
          call.target = .importKey key) ∧
        (((resolved engine isValidExportIdentifier builtin processed.bindings requests).cacheGet
            specifier).isSome →
          ∃ id, (resolved engine isValidExportIdentifier builtin processed.bindings requests).guestAt
              specifier path = some (.trampoline id) ∧
            dispatchTarget (collectImportHandles processed.bindings) id =
              some (.import specifier path, recordName specifier path))) ∧
    (∀ specifier path id,
      (resolved engine isValidExportIdentifier builtin processed.bindings requests).guestAt
          specifier path = some (.trampoline id) →
      ∃ f, c.LeafAt specifier path f) ∧
    (∀ specifier path f specifier' path' f', c.LeafAt specifier path f → c.LeafAt specifier' path' f' →
      (specifier, path) ≠ (specifier', path') →
      importHandlerKey specifier path ≠ importHandlerKey specifier' path' ∧
      ∀ id, (resolved engine isValidExportIdentifier builtin processed.bindings requests).guestAt
          specifier path = some (.trampoline id) →
        (resolved engine isValidExportIdentifier builtin processed.bindings requests).guestAt
          specifier' path' ≠ some (.trampoline id)) ∧
    ∀ bytes, PayloadWriter.writeImports processed.bindings = some bytes → bytes.length < 2 ^ 32 →
      (collectImportHandles processed.bindings).length < 2 ^ 32 := by
  have haccepted := processImports_accepted h
  have hplace : ∀ specifier path id,
      (resolved engine isValidExportIdentifier builtin processed.bindings requests).guestAt
        specifier path = some (.trampoline id) →
      (collectImportHandles processed.bindings)[id]? = some (entryAt specifier path) ∧
        ∃ f, c.LeafAt specifier path f := by
    intro specifier path id hguest
    obtain ⟨shape, he⟩ := haccepted.declared hguest
    obtain ⟨m, hm, _⟩ := Option.bind_eq_some_iff.mp hguest
    have hcached := Option.isSome_iff_exists.mpr ⟨m, hm⟩
    obtain ⟨hentry, f, hfollow⟩ := (haccepted.guest he hcached path).2 id hguest
    exact ⟨hentry, f, shape, he, hfollow⟩
  refine ⟨?_, fun specifier path id hguest => (hplace specifier path id hguest).2, ?_, ?_⟩
  · intro specifier path f hleaf
    obtain ⟨hkeyed, hhandler⟩ := haccepted.handler hleaf
    refine ⟨importKey specifier path, hkeyed.importHandlerKey, ?_, ?_, ?_⟩
    · intro globals
      dsimp only [dispatch]
      rw [hhandler]
    · exact fun codec _ _ _ _ _ hread => hkeyed.header_target codec hread
    · intro hcached
      obtain ⟨shape, he, hfollow⟩ := hleaf
      obtain ⟨id, hid⟩ := (haccepted.guest he hcached path).1 f hfollow
      refine ⟨id, hid, ?_⟩
      unfold dispatchTarget
      rw [(hplace specifier path id hid).1]
      rfl
  · intro specifier path f specifier' path' f' hleaf hleaf' hne
    constructor
    · intro heq
      have hkeyed := (haccepted.handler hleaf).1
      have hkeyed' := (haccepted.handler hleaf').1
      rw [hkeyed.importHandlerKey, hkeyed'.importHandlerKey] at heq
      obtain ⟨hs, hp⟩ := keyed_injective hkeyed hkeyed' (Except.ok.inj heq)
      exact hne (by rw [hs, hp])
    · intro id hid hid'
      have hentry := (hplace specifier path id hid).1
      rw [(hplace specifier' path' id hid').1] at hentry
      obtain ⟨hs, hp, _⟩ := ImportHandleEntry.mk.inj (Option.some.inj hentry)
      exact hne (by rw [hs, hp])
  · exact fun bytes hwritten hlt => Nat.lt_of_le_of_lt (handles_le hwritten) hlt

/-- `{ m: { a: f, b: { 'c.d': g } } }`, with `0` and `1` for the functions. -/
def sampleConfig : Config Nat where
  entries := [(.wellFormed "m", .value (.node [(.wellFormed "a", .leaf (.function 0)),
    (.wellFormed "b", .node [(.wellFormed "c.d", .leaf (.function 1))])]))]
  specifiers_nodup := by decide
  keys_distinct := by
    intro e he
    rw [List.mem_singleton.mp he]
    simp [ModuleConfig.Distinct, KeyTree.Distinct, KeyTree.ChildrenDistinct]

theorem import_calls_sample : ∃ processed : ProcessedImports Nat, ∃ key,
    processImports (fun _ => true) sampleConfig = .ok processed ∧
      importHandlerKey "m" ["b", "c.d"] = .ok key ∧
        ∀ globals, dispatch globals processed.handlers (.importKey key) = .ok 1 := by
  have hprocessed : ∃ processed, processImports (fun _ => true) sampleConfig = .ok processed := ⟨_, rfl⟩
  obtain ⟨processed, h⟩ := hprocessed
  have hcalls := import_calls h (⟨fun _ => some (), fun _ => true, fun _ => true, fun _ _ => none⟩ : Engine Unit)
    (fun _ => true) (fun _ => none) []
  obtain ⟨key, hkey, hdispatch, _⟩ := hcalls.1 "m" ["b", "c.d"] 1 ⟨_, List.mem_singleton.mpr rfl, rfl⟩
  exact ⟨processed, key, h, hkey, hdispatch⟩

end Calls

end Imports

end Iso4
