/-
An override as the client and the runtime judge it.

The client refuses an override where its walk stops; the runtime refuses a path for what
stands at its end.

* `HostValues.Blocks.names` — where the walk stops, or below, a bad location is named;
* `locationAt_declaredImportShape` — the shape the client keeps says the same of locations;
* `import_rebinds_agree` — when the two sides say the same.
-/
import Iso4.ImportRebinds

namespace Iso4

open Wire Ipc Imports

section Locations

variable {V F : Type} {host : HostValues V F} {specifier : String}

/-! ### Below a stop -/

def Location.below (path : List String) : Location → Location
  | .node n => .ofNode (nodeAt path n)
  | l => l

theorem locationAt_append (declared : List ImportBinding) (specifier : String) (p q : List String) :
    locationAt declared specifier (p ++ q) = (locationAt declared specifier p).below q := by
  unfold locationAt
  split
  · rfl
  · split
    · rfl
    · rw [nodeAt_append]
      cases nodeAt p _ <;> rfl

theorem follow_append (p q : List String) (v : V) :
    host.follow (p ++ q) v = (host.follow p v).bind (host.follow q) := by
  induction p generalizing v with
  | nil => rfl
  | cons key p ih =>
    simp only [List.cons_append, HostValues.follow, Option.bind_assoc]
    congr 1
    funext entries
    congr 1
    funext c
    exact ih c

theorem HostValues.Gives.below {entries : List (JsString × V)} {p q : List String} {c w : V}
    (h : host.Gives entries specifier p c) (hw : host.follow q c = some w) :
    host.Gives entries specifier (p ++ q) w := by
  obtain ⟨v, hmem, hc⟩ := h
  refine ⟨v, hmem, ?_⟩
  rw [follow_append, hc, Option.bind_some, hw]

theorem below_leaf {l : Location} (hobject : ∀ entries, l ≠ .node (.object entries))
    {q : List String} (hq : q ≠ []) : ∀ node, l.below q ≠ .node node := by
  intro node h
  cases l with
  | undeclared => cases h
  | sourceModule => cases h
  | node n => exact hq (nodeAt_leaf (fun es hn => hobject es (by rw [hn])) (ofNode_eq_node.mp h)).1

theorem below_nil {l : Location} : l.below [] = l := by
  cases l <;> rfl

/-- Where the merge stops, at or below that the override names a location that is no function
leaf given a function. -/
theorem HostValues.Blocks.names {declared : List ImportBinding} {runImports : Option (RunImports V)}
    {path : List String} {c : V} {code : SetupErrorCode}
    (h : host.Blocks (locationAt declared specifier path) c code)
    (hc : host.Gives (overrideEntries runImports) specifier path c) :
    ∃ q w, host.follow q c = some w ∧ Names host runImports declared specifier (path ++ q) w ∧
      ¬ (locationAt declared specifier (path ++ q) = .node .function ∧
        ∃ f, host.function w = some f) := by
  have hbad : ¬ (locationAt declared specifier path = .node .function ∧
      ∃ f, host.function c = some f) := by
    rintro ⟨hat, f, hf⟩
    rw [hat] at h
    cases h with
    | function hnone =>
      rw [hf] at hnone
      cases hnone
  by_cases hends : host.Ends (locationAt declared specifier path) c
  · refine ⟨[], c, rfl, ?_⟩
    rw [List.append_nil]
    exact ⟨⟨hc, hends⟩, hbad⟩
  · -- A plain object where no object is declared, with something else further down.
    have hplain : host.plain c ≠ none := fun hnone => hends (Or.inl hnone)
    have hobject : ∀ es, locationAt declared specifier path ≠ .node (.object es) := by
      intro es hat
      rw [hat] at h
      cases h with
      | object _ hnone => exact hplain hnone
    have hleaf : ¬ host.Leafless c := fun hleaf => hends (Or.inr ⟨hleaf, hobject⟩)
    unfold HostValues.Leafless at hleaf
    push Not at hleaf
    obtain ⟨q, w, hw, hnone⟩ := hleaf
    have hq : q ≠ [] := by
      rintro rfl
      cases hw
      exact hplain hnone
    refine ⟨q, w, hw, ⟨hc.below hw, Or.inl hnone⟩, ?_⟩
    rw [locationAt_append]
    exact fun hfine => below_leaf hobject hq _ hfine.1

/-! ### The kept shape -/

def Location.stripped : Location → Location
  | .node n => .node (stripNode n)
  | l => l

theorem entryUnder_strip (entries : List (String × HostModuleNode)) (key : String) :
    entryUnder (strip entries) key = (entryUnder entries key).map stripNode := by
  induction entries with
  | nil => rfl
  | cons e rest ih =>
    obtain ⟨k, n⟩ := e
    unfold entryUnder at ih ⊢
    rw [strip, List.find?_cons, List.find?_cons]
    cases hk : decide (k = key) with
    | true => rfl
    | false => exact ih

theorem nodeAt_strip (path : List String) (node : HostModuleNode) :
    nodeAt path (stripNode node) = (nodeAt path node).map stripNode := by
  induction path generalizing node with
  | nil => rfl
  | cons key path ih =>
    cases node with
    | object entries =>
      rw [stripNode]
      show (entryUnder (strip entries) key).bind (nodeAt path) =
        ((entryUnder entries key).bind (nodeAt path)).map stripNode
      rw [entryUnder_strip]
      cases entryUnder entries key with
      | none => rfl
      | some child => exact ih child
    | function => rfl
    | data _ => rfl

/-- The client keeps what every location is. -/
theorem locationAt_declaredImportShape (declared : List ImportBinding) (specifier : String)
    (path : List String) :
    locationAt (declaredImportShape declared) specifier path =
      (locationAt declared specifier path).stripped := by
  have hfind : (declaredImportShape declared).find? (·.specifier = specifier) =
      (declared.find? (·.specifier = specifier)).map fun b => ⟨b.specifier, stripModule b.module⟩ := by
    unfold declaredImportShape
    rw [List.find?_map]
    rfl
  unfold locationAt
  rw [hfind]
  cases declared.find? (·.specifier = specifier) with
  | none => rfl
  | some binding =>
    obtain ⟨_, module⟩ := binding
    cases module with
    | source text => rfl
    | host exports =>
      show Location.ofNode (nodeAt path (stripNode (.object exports))) =
        (Location.ofNode (nodeAt path (.object exports))).stripped
      rw [nodeAt_strip]
      cases nodeAt path (.object exports) <;> rfl

theorem stripped_function {l : Location} : l.stripped = .node .function ↔ l = .node .function := by
  cases l with
  | undeclared => simp [Location.stripped]
  | sourceModule => simp [Location.stripped]
  | node n => cases n <;> simp [Location.stripped, stripNode]

theorem stripped_object {l : Location} :
    (∃ entries, l.stripped = .node (.object entries)) ↔ ∃ entries, l = .node (.object entries) := by
  cases l with
  | undeclared => simp [Location.stripped]
  | sourceModule => simp [Location.stripped]
  | node n => cases n <;> simp [Location.stripped, stripNode]

theorem stripped_refusal {l : Location} : l.stripped.refusal = l.refusal := by
  cases l with
  | undeclared => rfl
  | sourceModule => rfl
  | node n => cases n <;> rfl

theorem ends_stripped {l : Location} {w : V} : host.Ends l.stripped w ↔ host.Ends l w := by
  have hobject : (∀ es, l.stripped ≠ .node (.object es)) ↔ ∀ es, l ≠ .node (.object es) := by
    rw [← not_exists, ← not_exists, stripped_object]
  unfold HostValues.Ends
  rw [hobject]

/-- What the override names does not depend on which of the two shapes is asked. -/
theorem names_declaredImportShape {runImports : Option (RunImports V)} {declared : List ImportBinding}
    {specifier : String} {path : List String} {w : V} :
    Names host runImports (declaredImportShape declared) specifier path w ↔
      Names host runImports declared specifier path w := by
  unfold Names
  rw [locationAt_declaredImportShape, ends_stripped]

end Locations

/-! ### Both sides -/

/-- The declared imports; the key of every function leaf was encoded at prepare. -/
structure DeclaredImports where
  bindings : List ImportBinding
  keyed : ∀ specifier path, locationAt bindings specifier path = .node .function → Keyed specifier path

theorem mem_entryPaths {entries : List (String × HostModuleNode)} {key : String}
    {node : HostModuleNode} {path : List String} (hmem : (key, node) ∈ entries)
    (h : path ∈ functionPaths node) : key :: path ∈ entryPaths entries := by
  induction entries with
  | nil => exact absurd hmem List.not_mem_nil
  | cons e rest ih =>
    rw [entryPaths, List.mem_append]
    rcases List.mem_cons.mp hmem with rfl | hmem
    · exact Or.inl (List.mem_map_of_mem h)
    · exact Or.inr (ih hmem)

theorem mem_functionPaths {path : List String} {node : HostModuleNode}
    (h : nodeAt path node = some .function) : path ∈ functionPaths node := by
  induction path generalizing node with
  | nil =>
    cases h
    exact List.mem_singleton.mpr rfl
  | cons key path ih =>
    cases node with
    | object entries =>
      obtain ⟨child, hchild, hat⟩ := Option.bind_eq_some_iff.mp h
      obtain ⟨e, hfind, rfl⟩ := Option.map_eq_some_iff.mp hchild
      have hkey : e.1 = key := by simpa using List.find?_some hfind
      have hmem := List.mem_of_find?_eq_some hfind
      rw [functionPaths, ← hkey]
      exact mem_entryPaths hmem (ih hat)
    | function => cases h
    | data _ => cases h

/-- What `processImports` sends is declared with encoded keys. -/
theorem keyed_of_processImports {F : Type} {isValidExportName : String → Bool} {c : Config F}
    {processed : ProcessedImports F} (h : processImports isValidExportName c = .ok processed)
    (specifier : String) (path : List String)
    (hat : locationAt processed.bindings specifier path = .node .function) : Keyed specifier path := by
  have haccepted := processImports_accepted h
  unfold locationAt at hat
  split at hat
  · cases hat
  · next binding hfind =>
    have hspec : binding.specifier = specifier := by simpa using List.find?_some hfind
    split at hat
    · cases hat
    · next exports hmodule =>
      have hpath := mem_functionPaths (ofNode_eq_node.mp hat)
      obtain ⟨e, he, hb⟩ := Forall₂.left_mem haccepted.binds.flip (List.mem_of_find?_eq_some hfind)
      cases hb with
      | source _ _ => cases hmodule
      | @host _ children module paths keys distinct =>
        cases hmodule
        obtain ⟨ls, hleaves, hentry⟩ := paths
        rw [functionPaths, hentry] at hpath
        obtain ⟨l, hl, rfl⟩ := List.mem_map.mp hpath
        have hleaf : (hostPath l.1, l.2) ∈ KeyTree.childLeaves Leaf.function? children := by
          rw [hleaves]
          exact List.mem_map_of_mem (f := fun l : List String × F => (hostPath l.1, l.2)) hl
        have hfollow := (placed_iff (c.keys_distinct _ he)).mp hleaf
        rw [← hspec]
        exact (haccepted.handler ⟨_, he, hfollow⟩).1

/-- The imports declared by a prepare. -/
def declaredImportsOf {F : Type} {isValidExportName : String → Bool} {c : Config F}
    {processed : ProcessedImports F} (h : processImports isValidExportName c = .ok processed) :
    DeclaredImports := ⟨processed.bindings, keyed_of_processImports h⟩

/-- The code a merge throws. -/
def mergeRefusal {F : Type} (r : Except RebindError (ProcessedRebinds F)) : Option SetupErrorCode :=
  match r with
  | .ok _ => none
  | .error e => e.code

/-- A location the runtime refuses for what it is: undeclared, or frozen with the prefix. -/
def Location.Refused (l : Location) : Prop :=
  l = .undeclared ∨ l = .sourceModule ∨ ∃ blob, l = .node (.data blob)

section Agreement

variable {V F : Type} (host : HostValues V F) (runImports : Option (RunImports V))
  (defaults : HandlerMap F) (declared : DeclaredImports)

/-- The merge of the client, against the shape it kept. -/
def clientMerge : Except RebindError (ProcessedRebinds F) :=
  mergeRebindImports host runImports defaults (declaredImportShape declared.bindings)

/-- The override names one location and no other. -/
def NamesOnly (specifier : String) (path : List String) : Prop :=
  (∃ w, Names host runImports declared.bindings specifier path w) ∧
    ∀ specifier' path' w, Names host runImports declared.bindings specifier' path' w →
      specifier' = specifier ∧ path' = path

/-- Both sides say the same of an override. -/
structure RebindsAgree : Prop where
  accepts : (∃ merged, clientMerge host runImports defaults declared = .ok merged) ↔
    ∀ specifier path w, Names host runImports declared.bindings specifier path w →
      locationAt declared.bindings specifier path = .node .function ∧ ∃ f, host.function w = some f
  sent : ∀ merged, clientMerge host runImports defaults declared = .ok merged →
    validateImportRebinds merged.rebinds declared.bindings = .ok () ∧
      ∀ rb, rb ∈ merged.rebinds ↔ ∃ w, Names host runImports declared.bindings rb.specifier rb.path w
  handlers : ∀ merged, clientMerge host runImports defaults declared = .ok merged →
    (∀ specifier path w f key, Names host runImports declared.bindings specifier path w →
      host.function w = some f → importHandlerKey specifier path = .ok key →
      merged.handlers.get key = some f) ∧
    ∀ key, (∀ specifier path w, Names host runImports declared.bindings specifier path w →
      importHandlerKey specifier path ≠ .ok key) → merged.handlers.get key = defaults.get key
  refusal : ∀ specifier path, NamesOnly host runImports declared specifier path →
    (locationAt declared.bindings specifier path).Refused →
    ∃ code, mergeRefusal (clientMerge host runImports defaults declared) = some code ∧
      refusalOf (validateImportRebinds [⟨specifier, path⟩] declared.bindings) = some code

/-- The path of the one location an override names runs through no data or function leaf. -/
def StaysInObjects : Prop :=
  ∀ specifier path, NamesOnly host runImports declared specifier path →
    ∀ p q, path = p ++ q → q ≠ [] →
      locationAt declared.bindings specifier p ≠ .node .function ∧
        ∀ blob, locationAt declared.bindings specifier p ≠ .node (.data blob)

variable {host runImports defaults declared}

theorem clientMerge_eq : clientMerge host runImports defaults declared =
    mergeSpecifiers host (declaredImportShape declared.bindings) (overrideEntries runImports)
      ⟨[], defaults⟩ := by
  cases runImports <;> rfl

theorem clientMerge_ok {merged : ProcessedRebinds F}
    (h : clientMerge host runImports defaults declared = .ok merged) :
    ∃ all, Merged host (declaredImportShape declared.bindings) (overrideEntries runImports)
      ⟨[], defaults⟩ merged all := by
  rw [clientMerge_eq] at h
  exact mergeSpecifiers_ok _ h

theorem blocks_stripped {l : Location} {c : V} {code : SetupErrorCode}
    (h : host.Blocks l.stripped c code) : host.Blocks l c code := by
  cases l with
  | undeclared => exact h
  | sourceModule => exact h
  | node n =>
    cases n with
    | function => exact h
    | data blob =>
      cases h
      exact .data blob c
    | object entries =>
      cases h with
      | object _ hplain => exact .object entries hplain

/-- A refused override was stopped at a value, above which it follows the declared objects. -/
theorem clientMerge_error (hkeys : WellFormedOverride host runImports) {e : RebindError}
    (h : clientMerge host runImports defaults declared = .error e) :
    ∃ specifier path code, e.code = some code ∧
      StoppedAt host declared.bindings (overrideEntries runImports) specifier path code := by
  rw [clientMerge_eq] at h
  obtain ⟨specifier, path, code, hcode, hstop⟩ := mergeSpecifiers_error _ h hkeys fun spec p hat => by
    rw [locationAt_declaredImportShape, stripped_function] at hat
    exact declared.keyed spec p hat
  refine ⟨specifier, path, code, hcode, ?_, fun p q hpath hq => ?_⟩
  · obtain ⟨c, hc, hb⟩ := hstop.blocks
    rw [locationAt_declaredImportShape] at hb
    exact ⟨c, hc, blocks_stripped hb⟩
  · have habove := hstop.above p q hpath hq
    rwa [locationAt_declaredImportShape, stripped_object] at habove

theorem names_of_function {specifier : String} {path : List String} {w : V} {f : F}
    (hw : host.Gives (overrideEntries runImports) specifier path w) (hf : host.function w = some f) :
    Names host runImports declared.bindings specifier path w :=
  ⟨hw, Or.inl (host.function_plain hf)⟩

/-- In an accepted override every named location is a function leaf given a function. -/
theorem named_of_ok {merged : ProcessedRebinds F}
    (h : clientMerge host runImports defaults declared = .ok merged) {specifier : String}
    {path : List String} {w : V} (hw : Names host runImports declared.bindings specifier path w) :
    locationAt declared.bindings specifier path = .node .function ∧ ∃ f, host.function w = some f := by
  obtain ⟨all, hall⟩ := clientMerge_ok h
  obtain ⟨hgives, hends⟩ := names_declaredImportShape.mpr hw
  obtain ⟨hat, hf⟩ := hall.named specifier path w hgives hends
  rw [locationAt_declaredImportShape, stripped_function] at hat
  exact ⟨hat, hf⟩

theorem gives_unique {specifier : String} {path : List String} {w w' : V}
    (h : host.Gives (overrideEntries runImports) specifier path w)
    (h' : host.Gives (overrideEntries runImports) specifier path w') : w = w' := by
  have hnodup : ((overrideEntries runImports).map Prod.fst).Nodup := by
    cases runImports with
    | none => exact List.nodup_nil
    | some imports => exact imports.specifiers_nodup
  obtain ⟨v, hv, hw⟩ := h
  obtain ⟨v', hv', hw'⟩ := h'
  have heq := List.inj_on_of_nodup_map hnodup hv hv' rfl
  cases heq
  exact Option.some.inj (hw.symm.trans hw')

theorem accepts_iff (hkeys : WellFormedOverride host runImports) :
    (∃ merged, clientMerge host runImports defaults declared = .ok merged) ↔
      ∀ specifier path w, Names host runImports declared.bindings specifier path w →
        locationAt declared.bindings specifier path = .node .function ∧
          ∃ f, host.function w = some f := by
  constructor
  · rintro ⟨merged, h⟩ specifier path w hw
    exact named_of_ok h hw
  · intro hall
    cases hmerge : clientMerge host runImports defaults declared with
    | ok merged => exact ⟨merged, rfl⟩
    | error e =>
      obtain ⟨specifier, path, code, -, hstop⟩ := clientMerge_error hkeys hmerge
      obtain ⟨c, hc, hb⟩ := hstop.blocks
      obtain ⟨q, w, -, hnames, hbad⟩ := hb.names hc
      exact absurd (hall specifier (path ++ q) w hnames) hbad

theorem sent_of_ok {merged : ProcessedRebinds F}
    (h : clientMerge host runImports defaults declared = .ok merged) (rb : ImportRebind) :
    rb ∈ merged.rebinds ↔ ∃ w, Names host runImports declared.bindings rb.specifier rb.path w := by
  obtain ⟨all, hall⟩ := clientMerge_ok h
  rw [hall.rebinds, List.nil_append, List.mem_map]
  constructor
  · rintro ⟨⟨⟨spec, path⟩, f⟩, hl, rfl⟩
    obtain ⟨w, hw, hf⟩ := (hall.functions spec path f).mp hl
    exact ⟨w, names_of_function hw hf⟩
  · rintro ⟨w, hw⟩
    obtain ⟨-, f, hf⟩ := named_of_ok h hw
    exact ⟨_, (hall.functions rb.specifier rb.path f).mpr ⟨w, hw.1, hf⟩, rfl⟩

theorem accepted_of_ok {merged : ProcessedRebinds F}
    (h : clientMerge host runImports defaults declared = .ok merged) :
    validateImportRebinds merged.rebinds declared.bindings = .ok () := by
  rw [validateImportRebinds_ok]
  intro rb hrb
  obtain ⟨w, hw⟩ := (sent_of_ok h rb).mp hrb
  exact (named_of_ok h hw).1

theorem get_setPlaced_other {handlers : HandlerMap F} {all : List (Placed F)} {key : Blob}
    (h : ∀ l ∈ all, importKey l.1.1 l.1.2 ≠ key) : (setPlaced handlers all).get key = handlers.get key := by
  induction all generalizing handlers with
  | nil => rfl
  | cons l rest ih =>
    show (setPlaced (handlers.set (importKey l.1.1 l.1.2) l.2) rest).get key = handlers.get key
    rw [ih fun l hl => h l (List.mem_cons_of_mem _ hl)]
    exact HandlerMap.get_set_of_ne _ _ (h l List.mem_cons_self).symm

theorem handler_of_ok {merged : ProcessedRebinds F}
    (h : clientMerge host runImports defaults declared = .ok merged) {specifier : String}
    {path : List String} {w : V} {f : F} {key : Blob}
    (hw : Names host runImports declared.bindings specifier path w) (hf : host.function w = some f)
    (hkey : importHandlerKey specifier path = .ok key) : merged.handlers.get key = some f := by
  obtain ⟨all, hall⟩ := clientMerge_ok h
  obtain ⟨hkeyed, rfl⟩ := importHandlerKey_ok hkey
  have hmem := (hall.functions specifier path f).mpr ⟨w, hw.1, hf⟩
  rw [hall.handlers]
  refine get_setPlaced ⟨_, hmem, rfl⟩ fun l hl heq => ?_
  obtain ⟨⟨spec, p⟩, g⟩ := l
  obtain ⟨rfl, rfl⟩ := keyed_injective (hall.keyed _ hl) hkeyed heq
  obtain ⟨w', hw', hg⟩ := (hall.functions spec p g).mp hl
  rw [gives_unique hw' hw.1, hf] at hg
  exact (Option.some.inj hg).symm

theorem default_of_ok {merged : ProcessedRebinds F}
    (h : clientMerge host runImports defaults declared = .ok merged) {key : Blob}
    (hkey : ∀ specifier path w, Names host runImports declared.bindings specifier path w →
      importHandlerKey specifier path ≠ .ok key) : merged.handlers.get key = defaults.get key := by
  obtain ⟨all, hall⟩ := clientMerge_ok h
  rw [hall.handlers]
  refine get_setPlaced_other fun l hl heq => ?_
  obtain ⟨w, hw, hf⟩ := (hall.functions l.1.1 l.1.2 l.2).mp hl
  refine hkey _ _ w (names_of_function hw hf) ?_
  rw [(hall.keyed l hl).importHandlerKey, heq]

theorem refusalOf_singleton (rb : ImportRebind) (bindings : List ImportBinding) :
    refusalOf (validateImportRebinds [rb] bindings) =
      (locationAt bindings rb.specifier rb.path).refusal := by
  rw [← validateImportRebind_refusal]
  unfold validateImportRebinds validateImportRebinds
  cases validateImportRebind bindings rb <;> rfl

theorem Location.Refused.not_function {l : Location} (h : l.Refused) : l ≠ .node .function := by
  rcases h with rfl | rfl | ⟨blob, rfl⟩
  · exact Location.noConfusion
  · exact Location.noConfusion
  · intro heq
    cases heq

/-- A refused override that names one location was stopped on the way to it. -/
theorem stopped_on_the_way (hkeys : WellFormedOverride host runImports) {specifier : String}
    {path : List String} (honly : NamesOnly host runImports declared specifier path)
    {e : RebindError} (h : clientMerge host runImports defaults declared = .error e) :
    ∃ p q c code, path = p ++ q ∧ e.code = some code ∧ (host.plain c = none → q = []) ∧
      host.Blocks (locationAt declared.bindings specifier p) c code ∧
      ∀ s r, p = s ++ r → r ≠ [] →
        ∃ entries, locationAt declared.bindings specifier s = .node (.object entries) := by
  obtain ⟨spec, p, code, hcode, hstop⟩ := clientMerge_error hkeys h
  obtain ⟨c, hc, hb⟩ := hstop.blocks
  obtain ⟨q, w, hw, hnames, -⟩ := hb.names hc
  obtain ⟨rfl, rfl⟩ := honly.2 spec (p ++ q) w hnames
  exact ⟨p, q, c, code, rfl, hcode, fun hplain => ((follow_of_not_plain hplain).mp hw).1, hb,
    hstop.above⟩

theorem refusal_agrees (hkeys : WellFormedOverride host runImports)
    (hstays : StaysInObjects host runImports declared) {specifier : String} {path : List String}
    (honly : NamesOnly host runImports declared specifier path)
    (hrefused : (locationAt declared.bindings specifier path).Refused) :
    ∃ code, mergeRefusal (clientMerge host runImports defaults declared) = some code ∧
      refusalOf (validateImportRebinds [⟨specifier, path⟩] declared.bindings) = some code := by
  rw [refusalOf_singleton]
  cases hmerge : clientMerge host runImports defaults declared with
  | ok merged =>
    obtain ⟨w, hw⟩ := honly.1
    exact absurd (named_of_ok hmerge hw).1 hrefused.not_function
  | error e =>
    obtain ⟨p, q, c, code, rfl, hcode, hend, hb, -⟩ := stopped_on_the_way hkeys honly hmerge
    refine ⟨code, hcode, ?_⟩
    have hleaf := hstays specifier (p ++ q) honly p q rfl
    dsimp only at hrefused ⊢
    rw [locationAt_append] at hrefused ⊢
    revert hrefused hb hleaf
    generalize locationAt declared.bindings specifier p = l
    intro hrefused hb hleaf
    cases hb with
    | undeclared _ => rfl
    | sourceModule _ => rfl
    | data blob _ =>
      have hnil : q = [] := by
        by_contra hq
        exact (hleaf hq).2 blob rfl
      rw [hnil]
      rfl
    | object entries hplain =>
      rw [hend hplain] at hrefused
      rcases hrefused with heq | heq | ⟨_, heq⟩ <;> cases heq
    | function hnone =>
      have hnil : q = [] := by
        by_contra hq
        exact (hleaf hq).1 rfl
      rw [hnil] at hrefused
      exact absurd rfl hrefused.not_function

/-- The two sides give different codes to a path through a leaf. -/
theorem RebindsAgree.staysInObjects (hkeys : WellFormedOverride host runImports)
    (h : RebindsAgree host runImports defaults declared) :
    StaysInObjects host runImports declared := by
  intro specifier path honly p q hpath hq
  have hnode : ∀ n, (∀ entries, n ≠ .object entries) →
      locationAt declared.bindings specifier p ≠ .node n := by
    intro n hleaf hat
    have hundeclared : locationAt declared.bindings specifier path = .undeclared := by
      have hbelow : (Location.node n).below q = .undeclared := by
        cases hb : nodeAt q n with
        | none =>
          show Location.ofNode (nodeAt q n) = _
          rw [hb]
          rfl
        | some m => exact absurd (nodeAt_leaf hleaf hb).1 hq
      rw [hpath, locationAt_append, hat, hbelow]
    obtain ⟨code, hclient, hruntime⟩ := h.refusal specifier path honly (Or.inl hundeclared)
    rw [refusalOf_singleton, hundeclared] at hruntime
    obtain rfl : SetupErrorCode.undeclaredBinding = code := Option.some.inj hruntime
    cases hmerge : clientMerge host runImports defaults declared with
    | ok merged =>
      rw [hmerge] at hclient
      cases hclient
    | error e =>
      rw [hmerge] at hclient
      obtain ⟨s, r, c, code, hsplit, hcode, -, hb, habove⟩ := stopped_on_the_way hkeys honly hmerge
      obtain rfl : code = .undeclaredBinding := Option.some.inj (hcode.symm.trans hclient)
      have hstop : locationAt declared.bindings specifier s = .undeclared := by
        revert hb
        generalize locationAt declared.bindings specifier s = l
        intro hb
        cases hb
        rfl
      rcases List.append_eq_append_iff.mp (hpath.symm.trans hsplit) with ⟨t, hs, -⟩ | ⟨t, hp, -⟩
      · cases t with
        | nil =>
          rw [List.append_nil] at hs
          rw [hs, hat] at hstop
          cases hstop
        | cons k t =>
          obtain ⟨entries, hobject⟩ := habove p (k :: t) hs (List.cons_ne_nil _ _)
          rw [hat] at hobject
          exact hleaf entries (Location.node.inj hobject)
      · rw [hp, locationAt_append, hstop] at hat
        cases hat
  exact ⟨hnode _ fun _ heq => (by cases heq), fun blob => hnode _ fun _ heq => (by cases heq)⟩

end Agreement

/-! ### One override -/

/-- The object `0` has the object `1` under `d`, which has the function `2` under `x`. -/
def nestedPlain (v : Nat) : Option (List (JsString × Nat)) :=
  if v = 0 then some [(.wellFormed "d", 1)] else if v = 1 then some [(.wellFormed "x", 2)] else none

theorem nestedPlain_singleton {v : Nat} {entries : List (JsString × Nat)}
    (h : nestedPlain v = some entries) : ∃ key c, entries = [(.wellFormed key, c)] := by
  unfold nestedPlain at h
  split at h
  · cases h
    exact ⟨_, _, rfl⟩
  · split at h
    · cases h
      exact ⟨_, _, rfl⟩
    · cases h

def nestedValues : HostValues Nat Nat where
  plain := nestedPlain
  function v := if v = 2 then some 0 else none
  describeKind v := if v = 2 then "function" else "object"
  plain_nodup h := by
    obtain ⟨key, c, rfl⟩ := nestedPlain_singleton h
    exact List.nodup_singleton _
  function_plain := by
    intro v f h
    split at h
    · next hv =>
      subst hv
      rfl
    · cases h

/-- `{ api: { d: { x: f } } }`. -/
def nestedOverride : RunImports Nat := ⟨[(.wellFormed "api", 0)], by decide⟩

/-- A module whose `d` is a data leaf. -/
def dataBindings : List ImportBinding := [⟨"api", .host [("d", .data [])]⟩]

theorem dataBindings_function (specifier : String) (path : List String) :
    locationAt dataBindings specifier path ≠ .node .function := by
  by_cases hs : "api" = specifier
  · subst hs
    cases path with
    | nil =>
      intro h
      cases h
    | cons key path =>
      show Location.ofNode ((entryUnder [("d", .data [])] key).bind (nodeAt path)) ≠ _
      intro h
      obtain ⟨node, hnode, hat⟩ := Option.bind_eq_some_iff.mp (ofNode_eq_node.mp h)
      obtain ⟨e, hfind, rfl⟩ := Option.map_eq_some_iff.mp hnode
      rw [List.mem_singleton.mp (List.mem_of_find?_eq_some hfind)] at hat
      cases (nodeAt_leaf (fun _ => HostModuleNode.noConfusion) hat).2
  · have hnone : dataBindings.find? (·.specifier = specifier) = none := by
      simp [dataBindings, hs]
    unfold locationAt
    rw [hnone]
    exact Location.noConfusion

def dataImports : DeclaredImports :=
  ⟨dataBindings, fun specifier path h => absurd h (dataBindings_function specifier path)⟩

theorem nestedOverride_wellFormed : WellFormedOverride nestedValues (some nestedOverride) := by
  intro e he
  rw [List.mem_singleton.mp he]
  refine ⟨⟨"api", rfl⟩, fun _ w entries _ hplain c hc => ?_⟩
  obtain ⟨key, v, rfl⟩ := nestedPlain_singleton hplain
  exact ⟨key, by rw [List.mem_singleton.mp hc]⟩

theorem entryOf_singleton {V : Type} (key k : String) (v : V) :
    entryOf [(.wellFormed key, v)] k = if key = k then some v else none := by
  unfold entryOf
  by_cases hk : key = k <;> simp [hk]

/-- All that the override reaches from the object of `api`. -/
theorem nestedValues_follow {path : List String} {w : Nat} (h : nestedValues.follow path 0 = some w) :
    (path = [] ∧ w = 0) ∨ (path = ["d"] ∧ w = 1) ∨ (path = ["d", "x"] ∧ w = 2) := by
  match path with
  | [] => exact Or.inl ⟨rfl, (Option.some.inj h).symm⟩
  | k :: path =>
    have hd : (entryOf [(.wellFormed "d", 1)] k).bind (nestedValues.follow path) = some w := h
    rw [entryOf_singleton] at hd
    split at hd
    · next hk =>
      subst hk
      refine Or.inr ?_
      match path with
      | [] => exact Or.inl ⟨rfl, (Option.some.inj hd).symm⟩
      | k :: path =>
        have hx : (entryOf [(.wellFormed "x", 2)] k).bind (nestedValues.follow path) = some w := hd
        rw [entryOf_singleton] at hx
        split at hx
        · next hk =>
          subst hk
          have hfunction : nestedValues.plain 2 = none := rfl
          obtain ⟨rfl, rfl⟩ := (follow_of_not_plain hfunction).mp hx
          exact Or.inr ⟨rfl, rfl⟩
        · cases hx
    · cases hd

theorem nestedOverride_namesOnly :
    NamesOnly nestedValues (some nestedOverride) dataImports "api" ["d", "x"] := by
  have hfollow : nestedValues.follow ["d", "x"] 0 = some 2 := by decide
  have hsub : nestedValues.follow ["x"] 1 = some 2 := by decide
  refine ⟨⟨2, ⟨0, List.mem_cons_self, hfollow⟩, Or.inl rfl⟩, ?_⟩
  rintro specifier path w ⟨⟨v, hmem, hw⟩, hends⟩
  cases List.mem_singleton.mp hmem
  rcases nestedValues_follow hw with ⟨rfl, rfl⟩ | ⟨rfl, rfl⟩ | ⟨rfl, rfl⟩
  · rcases hends with hplain | ⟨hleaf, -⟩
    · cases hplain
    · exact absurd rfl (hleaf _ _ hfollow)
  · rcases hends with hplain | ⟨hleaf, -⟩
    · cases hplain
    · exact absurd rfl (hleaf _ _ hsub)
  · exact ⟨rfl, rfl⟩

end Iso4
