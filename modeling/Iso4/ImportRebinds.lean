/-
The imports a prefix call overrides: `mergeRebindImports` of
`packages/iso4-sandbox/src/imports.ts`, beside the check of the runtime.

The host walks the override top-down, along the shape it kept from prepare, and stops at
the first value that does not fit; the runtime follows each path that was sent.  The
values of an override are any graph the caller built, so a value is only what the walk can
ask of it.

* `mergeRebindImports` — the walk, with the rebinds it sends and the handlers it leaves;
* `Names` — the locations an override names;
* `walkRebind_ok`, `walkRebind_error` — what was sent and set, or where the walk stopped;
* `mergeSpecifiers_ok`, `mergeSpecifiers_error` — the same over all specifiers.
-/
import Iso4.ImportCalls
import Iso4.PrefixRebinds

namespace Iso4

open Wire Ipc Imports

/-! ### The shape kept from prepare -/

mutual

/-- A node without what it holds. -/
def stripNode : HostModuleNode → HostModuleNode
  | .object entries => .object (strip entries)
  | .data _ => .data undefinedBlob
  | .function => .function

def strip : List (String × HostModuleNode) → List (String × HostModuleNode)
  | [] => []
  | (key, node) :: rest => (key, stripNode node) :: strip rest

end

def stripModule : ImportModule → ImportModule
  | .source _ => .source ""
  | .host exports => .host (strip exports)

def declaredImportShape (bindings : List ImportBinding) : List ImportBinding :=
  bindings.map fun b => ⟨b.specifier, stripModule b.module⟩

/-! ### The values of an override -/

/-- What the walk asks of a value: the entries of a plain object, the function it is, and
its `describeKind`. -/
structure HostValues (V F : Type) where
  plain : V → Option (List (JsString × V))
  function : V → Option F
  describeKind : V → String
  plain_nodup : ∀ {v entries}, plain v = some entries → (entries.map Prod.fst).Nodup
  function_plain : ∀ {v f}, function v = some f → plain v = none

/-- The `imports` option of a call: specifiers with their values. -/
structure RunImports (V : Type) where
  entries : List (JsString × V)
  specifiers_nodup : (entries.map Prod.fst).Nodup

structure ProcessedRebinds (F : Type) where
  rebinds : List ImportRebind
  handlers : HandlerMap F

inductive RebindError where
  | specifierNotWellFormed (units : List UInt16)
  | keyNotWellFormed (units : List UInt16)
  /-- An `ImportRebindError`. -/
  | importRebind (code : SetupErrorCode) (message : String)
  /-- A key too long for the wire. -/
  | unencodable

def RebindError.code : RebindError → Option SetupErrorCode
  | .importRebind code _ => some code
  | _ => none

def invalidModule (specifier kind : String) : String :=
  s!"import '{specifier}' can only be rebound with a plain object; got {kind}"

def invalidObject (specifier : String) (path : List String) (kind : String) : String :=
  let joined := String.intercalate "." path
  s!"import '{specifier}'.{joined} can only be rebound with a plain object; got {kind}"

def invalidFunction (specifier : String) (path : List String) (kind : String) : String :=
  let joined := String.intercalate "." path
  s!"import '{specifier}'.{joined} can only be rebound with a function; got {kind}"

theorem sizeOf_entryUnder {declared entries : List (String × HostModuleNode)} {key : String}
    (h : entryUnder declared key = some (.object entries)) : sizeOf entries < sizeOf declared := by
  obtain ⟨⟨k, node⟩, hfind, heq⟩ := Option.map_eq_some_iff.mp h
  have hmem := List.sizeOf_lt_of_mem (List.mem_of_find?_eq_some hfind)
  have hnode : node = .object entries := heq
  subst hnode
  simp only [Prod.mk.sizeOf_spec, HostModuleNode.object.sizeOf_spec] at hmem
  omega

section Merge

variable {V F : Type} (host : HostValues V F)

/-- `walkRebind`, with the entries of the override still to go through. -/
def walkRebind (specifier : String) (declared : List (String × HostModuleNode))
    (node : List (JsString × V)) (path : List String) (st : ProcessedRebinds F) :
    Except RebindError (ProcessedRebinds F) :=
  match node with
  | [] => .ok st
  | (.illFormed units, _) :: _ => .error (.keyNotWellFormed units)
  | (.wellFormed key, value) :: rest =>
    let segments := path ++ [key]
    match _hshape : entryUnder declared key with
    | none => .error (.importRebind .undeclaredBinding (undeclaredPath specifier segments))
    | some (.data _) => .error (.importRebind .frozenBinding (dataLeaf specifier segments))
    | some (.object entries) =>
      match host.plain value with
      | none =>
        .error (.importRebind .invalidRebind
          (invalidObject specifier segments (host.describeKind value)))
      | some children => do
        let st ← walkRebind specifier entries children segments st
        walkRebind specifier declared rest path st
    | some .function =>
      match host.function value with
      | none =>
        .error (.importRebind .invalidRebind
          (invalidFunction specifier segments (host.describeKind value)))
      | some f =>
        match encodeImportKey specifier segments with
        | none => .error .unencodable
        | some handlerKey =>
          walkRebind specifier declared rest path
            ⟨st.rebinds ++ [⟨specifier, segments⟩], st.handlers.set handlerKey f⟩
termination_by (sizeOf declared, node.length)
decreasing_by
  · exact Prod.Lex.left _ _ (sizeOf_entryUnder _hshape)
  · exact Prod.Lex.right _ (Nat.lt_succ_self _)
  · exact Prod.Lex.right _ (Nat.lt_succ_self _)

/-- The loop over the specifiers. -/
def mergeSpecifiers (declared : List ImportBinding) :
    List (JsString × V) → ProcessedRebinds F → Except RebindError (ProcessedRebinds F)
  | [], st => .ok st
  | (.illFormed units, _) :: _, _ => .error (.specifierNotWellFormed units)
  | (.wellFormed specifier, value) :: rest, st =>
    match declared.find? (·.specifier = specifier) with
    | none => .error (.importRebind .undeclaredBinding (undeclaredImport specifier))
    | some binding =>
      match binding.module with
      | .source _ => .error (.importRebind .frozenBinding (sourceImport specifier))
      | .host module =>
        match host.plain value with
        | none =>
          .error (.importRebind .invalidRebind
            (invalidModule specifier (host.describeKind value)))
        | some children => do
          let st ← walkRebind host specifier module children [] st
          mergeSpecifiers declared rest st

/-- `mergeRebindImports`; `none` is no override. -/
def mergeRebindImports (runImports : Option (RunImports V)) (defaults : HandlerMap F)
    (declared : List ImportBinding) : Except RebindError (ProcessedRebinds F) :=
  match runImports with
  | none => .ok ⟨[], defaults⟩
  | some imports => mergeSpecifiers host declared imports.entries ⟨[], defaults⟩

end Merge

/-! ### Locations of an override -/

section Locations

variable {V F : Type}

/-- The entry under a key. -/
def entryOf (entries : List (JsString × V)) (key : String) : Option V :=
  (entries.find? (·.1 = .wellFormed key)).map Prod.snd

variable (host : HostValues V F)

/-- The value at a path. -/
def HostValues.follow : List String → V → Option V
  | [], v => some v
  | key :: path, v =>
    (host.plain v).bind fun entries => (entryOf entries key).bind (HostValues.follow path)

/-- Plain objects and nothing else, all the way down. -/
def HostValues.Leafless (v : V) : Prop :=
  ∀ path w, host.follow path v = some w → host.plain w ≠ none

/-- No key, at any depth, has a lone surrogate. -/
def HostValues.WellFormedKeys (v : V) : Prop :=
  ∀ path w entries, host.follow path v = some w → host.plain w = some entries →
    ∀ e ∈ entries, ∃ key, e.1 = JsString.wellFormed key

/-- A value stands for itself and groups nothing: it is no plain object, or an object
without anything in it where none is declared. -/
def HostValues.Ends (declared : Location) (v : V) : Prop :=
  host.plain v = none ∨ (host.Leafless v ∧ ∀ entries, declared ≠ .node (.object entries))

def overrideEntries (runImports : Option (RunImports V)) : List (JsString × V) :=
  (runImports.map RunImports.entries).getD []

def WellFormedOverride (runImports : Option (RunImports V)) : Prop :=
  ∀ e ∈ overrideEntries runImports,
    (∃ specifier, e.1 = JsString.wellFormed specifier) ∧ host.WellFormedKeys e.2

/-- The value at a location, from the entries of an override. -/
def HostValues.Gives (entries : List (JsString × V)) (specifier : String) (path : List String)
    (w : V) : Prop :=
  ∃ v, (.wellFormed specifier, v) ∈ entries ∧ host.follow path v = some w

/-- The override names a location, with the value it gives there. -/
def Names (runImports : Option (RunImports V)) (declared : List ImportBinding) (specifier : String)
    (path : List String) (w : V) : Prop :=
  host.Gives (overrideEntries runImports) specifier path w ∧
    host.Ends (locationAt declared specifier path) w

/-- The value at a path from the entries of an object. -/
def HostValues.Reaches (node : List (JsString × V)) (path : List String) (w : V) : Prop :=
  ∃ key v rest, path = key :: rest ∧ (.wellFormed key, v) ∈ node ∧ host.follow rest v = some w

variable {host}

theorem entryOf_eq_some {entries : List (JsString × V)} (h : (entries.map Prod.fst).Nodup)
    {key : String} {v : V} : entryOf entries key = some v ↔ (.wellFormed key, v) ∈ entries := by
  unfold entryOf
  rw [Option.map_eq_some_iff]
  constructor
  · rintro ⟨⟨k, v'⟩, hfind, rfl⟩
    have hk : k = .wellFormed key := by simpa using List.find?_some hfind
    rw [← hk]
    exact List.mem_of_find?_eq_some hfind
  · intro hmem
    cases hfind : entries.find? (·.1 = .wellFormed key) with
    | none =>
      have hnone := List.find?_eq_none.mp hfind _ hmem
      simp at hnone
    | some e =>
      have hk : e.1 = .wellFormed key := by simpa using List.find?_some hfind
      have heq := List.inj_on_of_nodup_map h (List.mem_of_find?_eq_some hfind) hmem hk
      exact ⟨e, rfl, by rw [heq]⟩

theorem follow_of_plain {v w : V} {entries : List (JsString × V)} (h : host.plain v = some entries)
    {path : List String} :
    host.follow path v = some w ↔ (path = [] ∧ w = v) ∨ host.Reaches entries path w := by
  cases path with
  | nil =>
    have hnot : ¬ host.Reaches entries [] w := by
      rintro ⟨_, _, _, hnil, _⟩
      cases hnil
    simp [HostValues.follow, hnot, eq_comm]
  | cons key path =>
    simp only [HostValues.follow, h, Option.bind_some, reduceCtorEq, false_and, false_or]
    rw [Option.bind_eq_some_iff]
    constructor
    · rintro ⟨c, hc, hw⟩
      exact ⟨key, c, path, rfl, (entryOf_eq_some (host.plain_nodup h)).mp hc, hw⟩
    · rintro ⟨_, c, _, heq, hc, hw⟩
      cases heq
      exact ⟨c, (entryOf_eq_some (host.plain_nodup h)).mpr hc, hw⟩

theorem follow_of_not_plain {v w : V} (h : host.plain v = none) {path : List String} :
    host.follow path v = some w ↔ path = [] ∧ w = v := by
  cases path with
  | nil => simp [HostValues.follow, eq_comm]
  | cons key path => simp [HostValues.follow, h]

theorem reaches_cons {key : String} {v w : V} {rest : List (JsString × V)} {path : List String} :
    host.Reaches ((.wellFormed key, v) :: rest) path w ↔
      (∃ p, path = key :: p ∧ host.follow p v = some w) ∨ host.Reaches rest path w := by
  constructor
  · rintro ⟨k, c, p, hpath, hmem, hw⟩
    rcases List.mem_cons.mp hmem with heq | hmem
    · cases heq
      exact Or.inl ⟨p, hpath, hw⟩
    · exact Or.inr ⟨k, c, p, hpath, hmem, hw⟩
  · rintro (⟨p, hpath, hw⟩ | ⟨k, c, p, hpath, hmem, hw⟩)
    · exact ⟨key, v, p, hpath, List.mem_cons_self, hw⟩
    · exact ⟨k, c, p, hpath, List.mem_cons_of_mem _ hmem, hw⟩

theorem HostValues.WellFormedKeys.entries {v : V} {children : List (JsString × V)}
    (h : host.WellFormedKeys v) (hplain : host.plain v = some children) :
    ∀ c ∈ children, (∃ key, c.1 = .wellFormed key) ∧ host.WellFormedKeys c.2 := by
  intro c hc
  obtain ⟨k, hk⟩ := h [] v children rfl hplain c hc
  refine ⟨⟨k, hk⟩, fun p w entries hw => h (k :: p) w entries ?_⟩
  refine (follow_of_plain hplain).mpr (Or.inr ⟨k, c.2, p, rfl, ?_, hw⟩)
  rw [← hk]
  exact hc

/-! ### The walk -/

/-- The functions an accepted walk sent and set, with their paths from where it started. -/
structure Rebound (host : HostValues V F) (specifier : String) (declared : List (String × HostModuleNode))
    (node : List (JsString × V)) (path : List String) (st st' : ProcessedRebinds F)
    (rs : List (List String × F)) : Prop where
  rebinds : st'.rebinds = st.rebinds ++ rs.map fun r => ⟨specifier, path ++ r.1⟩
  handlers : st'.handlers = setPlaced st.handlers (rs.map fun r => ((specifier, path ++ r.1), r.2))
  keyed : ∀ r ∈ rs, Keyed specifier (path ++ r.1)
  functions : ∀ q f, (q, f) ∈ rs ↔ ∃ w, host.Reaches node q w ∧ host.function w = some f
  named : ∀ q w, host.Reaches node q w → host.Ends (.ofNode (nodeAt q (.object declared))) w →
    nodeAt q (.object declared) = some .function ∧ ∃ f, host.function w = some f

theorem setPlaced_append (handlers : HandlerMap F) (all all' : List (Placed F)) :
    setPlaced handlers (all ++ all') = setPlaced (setPlaced handlers all) all' := List.foldl_append

variable {specifier : String}

/-- A plain object over a declared object names what is in it, and the rest of its level. -/
theorem Rebound.object {declared entries : List (String × HostModuleNode)} {key : String} {v : V}
    {children rest : List (JsString × V)} {path : List String} {st st₁ st₂ : ProcessedRebinds F}
    {rs rs' : List (List String × F)} (hshape : entryUnder declared key = some (.object entries))
    (hplain : host.plain v = some children)
    (h : Rebound host specifier entries children (path ++ [key]) st st₁ rs)
    (h' : Rebound host specifier declared rest path st₁ st₂ rs') :
    Rebound host specifier declared ((.wellFormed key, v) :: rest) path st st₂
      (rs.map (fun r => (key :: r.1, r.2)) ++ rs') where
  rebinds := by
    rw [h'.rebinds, h.rebinds]
    simp
  handlers := by
    rw [h'.handlers, h.handlers, List.map_append, setPlaced_append]
    simp [Function.comp_def]
  keyed := by
    intro r hr
    rcases List.mem_append.mp hr with hr | hr
    · obtain ⟨r', hr', rfl⟩ := List.mem_map.mp hr
      have hk := h.keyed r' hr'
      rwa [List.append_assoc] at hk
    · exact h'.keyed r hr
  functions := by
    intro q f
    rw [List.mem_append, h'.functions q f, List.mem_map]
    constructor
    · rintro (⟨⟨p, f'⟩, hr, heq⟩ | ⟨w, hw, hf⟩)
      · cases heq
        obtain ⟨w, hw, hf⟩ := (h.functions p f').mp hr
        exact ⟨w, reaches_cons.mpr (Or.inl ⟨p, rfl, (follow_of_plain hplain).mpr (Or.inr hw)⟩), hf⟩
      · exact ⟨w, reaches_cons.mpr (Or.inr hw), hf⟩
    · rintro ⟨w, hw, hf⟩
      rcases reaches_cons.mp hw with ⟨p, rfl, hp⟩ | hw
      · rcases (follow_of_plain hplain).mp hp with ⟨-, rfl⟩ | hp
        · rw [host.function_plain hf] at hplain
          cases hplain
        · exact Or.inl ⟨(p, f), (h.functions p f).mpr ⟨w, hp, hf⟩, rfl⟩
      · exact Or.inr ⟨w, hw, hf⟩
  named := by
    intro q w hw hends
    rcases reaches_cons.mp hw with ⟨p, rfl, hp⟩ | hw
    · have hat : nodeAt (key :: p) (.object declared) = nodeAt p (.object entries) := by
        show (entryUnder declared key).bind (nodeAt p) = _
        rw [hshape, Option.bind_some]
      rw [hat] at hends ⊢
      rcases (follow_of_plain hplain).mp hp with ⟨rfl, rfl⟩ | hp
      · -- The object itself groups what is in it.
        rcases hends with hends | ⟨-, hends⟩
        · rw [hplain] at hends
          cases hends
        · exact absurd rfl (hends entries)
      · exact h.named p w hp hends
    · exact h'.named q w hw hends

/-- A function over a declared function. -/
theorem Rebound.function {declared : List (String × HostModuleNode)} {key : String} {v : V} {f : F}
    {rest : List (JsString × V)} {path : List String} {st st' : ProcessedRebinds F}
    {rs : List (List String × F)} (hshape : entryUnder declared key = some .function)
    (hf : host.function v = some f) (hkeyed : Keyed specifier (path ++ [key]))
    (h : Rebound host specifier declared rest path
      ⟨st.rebinds ++ [⟨specifier, path ++ [key]⟩],
        st.handlers.set (importKey specifier (path ++ [key])) f⟩ st' rs) :
    Rebound host specifier declared ((.wellFormed key, v) :: rest) path st st' (([key], f) :: rs) where
  rebinds := by
    rw [h.rebinds]
    simp
  handlers := by
    rw [h.handlers]
    rfl
  keyed := by
    intro r hr
    rcases List.mem_cons.mp hr with rfl | hr
    · exact hkeyed
    · exact h.keyed r hr
  functions := by
    intro q g
    rw [List.mem_cons, h.functions q g]
    constructor
    · rintro (heq | ⟨w, hw, hg⟩)
      · cases heq
        exact ⟨v, reaches_cons.mpr (Or.inl ⟨[], rfl, rfl⟩), hf⟩
      · exact ⟨w, reaches_cons.mpr (Or.inr hw), hg⟩
    · rintro ⟨w, hw, hg⟩
      rcases reaches_cons.mp hw with ⟨p, rfl, hp⟩ | hw
      · obtain ⟨rfl, rfl⟩ := (follow_of_not_plain (host.function_plain hf)).mp hp
        rw [hf] at hg
        cases hg
        exact Or.inl rfl
      · exact Or.inr ⟨w, hw, hg⟩
  named := by
    intro q w hw hends
    rcases reaches_cons.mp hw with ⟨p, rfl, hp⟩ | hw
    · obtain ⟨rfl, rfl⟩ := (follow_of_not_plain (host.function_plain hf)).mp hp
      refine ⟨?_, f, hf⟩
      show (entryUnder declared key).bind (nodeAt []) = _
      rw [hshape]
      rfl
    · exact h.named q w hw hends

theorem keyed_of_encodeImportKey {path : List String} {key : Blob}
    (h : encodeImportKey specifier path = some key) : Keyed specifier path ∧ key = importKey specifier path := by
  refine importHandlerKey_ok ?_
  unfold importHandlerKey
  rw [h]

section Equations

variable {declared : List (String × HostModuleNode)} {key : String} {v : V}
  {rest : List (JsString × V)} {path : List String} {st : ProcessedRebinds F}

theorem walkRebind_undeclared (hshape : entryUnder declared key = none) :
    walkRebind host specifier declared ((.wellFormed key, v) :: rest) path st =
      .error (.importRebind .undeclaredBinding (undeclaredPath specifier (path ++ [key]))) := by
  rw [walkRebind]
  split
  · rfl
  all_goals next h => cases hshape.symm.trans h

theorem walkRebind_data {blob : Blob} (hshape : entryUnder declared key = some (.data blob)) :
    walkRebind host specifier declared ((.wellFormed key, v) :: rest) path st =
      .error (.importRebind .frozenBinding (dataLeaf specifier (path ++ [key]))) := by
  rw [walkRebind]
  split
  case h_2 => rfl
  all_goals next h => cases hshape.symm.trans h

theorem walkRebind_object {entries : List (String × HostModuleNode)}
    (hshape : entryUnder declared key = some (.object entries)) :
    walkRebind host specifier declared ((.wellFormed key, v) :: rest) path st =
      (host.plain v).elim
        (.error (.importRebind .invalidRebind
          (invalidObject specifier (path ++ [key]) (host.describeKind v))))
        fun children => walkRebind host specifier entries children (path ++ [key]) st >>=
          walkRebind host specifier declared rest path := by
  rw [walkRebind]
  split
  case h_3 h =>
    cases hshape.symm.trans h
    cases host.plain v <;> rfl
  all_goals next h => cases hshape.symm.trans h

theorem walkRebind_function (hshape : entryUnder declared key = some .function) :
    walkRebind host specifier declared ((.wellFormed key, v) :: rest) path st =
      (host.function v).elim
        (.error (.importRebind .invalidRebind
          (invalidFunction specifier (path ++ [key]) (host.describeKind v))))
        fun f => (encodeImportKey specifier (path ++ [key])).elim (.error .unencodable) fun k =>
          walkRebind host specifier declared rest path
            ⟨st.rebinds ++ [⟨specifier, path ++ [key]⟩], st.handlers.set k f⟩ := by
  rw [walkRebind]
  split
  case h_4 =>
    cases host.function v with
    | none => rfl
    | some f => cases encodeImportKey specifier (path ++ [key]) <;> rfl
  all_goals next h => cases hshape.symm.trans h

end Equations

theorem Rebound.nil {declared : List (String × HostModuleNode)} {path : List String}
    {st : ProcessedRebinds F} : Rebound host specifier declared [] path st st [] where
  rebinds := (List.append_nil _).symm
  handlers := rfl
  keyed _ hr := absurd hr List.not_mem_nil
  functions q f := by
    refine ⟨fun hr => absurd hr List.not_mem_nil, ?_⟩
    rintro ⟨_, ⟨_, _, _, _, hmem, _⟩, _⟩
    exact absurd hmem List.not_mem_nil
  named := by
    rintro q w ⟨_, _, _, _, hmem, _⟩
    exact absurd hmem List.not_mem_nil

theorem walkRebind_ok (declared : List (String × HostModuleNode)) (node : List (JsString × V))
    (path : List String) (st st' : ProcessedRebinds F)
    (h : walkRebind host specifier declared node path st = .ok st') :
    ∃ rs, Rebound host specifier declared node path st st' rs := by
  induction declared, node, path, st using walkRebind.induct host specifier generalizing st' with
  | case1 declared path st =>
    rw [walkRebind] at h
    cases h
    exact ⟨[], Rebound.nil⟩
  | case2 declared path st units c rest =>
    rw [walkRebind] at h
    cases h
  | case3 declared path st key v rest hshape =>
    rw [walkRebind_undeclared hshape] at h
    cases h
  | case4 declared path st key v rest blob hshape =>
    rw [walkRebind_data hshape] at h
    cases h
  | case5 declared path st key v rest entries hshape hplain =>
    rw [walkRebind_object hshape, hplain] at h
    cases h
  | case6 declared path st key v rest segments entries hshape children hplain ih ih' =>
    rw [walkRebind_object hshape, hplain] at h
    obtain ⟨st₁, h₁, h₂⟩ := except_bind h
    obtain ⟨rs, hrs⟩ := ih st₁ h₁
    obtain ⟨rs', hrs'⟩ := ih' st₁ st' h₂
    exact ⟨_, hrs.object hshape hplain hrs'⟩
  | case7 declared path st key v rest hshape hnone =>
    rw [walkRebind_function hshape, hnone] at h
    cases h
  | case8 declared path st key v rest segments hshape f hf hkey =>
    rw [walkRebind_function hshape, hf, Option.elim_some, hkey] at h
    cases h
  | case9 declared path st key v rest segments hshape f hf k hkey ih =>
    rw [walkRebind_function hshape, hf, Option.elim_some, hkey, Option.elim_some] at h
    obtain ⟨hkeyed, rfl⟩ := keyed_of_encodeImportKey hkey
    obtain ⟨rs, hrs⟩ := ih st' h
    exact ⟨_, hrs.function hshape hf hkeyed⟩

/-! ### Refusals -/

/-- What stops the walk at a value, and the code it throws. -/
inductive HostValues.Blocks (host : HostValues V F) : Location → V → SetupErrorCode → Prop where
  | undeclared (c : V) : Blocks host .undeclared c .undeclaredBinding
  | sourceModule (c : V) : Blocks host .sourceModule c .frozenBinding
  | data (blob : Blob) (c : V) : Blocks host (.node (.data blob)) c .frozenBinding
  | object (entries : List (String × HostModuleNode)) {c : V} (h : host.plain c = none) :
    Blocks host (.node (.object entries)) c .invalidRebind
  | function {c : V} (h : host.function c = none) : Blocks host (.node .function) c .invalidRebind

/-- The walk below an object stopped at a path: everything above it is an object. -/
structure Stopped (host : HostValues V F) (declared : List (String × HostModuleNode))
    (node : List (JsString × V)) (path : List String) (code : SetupErrorCode) : Prop where
  blocks : ∃ c, host.Reaches node path c ∧
    host.Blocks (.ofNode (nodeAt path (.object declared))) c code
  above : ∀ p q, path = p ++ q → q ≠ [] → ∃ entries, nodeAt p (.object declared) = some (.object entries)

theorem Stopped.here {declared : List (String × HostModuleNode)} {key : String} {c : V}
    {rest : List (JsString × V)} {code : SetupErrorCode}
    (h : host.Blocks (.ofNode (entryUnder declared key)) c code) :
    Stopped host declared ((.wellFormed key, c) :: rest) [key] code where
  blocks := by
    refine ⟨c, reaches_cons.mpr (Or.inl ⟨[], rfl, rfl⟩), ?_⟩
    have hat : nodeAt [key] (.object declared) = entryUnder declared key := by
      show (entryUnder declared key).bind (nodeAt []) = _
      cases entryUnder declared key <;> rfl
    rwa [hat]
  above := by
    intro p q hpath hq
    cases p with
    | nil => exact ⟨declared, rfl⟩
    | cons k p =>
      obtain ⟨-, hrest⟩ := List.cons.inj hpath
      exact absurd (List.append_eq_nil_iff.mp hrest.symm).2 hq

theorem Stopped.later {declared : List (String × HostModuleNode)} {e : JsString × V}
    {rest : List (JsString × V)} {path : List String} {code : SetupErrorCode}
    (h : Stopped host declared rest path code) : Stopped host declared (e :: rest) path code where
  blocks := by
    obtain ⟨c, ⟨k, v, p, hpath, hmem, hc⟩, hb⟩ := h.blocks
    exact ⟨c, ⟨k, v, p, hpath, List.mem_cons_of_mem _ hmem, hc⟩, hb⟩
  above := h.above

theorem Stopped.below {declared entries : List (String × HostModuleNode)} {key : String} {v : V}
    {children rest : List (JsString × V)} {path : List String} {code : SetupErrorCode}
    (hshape : entryUnder declared key = some (.object entries)) (hplain : host.plain v = some children)
    (h : Stopped host entries children path code) :
    Stopped host declared ((.wellFormed key, v) :: rest) (key :: path) code := by
  have hat : ∀ p, nodeAt (key :: p) (.object declared) = nodeAt p (.object entries) := by
    intro p
    show (entryUnder declared key).bind (nodeAt p) = _
    rw [hshape, Option.bind_some]
  constructor
  · obtain ⟨c, hc, hb⟩ := h.blocks
    rw [hat]
    exact ⟨c, reaches_cons.mpr (Or.inl ⟨path, rfl, (follow_of_plain hplain).mpr (Or.inr hc)⟩), hb⟩
  · intro p q hpath hq
    cases p with
    | nil => exact ⟨declared, rfl⟩
    | cons k p =>
      obtain ⟨rfl, hrest⟩ := List.cons.inj hpath
      rw [hat]
      exact h.above p q hrest hq

/-- A walk over well-formed keys throws nothing but refusals of locations. -/
theorem walkRebind_error (declared : List (String × HostModuleNode)) (node : List (JsString × V))
    (path : List String) (st : ProcessedRebinds F) {e : RebindError}
    (h : walkRebind host specifier declared node path st = .error e)
    (hkeys : ∀ c ∈ node, (∃ key, c.1 = .wellFormed key) ∧ host.WellFormedKeys c.2)
    (hkeyed : ∀ q, nodeAt q (.object declared) = some .function → Keyed specifier (path ++ q)) :
    ∃ q code, e.code = some code ∧ Stopped host declared node q code := by
  induction declared, node, path, st using walkRebind.induct host specifier with
  | case1 declared path st =>
    rw [walkRebind] at h
    cases h
  | case2 declared path st units c rest =>
    obtain ⟨⟨key, hkey⟩, -⟩ := hkeys _ List.mem_cons_self
    cases hkey
  | case3 declared path st key v rest hshape =>
    rw [walkRebind_undeclared hshape] at h
    cases h
    refine ⟨[key], _, rfl, .here ?_⟩
    rw [hshape]
    exact .undeclared v
  | case4 declared path st key v rest blob hshape =>
    rw [walkRebind_data hshape] at h
    cases h
    refine ⟨[key], _, rfl, .here ?_⟩
    rw [hshape]
    exact .data blob v
  | case5 declared path st key v rest entries hshape hplain =>
    rw [walkRebind_object hshape, hplain] at h
    cases h
    refine ⟨[key], _, rfl, .here ?_⟩
    rw [hshape]
    exact .object entries hplain
  | case6 declared path st key v rest segments entries hshape children hplain ih ih' =>
    rw [walkRebind_object hshape, hplain, Option.elim_some] at h
    have hat : ∀ p, nodeAt (key :: p) (.object declared) = nodeAt p (.object entries) := by
      intro p
      show (entryUnder declared key).bind (nodeAt p) = _
      rw [hshape, Option.bind_some]
    cases hwalk : walkRebind host specifier entries children (path ++ [key]) st with
    | error e' =>
      rw [hwalk] at h
      cases h
      have hchild := (hkeys _ List.mem_cons_self).2.entries hplain
      obtain ⟨q, code, hcode, hstop⟩ := ih hwalk hchild fun q hq => by
        have hk := hkeyed (key :: q) ((hat q).trans hq)
        rwa [← List.singleton_append, ← List.append_assoc] at hk
      exact ⟨key :: q, code, hcode, hstop.below hshape hplain⟩
    | ok st₁ =>
      rw [hwalk] at h
      obtain ⟨q, code, hcode, hstop⟩ := ih' st₁ h
        (fun c hc => hkeys c (List.mem_cons_of_mem _ hc)) hkeyed
      exact ⟨q, code, hcode, hstop.later⟩
  | case7 declared path st key v rest hshape hnone =>
    rw [walkRebind_function hshape, hnone] at h
    cases h
    refine ⟨[key], _, rfl, .here ?_⟩
    rw [hshape]
    exact .function hnone
  | case8 declared path st key v rest segments hshape f hf hkey =>
    have hk := hkeyed [key] (by
      show (entryUnder declared key).bind (nodeAt []) = _
      rw [hshape]
      rfl)
    have henc := encodeImportKey_of_fits hk.specifier_fits hk.count_fits hk.segment_fits
    rw [hkey] at henc
    cases henc
  | case9 declared path st key v rest segments hshape f hf k hkey ih =>
    rw [walkRebind_function hshape, hf, Option.elim_some, hkey, Option.elim_some] at h
    obtain ⟨q, code, hcode, hstop⟩ := ih h (fun c hc => hkeys c (List.mem_cons_of_mem _ hc)) hkeyed
    exact ⟨q, code, hcode, hstop.later⟩

/-! ### All specifiers -/

theorem gives_cons {e : JsString × V} {rest : List (JsString × V)} {specifier : String}
    {path : List String} {w : V} :
    host.Gives (e :: rest) specifier path w ↔
      (e.1 = .wellFormed specifier ∧ host.follow path e.2 = some w) ∨ host.Gives rest specifier path w := by
  constructor
  · rintro ⟨v, hmem, hw⟩
    rcases List.mem_cons.mp hmem with rfl | hmem
    · exact Or.inl ⟨rfl, hw⟩
    · exact Or.inr ⟨v, hmem, hw⟩
  · rintro (⟨hkey, hw⟩ | ⟨v, hmem, hw⟩)
    · exact ⟨e.2, by rw [← hkey]; exact List.mem_cons_self, hw⟩
    · exact ⟨v, List.mem_cons_of_mem _ hmem, hw⟩

/-- The functions an accepted override sent and set. -/
structure Merged (host : HostValues V F) (declared : List ImportBinding) (entries : List (JsString × V))
    (st st' : ProcessedRebinds F) (all : List (Placed F)) : Prop where
  rebinds : st'.rebinds = st.rebinds ++ all.map fun l => ⟨l.1.1, l.1.2⟩
  handlers : st'.handlers = setPlaced st.handlers all
  keyed : ∀ l ∈ all, Keyed l.1.1 l.1.2
  functions : ∀ specifier path f, ((specifier, path), f) ∈ all ↔
    ∃ w, host.Gives entries specifier path w ∧ host.function w = some f
  named : ∀ specifier path w, host.Gives entries specifier path w →
    host.Ends (locationAt declared specifier path) w →
    locationAt declared specifier path = .node .function ∧ ∃ f, host.function w = some f

theorem locationAt_host {declared : List ImportBinding} {binding : ImportBinding}
    {module : List (String × HostModuleNode)} (hfind : declared.find? (·.specifier = specifier) = some binding)
    (hmodule : binding.module = .host module) (path : List String) :
    locationAt declared specifier path = .ofNode (nodeAt path (.object module)) := by
  unfold locationAt
  rw [hfind]
  dsimp only
  rw [hmodule]

theorem ofNode_eq_node {o : Option HostModuleNode} {n : HostModuleNode} :
    Location.ofNode o = .node n ↔ o = some n := by
  cases o <;> simp [Location.ofNode]

/-- One more host module. -/
theorem Merged.cons {declared : List ImportBinding} {binding : ImportBinding}
    {module : List (String × HostModuleNode)} {v : V} {children rest : List (JsString × V)}
    {st st₁ st₂ : ProcessedRebinds F} {rs : List (List String × F)} {all : List (Placed F)}
    (hfind : declared.find? (·.specifier = specifier) = some binding)
    (hmodule : binding.module = .host module) (hplain : host.plain v = some children)
    (h : Rebound host specifier module children [] st st₁ rs)
    (h' : Merged host declared rest st₁ st₂ all) :
    Merged host declared ((.wellFormed specifier, v) :: rest) st st₂
      (rs.map (fun r => ((specifier, r.1), r.2)) ++ all) where
  rebinds := by
    rw [h'.rebinds, h.rebinds]
    simp
  handlers := by
    rw [h'.handlers, h.handlers, setPlaced_append]
    simp
  keyed := by
    intro l hl
    rcases List.mem_append.mp hl with hl | hl
    · obtain ⟨r, hr, rfl⟩ := List.mem_map.mp hl
      exact h.keyed r hr
    · exact h'.keyed l hl
  functions := by
    intro spec path f
    rw [List.mem_append, h'.functions spec path f, List.mem_map]
    constructor
    · rintro (⟨⟨p, f'⟩, hr, heq⟩ | ⟨w, hw, hf⟩)
      · cases heq
        obtain ⟨w, hw, hf⟩ := (h.functions p f').mp hr
        exact ⟨w, gives_cons.mpr (Or.inl ⟨rfl, (follow_of_plain hplain).mpr (Or.inr hw)⟩), hf⟩
      · exact ⟨w, gives_cons.mpr (Or.inr hw), hf⟩
    · rintro ⟨w, hw, hf⟩
      rcases gives_cons.mp hw with ⟨heq, hfollow⟩ | hrest
      · cases heq
        rcases (follow_of_plain hplain).mp hfollow with ⟨-, rfl⟩ | hreach
        · rw [host.function_plain hf] at hplain
          cases hplain
        · exact Or.inl ⟨(path, f), (h.functions path f).mpr ⟨w, hreach, hf⟩, rfl⟩
      · exact Or.inr ⟨w, hrest, hf⟩
  named := by
    intro spec path w hw hends
    rcases gives_cons.mp hw with ⟨heq, hfollow⟩ | hrest
    · cases heq
      rw [locationAt_host hfind hmodule] at hends ⊢
      rcases (follow_of_plain hplain).mp hfollow with ⟨rfl, rfl⟩ | hreach
      · rcases hends with hends | ⟨-, hends⟩
        · rw [hplain] at hends
          cases hends
        · exact absurd rfl (hends module)
      · obtain ⟨hat, hf⟩ := h.named path w hreach hends
        exact ⟨ofNode_eq_node.mpr hat, hf⟩
    · exact h'.named spec path w hrest hends

theorem mergeSpecifiers_ok {declared : List ImportBinding} (entries : List (JsString × V))
    {st st' : ProcessedRebinds F} (h : mergeSpecifiers host declared entries st = .ok st') :
    ∃ all, Merged host declared entries st st' all := by
  induction entries generalizing st with
  | nil =>
    cases h
    refine ⟨[], (List.append_nil _).symm, rfl, fun l hl => absurd hl List.not_mem_nil, ?_, ?_⟩
    · refine fun spec path f => ⟨fun hl => absurd hl List.not_mem_nil, ?_⟩
      rintro ⟨_, ⟨_, hmem, _⟩, _⟩
      exact absurd hmem List.not_mem_nil
    · rintro spec path w ⟨_, hmem, _⟩
      exact absurd hmem List.not_mem_nil
  | cons e rest ih =>
    obtain ⟨key, v⟩ := e
    cases key with
    | illFormed units => cases h
    | wellFormed specifier =>
      rw [mergeSpecifiers] at h
      split at h
      · cases h
      · next binding hfind =>
        split at h
        · cases h
        · next module hmodule =>
          split at h
          · cases h
          · next children hplain =>
            obtain ⟨st₁, hwalk, hrest⟩ := except_bind h
            obtain ⟨rs, hrs⟩ := walkRebind_ok _ _ _ _ _ hwalk
            obtain ⟨all, hall⟩ := ih hrest
            exact ⟨_, Merged.cons hfind hmodule hplain hrs hall⟩

/-- A location at which the whole merge stopped. -/
structure StoppedAt (host : HostValues V F) (declared : List ImportBinding) (entries : List (JsString × V))
    (specifier : String) (path : List String) (code : SetupErrorCode) : Prop where
  blocks : ∃ c, host.Gives entries specifier path c ∧
    host.Blocks (locationAt declared specifier path) c code
  above : ∀ p q, path = p ++ q → q ≠ [] →
    ∃ entries, locationAt declared specifier p = .node (.object entries)

theorem StoppedAt.root {declared : List ImportBinding} {rest : List (JsString × V)} {c : V}
    {code : SetupErrorCode} (h : host.Blocks (locationAt declared specifier []) c code) :
    StoppedAt host declared ((.wellFormed specifier, c) :: rest) specifier [] code where
  blocks := ⟨c, gives_cons.mpr (Or.inl ⟨rfl, rfl⟩), h⟩
  above := fun _ _ hpath hq => absurd (List.append_eq_nil_iff.mp hpath.symm).2 hq

theorem mergeSpecifiers_error {declared : List ImportBinding} (entries : List (JsString × V))
    {st : ProcessedRebinds F} {e : RebindError}
    (h : mergeSpecifiers host declared entries st = .error e)
    (hkeys : ∀ c ∈ entries, (∃ specifier, c.1 = .wellFormed specifier) ∧ host.WellFormedKeys c.2)
    (hkeyed : ∀ specifier path, locationAt declared specifier path = .node .function →
      Keyed specifier path) :
    ∃ specifier path code, e.code = some code ∧
      StoppedAt host declared entries specifier path code := by
  induction entries generalizing st with
  | nil => cases h
  | cons c rest ih =>
    obtain ⟨key, v⟩ := c
    obtain ⟨⟨specifier, rfl⟩, hv⟩ := hkeys _ List.mem_cons_self
    rw [mergeSpecifiers] at h
    split at h
    · next hfind =>
      cases h
      refine ⟨specifier, [], _, rfl, .root ?_⟩
      unfold locationAt
      rw [hfind]
      exact .undeclared v
    · next binding hfind =>
      split at h
      · next text hmodule =>
        cases h
        refine ⟨specifier, [], _, rfl, .root ?_⟩
        unfold locationAt
        rw [hfind]
        dsimp only
        rw [hmodule]
        exact .sourceModule v
      · next module hmodule =>
        have hat := locationAt_host hfind hmodule
        split at h
        · next hplain =>
          cases h
          refine ⟨specifier, [], _, rfl, .root ?_⟩
          rw [hat]
          exact .object module hplain
        · next children hplain =>
          cases hwalk : walkRebind host specifier module children [] st with
          | error e' =>
            rw [hwalk] at h
            cases h
            obtain ⟨q, code, hcode, hstop⟩ := walkRebind_error _ _ _ _ hwalk
              (hv.entries hplain) fun q hq => hkeyed specifier q ((hat q).trans (ofNode_eq_node.mpr hq))
            obtain ⟨c, hc, hb⟩ := hstop.blocks
            refine ⟨specifier, q, code, hcode, ⟨c, ?_, ?_⟩, fun p r hpath hr => ?_⟩
            · exact gives_cons.mpr (Or.inl ⟨rfl, (follow_of_plain hplain).mpr (Or.inr hc)⟩)
            · rwa [hat]
            · obtain ⟨es, hes⟩ := hstop.above p r hpath hr
              exact ⟨es, (hat p).trans (ofNode_eq_node.mpr hes)⟩
          | ok st₁ =>
            rw [hwalk] at h
            obtain ⟨spec, q, code, hcode, hstop⟩ := ih h fun c hc => hkeys c (List.mem_cons_of_mem _ hc)
            obtain ⟨c, hc, hb⟩ := hstop.blocks
            exact ⟨spec, q, code, hcode, ⟨c, gives_cons.mpr (Or.inr hc), hb⟩, hstop.above⟩

end Locations

end Iso4
