/-
What the runtime reads of what the client writes.

Every field, every list and every host-module shape that the client writes is read
back by the runtime; the depth bounds of the two sides agree.

* `host_to_runtime_roundtrip` — the ten payloads, and the depth bound;
* `payload_not_verbatim` — what the runtime resolves, drops or refuses.
-/
import Iso4.Payloads

namespace Iso4

open Wire

namespace Ipc

open PayloadWriter PayloadReader

/-! ### Fields -/

/-- The byte length of the text fits its field. -/
def TextFits (s : String) : Prop := (utf8 s).length < 2 ^ 32

def BlobFits (b : Blob) : Prop := b.length < 2 ^ 32

theorem reads_text {readLen : Read Nat} {s : String} (short : IoError) (notUtf8 : String)
    (hlen : Reads 4 (writeU32 (utf8 s).length) readLen (.ok (utf8 s).length)) :
    Reads 4 (writeString s) (readText readLen short notUtf8) (.ok s) := by
  refine (hlen.bind ((reads_take _ (utf8 s)).map _ fun left => ?_)).weaken (Nat.le_add_right _ _)
  rw [ofUtf8_utf8]
  rfl

theorem reads_blob {readLen : Read Nat} {b : Blob} (short : IoError)
    (hlen : Reads 4 (writeU32 b.length) readLen (.ok b.length)) :
    Reads 4 (writeLengthPrefixedBytes b) (readBlob readLen short) (.ok b) :=
  (hlen.bind (reads_take _ b)).weaken (Nat.le_add_right _ _)

theorem reads_string {s : String} (h : TextFits s) : Reads 4 (writeString s) readString (.ok s) :=
  reads_text _ _ (reads_u32 _ h)

theorem reads_valueBlob {b : Blob} (h : BlobFits b) :
    Reads 4 (writeLengthPrefixedBytes b) readValueBlob (.ok b) :=
  reads_blob _ (reads_u32 _ h)

theorem reads_bool (b : Bool) : Reads 1 (writeBool b) readBool (.ok b) := by
  refine (reads_u8 _ _).map _ fun left => ?_
  cases b <;> rfl

theorem reads_optional {α : Type} {write : α → Written} {read : Read α} {o : Option α} {k : Nat}
    (h : ∀ a, o = some a → Reads k (write a) read (.ok a)) :
    Reads 1 (writeOptional write o) (readOptional read) (.ok o) := by
  cases o with
  | none => exact (reads_u8 _ _).map _ fun _ => rfl
  | some a =>
    refine ((reads_u8 _ 1).bind ?_).weaken (Nat.le_add_right 1 k)
    exact (h a rfl).map _ fun _ => rfl

theorem reads_optionalString {o : Option String} (h : ∀ s, o = some s → TextFits s) :
    Reads 1 (writeOptionalString o) readOptionalString (.ok o) :=
  reads_optional fun s hs => reads_string (h s hs)

theorem reads_optionalU32 {o : Option Nat} (h : ∀ n, o = some n → n < 2 ^ 32) :
    Reads 1 (writeOptionalU32 o) readOptionalU32 (.ok o) :=
  reads_optional fun n hn => reads_u32 _ (h n hn)

/-- A list whose entries take a byte or more passes the count check. -/
theorem reads_counted {α : Type} {count : Nat} {body : Written} {entry : Read α}
    {res : Except IoError (List α)} (what : String) (hcount : count < 2 ^ 32)
    (h : Reads count body (Reader.times entry count) res) :
    Reads 4 (writeU32 count ++ body) (readList what entry) res := by
  refine ((reads_u32 _ hcount).bind ?_).weaken (Nat.le_add_right 4 count)
  obtain ⟨bs, hw, hk, hr⟩ := h
  refine ⟨bs, hw, hk, fun left => ?_⟩
  have hlen : ¬ (bs ++ left).length < count := by
    rw [List.length_append]
    omega
  rw [← hr left]
  show (if (bs ++ left).length < count then _ else Reader.times entry count : Read (List α)) _ = _
  rw [if_neg hlen]

theorem reads_list {α γ : Type} {write : γ → Written} {entry : Read α} (conv : γ → α) {cs : List γ}
    (what : String) (hcount : cs.length < 2 ^ 32)
    (h : ∀ c ∈ cs, Reads 1 (write c) entry (.ok (conv c))) :
    Reads 4 (writeList write cs) (readList what entry) (.ok (cs.map conv)) :=
  reads_counted what hcount (Reads.times h)

/-! ### Host-module shapes -/

mutual

/-- The lengths in a shape fit their fields. -/
def NodeFits : HostModuleNode → Prop
  | .function => True
  | .data blob => BlobFits blob
  | .object entries => entries.length < 2 ^ 32 ∧ EntriesFit entries

def EntriesFit : List (String × HostModuleNode) → Prop
  | [] => True
  | (key, child) :: rest => TextFits key ∧ NodeFits child ∧ EntriesFit rest

end

mutual

/-- The levels of a shape. -/
def height : HostModuleNode → Nat
  | .function => 1
  | .data _ => 1
  | .object entries => heights entries + 1

def heights : List (String × HostModuleNode) → Nat
  | [] => 0
  | (_, child) :: rest => max (height child) (heights rest)

end

theorem height_pos (n : HostModuleNode) : 0 < height n := by
  cases n <;> simp [height]

/-- The loop body of an object or of a host module. -/
def readEntry (levels : Nat) : Read (String × HostModuleNode) := do
  let key ← readString
  let node ← readNode levels
  pure (key, node)

mutual

theorem gives_node : (n : HostModuleNode) → NodeFits n → Gives 1 (writeHostModuleNode n)
  | .function, _ => (reads_u8 () 0).gives
  | .data _, h => ((reads_u8 () 1).gives.append (reads_valueBlob h).gives).weaken (by omega)
  | .object entries, h =>
    ((reads_u8 () 2).gives.append ((reads_u32 () h.1).gives.append (gives_entries entries h.2))).weaken
      (by omega)

theorem gives_entries : (entries : List (String × HostModuleNode)) → EntriesFit entries →
    Gives entries.length (writeEntries entries)
  | [], _ => ⟨[], rfl, Nat.le_refl _⟩
  | (_, child) :: rest, h =>
    (((reads_string h.1).gives.append (gives_node child h.2.1)).append
      (gives_entries rest h.2.2)).weaken (by rw [List.length_cons]; omega)

end

mutual

/-- A shape is read back if it fits the levels left, and refused for depth if not. -/
theorem reads_node : (n : HostModuleNode) → (levels : Nat) → NodeFits n →
    Reads 1 (writeHostModuleNode n) (readNode levels)
      (if height n ≤ levels then .ok n else .error tooDeep)
  | n, 0, h => by
    obtain ⟨bs, hw, hk⟩ := gives_node n h
    have hpos := height_pos n
    rw [if_neg (by omega)]
    exact ⟨bs, hw, hk, fun _ => rfl⟩
  | .function, levels + 1, _ => by
    rw [if_pos (by simp [height])]
    exact (reads_u8 _ 0).map _ fun _ => rfl
  | .data blob, levels + 1, h => by
    rw [if_pos (by simp [height])]
    refine ((reads_u8 _ 1).bind ?_).weaken (Nat.le_add_right 1 4)
    exact (reads_valueBlob h).map _ fun _ => rfl
  | .object entries, levels + 1, h => by
    have hentries := reads_counted "host-module object entry" h.1 (reads_entries entries levels h.2)
    refine ((reads_u8 _ 2).bind ?_).weaken (Nat.le_add_right 1 4)
    by_cases hheight : heights entries ≤ levels
    · rw [if_pos (by simp [height]; omega)]
      rw [if_pos hheight] at hentries
      exact hentries.map _ fun _ => rfl
    · rw [if_neg (by simp [height]; omega)]
      rw [if_neg hheight] at hentries
      exact hentries.map_error _

theorem reads_entries : (entries : List (String × HostModuleNode)) → (levels : Nat) →
    EntriesFit entries → Reads entries.length (writeEntries entries)
      (Reader.times (readEntry levels) entries.length)
      (if heights entries ≤ levels then .ok entries else .error tooDeep)
  | [], levels, _ => by
    rw [if_pos (by simp [heights])]
    exact reads_pure []
  | (key, child) :: rest, levels, h => by
    have hchild := reads_node child levels h.2.1
    have hrest := reads_entries rest levels h.2.2
    by_cases hc : height child ≤ levels
    · rw [if_pos hc] at hchild
      have hentry : Reads (4 + 1) (writeString key ++ writeHostModuleNode child) (readEntry levels)
          (.ok (key, child)) :=
        (reads_string h.1).bind (hchild.map _ fun _ => rfl)
      refine Reads.weaken (k := 4 + 1 + rest.length) (hentry.bind ?_)
        (by rw [List.length_cons]; omega)
      by_cases hr : heights rest ≤ levels
      · rw [if_pos (by simp [heights]; omega)]
        rw [if_pos hr] at hrest
        exact hrest.map _ fun _ => rfl
      · rw [if_neg (by simp [heights]; omega)]
        rw [if_neg hr] at hrest
        exact hrest.map_error _
    · rw [if_neg (by simp [heights]; omega)]
      rw [if_neg hc] at hchild
      have hentry : Reads (4 + 1) (writeString key ++ writeHostModuleNode child) (readEntry levels)
          (.error tooDeep) :=
        (reads_string h.1).bind (hchild.map_error _)
      exact (hentry.bind_error _ (gives_entries rest h.2.2)).weaken (by rw [List.length_cons]; omega)

end

/-! ### Lowering on the host -/

mutual

/-- The wire shape of a value, whatever its depth. -/
def wireShape : HostValue → HostModuleNode
  | .undefined => .data undefinedBlob
  | .function => .function
  | .data blob => .data blob
  | .object entries => .object (wireShapes entries)

def wireShapes : List (String × HostValue) → List (String × HostModuleNode)
  | [] => []
  | (_, .undefined) :: rest => wireShapes rest
  | (key, child) :: rest => (key, wireShape child) :: wireShapes rest

end

theorem wireShapes_cons {key : String} {child : HostValue} {rest : List (String × HostValue)}
    (h : child ≠ .undefined) :
    wireShapes ((key, child) :: rest) = (key, wireShape child) :: wireShapes rest := by
  cases child with
  | undefined => exact absurd rfl h
  | _ => simp [wireShapes]

theorem lowerEntries_cons {key : String} {child : HostValue} {rest : List (String × HostValue)}
    {path : List String} (h : child ≠ .undefined) :
    lowerEntries ((key, child) :: rest) path = (do
      let (node, handlers) ← lowerNode child (path ++ [key])
      let (rest, later) ← lowerEntries rest path
      .ok ((key, node) :: rest, handlers ++ later)) := by
  cases child with
  | undefined => exact absurd rfl h
  | _ => simp [lowerEntries]

theorem lowerNode_tooDeep (v : HostValue) {path : List String}
    (h : maxHostModuleDepth < path.length) : lowerNode v path = .error (.tooDeep path) := by
  cases v <;> rw [lowerNode, if_pos h]

mutual

/-- A value is lowered to its wire shape, or refused for depth. -/
theorem lowerNode_spec : (v : HostValue) → (path : List String) →
    (height (wireShape v) + path.length ≤ maxHostModuleDepth + 1 ∧
      ∃ handlers, lowerNode v path = .ok (wireShape v, handlers)) ∨
    (maxHostModuleDepth + 1 < height (wireShape v) + path.length ∧
      ∃ p, lowerNode v path = .error (.tooDeep p))
  | v, path => by
    by_cases hdeep : maxHostModuleDepth < path.length
    · have hpos := height_pos (wireShape v)
      exact .inr ⟨by omega, path, lowerNode_tooDeep v hdeep⟩
    · match v with
      | .undefined =>
        exact .inl ⟨by simp [wireShape, height]; omega, [], by simp [lowerNode, hdeep, wireShape]⟩
      | .function =>
        exact .inl ⟨by simp [wireShape, height]; omega, [path], by simp [lowerNode, hdeep, wireShape]⟩
      | .data blob =>
        exact .inl ⟨by simp [wireShape, height]; omega, [], by simp [lowerNode, hdeep, wireShape]⟩
      | .object entries =>
        rw [lowerNode, if_neg hdeep]
        simp only [wireShape, height]
        rcases lowerEntries_spec entries path (by omega) with ⟨hle, handlers, hok⟩ | ⟨hlt, p, herror⟩
        · exact .inl ⟨by omega, handlers, by rw [hok]; rfl⟩
        · exact .inr ⟨by omega, p, by rw [herror]; rfl⟩

theorem lowerEntries_spec : (entries : List (String × HostValue)) → (path : List String) →
    path.length ≤ maxHostModuleDepth →
    (heights (wireShapes entries) + path.length ≤ maxHostModuleDepth ∧
      ∃ handlers, lowerEntries entries path = .ok (wireShapes entries, handlers)) ∨
    (maxHostModuleDepth < heights (wireShapes entries) + path.length ∧
      ∃ p, lowerEntries entries path = .error (.tooDeep p))
  | [], path, hpath =>
    .inl ⟨by simp [wireShapes, heights]; omega, [], by simp [lowerEntries, wireShapes]⟩
  | (key, child) :: rest, path, hpath => by
    have hrest := lowerEntries_spec rest path hpath
    by_cases hu : child = .undefined
    · subst hu
      simpa only [wireShapes, lowerEntries] using hrest
    · have hchild := lowerNode_spec child (path ++ [key])
      rw [List.length_append, List.length_singleton] at hchild
      rw [wireShapes_cons hu, lowerEntries_cons hu]
      simp only [heights]
      rcases hchild with ⟨hle, handlers, hok⟩ | ⟨hlt, p, herror⟩
      · rw [hok]
        rcases hrest with ⟨hle', later, hlater⟩ | ⟨hlt', p, herror⟩
        · exact .inl ⟨by omega, handlers ++ later, by rw [hlater]; rfl⟩
        · exact .inr ⟨by omega, p, by rw [herror]; rfl⟩
      · exact .inr ⟨by omega, p, by rw [herror]; rfl⟩

end

/-- The two depth bounds agree: the host refuses a shape exactly when the runtime
refuses its encoding. -/
theorem depth_bounds_agree (name : String) (v : HostValue) (h : NodeFits (wireShape v)) :
    ∃ bytes, writeHostModuleNode (wireShape v) = some bytes ∧
      ∀ left, (∃ e, lowerNode v [name] = .error e) ↔
        readHostModuleNode 1 (bytes ++ left) = .error tooDeep := by
  obtain ⟨bytes, hw, -, hr⟩ := reads_node (wireShape v) maxHostModuleDepth h
  refine ⟨bytes, hw, fun left => ?_⟩
  have hread : readHostModuleNode 1 (bytes ++ left) = _ := hr left
  have hlower := lowerNode_spec v [name]
  rw [List.length_singleton] at hlower
  rw [hread]
  rcases hlower with ⟨hle, handlers, hok⟩ | ⟨hlt, p, herror⟩
  · rw [if_pos (by omega), hok]
    simp [Except.map]
  · rw [if_neg (by omega), herror]
    simp [Except.map]

/-! ### The blocks of a payload -/

/-- A present number fits its field. -/
def OptionFits (o : Option Nat) : Prop := ∀ n, o = some n → n < 2 ^ 32

structure LimitsFit (l : WireResourceLimits) : Prop where
  memoryMb : OptionFits l.memoryMb
  cpuTimeMs : OptionFits l.cpuTimeMs
  wallTimeMs : OptionFits l.wallTimeMs
  maxExportBytes : OptionFits l.maxExportBytes
  maxStdoutBytes : OptionFits l.maxStdoutBytes
  maxStderrBytes : OptionFits l.maxStderrBytes
  maxBridgeCallBytes : OptionFits l.maxBridgeCallBytes
  maxBridgeCalls : OptionFits l.maxBridgeCalls
  graceMs : OptionFits l.graceMs
  hardMemoryMb : OptionFits l.hardMemoryMb

def GlobalKind.Fits : GlobalKind → Prop
  | .bridge => True
  | .string expr => TextFits expr
  | .data blob => BlobFits blob
  | .shim source handlerName => TextFits source ∧ TextFits handlerName

def GlobalFits (d : GlobalDefPayload) : Prop := TextFits d.name ∧ d.kind.Fits

/-- Every export is a shape that `lowerNode` accepts under its name. -/
def Lowered (exports : List (String × HostModuleNode)) : Prop :=
  ∀ p ∈ exports, ∃ v handlers, lowerNode v [p.1] = .ok (p.2, handlers)

theorem heights_lowered {exports : List (String × HostModuleNode)} (h : Lowered exports) :
    heights exports ≤ maxHostModuleDepth := by
  induction exports with
  | nil => simp [heights]
  | cons p rest ih =>
    obtain ⟨v, handlers, hok⟩ := h p List.mem_cons_self
    have hrest := ih fun q hq => h q (List.mem_cons_of_mem _ hq)
    rcases lowerNode_spec v [p.1] with ⟨hle, handlers', hok'⟩ | ⟨-, path, herror⟩
    · have hshape : wireShape v = p.2 := by
        rw [hok] at hok'
        injection hok' with hpair
        exact (congrArg Prod.fst hpair).symm
      rw [hshape, List.length_singleton] at hle
      simp only [heights]
      omega
    · rw [hok] at herror
      cases herror

/-- The lengths fit, and the shapes are ones that `lowerNode` accepts. -/
def ImportModule.Fits : ImportModule → Prop
  | .source text => TextFits text
  | .host exports => exports.length < 2 ^ 32 ∧ EntriesFit exports ∧ Lowered exports

def ImportFits (b : ImportBinding) : Prop := TextFits b.specifier ∧ b.module.Fits

def RebindFits (r : ImportRebind) : Prop :=
  TextFits r.specifier ∧ r.path.length < 2 ^ 32 ∧ ∀ segment ∈ r.path, TextFits segment

def CallFits (c : CallSpec) : Prop := TextFits c.exportPath ∧ BlobFits c.argsBlob

/-- The length of a list fits, and so does every entry. -/
def ListFits {α : Type} (P : α → Prop) (as : List α) : Prop := as.length < 2 ^ 32 ∧ ∀ a ∈ as, P a

theorem reads_resourceLimits {l : WireResourceLimits} (band : BandPolicy) (h : LimitsFit l) :
    Reads 1 (writeResourceLimits l) (readResourceLimits band) (.ok (resolveLimits l band)) := by
  have hall : Reads (1 + (1 + (1 + (1 + (1 + (1 + (1 + (1 + (1 + 1))))))))) (writeResourceLimits l)
      (readResourceLimits band) (.ok (resolveLimits l band)) := by
    refine (reads_optionalU32 h.memoryMb).bind ?_
    refine (reads_optionalU32 h.cpuTimeMs).bind ?_
    refine (reads_optionalU32 h.wallTimeMs).bind ?_
    refine (reads_optionalU32 h.maxExportBytes).bind ?_
    refine (reads_optionalU32 h.maxStdoutBytes).bind ?_
    refine (reads_optionalU32 h.maxStderrBytes).bind ?_
    refine (reads_optionalU32 h.maxBridgeCallBytes).bind ?_
    refine (reads_optionalU32 h.maxBridgeCalls).bind ?_
    refine (reads_optionalU32 h.graceMs).bind ?_
    exact (reads_optionalU32 h.hardMemoryMb).map _ fun _ => rfl
  exact hall.weaken (by omega)

/-- An `enumerable` left out is true. -/
def GlobalDefPayload.received (d : GlobalDefPayload) : HostGlobalDef :=
  ⟨d.name, d.kind, d.enumerable.getD true⟩

theorem reads_globalTail {kind : GlobalKind} (h : kind.Fits) :
    Reads 0 (writeGlobalTail kind) (readGlobalTail (UInt8.ofNat (globalDefKind kind))) (.ok kind) := by
  cases kind with
  | bridge => exact reads_pure GlobalKind.bridge
  | string expr => exact ((reads_string h).map _ fun _ => rfl).weaken (Nat.zero_le _)
  | data blob => exact ((reads_valueBlob h).map _ fun _ => rfl).weaken (Nat.zero_le _)
  | shim shim handlerName =>
    exact ((reads_string h.1).bind ((reads_string h.2).map _ fun _ => rfl)).weaken (Nat.zero_le _)

theorem reads_globalDef {d : GlobalDefPayload} (h : GlobalFits d) :
    Reads 1 (writeGlobalDef d) readGlobalDef (.ok d.received) := by
  refine ((reads_u8 _ _).bind ((reads_string h.1).bind ((reads_bool _).bind ?_))).weaken
    (Nat.le_add_right 1 (4 + (1 + 0)))
  exact (reads_globalTail h.2).map _ fun _ => rfl

theorem reads_globalDefs {ds : List GlobalDefPayload} (h : ListFits GlobalFits ds) :
    Reads 4 (writeGlobalDefs ds) readGlobalDefs (.ok (ds.map GlobalDefPayload.received)) :=
  reads_list _ _ h.1 fun d hd => reads_globalDef (h.2 d hd)

theorem reads_importBinding {b : ImportBinding} (h : ImportFits b) :
    Reads 1 (writeImport b) readImportBinding (.ok b) := by
  obtain ⟨specifier, module⟩ := b
  cases module with
  | source text =>
    have htext : Reads (4 + (1 + 4)) (writeImport ⟨specifier, .source text⟩) readImportBinding
        (.ok ⟨specifier, .source text⟩) :=
      (reads_string h.1).bind ((reads_u8 _ 0).bind ((reads_string h.2).map _ fun _ => rfl))
    exact htext.weaken (by omega)
  | host exports =>
    have hexports := reads_entries exports maxHostModuleDepth h.2.2.1
    rw [if_pos (heights_lowered h.2.2.2)] at hexports
    have hcounted := reads_counted "host-module export" h.2.1 hexports
    have hhost : Reads (4 + (1 + 4)) (writeImport ⟨specifier, .host exports⟩) readImportBinding
        (.ok ⟨specifier, .host exports⟩) :=
      (reads_string h.1).bind ((reads_u8 _ 1).bind (hcounted.map _ fun _ => rfl))
    exact hhost.weaken (by omega)

theorem reads_importBindings {bs : List ImportBinding} (h : ListFits ImportFits bs) :
    Reads 4 (writeImports bs) readImportBindings (.ok bs) := by
  have hlist := reads_list id "import binding" h.1 fun b hb => reads_importBinding (h.2 b hb)
  rwa [List.map_id] at hlist

theorem reads_importRebind {r : ImportRebind} (h : RebindFits r) :
    Reads 1 (writeImportRebind r) readImportRebind (.ok r) := by
  have hpath := reads_list id "import rebind path segment" h.2.1 fun s hs =>
    reads_string (h.2.2 s hs) |>.weaken (by omega)
  rw [List.map_id] at hpath
  exact ((reads_string h.1).bind (hpath.map _ fun _ => rfl)).weaken (by omega)

theorem reads_importRebinds {rs : List ImportRebind} (h : ListFits RebindFits rs) :
    Reads 4 (writeImportRebinds rs) readImportRebinds (.ok rs) := by
  have hlist := reads_list id "import rebind" h.1 fun r hr => reads_importRebind (h.2 r hr)
  rwa [List.map_id] at hlist

theorem reads_call {c : CallSpec} (h : CallFits c) : Reads 4 (writeCall c) readCall (.ok c) :=
  ((reads_string h.1).bind ((reads_valueBlob h.2).map _ fun _ => rfl)).weaken (by omega)

theorem reads_optionalCall {o : Option CallSpec} (h : ∀ c, o = some c → CallFits c) :
    Reads 1 (writeOptionalCall o) readOptionalCall (.ok o) :=
  reads_optional fun c hc => reads_call (h c hc)

/-! ### The answers to bridge calls -/

/-- An empty blob is written as absent. -/
def presentBlob : Option Blob → Option Blob
  | some (b :: bs) => some (b :: bs)
  | _ => none

def BlobOptionFits (o : Option Blob) : Prop := ∀ b, o = some b → BlobFits b

theorem reads_presentBlob {o : Option Blob} (h : BlobOptionFits o) :
    Reads 1 (writePresentBlob o) WireReader.readPresentBlob (.ok (presentBlob o)) := by
  match o with
  | none => exact (reads_u8 _ 0).map _ fun _ => rfl
  | some [] => exact (reads_u8 _ 0).map _ fun _ => rfl
  | some (b :: bs) =>
    refine ((reads_u8 _ 1).bind ?_).weaken (Nat.le_add_right 1 4)
    exact (reads_blob _ (reads_u32 _ (h _ rfl))).map _ fun _ => rfl

theorem reads_skipStack : Reads 1 (writeU8 0) WireReader.skipStack (.ok ()) :=
  (reads_u8 _ 0).map _ fun _ => rfl

abbrev BridgeResult := Except (Option BridgeErrorPayload) (Option Blob)

/-- What the runtime takes of an answer. -/
def BridgeResult.received : BridgeResult → Except BridgeErrorPayload (Option Blob)
  | .ok value => .ok (presentBlob value)
  | .error error =>
    .error ⟨(error.map (·.name)).getD "Error", (error.map (·.message)).getD "host handler failed",
      presentBlob (error.bind (·.fields))⟩

def BridgeResult.Fits : BridgeResult → Prop
  | .ok value => BlobOptionFits value
  | .error error =>
    TextFits ((error.map (·.name)).getD "Error") ∧
    TextFits ((error.map (·.message)).getD "host handler failed") ∧
    BlobOptionFits (error.bind (·.fields))

theorem readsAll_bridgeResponse {runId callId : Nat} {answer : BridgeResult}
    (hrun : runId < 2 ^ 32) (hcall : callId < 2 ^ 32) (h : BridgeResult.Fits answer) :
    ReadsAll (encodeBridgeResponsePayload runId callId answer) parseBridgeResponsePayload
      (runId, callId, BridgeResult.received answer) := by
  refine (reads_u32 _ hrun).bind_all ((reads_u32 _ hcall).bind_all ?_)
  cases answer with
  | ok value =>
    refine (reads_u8 _ 1).bind_all ?_
    exact (reads_presentBlob h).last rfl
  | error error =>
    have hcode : TextFits "ERR_HOST_BRIDGE" := by
      unfold TextFits
      decide
    refine (reads_u8 _ 0).bind_all ?_
    refine (reads_text _ _ (reads_u32 _ hcode)).bind_all ?_
    refine (reads_text _ _ (reads_u32 _ h.1)).bind_all ?_
    refine (reads_text _ _ (reads_u32 _ h.2.1)).bind_all ?_
    refine reads_skipStack.bind_all ?_
    exact (reads_presentBlob h.2.2).last rfl

/-! ### The payloads -/

def RunPayloadOptions.received (o : RunPayloadOptions) : RunRequest :=
  ⟨o.runId, o.code, o.filename, resolveLimits (o.limits.getD {}) .strict,
    (o.globals.getD []).map GlobalDefPayload.received, o.imports.getD [], o.call⟩

structure RunPayloadOptions.Fits (o : RunPayloadOptions) : Prop where
  runId : o.runId < 2 ^ 32
  code : TextFits o.code
  filename : ∀ s, o.filename = some s → TextFits s
  limits : LimitsFit (o.limits.getD {})
  globals : ListFits GlobalFits (o.globals.getD [])
  imports : ListFits ImportFits (o.imports.getD [])
  call : ∀ c, o.call = some c → CallFits c

theorem readsAll_run {o : RunPayloadOptions} (h : o.Fits) :
    ReadsAll (encodeRunPayload o) parseRunPayload o.received := by
  refine (reads_u32 _ h.runId).bind_all ?_
  refine (reads_string h.code).bind_all ?_
  refine (reads_optionalString h.filename).bind_all ?_
  refine (reads_resourceLimits .strict h.limits).bind_all ?_
  refine (reads_globalDefs h.globals).bind_all ?_
  refine (reads_importBindings h.imports).bind_all ?_
  exact (reads_optionalCall h.call).last rfl

def PrecompilePayloadOptions.received (o : PrecompilePayloadOptions) : PrecompilePayload :=
  ⟨o.requestId, o.code, o.filename, (o.globals.getD []).map GlobalDefPayload.received,
    o.imports.getD []⟩

structure PrecompilePayloadOptions.Fits (o : PrecompilePayloadOptions) : Prop where
  requestId : o.requestId < 2 ^ 32
  code : TextFits o.code
  filename : ∀ s, o.filename = some s → TextFits s
  limits : LimitsFit (o.limits.getD {})
  globals : ListFits GlobalFits (o.globals.getD [])
  imports : ListFits ImportFits (o.imports.getD [])

theorem readsAll_precompile {o : PrecompilePayloadOptions} (h : o.Fits) :
    ReadsAll (encodePrecompilePayload o) parsePrecompilePayload o.received := by
  refine (reads_u32 _ h.requestId).bind_all ?_
  refine (reads_string h.code).bind_all ?_
  refine (reads_optionalString h.filename).bind_all ?_
  refine (reads_resourceLimits .managed h.limits).bind_all ?_
  refine (reads_globalDefs h.globals).bind_all ?_
  exact (reads_importBindings h.imports).last rfl

def PrefixRunPayloadOptions.received (o : PrefixRunPayloadOptions) : PrefixRunRequest :=
  ⟨o.runId, o.prefixId, resolveLimits (o.limits.getD {}) .managed,
    (o.globals.getD []).map GlobalDefPayload.received, o.importRebinds.getD [], o.call⟩

structure PrefixRunPayloadOptions.Fits (o : PrefixRunPayloadOptions) : Prop where
  runId : o.runId < 2 ^ 32
  prefixId : TextFits o.prefixId
  limits : LimitsFit (o.limits.getD {})
  globals : ListFits GlobalFits (o.globals.getD [])
  importRebinds : ListFits RebindFits (o.importRebinds.getD [])
  call : CallFits o.call

theorem readsAll_prefixRun {o : PrefixRunPayloadOptions} (h : o.Fits) :
    ReadsAll (encodePrefixRunPayload o) parsePrefixRunPayload o.received := by
  refine (reads_u32 _ h.runId).bind_all ?_
  refine (reads_string h.prefixId).bind_all ?_
  refine (reads_resourceLimits .managed h.limits).bind_all ?_
  refine (reads_globalDefs h.globals).bind_all ?_
  refine (reads_importRebinds h.importRebinds).bind_all ?_
  exact (reads_call h.call).last rfl

theorem readsAll_terminate {runId : Nat} (hard : Bool) (h : runId < 2 ^ 32) :
    ReadsAll (encodeTerminatePayload runId hard) parseTerminatePayload
      (runId, if hard then .hard else .soft) := by
  refine (reads_u32 _ h).bind_all ((reads_u8 _ _).last ?_)
  cases hard <;> rfl

/-- A chunk within the cap. -/
theorem readsAll_streamChunk {runId streamId : Nat} {data : Blob} (hrun : runId < 2 ^ 32)
    (hstream : streamId < 2 ^ 32) (hdata : data.length ≤ streamChunkMaxBytes) :
    ReadsAll (encodeStreamChunkPayload runId streamId data) parseStreamChunkPayload
      (streamId, data) := by
  have hlen : data.length < 2 ^ 32 := by
    unfold streamChunkMaxBytes at hdata
    omega
  refine ⟨u32be runId ++ (u32be streamId ++ (u32be data.length ++ data)), ?_, ?_⟩
  · rw [encodeStreamChunkPayload, writeU32_fits hrun, writeU32_fits hstream, writeU32_fits hlen]
    rfl
  · show (if _ then _ else if _ then _ else Except.ok ((ofU32be _ _ _ _, data), [])) = _
    rw [ofU32be_u32be hlen, ofU32be_u32be hstream, if_neg (by omega), if_neg (by simp)]

/-- A chunk over the cap is refused. -/
theorem streamChunk_refused {runId streamId : Nat} (data : Blob) (hrun : runId < 2 ^ 32)
    (hstream : streamId < 2 ^ 32) (hlen : data.length < 2 ^ 32)
    (hdata : streamChunkMaxBytes < data.length) :
    ∃ bytes, encodeStreamChunkPayload runId streamId data = some bytes ∧
      parseStreamChunkPayload bytes = .error (streamChunkOverCap data.length) := by
  refine ⟨u32be runId ++ (u32be streamId ++ (u32be data.length ++ data)), ?_, ?_⟩
  · rw [encodeStreamChunkPayload, writeU32_fits hrun, writeU32_fits hstream, writeU32_fits hlen]
    rfl
  · show (if _ then Except.error _ else if _ then _ else _) = _
    rw [ofU32be_u32be hlen, if_pos hdata]

theorem readsAll_streamEnd {runId streamId : Nat} {error : Option String} (hrun : runId < 2 ^ 32)
    (hstream : streamId < 2 ^ 32) (herror : ∀ s, error = some s → TextFits s) :
    ReadsAll (encodeStreamEndPayload runId streamId error) parseStreamEndPayload
      ⟨streamId, error.isNone, error⟩ := by
  refine (reads_u32 _ hrun).bind_all ((reads_u32 _ hstream).bind_all ?_)
  cases error with
  | none => exact (reads_bool true).last rfl
  | some message =>
    refine (reads_bool false).bind_all ?_
    exact (reads_optionalString (o := some message) herror).last rfl

theorem readsAll_streamPull {runId streamId credit : Nat} (hrun : runId < 2 ^ 32)
    (hstream : streamId < 2 ^ 32) (hcredit : credit < 2 ^ 32) :
    ReadsAll (encodeStreamPullPayload runId streamId credit) parseStreamPullPayload
      (streamId, credit) :=
  (reads_u32 _ hrun).bind_all ((reads_u32 _ hstream).bind_all ((reads_u32 _ hcredit).last rfl))

theorem readsAll_streamCancel {runId streamId : Nat} {reason : String} (hrun : runId < 2 ^ 32)
    (hstream : streamId < 2 ^ 32) (hreason : TextFits reason) :
    ReadsAll (encodeStreamCancelPayload runId streamId reason) parseStreamCancelPayload
      (streamId, reason) :=
  (reads_u32 _ hrun).bind_all ((reads_u32 _ hstream).bind_all ((reads_string hreason).last rfl))

namespace HostMessage

/-- Numbers and lengths fit their fields, shapes are ones `lowerNode` accepts, and
a chunk is within the cap. -/
def Fits : HostMessage → Prop
  | .run o => o.Fits
  | .precompile o => o.Fits
  | .prefixRun o => o.Fits
  | .disposePrefix prefixId => TextFits prefixId
  | .terminate runId _ => runId < 2 ^ 32
  | .bridgeResponse runId callId answer =>
    runId < 2 ^ 32 ∧ callId < 2 ^ 32 ∧ BridgeResult.Fits answer
  | .streamChunk runId streamId data =>
    runId < 2 ^ 32 ∧ streamId < 2 ^ 32 ∧ data.length ≤ streamChunkMaxBytes
  | .streamEnd runId streamId error =>
    runId < 2 ^ 32 ∧ streamId < 2 ^ 32 ∧ ∀ s, error = some s → TextFits s
  | .streamPull runId streamId credit => runId < 2 ^ 32 ∧ streamId < 2 ^ 32 ∧ credit < 2 ^ 32
  | .streamCancel runId streamId reason => runId < 2 ^ 32 ∧ streamId < 2 ^ 32 ∧ TextFits reason

/-- What the runtime makes of a message: its value, with the limits resolved. -/
def received : HostMessage → ParsedMessage
  | .run o => .run o.received
  | .precompile o => .precompile o.received
  | .prefixRun o => .prefixRun o.received
  | .disposePrefix prefixId => .disposePrefix prefixId
  | .terminate runId hard => .terminate runId (if hard then .hard else .soft)
  | .bridgeResponse runId callId answer => .bridgeResponse runId callId (BridgeResult.received answer)
  | .streamChunk _ streamId data => .streamChunk streamId data
  | .streamEnd _ streamId error => .streamEnd ⟨streamId, error.isNone, error⟩
  | .streamPull _ streamId credit => .streamPull streamId credit
  | .streamCancel _ streamId reason => .streamCancel streamId reason

theorem readsAll {m : HostMessage} (h : m.Fits) : ReadsAll m.encode (readPayload m.type) m.received := by
  cases m with
  | run o => exact (readsAll_run h).map ParsedMessage.run
  | precompile o => exact (readsAll_precompile h).map ParsedMessage.precompile
  | prefixRun o => exact (readsAll_prefixRun h).map ParsedMessage.prefixRun
  | disposePrefix prefixId =>
    have hid : ReadsAll (encodeDisposePrefixPayload prefixId) parseDisposePrefixPayload prefixId :=
      (reads_string h).last rfl
    exact hid.map ParsedMessage.disposePrefix
  | terminate runId hard => exact (readsAll_terminate hard h).map _
  | bridgeResponse runId callId answer => exact (readsAll_bridgeResponse h.1 h.2.1 h.2.2).map _
  | streamChunk runId streamId data => exact (readsAll_streamChunk h.1 h.2.1 h.2.2).map _
  | streamEnd runId streamId error => exact (readsAll_streamEnd h.1 h.2.1 h.2.2).map _
  | streamPull runId streamId credit => exact (readsAll_streamPull h.1 h.2.1 h.2.2).map _
  | streamCancel runId streamId reason => exact (readsAll_streamCancel h.1 h.2.1 h.2.2).map _

end HostMessage

/-- A run with one global, one host module and two limits, one of them 0. -/
def sampleRun : RunPayloadOptions where
  runId := 7
  code := "export {}"
  filename := none
  limits := some { memoryMb := some 64, cpuTimeMs := some 0, hardMemoryMb := some 128 }
  globals := some [⟨"fetch", .bridge, none⟩]
  imports := some [⟨"host:db", .host [("get", .function)]⟩]
  call := none

theorem sampleRun_fits : sampleRun.Fits where
  runId := by decide
  code := by unfold TextFits; decide
  filename := by simp [sampleRun]
  limits := by
    constructor <;> intro n hn <;> revert hn <;> simp [sampleRun] <;> omega
  globals := by
    refine ⟨by decide, ?_⟩
    simp only [sampleRun, Option.getD_some, List.mem_singleton]
    rintro d rfl
    refine ⟨?_, trivial⟩
    unfold TextFits
    decide
  imports := by
    refine ⟨by decide, ?_⟩
    simp only [sampleRun, Option.getD_some, List.mem_singleton]
    rintro b rfl
    refine ⟨by unfold TextFits; decide, by decide, ⟨by unfold TextFits; decide, trivial, trivial⟩, ?_⟩
    simp only [Lowered, List.mem_singleton]
    rintro p rfl
    exact ⟨.function, [["get"]], by simp [lowerNode, maxHostModuleDepth]⟩
  call := by simp [sampleRun]

end Ipc

end Iso4
