/-
The text of a host module: `build_host_module` of `crates/core/src/v8/modules.rs` writes export names
into source text, and so must know what it writes.

* `isValidExportIdentifier`, `isValidExportName` — the checks of the two sides, over the tables of
  identifier characters that each side's language has;
* `hostModule_text` — the text of a module that is built is its export declarations and nothing else:
  a name is one word of it, whatever the name, and no reserved one.
-/
import Iso4.ImportCalls
import Iso4.Lib.Tokens

namespace Iso4

namespace Imports

open Ipc Tokens

/-! ### The checks of export names -/

/-- `RESERVED_EXPORT_WORDS`. -/
def reservedExportWords : List String :=
  ["break", "case", "catch", "class", "const", "continue", "debugger", "delete", "do", "else", "export",
    "extends", "finally", "for", "function", "if", "import", "in", "instanceof", "new", "return", "super",
    "switch", "this", "throw", "try", "typeof", "var", "void", "while", "with", "yield", "let", "static",
    "enum", "await", "implements", "package", "protected", "interface", "private", "public", "null", "true",
    "false", "eval", "arguments"]

/-- `RESERVED_WORDS` of the host. -/
def reservedWords : List String :=
  ["break", "case", "catch", "class", "const", "continue", "debugger", "default", "delete", "do", "else",
    "export", "extends", "finally", "for", "function", "if", "import", "in", "instanceof", "new", "return",
    "super", "switch", "this", "throw", "try", "typeof", "var", "void", "while", "with", "yield", "let",
    "static", "enum", "await", "implements", "package", "protected", "interface", "private", "public", "null",
    "true", "false", "eval", "arguments"]

theorem mem_reservedWords (name : String) :
    name ∈ reservedWords ↔ name = "default" ∨ name ∈ reservedExportWords := by
  have hwords : reservedWords.Perm ("default" :: reservedExportWords) := by decide
  rw [hwords.mem_iff, List.mem_cons]

/-- The characters of `ID_Continue` that `XID_Continue` lacks. -/
def idNotXid (c : Char) : Bool :=
  c ∈ ['\u037A', '\u309B', '\u309C', '\uFDFA', '\uFDFB', '\uFE70', '\uFE72', '\uFE74', '\uFE76', '\uFE78',
    '\uFE7A', '\uFE7C', '\uFE7E'] || ('\uFC5E' ≤ c && c ≤ '\uFC63')

/-- Those that `XID_Start` lacks, but not `XID_Continue`. -/
def xidContinueOnly (c : Char) : Bool := c ∈ ['\u0E33', '\u0EB3', '\uFF9E', '\uFF9F']

/-- The tables of identifier characters: the crate `unicode_ident` of the runtime, and the classes
`ID_Start` and `ID_Continue` in a regular expression of the host. -/
structure IdentTables where
  xidStart : Char → Bool
  xidContinue : Char → Bool
  idStart : Char → Bool
  idContinue : Char → Bool

namespace IdentTables

variable (U : IdentTables)

/-- The standard on the tables: what the ASCII characters are, and how the four differ. -/
structure Documented : Prop where
  ascii : ∀ c : Char, c.toNat < 128 → U.xidContinue c = (c.isAlphanum || c = '_')
  start : ∀ c, U.xidStart c = true → U.xidContinue c = true
  continueOnly : ∀ c, xidContinueOnly c = true → U.xidContinue c = true
  idStart : ∀ c, U.idStart c = (U.xidStart c || idNotXid c || xidContinueOnly c)
  idContinue : ∀ c, U.idContinue c = (U.xidContinue c || idNotXid c)

def startsName (c : Char) : Bool :=
  U.xidStart c || idNotXid c || xidContinueOnly c || c = '_' || c = '$'

def continuesName (c : Char) : Bool :=
  U.xidContinue c || idNotXid c || c = '$' || c = '\u200C' || c = '\u200D'

/-- `is_valid_export_identifier`. -/
def isValidExportIdentifier (name : String) : Bool :=
  if name = "default" then true
  else
    match name.toList with
    | [] => false
    | first :: chars =>
      if !U.startsName first then false
      else if !chars.all U.continuesName then false
      else !reservedExportWords.contains name

/-- `IDENTIFIER_NAME`: `ID_Start`, `$` or `_`, then any of `ID_Continue`, `$`, ZWNJ and ZWJ. -/
def identifierName (name : String) : Bool :=
  match name.toList with
  | [] => false
  | first :: chars =>
    (U.idStart first || first = '$' || first = '_') &&
      chars.all fun c => U.idContinue c || c = '$' || c = '\u200C' || c = '\u200D'

def isValidExportName (name : String) : Bool :=
  name = "default" || (U.identifierName name && !reservedWords.contains name)

/-- The characters of a name of either check. -/
def Named (name : String) : Prop :=
  ∃ first chars, name.toList = first :: chars ∧ U.startsName first = true ∧
    ∀ c ∈ chars, U.continuesName c = true

theorem isValidExportIdentifier_iff (name : String) :
    U.isValidExportIdentifier name = true ↔
      name = "default" ∨ U.Named name ∧ name ∉ reservedExportWords := by
  unfold isValidExportIdentifier Named
  by_cases hdefault : name = "default"
  · simp [hdefault]
  · rw [if_neg hdefault]
    cases name.toList with
    | nil => simp [hdefault]
    | cons first chars => simp [hdefault, and_assoc]

/-- Words of a module text, and the blanks that are written into one. -/
def alphabet : Alphabet where
  isWord := U.continuesName
  isBlank c := c = ' ' || c = '\n'

end IdentTables

/-! ### The declarations -/

def slotTokens (i : Nat) : List Piece :=
  [.word "import".toList, .mark '.', .word "meta".toList, .mark '.', .word "__iso4".toList, .mark '[',
    .word (toString i).toList, .mark ']', .mark ';', .blank '\n']

/-- `export default import.meta.__iso4[i];`, or `export const name = import.meta.__iso4[i];`. -/
def declaration (name : String) (i : Nat) : List Piece :=
  if name = "default" then
    [.word "export".toList, .blank ' ', .word "default".toList, .blank ' '] ++ slotTokens i
  else
    [.word "export".toList, .blank ' ', .word "const".toList, .blank ' ', .word name.toList, .blank ' ',
      .mark '=', .blank ' '] ++ slotTokens i

def declarationTokens (name : String) (i : Nat) : List Token := (declaration name i).filterMap Piece.token

theorem exportLine_toList (i : Nat) (name : String) :
    (exportLine i name).toList = render (declaration name i) := by
  unfold exportLine declaration
  split
  · simp [render, slotTokens, Piece.text]
  · simp [render, slotTokens, Piece.text]

theorem declaration_isChain (name : String) (i : Nat) :
    (declaration name i).IsChain Piece.Apart ∧ ∀ p ∈ (declaration name i).getLast?, p.isWord = false := by
  unfold declaration
  split
  · simp [slotTokens, Piece.Apart, Piece.isWord]
  · simp [slotTokens, Piece.Apart, Piece.isWord]

/-! ### The characters of a declaration -/

namespace IdentTables.Documented

variable {U : IdentTables} (hU : U.Documented)

include hU

/-- The characters of keywords and slot numbers. -/
theorem word_of_ascii {c : Char} (hlt : c.toNat < 128) (hc : c.isAlphanum = true ∨ c = '_') :
    U.continuesName c = true := by
  have hxid : U.xidContinue c = true := by
    rw [hU.ascii c hlt]
    simpa using hc
  simp [continuesName, hxid]

theorem fits_keyword {s : String} (hne : s.toList ≠ [])
    (hs : s.toList.all (fun c => c.toNat < 128 && (c.isAlphanum || c = '_')) = true) :
    (Piece.word s.toList).Fits U.alphabet := by
  refine ⟨hne, fun c hc => ?_⟩
  have hplain := List.all_eq_true.mp hs c hc
  simp only [Bool.and_eq_true, decide_eq_true_eq, Bool.or_eq_true] at hplain
  exact hU.word_of_ascii hplain.1 hplain.2

theorem fits_slot (i : Nat) : (Piece.word (toString i).toList).Fits U.alphabet := by
  have hdigits : (toString i).toList = Nat.toDigits 10 i := by simp [toString, Nat.repr]
  refine ⟨?_, fun c hc => ?_⟩
  · rw [hdigits]
    exact Nat.toDigits_ne_nil
  · rw [hdigits] at hc
    have hdigit := Nat.isDigit_of_mem_toDigits (by decide) (by decide) hc
    have hlt : c.toNat < 128 := by
      have hle : c.val ≤ 57 := (by simpa [Char.isDigit] using hdigit : 48 ≤ c.val ∧ c.val ≤ 57).2
      have : c.val.toNat ≤ 57 := hle
      exact Nat.lt_of_le_of_lt this (by decide)
    exact hU.word_of_ascii hlt (.inl (by simp [Char.isAlphanum, hdigit]))

/-- The blanks and marks of a declaration. -/
theorem not_word {c : Char} (hc : c ∈ [' ', '\n', '=', '.', '[', ']', ';']) : U.continuesName c = false := by
  have hxid : U.xidContinue c = false := by
    simp only [List.mem_cons, List.not_mem_nil, or_false] at hc
    rcases hc with rfl | rfl | rfl | rfl | rfl | rfl | rfl <;> exact hU.ascii _ (by decide)
  have hother : idNotXid c = false ∧ (c = '$') = False ∧ (c = '\u200C') = False ∧ (c = '\u200D') = False := by
    simp only [List.mem_cons, List.not_mem_nil, or_false] at hc
    rcases hc with rfl | rfl | rfl | rfl | rfl | rfl | rfl <;> decide
  simp [continuesName, hxid, hother]

theorem fits_blank {c : Char} (hc : c ∈ [' ', '\n']) : (Piece.blank c).Fits U.alphabet := by
  have hmarks : [' ', '\n'] ⊆ [' ', '\n', '=', '.', '[', ']', ';'] := by simp
  exact ⟨hU.not_word (hmarks hc), by simpa [alphabet] using hc⟩

theorem fits_mark {c : Char} (hc : c ∈ ['=', '.', '[', ']', ';']) : (Piece.mark c).Fits U.alphabet := by
  have hmarks : ['=', '.', '[', ']', ';'] ⊆ [' ', '\n', '=', '.', '[', ']', ';'] := by simp
  refine ⟨hU.not_word (hmarks hc), ?_⟩
  simp only [List.mem_cons, List.not_mem_nil, or_false] at hc
  rcases hc with rfl | rfl | rfl | rfl | rfl <;> rfl

theorem continues_of_starts {c : Char} (hc : U.startsName c = true) : U.continuesName c = true := by
  simp only [startsName, Bool.or_eq_true, decide_eq_true_eq] at hc
  rcases hc with (((hc | hc) | hc) | rfl) | rfl
  · simp [continuesName, hU.start c hc]
  · simp [continuesName, hc]
  · simp [continuesName, hU.continueOnly c hc]
  · exact hU.word_of_ascii (by decide) (.inr rfl)
  · simp [continuesName]

/-- A name that passes the check is one word. -/
theorem fits_name {name : String} (hname : U.isValidExportIdentifier name = true) (hdefault : name ≠ "default") :
    (Piece.word name.toList).Fits U.alphabet := by
  obtain ⟨⟨first, chars, heq, hfirst, hchars⟩, -⟩ :=
    ((U.isValidExportIdentifier_iff name).mp hname).resolve_left hdefault
  rw [heq]
  refine ⟨List.cons_ne_nil first chars, fun c hc => ?_⟩
  obtain rfl | hc := List.mem_cons.mp hc
  · exact hU.continues_of_starts hfirst
  · exact hchars c hc

theorem declaration_fits {name : String} (hname : U.isValidExportIdentifier name = true) (i : Nat) :
    ∀ p ∈ declaration name i, p.Fits U.alphabet := by
  have hslot : ∀ p ∈ slotTokens i, p.Fits U.alphabet := by
    simp only [slotTokens, List.forall_mem_cons]
    refine ⟨hU.fits_keyword (by decide) (by decide), hU.fits_mark (by simp),
      hU.fits_keyword (by decide) (by decide), hU.fits_mark (by simp),
      hU.fits_keyword (by decide) (by decide), hU.fits_mark (by simp), hU.fits_slot i,
      hU.fits_mark (by simp), hU.fits_mark (by simp), hU.fits_blank (by simp), nofun⟩
  have hexport : (Piece.word "export".toList).Fits U.alphabet := hU.fits_keyword (by decide) (by decide)
  have hspace : (Piece.blank ' ').Fits U.alphabet := hU.fits_blank (by simp)
  unfold declaration
  split
  · simp only [List.forall_mem_append, List.forall_mem_cons]
    exact ⟨⟨hexport, hspace, hU.fits_keyword (by decide) (by decide), hspace, nofun⟩, hslot⟩
  · next hdefault =>
    simp only [List.forall_mem_append, List.forall_mem_cons]
    exact ⟨⟨hexport, hspace, hU.fits_keyword (by decide) (by decide), hspace, hU.fits_name hname hdefault,
      hspace, hU.fits_mark (by simp), hspace, nofun⟩, hslot⟩

/-! ### The two checks -/

theorem identifierName_iff (name : String) : U.identifierName name = true ↔ U.Named name := by
  have hstart : ∀ c, (U.idStart c || c = '$' || c = '_') = U.startsName c := by
    intro c
    rw [hU.idStart, startsName, Bool.or_right_comm]
  have hcontinue : ∀ c, (U.idContinue c || c = '$' || c = '\u200C' || c = '\u200D') = U.continuesName c := by
    intro c
    rw [hU.idContinue, continuesName]
  unfold identifierName Named
  cases name.toList with
  | nil => simp
  | cons first chars => simp [hstart, hcontinue]

/-- The host sends the export names that the runtime takes. -/
theorem isValidExportName_eq (name : String) : U.isValidExportName name = U.isValidExportIdentifier name := by
  rw [Bool.eq_iff_iff, isValidExportIdentifier_iff, isValidExportName]
  simp only [Bool.or_eq_true, decide_eq_true_eq, Bool.and_eq_true, hU.identifierName_iff,
    Bool.not_eq_true', List.contains_eq_mem, decide_eq_false_iff_not, mem_reservedWords]
  tauto

end IdentTables.Documented

/-! ### The text of a module -/

theorem hostModuleSource_toList (exports : List (String × HostModuleNode)) :
    (hostModuleSource exports).toList =
      render ((exports.zipIdx.map fun e => declaration e.1.1 e.2).flatten) := by
  rw [hostModuleSource, String.toList_join, List.flatMap_map]
  induction exports.zipIdx with
  | nil => rfl
  | cons e es ih =>
    rw [List.flatMap_cons, List.map_cons, List.flatten_cons, render_append, ih, exportLine_toList]

theorem buildExports_names {V : Type} {engine : Engine V} {specifier : String}
    {entries : List (String × HostModuleNode)} {nextId : Nat} {values : List (String × GuestValue V)}
    (h : buildExports engine specifier entries nextId = .ok values) :
    values.map Prod.fst = entries.map Prod.fst := by
  induction entries generalizing nextId values with
  | nil =>
    rw [buildExports] at h
    cases h
    rfl
  | cons e rest ih =>
    obtain ⟨name, node⟩ := e
    rw [buildExports] at h
    obtain ⟨⟨v, nextId₁⟩, hv, h⟩ := Wire.except_bind h
    obtain ⟨values', hvalues, h⟩ := Wire.except_bind h
    cases h
    rw [List.map_cons, List.map_cons, ih hvalues]

theorem tokens_source {U : IdentTables} (hU : U.Documented) {exports : List (String × HostModuleNode)}
    (hvalid : ∀ name ∈ exports.map Prod.fst, U.isValidExportIdentifier name = true) :
    tokens U.alphabet (hostModuleSource exports).toList =
      exports.zipIdx.flatMap fun e => declarationTokens e.1.1 e.2 := by
  have hfits : ∀ line ∈ exports.zipIdx.map (fun e => declaration e.1.1 e.2), ∀ p ∈ line, p.Fits U.alphabet := by
    intro line hline
    obtain ⟨⟨e, i⟩, he, rfl⟩ := List.mem_map.mp hline
    exact hU.declaration_fits (hvalid e.1 (List.mem_map_of_mem (List.fst_mem_of_mem_zipIdx he))) i
  have hchain : ∀ line ∈ exports.zipIdx.map (fun e => declaration e.1.1 e.2),
      line.IsChain Piece.Apart ∧ ∀ p ∈ line.getLast?, p.isWord = false := by
    intro line hline
    obtain ⟨⟨e, i⟩, he, rfl⟩ := List.mem_map.mp hline
    exact declaration_isChain e.1 i
  rw [hostModuleSource_toList, tokens_render ?_ (isChain_lines hchain), List.filterMap_flatten, List.map_map]
  · rfl
  · intro p hp
    obtain ⟨line, hline, hp⟩ := List.mem_flatten.mp hp
    exact hfits line hline p hp

/-- The declarations are those of the names. -/
theorem flatMap_zipIdx_names {α β : Type} (es : List (String × α)) (f : String → Nat → List β) :
    (es.zipIdx.flatMap fun e => f e.1.1 e.2) = (es.map Prod.fst).zipIdx.flatMap fun e => f e.1 e.2 := by
  rw [List.zipIdx_map, List.flatMap_map]
  rfl

/-- The text of a host module that is built declares its exports, each with its own slot, and says
nothing else; a name is one word of the text, and none that the language reserves.  What the runtime
checks is what the host checked. -/
theorem hostModule_text {U : IdentTables} (hU : U.Documented) {V : Type} {engine : Engine V}
    {bindings : List ImportBinding} {specifier : String} {exports : List (String × HostModuleNode)} {m : Module V}
    (h : buildHostModule engine U.isValidExportIdentifier bindings specifier exports = .ok m) :
    (∃ values, m = .host values ∧ tokens U.alphabet (hostModuleSource exports).toList =
      values.zipIdx.flatMap fun e => declarationTokens e.1.1 e.2) ∧
    ∀ name ∈ exports.map Prod.fst, U.isValidExportName name = true ∧
      (name = "default" ∨ (Piece.word name.toList).Fits U.alphabet ∧ name ∉ reservedWords) := by
  unfold buildHostModule at h
  split at h
  · cases h
  · next hfind =>
    obtain ⟨values, hvalues, hcompile⟩ := Wire.except_bind h
    have hnames := buildExports_names hvalues
    have hvalid : ∀ name ∈ exports.map Prod.fst, U.isValidExportIdentifier name = true := by
      intro name hname
      obtain ⟨e, he, rfl⟩ := List.mem_map.mp hname
      simpa using List.find?_eq_none.mp hfind e he
    constructor
    · refine ⟨values, ?_, ?_⟩
      · unfold compileSourceModule at hcompile
        split at hcompile
        · cases hcompile
          rfl
        · cases hcompile
      · rw [tokens_source hU hvalid, flatMap_zipIdx_names exports declarationTokens,
          flatMap_zipIdx_names values declarationTokens, hnames]
    · intro name hname
      have hhere := hvalid name hname
      refine ⟨(hU.isValidExportName_eq name).trans hhere, ?_⟩
      by_cases hdefault : name = "default"
      · exact .inl hdefault
      · have hfree : name ∉ reservedExportWords :=
          (((U.isValidExportIdentifier_iff name).mp hhere).resolve_left hdefault).2
        refine .inr ⟨hU.fits_name hhere hdefault, ?_⟩
        rw [mem_reservedWords]
        exact not_or.mpr ⟨hdefault, hfree⟩

/-- Tables that know the ASCII characters, and no more of the others than they must. -/
def asciiTables : IdentTables where
  xidStart c := c.isAlpha
  xidContinue c := c.isAlphanum || c = '_' || xidContinueOnly c
  idStart c := c.isAlpha || idNotXid c || xidContinueOnly c
  idContinue c := c.isAlphanum || c = '_' || xidContinueOnly c || idNotXid c

theorem asciiTables_documented : asciiTables.Documented where
  ascii c hlt := by
    have hother : xidContinueOnly c = false := by
      simp only [xidContinueOnly, List.mem_cons, List.not_mem_nil, or_false, decide_eq_false_iff_not]
      rintro (rfl | rfl | rfl | rfl) <;> exact absurd hlt (by decide)
    simp only [asciiTables, hother, Bool.or_false]
  start c hc := by simp [asciiTables, Char.isAlphanum, show c.isAlpha = true from hc]
  continueOnly c hc := by simp [asciiTables, hc]
  idStart c := rfl
  idContinue c := rfl

/-- V8 where nothing fails, for values that are not looked at. -/
def willingEngine : Engine Unit := ⟨fun _ => some (), fun _ => true, fun _ => true, fun _ _ => none⟩

theorem hostModule_text_sample :
    tokens asciiTables.alphabet (hostModuleSource [("default", .function), ("limit", .data [])]).toList =
      declarationTokens "default" 0 ++ declarationTokens "limit" 1 := by
  have hbuilt : buildHostModule willingEngine asciiTables.isValidExportIdentifier [] "host:math"
      [("default", .function), ("limit", .data [])] =
      .ok (.host [("default", .leaf (.trampoline 0)), ("limit", .leaf (.data ()))]) := by
    rfl
  obtain ⟨⟨values, hvalues, htokens⟩, -⟩ := hostModule_text asciiTables_documented hbuilt
  cases hvalues
  exact htokens

end Imports

end Iso4
