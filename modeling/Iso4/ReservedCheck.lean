/-
Reserved addresses: what the check answers on every text.

On the literals of an address the check is a table on its eight words, whatever the form, and on
four octets it is the table of IPv4.  Everything else should be refused.  Two kinds of texts are
not: the spelling of a public address in an unmatched bracket or before an empty zone, and four
parts that are no decimal octets and that `Number` reads as a public address all the same.

* `isReservedIp_literal` — the check of a literal;
* `reserved_check_iff` — the check keeps its contract on a text that is of neither kind;
* `hex_octet_public` — a text of the second kind.
-/
import Iso4.ReservedForms

namespace Iso4

open Text Js

/-! ### Tables -/

/-- The reserved ranges of IPv4, on octets. -/
def reservedAddress4 (a b c : Nat) : Bool :=
  a = 0 || a = 10 || a = 127 || (a = 100 && b &&& 0xc0 == 64) || (a = 169 && b = 254)
    || (a = 172 && 16 ≤ b && b ≤ 31) || (a = 192 && b = 0 && (c = 0 || c = 2))
    || (a = 192 && b = 168) || (a = 198 && (b = 18 || b = 19))
    || (a = 198 && b = 51 && c = 100) || (a = 203 && b = 0 && c = 113) || 224 ≤ a

/-- The address of two words. -/
def reservedPair (hi lo : Nat) : Bool := reservedAddress4 (hi / 256) (hi % 256) (lo / 256)

/-- The IPv4 address an IPv6 address embeds. -/
inductive Embeds : List Nat → Nat → Nat → Prop
  | compatible (hi lo : Nat) : Embeds [0, 0, 0, 0, 0, 0, hi, lo] hi lo
  | mapped (hi lo : Nat) : Embeds [0, 0, 0, 0, 0, 0xffff, hi, lo] hi lo
  | siit (hi lo : Nat) : Embeds [0, 0, 0, 0, 0xffff, 0, hi, lo] hi lo
  | nat64 (hi lo : Nat) : Embeds [0x64, 0xff9b, 0, 0, 0, 0, hi, lo] hi lo
  | sixToFour (hi lo : Nat) (rest : List Nat) : Embeds (0x2002 :: hi :: lo :: rest) hi lo

/-- The reserved ranges of IPv6, on words. -/
def reservedAddress : List Nat → Bool
  | [a, b, c, d, e, f, g, h] =>
    if (a = 0 ∧ b = 0 ∧ c = 0 ∧ d = 0 ∧ e = 0 ∧ (f = 0 ∨ f = 0xffff)) ∨
        (a = 0 ∧ b = 0 ∧ c = 0 ∧ d = 0 ∧ e = 0xffff ∧ f = 0) ∨
        (a = 0x64 ∧ b = 0xff9b ∧ c = 0 ∧ d = 0 ∧ e = 0 ∧ f = 0) then reservedPair g h
    else if a = 0x2002 then reservedPair b c
    else (a = 0x64 && b = 0xff9b && c = 1) || (a = 0x2001 && b = 0) || a &&& 0xffc0 == 0xfe80
      || a &&& 0xffc0 == 0xfec0 || a &&& 0xfe00 == 0xfc00 || a &&& 0xff00 == 0xff00
  | _ => true

/-! ### The contract -/

/-- `node:net`'s `isIPv6`, on what is left once the zone is gone. -/
structure ExactIPv6 (isIPv6 : String → Bool) : Prop where
  oneLine : ∀ text : String, isIPv6 text = true → text.toList.any isLineTerminator = false
  exact : ∀ text : String, '%' ∉ text.toList →
    (isIPv6 text = true ↔ ∃ words, Spells words text.toList)

/-- The text of an IPv4 address of two words. -/
def pairText (hi lo : Nat) : String :=
  String.ofList (quadText (hi / 256) (hi % 256) (lo / 256) (lo % 256))

/-- Four runs of decimal digits of at most 255 each, leading zeros included. -/
def DecimalOctets (text : List Char) : Prop :=
  ∃ a b c d, dottedQuad text = some (a, b, c, d) ∧ a ≤ 255 ∧ b ≤ 255 ∧ c ≤ 255 ∧ d ≤ 255

/-- What is asked of the check on a text. -/
structure WellJudged (isIPv6 : String → Bool) (text : String) : Prop where
  /-- Every form of an address gets the same answer. -/
  same : ∀ (words : List Nat) (other : String), Literal words text.toList →
    Literal words other.toList → isReservedIp isIPv6 text = isReservedIp isIPv6 other
  /-- An embedded address is judged as that one. -/
  embedded : ∀ (words : List Nat) (hi lo : Nat), Literal words text.toList → Embeds words hi lo →
    isReservedIp isIPv6 text = isReservedIp isIPv6 (pairText hi lo)
  /-- The word list has eight words of sixteen bits. -/
  words : ':' ∈ text.toList → isIPv6 (String.ofList (bare text)) = true →
    ∃ words : List Nat, wordList (bare text) = words.map some ∧ words.length = 8 ∧
      ∀ word ∈ words, word < 65536
  /-- What is no address is reserved. -/
  closed : (¬∃ words, Literal words text.toList) → ¬DecimalOctets text.toList →
    isReservedIp isIPv6 text = true

/-- The spelling of a public address, and no literal. -/
def StrayForm (text : String) : Prop :=
  (∃ words, Spells words (bare text) ∧ reservedAddress words = false) ∧
    ¬∃ words, Literal words text.toList

/-- Four numbers of a public address, and no decimal octets. -/
def StrayNumbers (text : String) : Prop :=
  ':' ∉ text.toList ∧ ¬DecimalOctets text.toList ∧
    ∃ a b c d : JsNumber, (dotted text).map number = [a, b, c, d] ∧
      (∀ p ∈ [a, b, c, d], outOfByte p = false) ∧ reservedOctets a b c = false

/-! ### Octets -/

theorem outOfByte_is {x : JsNumber} {n : Nat} (h : x.Is n) (hn : n < 256) : outOfByte x = false := by
  unfold outOfByte
  rw [h.isNaN, h.lt, h.gt]
  simp
  omega

theorem reservedOctets_is {x y z : JsNumber} {a b c : Nat} (ha : x.Is a) (hb : y.Is b) (hc : z.Is c)
    (hlt : b < 256) : reservedOctets x y z = reservedAddress4 a b c := by
  unfold reservedOctets reservedAddress4
  simp only [ha.eq, hb.eq, hc.eq, hb.ge, hb.le, ha.ge, hb.toInt32 (by omega)]

theorem isReservedV4_quad {a b c d : Nat} (ha : a < 256) (hb : b < 256) (hc : c < 256)
    (hd : d < 256) :
    isReservedV4 (String.ofList (quadText a b c d)) = reservedAddress4 a b c := by
  have hparts : (dotted (String.ofList (quadText a b c d))).map number =
      [number (Nat.repr a).toList, number (Nat.repr b).toList, number (Nat.repr c).toList,
        number (Nat.repr d).toList] := by
    unfold dotted
    rw [String.toList_ofList, splitOn_quadText]
    rfl
  unfold isReservedV4
  rw [hparts]
  simp only [List.any_cons, List.any_nil, outOfByte_is (number_repr ha) ha,
    outOfByte_is (number_repr hb) hb, outOfByte_is (number_repr hc) hc,
    outOfByte_is (number_repr hd) hd, Bool.false_or]
  exact reservedOctets_is (number_repr ha) (number_repr hb) (number_repr hc) hb

theorem v4_eq (hi lo : Nat) : v4 hi lo = pairText hi lo := by
  unfold v4 pairText
  have hmask : ∀ n : Nat, n &&& 0xff = n % 256 := fun n => Nat.and_two_pow_sub_one_eq_mod n 8
  rw [Nat.shiftRight_eq_div_pow, Nat.shiftRight_eq_div_pow, hmask, hmask]

theorem isReservedV4_v4 {hi lo : Nat} (hhi : hi < 65536) (hlo : lo < 65536) :
    isReservedV4 (v4 hi lo) = reservedPair hi lo := by
  rw [v4_eq]
  exact isReservedV4_quad (by omega) (by omega) (by omega) (by omega)

/-- A dotted quad is judged without a colon: so is the address the words embed. -/
theorem isReservedIp_quad (isIPv6 : String → Bool) (a b c d : Nat) :
    isReservedIp isIPv6 (String.ofList (quadText a b c d)) =
      isReservedV4 (String.ofList (quadText a b c d)) := by
  unfold isReservedIp
  rw [if_neg]
  rw [String.toList_ofList, List.contains_iff_mem]
  intro hmem
  rcases mem_quadText hmem with h | h
  · exact absurd h (by decide)
  · exact absurd h (by decide)

/-! ### Literals -/

/-- The code's table on the words of an address. -/
theorem reservedWords_eq {words : List Nat} (hlen : words.length = 8)
    (hlt : ∀ word ∈ words, word < 65536) :
    reservedWords (words.map some) = reservedAddress words := by
  match words, hlen with
  | [a, b, c, d, e, f, g, h], _ =>
    have hgh : isReservedV4 (v4 g h) = reservedPair g h :=
      isReservedV4_v4 (hlt g (by simp)) (hlt h (by simp))
    have hbc : isReservedV4 (v4 b c) = reservedPair b c :=
      isReservedV4_v4 (hlt b (by simp)) (hlt c (by simp))
    unfold reservedWords reservedAddress
    simp only [List.map_cons, List.map_nil, List.getElem?_cons_zero, List.getElem?_cons_succ,
      Option.join_some, Option.getD_some, hgh, hbc, Option.some_beq_some, Bool.and_eq_true,
      Bool.or_eq_true, beq_iff_eq, and_assoc]
    -- The three prefixes of 96 bits, and the one of 16.
    by_cases hlow : a = 0 ∧ b = 0 ∧ c = 0 ∧ d = 0 ∧ e = 0 ∧ (f = 0 ∨ f = 0xffff)
    · obtain ⟨rfl, rfl, rfl, rfl, rfl, hf⟩ := hlow
      simp [hf]
    · by_cases hsiit : a = 0 ∧ b = 0 ∧ c = 0 ∧ d = 0 ∧ e = 0xffff ∧ f = 0
      · obtain ⟨rfl, rfl, rfl, rfl, rfl, rfl⟩ := hsiit
        simp
      · by_cases hnat : a = 0x64 ∧ b = 0xff9b ∧ c = 0 ∧ d = 0 ∧ e = 0 ∧ f = 0
        · obtain ⟨rfl, rfl, rfl, rfl, rfl, rfl⟩ := hnat
          simp
        · have hnone := not_or.mpr ⟨hlow, not_or.mpr ⟨hsiit, hnat⟩⟩
          rw [if_neg hlow, if_neg hsiit, if_neg hnat, if_neg hnone]
          rfl

theorem Literal.colon {words : List Nat} {text : List Char} (h : Literal words text) :
    ':' ∈ text := by
  obtain ⟨address, zone, hspells, -, htext⟩ := h
  rcases htext with rfl | rfl <;> simp [hspells.colon]

/-- A text that spells an address is judged by its words. -/
theorem isReservedIp_spells {isIPv6 : String → Bool} (hexact : ExactIPv6 isIPv6)
    {words : List Nat} {text : String} (hcolon : ':' ∈ text.toList)
    (hspells : Spells words (bare text)) : isReservedIp isIPv6 text = reservedAddress words := by
  have hpercent : '%' ∉ bare text := fun hmem =>
    (hspells.addressChar _ hmem).ne (.inr (.inr rfl)) rfl
  have haccept : isIPv6 (String.ofList (bare text)) = true := by
    rw [hexact.exact _ (by rwa [String.toList_ofList]), String.toList_ofList]
    exact ⟨words, hspells⟩
  unfold isReservedIp
  rw [if_pos (List.contains_iff_mem.mpr hcolon)]
  simp only [haccept, Bool.not_true, Bool.false_eq_true, if_false]
  rw [wordList_spells hspells, reservedWords_eq hspells.words.1 hspells.words.2]

/-- **On a literal the check is the table of the address.** -/
theorem isReservedIp_literal {isIPv6 : String → Bool} (hexact : ExactIPv6 isIPv6)
    {words : List Nat} {text : String} (h : Literal words text.toList) :
    isReservedIp isIPv6 text = reservedAddress words :=
  isReservedIp_spells hexact h.colon h.bare

theorem reservedAddress_embeds {words : List Nat} {hi lo : Nat} (h : Embeds words hi lo)
    (hlen : words.length = 8) : reservedAddress words = reservedPair hi lo := by
  cases h with
  | compatible => simp [reservedAddress]
  | mapped => simp [reservedAddress]
  | siit => simp [reservedAddress]
  | nat64 => simp [reservedAddress]
  | sixToFour hi lo rest =>
    match rest, hlen with
    | [d, e, f, g, h], _ => simp [reservedAddress]

/-! ### Other texts -/

theorem stripZone_any (text : List Char) :
    (stripZone text).any isLineTerminator = text.any isLineTerminator := by
  induction text with
  | nil => rfl
  | cons c rest ih =>
    rw [stripZone]
    split
    · next hcut =>
      simp only [Bool.and_eq_true, beq_iff_eq, Bool.not_eq_true'] at hcut
      rw [List.any_cons, hcut.1, hcut.2]
      rfl
    · rw [List.any_cons, List.any_cons, ih]

theorem stripZone_percent {text : List Char} (h : '%' ∈ stripZone text) :
    (stripZone text).any isLineTerminator = true := by
  induction text with
  | nil => exact absurd h List.not_mem_nil
  | cons c rest ih =>
    rw [stripZone] at h ⊢
    split at h
    · exact absurd h List.not_mem_nil
    · next hkeep =>
      rw [if_neg hkeep, List.any_cons]
      rcases List.mem_cons.mp h with rfl | hrest
      · -- A sign that is kept has a line terminator behind it.
        have hbehind : rest.any isLineTerminator = true := by simpa using hkeep
        rw [stripZone_any, hbehind, Bool.or_true]
      · rw [ih hrest, Bool.or_true]

/-- What `isIPv6` accepts spells eight words. -/
theorem ExactIPv6.spells {isIPv6 : String → Bool} (hexact : ExactIPv6 isIPv6) {text : String}
    (h : isIPv6 (String.ofList (bare text)) = true) : ∃ words, Spells words (bare text) := by
  have hline := hexact.oneLine _ h
  rw [String.toList_ofList] at hline
  have hpercent : '%' ∉ bare text := by
    intro hmem
    have hany := stripZone_percent hmem
    rw [show stripZone _ = bare text from rfl, hline] at hany
    cases hany
  rw [hexact.exact _ (by rwa [String.toList_ofList]), String.toList_ofList] at h
  exact h

theorem isReservedV4_eq_false {text : String} :
    isReservedV4 text = false ↔ ∃ a b c d : JsNumber, (dotted text).map number = [a, b, c, d] ∧
      (∀ p ∈ [a, b, c, d], outOfByte p = false) ∧ reservedOctets a b c = false := by
  unfold isReservedV4
  split
  · next a b c d heq =>
    rw [heq, Bool.or_eq_false_iff, List.any_eq_false]
    simp only [Bool.not_eq_true]
    constructor
    · rintro ⟨hbytes, hrange⟩
      exact ⟨a, b, c, d, rfl, hbytes, hrange⟩
    · rintro ⟨_, _, _, _, heq', hbytes, hrange⟩
      cases heq'
      exact ⟨hbytes, hrange⟩
  · next hother =>
    constructor
    · intro h
      cases h
    · rintro ⟨a, b, c, d, heq, -⟩
      exact absurd heq (hother a b c d)

/-! ### When the contract is kept -/

theorem isReservedIp_no_colon {isIPv6 : String → Bool} {text : String} (h : ':' ∉ text.toList) :
    isReservedIp isIPv6 text = isReservedV4 text := by
  unfold isReservedIp
  rw [if_neg (mt List.contains_iff_mem.mp h)]

/-- A public answer on a text with a colon comes of a public address. -/
theorem spells_of_public {isIPv6 : String → Bool} (hexact : ExactIPv6 isIPv6) {text : String}
    (hcolon : ':' ∈ text.toList) (h : isReservedIp isIPv6 text = false) :
    ∃ words, Spells words (bare text) ∧ reservedAddress words = false := by
  unfold isReservedIp at h
  rw [if_pos (List.contains_iff_mem.mpr hcolon)] at h
  dsimp only at h
  split at h
  · cases h
  · next haccept =>
    obtain ⟨words, hspells⟩ := hexact.spells (by simpa using haccept)
    rw [wordList_spells hspells, reservedWords_eq hspells.words.1 hspells.words.2] at h
    exact ⟨words, hspells, h⟩

theorem mem_of_mem_stripZone {c : Char} {text : List Char} (h : c ∈ stripZone text) : c ∈ text := by
  induction text with
  | nil => exact h
  | cons d rest ih =>
    rw [stripZone] at h
    split at h
    · exact absurd h List.not_mem_nil
    · rcases List.mem_cons.mp h with rfl | hrest
      · exact List.mem_cons_self ..
      · exact List.mem_cons_of_mem d (ih hrest)

theorem mem_of_mem_unbracket {c : Char} {text : String} (h : c ∈ (unbracket text).toList) :
    c ∈ text.toList := by
  unfold unbracket at h
  dsimp only at h
  rw [String.toList_ofList] at h
  generalize hinner : (if startsWith text "[" = true then text.toList.drop 1 else text.toList) =
    inner at h
  have hmem : c ∈ inner := by
    split at h
    · exact (List.dropLast_sublist inner).mem h
    · exact h
  rw [← hinner] at hmem
  split at hmem
  · exact List.mem_of_mem_drop hmem
  · exact hmem

theorem colon_of_bare {text : String} (h : ':' ∈ bare text) : ':' ∈ text.toList := by
  have hlower := mem_of_mem_unbracket (mem_of_mem_stripZone h)
  rw [toLowerCase, String.toList_ofList] at hlower
  obtain ⟨c, hc, heq⟩ := List.mem_map.mp hlower
  rwa [(toLower_eq_iff (by decide)).mp heq] at hc

theorem not_decimalOctets {text : List Char} (h : ':' ∈ text) : ¬DecimalOctets text := by
  rintro ⟨a, b, c, d, hquad, -⟩
  rw [dottedQuad_colon h] at hquad
  cases hquad

/-- **The check keeps its contract on a text that neither spells a public address without being a
literal nor reads as four numbers of one without being decimal octets, and on no other.** -/
theorem reserved_check_iff (isIPv6 : String → Bool) (hexact : ExactIPv6 isIPv6) (text : String) :
    WellJudged isIPv6 text ↔ ¬StrayForm text ∧ ¬StrayNumbers text := by
  constructor
  · intro hjudged
    refine ⟨?_, ?_⟩
    · rintro ⟨⟨words, hspells, hpublic⟩, hliteral⟩
      have hcolon := colon_of_bare hspells.colon
      have hclosed := hjudged.closed hliteral (not_decimalOctets hcolon)
      rw [isReservedIp_spells hexact hcolon hspells, hpublic] at hclosed
      cases hclosed
    · rintro ⟨hcolon, hoctets, hnumbers⟩
      have hliteral : ¬∃ words, Literal words text.toList := fun ⟨_, h⟩ => hcolon h.colon
      have hclosed := hjudged.closed hliteral hoctets
      rw [isReservedIp_no_colon hcolon, isReservedV4_eq_false.mpr hnumbers] at hclosed
      cases hclosed
  · rintro ⟨hform, hnumbers⟩
    refine ⟨fun words other h hother => ?_, fun words hi lo h hembeds => ?_, fun _ haccept => ?_,
      fun hliteral hoctets => ?_⟩
    · rw [isReservedIp_literal hexact h, isReservedIp_literal hexact hother]
    · obtain ⟨hlen, hlt⟩ := h.bare.words
      have hpair : hi < 65536 ∧ lo < 65536 := by
        cases hembeds <;> exact ⟨hlt _ (by simp), hlt _ (by simp)⟩
      rw [isReservedIp_literal hexact h, reservedAddress_embeds hembeds hlen, ← v4_eq,
        ← isReservedV4_v4 hpair.1 hpair.2, v4_eq]
      exact (isReservedIp_quad isIPv6 _ _ _ _).symm
    · obtain ⟨words, hspells⟩ := hexact.spells haccept
      exact ⟨words, wordList_spells hspells, hspells.words⟩
    · -- A public answer needs a stray text of one kind or the other.
      by_contra hpublic
      rw [Bool.not_eq_true] at hpublic
      by_cases hcolon : ':' ∈ text.toList
      · exact hform ⟨spells_of_public hexact hcolon hpublic, hliteral⟩
      · rw [isReservedIp_no_colon hcolon, isReservedV4_eq_false] at hpublic
        exact hnumbers ⟨hcolon, hoctets, hpublic⟩

/-! ### An exact `isIPv6` -/

open Classical in
/-- The texts of eight words. -/
noncomputable def spelledIPv6 (text : String) : Bool :=
  decide (∃ words, Spells words text.toList)

theorem spelledIPv6_iff (text : String) :
    spelledIPv6 text = true ↔ ∃ words, Spells words text.toList := by
  classical exact decide_eq_true_iff

theorem spelledIPv6_exact : ExactIPv6 spelledIPv6 where
  oneLine text h := by
    obtain ⟨words, hspells⟩ := (spelledIPv6_iff text).mp h
    rw [List.any_eq_false]
    intro c hc
    rw [(hspells.addressChar c hc).oneLine]
    decide
  exact text _ := spelledIPv6_iff text

/-- A plain address: the contract is kept. -/
theorem reserved_check_plain : WellJudged spelledIPv6 "8.8.8.8" := by
  refine (reserved_check_iff spelledIPv6 spelledIPv6_exact "8.8.8.8").mpr ⟨?_, ?_⟩
  · rintro ⟨⟨words, hspells, -⟩, -⟩
    exact absurd (colon_of_bare hspells.colon) (by decide)
  · rintro ⟨-, hoctets, -⟩
    exact hoctets ⟨8, 8, 8, 8, by decide +kernel, by decide, by decide, by decide, by decide⟩

/-- A part in hex is read by `Number`: the text is no address and passes as `8.8.8.8`. -/
theorem hex_octet_public :
    ExactIPv6 spelledIPv6 ∧ ¬WellJudged spelledIPv6 "0x8.8.8.8" := by
  refine ⟨spelledIPv6_exact, fun hjudged => ?_⟩
  have hcolon : ':' ∉ "0x8.8.8.8".toList := by decide
  have hpublic : isReservedV4 "0x8.8.8.8" = false := by decide +kernel
  have hquad : dottedQuad "0x8.8.8.8".toList = none := by decide +kernel
  have hclosed := hjudged.closed (fun ⟨_, h⟩ => hcolon h.colon) (by
    rintro ⟨a, b, c, d, h, -⟩
    rw [hquad] at h
    cases h)
  rw [isReservedIp_no_colon hcolon, hpublic] at hclosed
  cases hclosed

end Iso4
