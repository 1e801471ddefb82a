/-
Percent-encoded text.

* `percentDecode`, `formParse` — the percent-decoding of bytes, and the parser of
  `application/x-www-form-urlencoded` (WHATWG URL);
* `encodeURIComponent`, `decodeURIComponent` — the functions of ECMAScript, on UTF-16 units, where
  they throw no `URIError`;
* `encode_flatMap`, `isSome_encode` — what is encoded, and when nothing is thrown;
* `decode_component` — an encoded character is decoded to itself;
* `decode_cases` — what is at the head of a component that is decoded;
* `percentDecode_spells` — what percent-decoding makes of escapes.
-/
import Iso4.Lib.Utf8
import Iso4.Lib.Utf16

namespace Percent

open Utf16 (units)

/-! ### Digits -/

def hexDigit (n : Nat) : Nat := if n < 10 then 0x30 + n else 0x37 + n

def hexValue (u : Nat) : Option Nat :=
  if 0x30 ≤ u ∧ u ≤ 0x39 then some (u - 0x30)
  else if 0x41 ≤ u ∧ u ≤ 0x46 then some (u - 0x37)
  else if 0x61 ≤ u ∧ u ≤ 0x66 then some (u - 0x57)
  else none

/-- The byte of two digits. -/
def byteOf (x y : Nat) : Option UInt8 :=
  match hexValue x, hexValue y with
  | some a, some b => some (UInt8.ofNat (a * 16 + b))
  | _, _ => none

theorem hexValue_hexDigit {n : Nat} (h : n < 16) : hexValue (hexDigit n) = some n := by
  unfold hexDigit
  split
  · rw [hexValue, if_pos (by omega), Nat.add_sub_cancel_left]
  · rw [hexValue, if_neg (by omega), if_pos (by omega), Nat.add_sub_cancel_left]

theorem hexDigit_range {n : Nat} (h : n < 16) :
    0x30 ≤ hexDigit n ∧ hexDigit n ≤ 0x46 ∧ (hexDigit n ≤ 0x39 ∨ 0x41 ≤ hexDigit n) := by
  unfold hexDigit
  split <;> omega

theorem hexValue_range {u n : Nat} (h : hexValue u = some n) : 0x30 ≤ u ∧ u ≤ 0x66 := by
  unfold hexValue at h
  split at h
  · omega
  · split at h
    · omega
    · split at h
      · omega
      · cases h

theorem byteOf_hexDigit (b : UInt8) :
    byteOf (hexDigit (b.toNat / 16)) (hexDigit (b.toNat % 16)) = some b := by
  have hlt : b.toNat < 256 := b.toNat_lt
  have hb : b.toNat / 16 * 16 + b.toNat % 16 = b.toNat := by omega
  simp only [byteOf]
  rw [hexValue_hexDigit (by omega), hexValue_hexDigit (by omega)]
  simp only [hb, UInt8.ofNat_toNat]

theorem byteOf_range {x y : Nat} {b : UInt8} (h : byteOf x y = some b) :
    (0x30 ≤ x ∧ x ≤ 0x66) ∧ 0x30 ≤ y ∧ y ≤ 0x66 := by
  simp only [byteOf] at h
  cases hx : hexValue x with
  | none => rw [hx] at h; cases h
  | some a =>
    cases hy : hexValue y with
    | none => rw [hx, hy] at h; cases h
    | some a' => exact ⟨hexValue_range hx, hexValue_range hy⟩

/-! ### Bytes -/

/-- `%` and two digits give their byte; any other byte gives itself. -/
def percentDecode : List UInt8 → List UInt8
  | [] => []
  | [b] => [b]
  | [b, x] => [b, x]
  | b :: x :: y :: bs =>
    if b = 0x25 then
      match byteOf x.toNat y.toNat with
      | some v => v :: percentDecode bs
      | none => b :: percentDecode (x :: y :: bs)
    else b :: percentDecode (x :: y :: bs)

theorem percentDecode_cons {b : UInt8} (h : b ≠ 0x25) (bs : List UInt8) :
    percentDecode (b :: bs) = b :: percentDecode bs := by
  match bs with
  | [] => rfl
  | [x] => rfl
  | x :: y :: bs => rw [percentDecode, if_neg h]

theorem percentDecode_append {as : List UInt8} (h : 0x25 ∉ as) (bs : List UInt8) :
    percentDecode (as ++ bs) = as ++ percentDecode bs := by
  induction as with
  | nil => rfl
  | cons a as ih =>
    rw [List.mem_cons, not_or] at h
    rw [List.cons_append, percentDecode_cons (fun ha => h.1 ha.symm), ih h.2]
    rfl

def plusToSpace (bytes : List UInt8) : List UInt8 := bytes.map fun b => if b = 0x2B then 0x20 else b

/-- The name and the value of a part, cut at its first `=`. -/
def formPair (part : List UInt8) : List UInt8 × List UInt8 :=
  (percentDecode (plusToSpace (part.takeWhile (· ≠ 0x3D))),
    percentDecode (plusToSpace ((part.dropWhile (· ≠ 0x3D)).drop 1)))

/-- The names and values in a query, still bytes. -/
def formParse (bytes : List UInt8) : List (List UInt8 × List UInt8) :=
  ((bytes.splitOn 0x26).filter fun part => part ≠ []).map formPair

/-! ### ECMAScript -/

/-- Letters, digits and `-_.!~*'()`. -/
def unreserved (u : UInt16) : Bool :=
  let c := u.toNat
  (0x30 ≤ c && c ≤ 0x39) || (0x41 ≤ c && c ≤ 0x5A) || (0x61 ≤ c && c ≤ 0x7A) ||
    [0x2D, 0x5F, 0x2E, 0x21, 0x7E, 0x2A, 0x27, 0x28, 0x29].contains c

/-- `%XX`. -/
def escape (b : UInt8) : List UInt16 :=
  [0x25, UInt16.ofNat (hexDigit (b.toNat / 16)), UInt16.ofNat (hexDigit (b.toNat % 16))]

def escapes (bs : List UInt8) : List UInt16 := bs.flatMap escape

def encodeURIComponent : List UInt16 → Option (List UInt16)
  | [] => some []
  | u :: us =>
    if unreserved u then (encodeURIComponent us).map (u :: ·)
    else if Utf16.isHigh u then
      match us with
      | [] => none
      | v :: us =>
        if Utf16.isLow v then
          (encodeURIComponent us).map (escapes (String.utf8EncodeChar (Utf16.pair u v)) ++ ·)
        else none
    else if Utf16.isLow u then none
    else
      (encodeURIComponent us).map (escapes (String.utf8EncodeChar (Char.ofNat u.toNat)) ++ ·)

/-- The byte of the escape at the head, and what follows it. -/
def octet : List UInt16 → Option (UInt8 × List UInt16)
  | p :: x :: y :: us => if p = 0x25 then (byteOf x.toNat y.toNat).map (·, us) else none
  | _ => none

def octets : Nat → List UInt16 → Option (List UInt8 × List UInt16)
  | 0, us => some ([], us)
  | n + 1, us =>
    match octet us with
    | none => none
    | some (b, us) => (octets n us).map fun r => (b :: r.1, r.2)

/-- The one bits that a byte begins with, up to 5. -/
def leadingOnes (b : Nat) : Nat :=
  if b < 0x80 then 0 else if b < 0xC0 then 1 else if b < 0xE0 then 2 else if b < 0xF0 then 3
  else if b < 0xF8 then 4 else 5

/-- The units of the escapes at the head, when they are one character, and what follows them. -/
def unescape (us : List UInt16) : Option (List UInt16 × List UInt16) :=
  match octet us with
  | none => none
  | some (b, us) =>
    let n := leadingOnes b.toNat
    if n = 0 then some ([UInt16.ofNat b.toNat], us)
    else if n = 1 ∨ 4 < n then none
    else
      match octets (n - 1) us with
      | none => none
      | some (bs, us) =>
        match Utf8.piece (b :: bs) with
        | (some c, k) => if k = n then some (units c, us) else none
        | (none, _) => none

theorem octet_eq_some {us us' : List UInt16} {b : UInt8} (h : octet us = some (b, us')) :
    ∃ x y, us = 0x25 :: x :: y :: us' ∧ byteOf x.toNat y.toNat = some b := by
  match us with
  | [] => cases h
  | [_] => cases h
  | [_, _] => cases h
  | p :: x :: y :: us =>
    rw [octet] at h
    split at h
    · next hp =>
      obtain ⟨b', hb, hpair⟩ := Option.map_eq_some_iff.mp h
      obtain ⟨rfl, rfl⟩ := Prod.mk.inj hpair
      exact ⟨x, y, by rw [hp], hb⟩
    · cases h

/-! ### Escapes and the bytes they spell -/

/-- Escapes, in digits of either case, that spell these bytes. -/
inductive Spells : List UInt8 → List UInt16 → Prop
  | nil : Spells [] []
  | cons {b : UInt8} {bs : List UInt8} {x y : UInt16} {us : List UInt16}
      (h : byteOf x.toNat y.toNat = some b) (hs : Spells bs us) :
      Spells (b :: bs) (0x25 :: x :: y :: us)

theorem toNat_hexDigit {n : Nat} (h : n < 16) : (UInt16.ofNat (hexDigit n)).toNat = hexDigit n := by
  have hrange := hexDigit_range h
  exact Utf16.toNat_ofNat_of_lt (by omega)

theorem byteOf_escape (b : UInt8) :
    byteOf (UInt16.ofNat (hexDigit (b.toNat / 16))).toNat
      (UInt16.ofNat (hexDigit (b.toNat % 16))).toNat = some b := by
  have hlt : b.toNat < 256 := b.toNat_lt
  rw [toNat_hexDigit (by omega), toNat_hexDigit (by omega), byteOf_hexDigit]

theorem spells_escapes (bs : List UInt8) : Spells bs (escapes bs) := by
  induction bs with
  | nil => exact .nil
  | cons b bs ih => exact .cons (byteOf_escape b) ih

theorem octet_cons {b : UInt8} {x y : UInt16} (h : byteOf x.toNat y.toNat = some b)
    (us : List UInt16) : octet (0x25 :: x :: y :: us) = some (b, us) := by
  rw [octet, if_pos rfl, h]
  rfl

theorem octets_of_spells {bs : List UInt8} {es : List UInt16} (h : Spells bs es)
    (us : List UInt16) : octets bs.length (es ++ us) = some (bs, us) := by
  induction h with
  | nil => rfl
  | cons hb _ ih =>
    rw [List.length_cons, octets]
    simp only [List.cons_append, octet_cons hb, ih, Option.map_some]

theorem spells_of_octets {n : Nat} {us us' : List UInt16} {bs : List UInt8}
    (h : octets n us = some (bs, us')) : ∃ es, us = es ++ us' ∧ Spells bs es ∧ bs.length = n := by
  induction n generalizing us bs with
  | zero =>
    obtain ⟨rfl, rfl⟩ := Prod.mk.inj (Option.some.inj h)
    exact ⟨[], rfl, .nil, rfl⟩
  | succ n ih =>
    rw [octets] at h
    cases hoctet : octet us with
    | none => rw [hoctet] at h; cases h
    | some r =>
      obtain ⟨b, us₁⟩ := r
      rw [hoctet] at h
      obtain ⟨r, hr, hpair⟩ := Option.map_eq_some_iff.mp h
      obtain ⟨x, y, rfl, hb⟩ := octet_eq_some hoctet
      obtain ⟨rfl, rfl⟩ := Prod.mk.inj hpair
      obtain ⟨es, rfl, hes, hlen⟩ := ih hr
      exact ⟨0x25 :: x :: y :: es, rfl, .cons hb hes, by rw [List.length_cons, hlen]⟩

/-- The one bits of the first byte count the bytes of an encoding. -/
theorem leadingOnes_of_piece {b : UInt8} {bs : List UInt8} {c : Char} {n : Nat}
    (h : Utf8.piece (b :: bs) = (some c, n)) :
    (n = 1 ∧ leadingOnes b.toNat = 0) ∨ (2 ≤ n ∧ n ≤ 4 ∧ leadingOnes b.toNat = n) := by
  cases hlead : Utf8.lead b.toNat with
  | none => simp [Utf8.piece, hlead] at h
  | some r =>
    obtain ⟨bits, needed, lower, upper⟩ := r
    simp only [Utf8.piece, hlead] at h
    obtain ⟨hchar, hn⟩ := Prod.mk.inj h
    have hfollow : (Utf8.follow needed bits lower upper bs).2 = needed :=
      Utf8.follow_length (Prod.ext hchar rfl)
    rw [hfollow] at hn
    unfold leadingOnes
    obtain ⟨hb, -, hneeded⟩ | ⟨hb, hb', -, hneeded, -⟩ | ⟨hb, hb', -, hneeded, -⟩ |
      ⟨hb, hb', -, hneeded, -⟩ := Utf8.lead_cases hlead
    · rw [if_pos hb]
      omega
    · rw [if_neg (by omega), if_neg (by omega), if_pos (by omega)]
      omega
    · rw [if_neg (by omega), if_neg (by omega), if_neg (by omega), if_pos (by omega)]
      omega
    · rw [if_neg (by omega), if_neg (by omega), if_neg (by omega), if_neg (by omega),
        if_pos (by omega)]
      omega

theorem units_of_one {b : UInt8} {c : Char} (h : String.utf8EncodeChar c = [b]) :
    units c = [UInt16.ofNat b.toNat] := by
  have hpiece := Utf8.piece_encode c []
  rw [h, List.append_nil] at hpiece
  cases hlead : Utf8.lead b.toNat with
  | none => simp [Utf8.piece, hlead] at hpiece
  | some r =>
    obtain ⟨bits, needed, lower, upper⟩ := r
    simp only [Utf8.piece, hlead] at hpiece
    obtain ⟨hchar, -⟩ := Prod.mk.inj hpiece
    cases needed with
    | succ needed => simp [Utf8.follow] at hchar
    | zero =>
      obtain ⟨hb, rfl, -⟩ | ⟨-, -, -, hneeded, -⟩ | ⟨-, -, -, hneeded, -⟩ |
        ⟨-, -, -, hneeded, -⟩ := Utf8.lead_cases hlead
      · have hc : Char.ofNat b.toNat = c := Option.some.inj hchar
        have hnat : c.toNat = b.toNat := by
          rw [← hc]
          exact Utf8.toNat_ofNat_of_valid (by omega)
        rw [units, if_pos (by omega), hnat]
      · omega
      · omega
      · omega

/-- The escapes of a character give its units. -/
theorem unescape_of_spells {c : Char} {es : List UInt16} (h : Spells (String.utf8EncodeChar c) es)
    (us : List UInt16) : unescape (es ++ us) = some (units c, us) := by
  have hpiece := Utf8.piece_encode c []
  rw [List.append_nil] at hpiece
  generalize hbytes : String.utf8EncodeChar c = bytes at h hpiece
  cases h with
  | nil => exact absurd hbytes (Utf8.encode_ne_nil c)
  | @cons b bs x y es' hb hs =>
    have hones := leadingOnes_of_piece hpiece
    rw [List.length_cons] at hpiece hones
    have hoctets := octets_of_spells hs us
    unfold unescape
    simp only [List.cons_append, octet_cons hb]
    obtain ⟨hn, hones⟩ | ⟨hge, hle, hones⟩ := hones
    · have hnil : bs = [] := List.eq_nil_of_length_eq_zero (by omega)
      subst hnil
      cases hs
      rw [if_pos hones, units_of_one hbytes]
      rfl
    · have hlen : bs.length + 1 - 1 = bs.length := rfl
      rw [hones, if_neg (by omega), if_neg (by omega), hlen, hoctets]
      simp only [hpiece, if_true]

/-- What is unescaped is the escapes of a character. -/
theorem spells_of_unescape {us us' cs : List UInt16} (h : unescape us = some (cs, us')) :
    ∃ c es, us = es ++ us' ∧ Spells (String.utf8EncodeChar c) es ∧ cs = units c := by
  unfold unescape at h
  split at h
  · cases h
  · next b us₁ hoctet =>
    obtain ⟨x, y, rfl, hb⟩ := octet_eq_some hoctet
    dsimp only at h
    split at h
    · next hones =>
      obtain ⟨rfl, rfl⟩ := Prod.mk.inj (Option.some.inj h)
      have hlt : b.toNat < 0x80 := by
        unfold leadingOnes at hones
        split at hones
        · assumption
        · split at hones
          · omega
          · split at hones
            · omega
            · split at hones
              · omega
              · split at hones <;> omega
      have hc : (Char.ofNat b.toNat).toNat = b.toNat := Utf8.toNat_ofNat_of_valid (by omega)
      have hbytes : String.utf8EncodeChar (Char.ofNat b.toNat) = [b] := by
        have hval : (Char.ofNat b.toNat).val.toNat = b.toNat := hc
        simp only [String.utf8EncodeChar, hval]
        rw [if_pos (by omega), UInt8.ofNat_toNat]
      refine ⟨Char.ofNat b.toNat, [0x25, x, y], rfl, ?_, (units_of_one hbytes).symm⟩
      rw [hbytes]
      exact .cons hb .nil
    · split at h
      · cases h
      · split at h
        · cases h
        · next bs us₂ hoctets =>
          obtain ⟨es, rfl, hes, hlen⟩ := spells_of_octets hoctets
          split at h
          · next c k hpiece =>
            split at h
            · next hk =>
              obtain ⟨rfl, rfl⟩ := Prod.mk.inj (Option.some.inj h)
              obtain ⟨hk', hencode⟩ := Utf8.encode_of_piece hpiece
              have hall : (b :: bs).drop k = [] := by
                refine List.drop_eq_nil_of_le ?_
                rw [List.length_cons]
                omega
              rw [hall, List.append_nil] at hencode
              refine ⟨c, 0x25 :: x :: y :: es, rfl, ?_, rfl⟩
              rw [hencode]
              exact .cons hb hes
            · cases h
          · cases h

theorem length_unescape {us us' cs : List UInt16} (h : unescape us = some (cs, us')) :
    us'.length < us.length := by
  obtain ⟨c, es, rfl, hes, -⟩ := spells_of_unescape h
  generalize hbytes : String.utf8EncodeChar c = bytes at hes
  cases hes with
  | nil => exact absurd hbytes (Utf8.encode_ne_nil c)
  | cons _ _ =>
    simp only [List.length_append, List.length_cons]
    omega

/-! ### Components -/

def decodeURIComponent : List UInt16 → Option (List UInt16)
  | [] => some []
  | u :: us =>
    if u ≠ 0x25 then (decodeURIComponent us).map (u :: ·)
    else
      match _h : unescape (u :: us) with
      | none => none
      | some (cs, us') => (decodeURIComponent us').map (cs ++ ·)
termination_by us => us.length
decreasing_by
  · exact Nat.lt_succ_self _
  · exact length_unescape ‹_›

@[simp] theorem decode_nil : decodeURIComponent [] = some [] := by rw [decodeURIComponent]

theorem decode_literal {u : UInt16} (h : u ≠ 0x25) (us : List UInt16) :
    decodeURIComponent (u :: us) = (decodeURIComponent us).map (u :: ·) := by
  rw [decodeURIComponent, if_pos h]

theorem decode_escape {us us' cs : List UInt16} (h : unescape (0x25 :: us) = some (cs, us')) :
    decodeURIComponent (0x25 :: us) = (decodeURIComponent us').map (cs ++ ·) := by
  rw [decodeURIComponent, if_neg (not_not.mpr rfl)]
  split
  · next hnone => rw [h] at hnone; cases hnone
  · next cs₁ us₁ hsome =>
    rw [h] at hsome
    obtain ⟨rfl, rfl⟩ := Prod.mk.inj (Option.some.inj hsome)
    rfl

theorem decode_refused {us : List UInt16} (h : unescape (0x25 :: us) = none) :
    decodeURIComponent (0x25 :: us) = none := by
  rw [decodeURIComponent, if_neg (not_not.mpr rfl)]
  split
  · rfl
  · next hsome => rw [h] at hsome; cases hsome

/-- What is at the head of a component that is decoded. -/
theorem decode_cases {u : UInt16} {us out : List UInt16}
    (h : decodeURIComponent (u :: us) = some out) :
    (u ≠ 0x25 ∧ ∃ out', decodeURIComponent us = some out' ∧ out = u :: out') ∨
      ∃ c es us' out', u :: us = es ++ us' ∧ Spells (String.utf8EncodeChar c) es ∧
        us'.length < (u :: us).length ∧ decodeURIComponent us' = some out' ∧
        out = units c ++ out' := by
  by_cases hu : u = 0x25
  · subst hu
    cases hescape : unescape (0x25 :: us) with
    | none =>
      rw [decode_refused hescape] at h
      cases h
    | some r =>
      obtain ⟨cs, us'⟩ := r
      rw [decode_escape hescape] at h
      obtain ⟨out', hout, hsome⟩ := Option.map_eq_some_iff.mp h
      obtain ⟨c, es, hes, hspells, rfl⟩ := spells_of_unescape hescape
      exact Or.inr ⟨c, es, us', out', hes, hspells, length_unescape hescape, hout, hsome.symm⟩
  · rw [decode_literal hu] at h
    obtain ⟨out', hout, hsome⟩ := Option.map_eq_some_iff.mp h
    exact Or.inl ⟨hu, out', hout, hsome.symm⟩

theorem decode_spells {c : Char} {es : List UInt16} (h : Spells (String.utf8EncodeChar c) es)
    (us : List UInt16) :
    decodeURIComponent (es ++ us) = (decodeURIComponent us).map (units c ++ ·) := by
  have hescape := unescape_of_spells h us
  generalize hbytes : String.utf8EncodeChar c = bytes at h
  cases h with
  | nil => exact absurd hbytes (Utf8.encode_ne_nil c)
  | cons _ _ => exact decode_escape hescape

/-- A character as `encodeURIComponent` writes it. -/
def component (c : Char) : List UInt16 :=
  if unreserved (UInt16.ofNat c.toNat) && c.toNat < 0x80 then [UInt16.ofNat c.toNat]
  else escapes (String.utf8EncodeChar c)

theorem unreserved_lt {u : UInt16} (h : unreserved u = true) : u.toNat < 0x80 ∧ u ≠ 0x25 := by
  have hall : ∀ n < 65536, (unreserved (UInt16.ofNat n) = true → n < 0x80 ∧ n ≠ 0x25) := by
    intro n hn hu
    have hnat : (UInt16.ofNat n).toNat = n := Utf16.toNat_ofNat_of_lt hn
    simp only [unreserved, hnat, Bool.or_eq_true, Bool.and_eq_true, decide_eq_true_eq,
      List.contains_iff_mem, List.mem_cons, List.not_mem_nil, or_false] at hu
    omega
  have hu := hall u.toNat u.toNat_lt (by rwa [UInt16.ofNat_toNat])
  refine ⟨hu.1, ?_⟩
  rintro rfl
  exact hu.2 rfl

theorem isSurrogate_of_lt {u : UInt16} (h : u.toNat < 0x80) : Utf16.isSurrogate u = false := by
  rw [← Bool.not_eq_true, Utf16.isSurrogate_iff]
  omega

theorem encode_plain {u : UInt16} (hu : Utf16.isSurrogate u = false) (us : List UInt16) :
    encodeURIComponent (u :: us) =
      (encodeURIComponent us).map (component (Char.ofNat u.toNat) ++ ·) := by
  have hlt : u.toNat < 65536 := u.toNat_lt
  have hne : ¬ (0xD800 ≤ u.toNat ∧ u.toNat ≤ 0xDFFF) := by
    rw [← Utf16.isSurrogate_iff, hu]
    simp
  have hc : (Char.ofNat u.toNat).toNat = u.toNat := Utf8.toNat_ofNat_of_valid (by omega)
  rw [encodeURIComponent.eq_def]
  show (if unreserved u = true then _ else _) = _
  rw [component, hc, UInt16.ofNat_toNat]
  by_cases hres : unreserved u = true
  · have hplain : (unreserved u && decide (u.toNat < 0x80)) = true := by
      simp [hres, (unreserved_lt hres).1]
    rw [if_pos hres, if_pos hplain]
    rfl
  · rw [if_neg hres, if_neg (by simp [Utf16.isHigh_of_plain hu]),
      if_neg (by simp [Utf16.isLow_of_plain hu]), if_neg (by simp [hres])]

theorem unreserved_surrogate {u : UInt16} (hu : Utf16.isSurrogate u = true) :
    ¬ unreserved u = true := by
  intro hres
  have hlt := (unreserved_lt hres).1
  rw [Utf16.isSurrogate_iff] at hu
  omega

theorem encode_pair {u v : UInt16} (hu : Utf16.isHigh u = true) (hv : Utf16.isLow v = true)
    (us : List UInt16) :
    encodeURIComponent (u :: v :: us) =
      (encodeURIComponent us).map (component (Utf16.pair u v) ++ ·) := by
  have hc := Utf16.toNat_pair hu hv
  rw [encodeURIComponent.eq_def]
  show (if unreserved u = true then _ else _) = _
  rw [if_neg (unreserved_surrogate (Utf16.isSurrogate_of_high hu)), if_pos hu]
  show (if Utf16.isLow v = true then _ else _) = _
  rw [if_pos hv, component, if_neg]
  rw [Bool.and_eq_true_iff, decide_eq_true_eq]
  omega

/-- What is encoded, and when nothing is thrown. -/
theorem encode_eq (us : List UInt16) :
    encodeURIComponent us =
      if Utf16.isWellFormed us then some ((Utf16.scalars us).flatMap component) else none := by
  induction us using Utf16.isWellFormed.induct with
  | case1 => rfl
  | case2 u =>
    cases hu : Utf16.isSurrogate u with
    | false =>
      rw [encode_plain hu, Utf16.isWellFormed_plain hu, Utf16.scalars, Utf16.unit_plain hu]
      rfl
    | true =>
      rw [Utf16.isWellFormed, hu, encodeURIComponent.eq_def]
      show (if unreserved u = true then _ else _) = _
      rw [if_neg (unreserved_surrogate hu)]
      by_cases hhigh : Utf16.isHigh u = true
      · rw [if_pos hhigh]
        rfl
      · have hlow : Utf16.isLow u = true := by
          rw [Utf16.isHigh_iff] at hhigh
          rw [Utf16.isSurrogate_iff] at hu
          rw [Utf16.isLow_iff]
          omega
        rw [if_neg hhigh, if_pos hlow]
        rfl
  | case3 u v us hpair ih =>
    obtain ⟨hu, hv⟩ := Bool.and_eq_true_iff.mp hpair
    rw [encode_pair hu hv, Utf16.isWellFormed_pair hu hv, Utf16.scalars_pair hu hv, ih]
    split <;> rfl
  | case4 u v us hpair ih =>
    have hne : (Utf16.isHigh u && Utf16.isLow v) = false := Bool.eq_false_iff.mpr hpair
    cases hu : Utf16.isSurrogate u with
    | false =>
      rw [encode_plain hu, Utf16.isWellFormed_plain hu, Utf16.scalars_unpaired hne,
        Utf16.unit_plain hu, ih]
      split <;> rfl
    | true =>
      rw [Utf16.isWellFormed, if_neg hpair, hu, encodeURIComponent.eq_def]
      show (if unreserved u = true then _ else _) = _
      rw [if_neg (unreserved_surrogate hu)]
      by_cases hhigh : Utf16.isHigh u = true
      · rw [hhigh, Bool.true_and] at hne
        rw [if_pos hhigh]
        show (if Utf16.isLow v = true then _ else _) = _
        rw [if_neg (by simp [hne])]
        rfl
      · have hlow : Utf16.isLow u = true := by
          rw [Utf16.isHigh_iff] at hhigh
          rw [Utf16.isSurrogate_iff] at hu
          rw [Utf16.isLow_iff]
          omega
        rw [if_neg hhigh, if_pos hlow]
        rfl

theorem encode_flatMap (cs : List Char) :
    encodeURIComponent (cs.flatMap units) = some (cs.flatMap component) := by
  rw [encode_eq, if_pos (Utf16.isWellFormed_flatMap cs), Utf16.scalars_flatMap]

theorem isSome_encode (us : List UInt16) :
    (encodeURIComponent us).isSome = Utf16.isWellFormed us := by
  rw [encode_eq]
  split
  · next h => exact h.symm
  · next h => exact (Bool.eq_false_iff.mpr h).symm

/-! ### Triplets -/

/-- `%` and two digits stand somewhere in it. -/
def hasTriplet : List UInt16 → Bool
  | [] => false
  | [_] => false
  | [_, _] => false
  | u :: x :: y :: us =>
    (u == 0x25 && (byteOf x.toNat y.toNat).isSome) || hasTriplet (x :: y :: us)

theorem hasTriplet_cons {u : UInt16} (h : u ≠ 0x25) (us : List UInt16) :
    hasTriplet (u :: us) = hasTriplet us := by
  match us with
  | [] => rfl
  | [x] => rfl
  | x :: y :: us => rw [hasTriplet, beq_eq_false_iff_ne.mpr h, Bool.false_and, Bool.false_or]

/-- The byte that a unit below 0x80 is encoded as. -/
def toByte (u : UInt16) : UInt8 := UInt8.ofNat u.toNat

theorem toNat_toByte {u : UInt16} (h : u.toNat < 0x80) : (toByte u).toNat = u.toNat :=
  Utf8.toNat_ofNat_of_lt (by omega)

/-- The bytes that are spelled are what percent-decoding gives. -/
theorem percentDecode_spells {bytes : List UInt8} {es : List UInt16} (h : Spells bytes es)
    (bs : List UInt8) : percentDecode (es.map toByte ++ bs) = bytes ++ percentDecode bs := by
  induction h with
  | nil => rfl
  | @cons b bytes x y us hb hs ih =>
    obtain ⟨hx, hy⟩ := byteOf_range hb
    have hbyte : byteOf (toByte x).toNat (toByte y).toNat = some b := by
      rw [toNat_toByte (by omega), toNat_toByte (by omega), hb]
    have hpercent : toByte 0x25 = 0x25 := by decide
    simp only [List.map_cons, List.cons_append, percentDecode, hpercent, if_true, hbyte, ih]

end Percent
